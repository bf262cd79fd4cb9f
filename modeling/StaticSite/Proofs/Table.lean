import Mathlib.Data.List.Basic
import StaticSite.Table

/-!
# Tables of pairs

The table of a list of pairs is known without its making: its names are those of the list in the
order in which they first come, and each has the value that the list gives it last.
-/

namespace StaticSite.Table

variable {α : Type}

/-- What a list of pairs gives a name last. -/
def lastValue? (es : List (Text × α)) (name : Text) : Option α :=
  ((es.filter fun e => e.1 = name).getLast?).map (·.2)

theorem lastValue?_concat (es : List (Text × α)) (e : Text × α) (name : Text) :
    lastValue? (es ++ [e]) name = if e.1 = name then some e.2 else lastValue? es name := by
  unfold lastValue?
  rw [List.filter_append, List.getLast?_append]
  by_cases h : e.1 = name <;> simp [h]

/-- The table holds the pairs as an ordered mapping: each name at its first place, with its last
value. -/
structure IsMapping (t : Table α) (es : List (Text × α)) : Prop where
  names_eq : t.names = (es.map (·.1)).eraseDups
  get?_eq : ∀ name, t.get? name = lastValue? es name

theorem names_set (t : Table α) (name : Text) (value : α) :
    (t.set name value).names = if name ∈ t.names then t.names else t.names ++ [name] :=
  map_fst_setEntry name value t.entries

variable {t : Table α} {es : List (Text × α)}

theorem IsMapping.set (h : t.IsMapping es) (e : Text × α) :
    (t.set e.1 e.2).IsMapping (es ++ [e]) where
  names_eq := by
    have hmem : e.1 ∈ (es.map (·.1)).eraseDups ↔ e.1 ∈ es.map (·.1) := List.mem_eraseDups
    rw [names_set, h.names_eq, List.map_append, List.eraseDups_append]
    by_cases hname : e.1 ∈ es.map (·.1)
    · rw [if_pos (hmem.mpr hname)]
      simp [List.cons_removeAll, hname]
    · rw [if_neg (mt hmem.mp hname)]
      simp [List.cons_removeAll, List.eraseDups_cons, hname]
  get?_eq name := by rw [get?_set, lastValue?_concat, h.get?_eq]

theorem isMapping_empty : (empty : Table α).IsMapping [] := ⟨rfl, fun _ => rfl⟩

theorem IsMapping.foldl_set (h : t.IsMapping es) (fs : List (Text × α)) :
    (fs.foldl (fun t e => t.set e.1 e.2) t).IsMapping (es ++ fs) := by
  induction fs generalizing t es with
  | nil => rwa [List.append_nil]
  | cons e fs ih =>
      have hrest := ih (h.set e)
      rwa [List.append_assoc] at hrest

theorem entries_eq (t : Table α) :
    t.entries = t.names.filterMap fun name => (t.get? name).map fun value => (name, value) := by
  have hsome : ∀ e ∈ t.entries, (t.get? e.1).map (fun value => (e.1, value)) = some e := by
    intro e he
    rw [get?_of_mem he]
    rfl
  rw [names, List.filterMap_map]
  calc
    t.entries = t.entries.filterMap some := List.filterMap_some.symm
    _ = _ := List.filterMap_congr fun e he => (hsome e he).symm

/-- The ordered mapping of a list of pairs is one table. -/
theorem IsMapping.unique {u : Table α} (h : t.IsMapping es) (h' : u.IsMapping es) : t = u := by
  have hget : t.get? = u.get? := funext fun name => (h.get?_eq name).trans (h'.get?_eq name).symm
  apply ext_entries
  rw [t.entries_eq, u.entries_eq, h.names_eq, h'.names_eq, hget]

theorem isMapping_ofList (es : List (Text × α)) : (ofList es).IsMapping es :=
  isMapping_empty.foldl_set es

end StaticSite.Table
