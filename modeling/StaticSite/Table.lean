import StaticSite.Text.Basic

/-!
# Tables

A table gives values to distinct names and keeps the order in which the names first came. Setting
a name again changes its value and not its place.
-/

namespace StaticSite

structure Table (α : Type) where
  entries : List (Text × α)
  distinct : (entries.map (·.1)).Nodup

namespace Table

variable {α : Type}

theorem ext_entries {t u : Table α} (h : t.entries = u.entries) : t = u := by
  cases t
  cases u
  cases h
  rfl

/-- Entries with the value of `name` set: in place when the name is there, at the end if not. -/
def setEntry (name : Text) (value : α) : List (Text × α) → List (Text × α)
  | [] => [(name, value)]
  | e :: es => if e.1 = name then (name, value) :: es else e :: setEntry name value es

theorem map_fst_setEntry (name : Text) (value : α) (es : List (Text × α)) :
    (setEntry name value es).map (·.1) =
      if name ∈ es.map (·.1) then es.map (·.1) else es.map (·.1) ++ [name] := by
  induction es with
  | nil => simp [setEntry]
  | cons e es ih =>
      by_cases h : e.1 = name
      · simp [setEntry, h]
      · by_cases hm : name ∈ es.map (·.1)
        · simp_all [setEntry, Ne.symm h]
        · simp_all [setEntry, Ne.symm h]

theorem nodup_setEntry {name : Text} {value : α} {es : List (Text × α)}
    (h : (es.map (·.1)).Nodup) : ((setEntry name value es).map (·.1)).Nodup := by
  rw [map_fst_setEntry]
  split
  · exact h
  · rename_i hm
    refine List.nodup_append.mpr ⟨h, by simp, ?_⟩
    intro a ha b hb
    rw [List.mem_singleton] at hb
    subst hb
    exact fun hab => hm (hab ▸ ha)

def empty : Table α := ⟨[], List.nodup_nil⟩

def set (t : Table α) (name : Text) (value : α) : Table α :=
  ⟨setEntry name value t.entries, nodup_setEntry t.distinct⟩

/-- The table of a list of pairs, read from the left: a repeated name keeps its first place and
takes its last value. -/
def ofList (es : List (Text × α)) : Table α := es.foldl (fun t e => t.set e.1 e.2) empty

def get? (t : Table α) (name : Text) : Option α :=
  (t.entries.find? (·.1 = name)).map (·.2)

def names (t : Table α) : List Text := t.entries.map (·.1)

def contains (t : Table α) (name : Text) : Bool := (t.get? name).isSome

def isEmpty (t : Table α) : Bool := t.entries.isEmpty

def without (t : Table α) (names : List Text) : Table α :=
  ⟨t.entries.filter fun e => !names.contains e.1,
    ((List.filter_sublist).map _).nodup t.distinct⟩

@[simp] theorem entries_empty : (empty : Table α).entries = [] := rfl

@[simp] theorem entries_set (t : Table α) (name : Text) (value : α) :
    (t.set name value).entries = setEntry name value t.entries := rfl

theorem get?_set (t : Table α) (name : Text) (value : α) (other : Text) :
    (t.set name value).get? other = if name = other then some value else t.get? other := by
  obtain ⟨es, hd⟩ := t
  simp only [get?, entries_set]
  clear hd
  induction es with
  | nil => by_cases h : name = other <;> simp [setEntry, h]
  | cons e es ih =>
      by_cases he : e.1 = name
      · by_cases h : name = other <;> simp_all [setEntry]
      · rw [setEntry, if_neg he]
        by_cases ho : e.1 = other
        · have : name ≠ other := fun h => he (ho.trans h.symm)
          simp [ho, this]
        · simp [ho, ih]

theorem mem_of_get?_eq_some {t : Table α} {name : Text} {value : α}
    (h : t.get? name = some value) : (name, value) ∈ t.entries := by
  obtain ⟨e, he, rfl⟩ := Option.map_eq_some_iff.mp h
  have hname : e.1 = name := by simpa using List.find?_some he
  rw [← hname]
  exact List.mem_of_find?_eq_some he

theorem get?_of_mem {t : Table α} {e : Text × α} (h : e ∈ t.entries) : t.get? e.1 = some e.2 := by
  obtain ⟨es, hd⟩ := t
  simp only [get?] at h ⊢
  induction es with
  | nil => cases h
  | cons a es ih =>
      obtain ⟨hnew, hd⟩ := List.nodup_cons.mp hd
      rcases List.mem_cons.mp h with rfl | h
      · simp
      · have hne : a.1 ≠ e.1 := fun heq => hnew (List.mem_map.mpr ⟨e, h, heq.symm⟩)
        simpa [hne] using ih hd h

theorem mem_setEntry {name : Text} {value : α} {e : Text × α} {es : List (Text × α)}
    (h : e ∈ setEntry name value es) : e = (name, value) ∨ e ∈ es := by
  induction es with
  | nil => simpa [setEntry] using h
  | cons a es ih =>
      by_cases ha : a.1 = name
      · rw [setEntry, if_pos ha] at h
        rcases List.mem_cons.mp h with h | h
        · exact .inl h
        · exact .inr (List.mem_cons_of_mem a h)
      · rw [setEntry, if_neg ha] at h
        rcases List.mem_cons.mp h with rfl | h
        · exact .inr (List.mem_cons_self ..)
        · exact (ih h).imp_right (List.mem_cons_of_mem a)

theorem mem_foldl_set {e : Text × α} {es : List (Text × α)} {t : Table α}
    (h : e ∈ (es.foldl (fun t e => t.set e.1 e.2) t).entries) : e ∈ t.entries ∨ e ∈ es := by
  induction es generalizing t with
  | nil => exact .inl h
  | cons a es ih =>
      rcases ih h with h | h
      · rcases mem_setEntry h with rfl | h
        · exact .inr (List.mem_cons_self ..)
        · exact .inl h
      · exact .inr (List.mem_cons_of_mem a h)

theorem mem_of_mem_ofList {e : Text × α} {es : List (Text × α)} (h : e ∈ (ofList es).entries) :
    e ∈ es := by
  rcases mem_foldl_set h with h | h
  · simp at h
  · exact h

theorem isSome_get?_foldl_set {name : Text} {es : List (Text × α)} {t : Table α}
    (h : (t.get? name).isSome ∨ ∃ e ∈ es, e.1 = name) :
    ((es.foldl (fun t e => t.set e.1 e.2) t).get? name).isSome := by
  induction es generalizing t with
  | nil => simpa using h
  | cons a es ih =>
      apply ih
      rw [get?_set]
      by_cases ha : a.1 = name
      · simp [ha]
      · simpa [ha] using h

/-- Every name of a list of pairs has a value in the table of the list. -/
theorem isSome_get?_ofList {name : Text} {es : List (Text × α)} (h : ∃ e ∈ es, e.1 = name) :
    ((ofList es).get? name).isSome :=
  isSome_get?_foldl_set (.inr h)

end Table

end StaticSite
