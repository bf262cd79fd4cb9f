import StaticSite.Proofs.Files.Put

/-!
# Descendants and places

In a tree whose folders name each entry once, what is listed below a folder is what the places
lead to.
-/

namespace StaticSite.Node

variable {α : Type} {entries : List (Text × Node α)} {d : List Text × Node α}

theorem entry?_of_mem (h : entries.Pairwise Before) {e : Text × Node α} (he : e ∈ entries) :
    entry? e.1 entries = some e.2 := by
  induction entries with
  | nil => cases he
  | cons first entries ih =>
      obtain ⟨hfirst, hentries⟩ := List.pairwise_cons.mp h
      rw [entry?_cons]
      rcases List.mem_cons.mp he with rfl | he
      · exact if_pos rfl
      · rw [if_neg (hfirst e he).2, ih hentries he]

theorem mem_of_entry_eq_some {name : Text} {n : Node α} (h : entry? name entries = some n) :
    (name, n) ∈ entries := by
  obtain ⟨e, he, rfl⟩ := Option.map_eq_some_iff.mp h
  have hname : e.1 = name := by simpa using List.find?_some he
  rw [← hname]
  exact List.mem_of_find?_eq_some he

theorem entry?_eq_some_iff (h : entries.Pairwise Before) {name : Text} {n : Node α} :
    entry? name entries = some n ↔ (name, n) ∈ entries :=
  ⟨mem_of_entry_eq_some, fun he => entry?_of_mem h he⟩

theorem exists_of_mem_entryDescendants (hd : d ∈ entryDescendants entries) :
    ∃ e ∈ entries, d = ([e.1], e.2) ∨ ∃ deep ∈ e.2.descendants, d = (e.1 :: deep.1, deep.2) := by
  induction entries with
  | nil => cases hd
  | cons e entries ih =>
      obtain ⟨name, n⟩ := e
      rw [entryDescendants, List.cons_append, List.mem_cons, List.mem_append, List.mem_map] at hd
      rcases hd with hd | ⟨deep, hdeep, hd⟩ | hd
      · exact ⟨_, List.mem_cons_self, .inl hd⟩
      · exact ⟨_, List.mem_cons_self, .inr ⟨deep, hdeep, hd.symm⟩⟩
      · obtain ⟨e, he, hcase⟩ := ih hd
        exact ⟨e, List.mem_cons_of_mem _ he, hcase⟩

theorem exists_cons_of_mem_entryDescendants (hd : d ∈ entryDescendants entries) :
    ∃ e ∈ entries, ∃ rest, d.1 = e.1 :: rest := by
  obtain ⟨e, he, rfl | ⟨deep, -, rfl⟩⟩ := exists_of_mem_entryDescendants hd
  · exact ⟨e, he, [], rfl⟩
  · exact ⟨e, he, deep.1, rfl⟩

theorem ne_nil_of_mem_descendants {n : Node α} (hd : d ∈ n.descendants) : d.1 ≠ [] := by
  cases n with
  | file content => cases hd
  | folder entries =>
      obtain ⟨e, -, rest, hrest⟩ := exists_cons_of_mem_entryDescendants hd
      rw [hrest]
      exact List.cons_ne_nil _ _

/-- A node is listed below a folder under the place at which it is found there. -/
theorem get?_of_mem_descendants {n : Node α} (h : n.Ordered) (hd : d ∈ n.descendants) :
    d.1 ≠ [] ∧ n.get? d.1 = some d.2 := by
  obtain ⟨place, m⟩ := d
  induction place generalizing n with
  | nil =>
      cases n with
      | file content => cases hd
      | folder entries =>
          obtain ⟨e, -, hd | ⟨deep, -, hd⟩⟩ := exists_of_mem_entryDescendants hd <;> cases hd
  | cons name place ih =>
      refine ⟨List.cons_ne_nil name place, ?_⟩
      cases n with
      | file content => cases hd
      | folder entries =>
          have hentries := h [] entries rfl
          obtain ⟨e, he, hd⟩ := exists_of_mem_entryDescendants hd
          have hentry := entry?_of_mem hentries he
          rcases hd with hd | ⟨deep, hdeep, hd⟩
          · cases hd
            rw [get?_folder_cons, hentry]
            rfl
          · obtain ⟨below, k⟩ := deep
            cases hd
            have he2 := (ordered_folder_iff hentries).mp h e.1 e.2 hentry
            rw [get?_folder_cons, hentry]
            exact (ih he2 hdeep).2

/-! Each node is listed once. -/

mutual

theorem nodup_descendants : (n : Node α) → n.Ordered → (n.descendants.map Prod.fst).Nodup
  | .file _, _ => .nil
  | .folder entries, h => by
      have hentries := h [] entries rfl
      rw [descendants]
      refine nodup_entryDescendants entries hentries fun e he => ?_
      exact (ordered_folder_iff hentries).mp h e.1 e.2 (entry?_of_mem hentries he)

theorem nodup_entryDescendants : (entries : List (Text × Node α)) → entries.Pairwise Before →
    (∀ e ∈ entries, e.2.Ordered) → ((entryDescendants entries).map Prod.fst).Nodup
  | [], _, _ => .nil
  | (name, n) :: es, h, hordered => by
      obtain ⟨hfirst, hes⟩ := List.pairwise_cons.mp h
      have hbelow := nodup_descendants n (hordered _ List.mem_cons_self)
      have hrest := nodup_entryDescendants es hes fun e he => hordered e (List.mem_cons_of_mem _ he)
      -- Places below other entries begin with other names.
      have hother : ∀ rest, name :: rest ∉ (entryDescendants es).map Prod.fst := by
        intro rest hmem
        obtain ⟨d, hd, hplace⟩ := List.mem_map.mp hmem
        obtain ⟨e, he, more, hmore⟩ := exists_cons_of_mem_entryDescendants hd
        rw [hmore] at hplace
        exact (hfirst e he).2 (List.cons.inj hplace).1.symm
      have hplaces : (entryDescendants ((name, n) :: es)).map Prod.fst =
          [name] :: ((n.descendants.map Prod.fst).map (name :: ·) ++
            (entryDescendants es).map Prod.fst) := by
        rw [entryDescendants, List.cons_append, List.map_cons, List.map_append, List.map_map,
          List.map_map]
        rfl
      rw [hplaces]
      refine List.nodup_cons.mpr ⟨fun hmem => ?_, List.nodup_append.mpr ⟨?_, hrest, ?_⟩⟩
      · rcases List.mem_append.mp hmem with hmem | hmem
        · obtain ⟨place, hplace, heq⟩ := List.mem_map.mp hmem
          obtain ⟨d, hd, rfl⟩ := List.mem_map.mp hplace
          exact ne_nil_of_mem_descendants hd (List.cons.inj heq).2
        · exact hother [] hmem
      · have hcons (a b : List Text) (hab : a ≠ b) : name :: a ≠ name :: b :=
          fun heq => hab (List.cons.inj heq).2
        exact List.Pairwise.map (name :: ·) hcons hbelow
      · rintro place hplace other hmem rfl
        obtain ⟨rest, -, rfl⟩ := List.mem_map.mp hplace
        exact hother rest hmem

end

end StaticSite.Node
