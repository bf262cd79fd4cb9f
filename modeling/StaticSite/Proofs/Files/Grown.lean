import StaticSite.Proofs.Files.Walk

/-!
# Trees that have grown

In a tree that has grown, every path leads where it led, and can be looked at, read and listed where
it could be. What stands in both trees is also refused in both.
-/

namespace StaticSite.Tree

open Node

variable {α : Type} {t u : Tree α} {p : Path}

/-- Every file is still a file and every folder a folder, seen from the same current folder and with
the same refusals. -/
structure Grows (t u : Tree α) : Prop where
  current : u.current = t.current
  guard : u.guard = t.guard
  kinds : t.root.KeepsKinds u.root

namespace Grows

theorem refl (t : Tree α) : t.Grows t := ⟨rfl, rfl, KeepsKinds.refl _⟩

theorem trans {v : Tree α} (h : t.Grows u) (h' : u.Grows v) : t.Grows v :=
  ⟨h'.current.trans h.current, h'.guard.trans h.guard, h.kinds.trans h'.kinds⟩

theorem spot (h : t.Grows u) (p : Path) : u.spot p = t.spot p := spot_eq_of_current h.current p

theorem locate (h : t.Grows u) {place : List Text} (hp : t.locate p = .ok place) :
    u.locate p = .ok place := by
  obtain ⟨hshort, hwalk⟩ := locate_eq_ok_iff.mp hp
  rw [locate_eq_ok_iff, start, h.current]
  exact ⟨hshort, walk_keepsKinds h.kinds hwalk⟩

theorem find (h : t.Grows u) {n : Node α} (hp : t.find p = .ok n) :
    ∃ m, u.find p = .ok m ∧ m.isFolder = n.isFolder := by
  obtain ⟨hlocate, hn⟩ := find_eq_ok_iff.mp hp
  obtain ⟨m, hm, hkind⟩ := h.kinds _ n hn
  refine ⟨m, find_eq_ok_iff.mpr ?_, hkind⟩
  rw [h.spot]
  exact ⟨h.locate hlocate, hm⟩

/-- Where a path could be looked at, it can be looked at. -/
theorem look_of_find (h : t.Grows u) {n m : Node α} (hp : t.look p = .ok n)
    (hm : u.find p = .ok m) : u.look p = .ok m := by
  obtain ⟨hclear, hfind⟩ := look_eq_ok_iff.mp hp
  obtain ⟨-, hwalk⟩ := locate_eq_ok_iff.mp (find_eq_ok_iff.mp hfind).1
  refine look_eq_ok_iff.mpr ⟨?_, hm⟩
  rw [start, ← h.current] at hwalk hclear
  rw [start, h.guard]
  rw [barred_keepsKinds _ h.kinds hwalk, hclear]

theorem look (h : t.Grows u) {n : Node α} (hp : t.look p = .ok n) :
    ∃ m, u.look p = .ok m ∧ m.isFolder = n.isFolder := by
  obtain ⟨m, hm, hkind⟩ := h.find (find_of_look hp)
  exact ⟨m, h.look_of_find hp hm, hkind⟩

/-- What a path leads to can be read where it could be read. -/
theorem read_of_find (h : t.Grows u) {n m : Node α} (hp : t.read p = .ok n)
    (hm : u.find p = .ok m) : u.read p = .ok m := by
  obtain ⟨hlook, hcheck⟩ := read_eq_ok_iff.mp hp
  have hlocate := (find_eq_ok_iff.mp (find_of_look hlook)).1
  refine read_eq_ok_iff.mpr ⟨h.look_of_find hlook hm, ?_⟩
  rw [checkReading, hlocate] at hcheck
  rw [checkReading, h.locate hlocate, h.guard, hcheck]

theorem list (h : t.Grows u) {entries : List (Text × Node α)} (hp : t.list p = .ok entries) :
    ∃ entries', u.list p = .ok entries' := by
  have hread := list_eq_ok_iff.mp hp
  obtain ⟨m, hm, hkind⟩ := h.find (find_of_read hread)
  obtain ⟨entries', rfl⟩ := exists_of_isFolder hkind
  exact ⟨entries', list_eq_ok_iff.mpr (h.read_of_find hread hm)⟩

/-! What the second tree shows of a path that the first one finds, the first shows too. -/

theorem look_back (h : t.Grows u) {n m : Node α} (hp : t.find p = .ok n) (hu : u.look p = .ok m) :
    t.look p = .ok n := by
  obtain ⟨hclear, -⟩ := look_eq_ok_iff.mp hu
  obtain ⟨-, hwalk⟩ := locate_eq_ok_iff.mp (find_eq_ok_iff.mp hp).1
  refine look_eq_ok_iff.mpr ⟨?_, hp⟩
  rw [start, h.current, h.guard] at hclear
  rw [start] at hwalk ⊢
  rwa [← barred_keepsKinds _ h.kinds hwalk]

theorem list_back (h : t.Grows u) {entries entries' : List (Text × Node α)}
    (hp : t.find p = .ok (.folder entries)) (hu : u.list p = .ok entries') :
    t.list p = .ok entries := by
  obtain ⟨hlook, hcheck⟩ := read_eq_ok_iff.mp (list_eq_ok_iff.mp hu)
  have hlocate := (find_eq_ok_iff.mp hp).1
  refine list_eq_ok_iff.mpr (read_eq_ok_iff.mpr ⟨h.look_back hp hlook, ?_⟩)
  rw [checkReading, h.locate hlocate, h.guard] at hcheck
  rw [checkReading, hlocate, hcheck]

/-- What the second tree finds below a folder, the first finds where the same place is taken. -/
theorem find_below (h : t.Grows u) {entries : List (Text × Node α)} {n m : Node α}
    {place : List Text} (hp : t.find p = .ok (.folder entries)) (hup : parentName ∉ place)
    (hu : u.find (p.below place) = .ok m) (hn : t.root.get? (t.spot p ++ place) = some n) :
    t.find (p.below place) = .ok n := by
  obtain ⟨-, hwalk⟩ := locate_eq_ok_iff.mp (find_eq_ok_iff.mp hp).1
  obtain ⟨hshort, hall⟩ := locate_eq_ok_iff.mp (find_eq_ok_iff.mp hu).1
  obtain ⟨mid, hmid, hdeep⟩ := exists_walk_of_append hall
  have hspot : mid = t.spot p := by rw [eq_lead_of_walk hmid, ← h.spot p]; rfl
  rw [hspot] at hdeep
  have hlocate : t.locate (p.below place) = .ok (t.spot p ++ place) := by
    refine locate_eq_ok_iff.mpr ⟨hshort, ?_⟩
    exact (walk_append hwalk).trans (walk_of_get? hup hdeep hn)
  rw [find_eq_ok_iff, spot_below _ _ hup]
  exact ⟨hlocate, hn⟩

theorem list_below_back (h : t.Grows u) {entries es entries' : List (Text × Node α)}
    {place : List Text} (hp : t.find p = .ok (.folder entries)) (hup : parentName ∉ place)
    (hn : t.root.get? (t.spot p ++ place) = some (.folder es))
    (hlist : u.list (p.below place) = .ok entries') : t.list (p.below place) = .ok es :=
  h.list_back (h.find_below hp hup (find_of_read (list_eq_ok_iff.mp hlist)) hn) hlist

/-- A folder that stands below a path is listed, or refused to be, in both trees. -/
theorem list_below (h : t.Grows u) {entries es : List (Text × Node α)} {place : List Text}
    (hp : t.find p = .ok (.folder entries)) (hup : parentName ∉ place)
    (hn : t.root.get? (t.spot p ++ place) = some (.folder es)) :
    (u.list (p.below place)).map (fun _ => ()) = (t.list (p.below place)).map fun _ => () := by
  obtain ⟨-, hwalk⟩ := locate_eq_ok_iff.mp (find_eq_ok_iff.mp hp).1
  have hbarred : barred u.guard u.root (u.start (p.below place)) (p.below place).parts =
      barred t.guard t.root (t.start (p.below place)) (p.below place).parts := by
    rw [start, start, h.current, h.guard]
    exact barred_append_keepsKinds _ h.kinds hwalk (barred_of_there _ h.kinds hup hn)
  unfold Tree.list Tree.look
  rw [hbarred]
  split
  · rfl
  split
  · rfl
  rcases Tree.find_below hp hup hn with hfind | hlong
  · obtain ⟨m, hm, hkind⟩ := h.find hfind
    obtain ⟨es', rfl⟩ := exists_of_isFolder hkind
    have hplace := (find_eq_ok_iff.mp hfind).1
    rw [hm, hfind, checkReading, checkReading, hplace, h.locate hplace, h.guard]
    simp only [bind, Except.bind]
    split <;> rfl
  · obtain ⟨m, hm, -⟩ := h.find hp
    obtain ⟨es', hn'⟩ := h.kinds.folder hn
    rw [← h.spot] at hn'
    rcases Tree.find_below hm hup hn' with hfind | hlong'
    · cases hlong.symm.trans (h.find_below hp hup hfind hn)
    · rw [hlong, hlong']
      rfl

end Grows

end StaticSite.Tree
