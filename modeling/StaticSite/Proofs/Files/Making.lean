import StaticSite.Proofs.Files.Grown
import StaticSite.Proofs.Files.Names

/-!
# Making entries

A folder or a file that is made at a path stands at the path's place, and every other file is
spared. A file is never made where a folder is, nor a folder where anything is.
-/

namespace StaticSite.Tree

open Node

variable {α : Type}

/-- Every folder lists its entries in order, and the current place is that of a folder. -/
structure Tidy (t : Tree α) : Prop where
  ordered : t.root.Ordered
  current : ∃ entries, t.root.get? t.current = some (.folder entries)

/-- A tree as a file system can hold it. -/
structure WellFormed (t : Tree α) : Prop extends Tidy t where
  names : ∀ place n, t.root.get? place = some n → ∀ name ∈ place, Path.IsName name

variable {t u : Tree α} {p : Path}

theorem parentName_notMem {place : List Text} (h : ∀ name ∈ place, Path.IsName name) :
    parentName ∉ place :=
  fun hmem => (h _ hmem).2.2.2.2 rfl

theorem WellFormed.parentName_notMem_current (ht : t.WellFormed) : parentName ∉ t.current := by
  obtain ⟨entries, hentries⟩ := ht.current
  exact parentName_notMem (ht.names _ _ hentries)

theorem wellFormed_of_descendants {root : Node α} {current : List Text}
    (hroot : root.entries.Pairwise Before)
    (hbelow : ∀ d ∈ root.descendants,
      (∀ name ∈ d.1, Path.IsName name) ∧ d.2.entries.Pairwise Before)
    (hcurrent : ∃ entries, root.get? current = some (.folder entries)) :
    WellFormed ⟨root, current⟩ := by
  have hall (place : List Text) (n : Node α) (hn : root.get? place = some n) :
      (∀ name ∈ place, Path.IsName name) ∧ n.entries.Pairwise Before := by
    by_cases hplace : place = []
    · subst hplace
      cases hn
      exact ⟨by simp, hroot⟩
    · exact hbelow _ (mem_descendants hn hplace)
  refine ⟨⟨?_, hcurrent⟩, fun place n hn => (hall place n hn).1⟩
  exact fun place entries hentries => (hall place _ hentries).2

theorem Tidy.start (h : t.Tidy) (p : Path) :
    ∃ entries, t.root.get? (t.start p) = some (.folder entries) := by
  rw [Tree.start]
  split
  · obtain ⟨entries, hentries⟩ := h.current
    cases hroot : t.root with
    | folder more => exact ⟨more, rfl⟩
    | file content =>
        rw [hroot] at hentries
        cases hcurrent : t.current <;> rw [hcurrent] at hentries <;> cases hentries
  · exact h.current

/-- Where a path leads that may end in a new entry, with what is there. -/
inductive Opens (t : Tree α) (p : Path) : List Text → Option (Node α) → Prop
  | folder (place : List Text) (entries : List (Text × Node α)) :
      Opens t p place (some (.folder entries))
  | entry {init parent : List Text} {name : Text} {entries : List (Text × Node α)}
      (short : tooLong p = false) (parts : p.parts = init ++ [name])
      (walked : walk t.root (t.start p) init = .ok parent)
      (parent_folder : t.root.get? parent = some (.folder entries)) (down : name ≠ parentName)
      (limit : ¬nameLimit < (Text.encodeUtf8 name).length) :
      Opens t p (parent ++ [name]) ( Node.entry? name entries)

/-- A step up ends in a folder. -/
theorem exists_folder_of_walk_up {root : Node α} {place init r : List Text}
    (h : walk root place (init ++ [parentName]) = .ok r) :
    ∃ entries, root.get? r = some (.folder entries) := by
  obtain ⟨mid, -, hlast⟩ := exists_walk_of_append h
  rw [walk] at hlast
  split at hlast
  · cases hlast
  · cases hlast
  · rename_i entries hfolder
    rw [if_pos rfl] at hlast
    cases hlast
    exact exists_folder_dropLast hfolder

/-- An entry is only made where nothing on the way to it is refused. -/
theorem open_of_locateNew {found : List Text × Option (Node α)} (h : t.locateNew p = .ok found) :
    tooLong p = false ∧ barred t.guard t.root (t.start p) p.parts = none := by
  unfold locateNew at h
  by_cases hlong : tooLong p
  · rw [if_pos hlong] at h
    cases h
  · rw [if_neg hlong] at h
    cases hbarred : barred t.guard t.root (t.start p) p.parts with
    | some refusal =>
        rw [hbarred] at h
        cases h
    | none => exact ⟨by simpa using hlong, rfl⟩

theorem opens_of_locateNew (ht : t.Tidy) {place : List Text} {there : Option (Node α)}
    (h : t.locateNew p = .ok (place, there)) : t.Opens p place there := by
  obtain ⟨hshort, hclear⟩ := open_of_locateNew h
  unfold locateNew at h
  rw [if_neg (by simp [hshort]), hclear] at h
  rcases List.eq_nil_or_concat p.parts with hparts | ⟨init, name, hparts⟩
  · rw [hparts] at h
    cases h
    obtain ⟨entries, hentries⟩ := ht.start p
    rw [hentries]
    exact .folder _ _
  · rw [List.concat_eq_append] at hparts
    rw [hparts, List.getLast?_append, List.dropLast_concat] at h
    change (if name = parentName then _ else _ : Except FileCause _) = _ at h
    split at h
    · rename_i hname
      cases hwalk : walk t.root (t.start p) (init ++ [name]) with
      | error cause => rw [hwalk] at h; cases h
      | ok r =>
          rw [hwalk] at h
          cases h
          obtain ⟨entries, hentries⟩ := exists_folder_of_walk_up (hname ▸ hwalk)
          rw [hentries]
          exact .folder _ _
    · rename_i hname
      cases hwalk : walk t.root (t.start p) init with
      | error cause => rw [hwalk] at h; cases h
      | ok parent =>
          rw [hwalk] at h
          simp only [bind, Except.bind] at h
          split at h
          · cases h
          · cases h
          · rename_i entries hfolder
            split at h
            · cases h
            · rename_i hlimit
              cases h
              exact .entry hshort hparts hwalk hfolder hname hlimit

/-- A tree with a node put at a place where none was, or in the place of one of its kind. -/
structure Made (place : List Text) (new : Node α) (t u : Tree α) : Prop extends Grows t u where
  placed : Placed place new t.root u.root

theorem Tidy.after (ht : t.Tidy) (hcurrent : u.current = t.current)
    (hkinds : t.root.KeepsKinds u.root) (hordered : t.root.Ordered → u.root.Ordered) : u.Tidy := by
  refine ⟨hordered ht.ordered, ?_⟩
  obtain ⟨entries, hentries⟩ := ht.current
  rw [hcurrent]
  exact hkinds.folder hentries

theorem spot_of_walk {init parent : List Text} {name : Text} (hparts : p.parts = init ++ [name])
    (hwalk : walk t.root (t.start p) init = .ok parent) (hname : name ≠ parentName) :
    t.spot p = parent ++ [name] := by
  rw [spot, hparts, lead_append, ← eq_lead_of_walk hwalk, lead, if_neg hname]
  rfl

theorem made_putAt (ht : t.Tidy) {init parent : List Text} {name : Text}
    {entries : List (Text × Node α)} {new : Node α} (hbare : new.IsBare)
    (hparts : p.parts = init ++ [name]) (hwalk : walk t.root (t.start p) init = .ok parent)
    (hparent : t.root.get? parent = some (.folder entries)) (hname : name ≠ parentName)
    (hthere : ∀ n, t.root.get? (t.spot p) = some n → n.isFolder = false ∧ new.isFolder = false) :
    Made (t.spot p) new t (t.putAt (parent ++ [name]) new) := by
  have hspot := spot_of_walk hparts hwalk hname
  have hentry : t.root.get? (t.spot p) = entry? name entries := by
    rw [hspot, get?_append_name hparent]
  have hplaced : Placed (t.spot p) new t.root (t.putAt (parent ++ [name]) new).root := by
    have hput := placed_put ht.ordered hbare hparent fun n hn => (hthere n (hentry.trans hn)).1
    rwa [hspot]
  refine ⟨⟨rfl, rfl, hplaced.keepsKinds fun n hn => ?_⟩, hplaced⟩
  obtain ⟨hn, hnew⟩ := hthere n hn
  rw [hn, hnew]

theorem made_of_makeFolder (ht : t.Tidy) (h : t.makeFolder p = .ok u) :
    Made (t.spot p) (.folder []) t u ∧ t.root.get? (t.spot p) = none := by
  unfold makeFolder at h
  cases hlocate : t.locateNew p with
  | error cause => rw [hlocate] at h; cases h
  | ok found =>
      obtain ⟨place, there⟩ := found
      rw [hlocate] at h
      simp only [bind, Except.bind] at h
      cases opens_of_locateNew ht hlocate with
      | folder => cases h
      | @entry init parent name entries short parts walked parent_folder down limit =>
          cases hentry : entry? name entries with
          | some n => rw [hentry] at h; cases h
          | none =>
              rw [hentry] at h
              cases h
              have hnone : t.root.get? (t.spot p) = none := by
                rw [spot_of_walk parts walked down, get?_append_name parent_folder, hentry]
              have hbare : (Node.folder ([] : List (Text × Node α))).IsBare := rfl
              refine ⟨made_putAt ht hbare parts walked parent_folder down ?_, hnone⟩
              intro n hn
              cases hnone.symm.trans hn

theorem made_of_writeFile (ht : t.Tidy) {content : α} (h : t.writeFile p content = .ok u) :
    Made (t.spot p) (.file content) t u := by
  unfold writeFile at h
  cases hlocate : t.locateNew p with
  | error cause => rw [hlocate] at h; cases h
  | ok found =>
      obtain ⟨place, there⟩ := found
      rw [hlocate] at h
      simp only [bind, Except.bind] at h
      cases opens_of_locateNew ht hlocate with
      | folder => cases h
      | @entry init parent name entries short parts walked parent_folder down limit =>
          have hthere : ∀ n, t.root.get? (t.spot p) = some n →
              n.isFolder = false ∧ (Node.file content).isFolder = false := by
            intro n hn
            rw [spot_of_walk parts walked down, get?_append_name parent_folder] at hn
            cases n with
            | file old => exact ⟨rfl, rfl⟩
            | folder more => rw [hn] at h; cases h
          have hbare : (Node.file content).IsBare := trivial
          have hu : u = t.putAt (parent ++ [name]) (.file content) := by
            cases hentry : entry? name entries with
            | none => rw [hentry] at h; cases h; rfl
            | some n =>
                rw [hentry] at h
                cases n with
                | file old => cases h; rfl
                | folder more => cases h
          rw [hu]
          exact made_putAt ht hbare parts walked parent_folder down hthere

/-! ## What is spared -/

/-- Folders are added, and files written at places of which a condition holds. Every other file is
as before. -/
structure Spares (written : List Text → Prop) (t u : Tree α) : Prop extends Grows t u where
  ordered : t.root.Ordered → u.root.Ordered
  files : ∀ q content, ¬written q →
    (u.root.get? q = some (.file content) ↔ t.root.get? q = some (.file content))

namespace Spares

variable {v : Tree α} {written more : List Text → Prop}

theorem refl (written : List Text → Prop) (t : Tree α) : Spares written t t :=
  ⟨.refl t, id, fun _ _ _ => Iff.rfl⟩

theorem trans (h : Spares written t u) (h' : Spares written u v) : Spares written t v := by
  constructor
  case toGrows => exact h.toGrows.trans h'.toGrows
  case ordered => exact h'.ordered ∘ h.ordered
  case files => exact fun q content hq => (h'.files q content hq).trans (h.files q content hq)

theorem mono (h : Spares written t u) (hmore : ∀ q, written q → more q) : Spares more t u :=
  { h with files := fun q content hq => h.files q content fun hwritten => hq (hmore q hwritten) }

theorem tidy (h : Spares written t u) (ht : t.Tidy) : u.Tidy :=
  ht.after h.current h.kinds h.ordered

/-- A file that is not rewritten is found as before. -/
theorem find_file (h : Spares written t u) {content : α} (hp : t.find p = .ok (.file content))
    (hkept : ¬written (t.spot p)) : u.find p = .ok (.file content) := by
  obtain ⟨hlocate, hfile⟩ := find_eq_ok_iff.mp hp
  rw [find_eq_ok_iff, h.spot]
  exact ⟨h.locate hlocate, (h.files _ _ hkept).mpr hfile⟩

end Spares

theorem Made.spares {place : List Text} {new : Node α} (h : Made place new t u) :
    Spares (fun q => q = place) t u where
  toGrows := h.toGrows
  ordered := h.placed.ordered
  files := fun q content hq => h.placed.files q content hq

theorem spares_of_makeFolder (ht : t.Tidy) (h : t.makeFolder p = .ok u) :
    Spares (fun _ => False) t u := by
  obtain ⟨hmade, hnone⟩ := made_of_makeFolder ht h
  refine { hmade.spares with files := fun q content _ => ?_ }
  by_cases hq : q = t.spot p
  · rw [hq, hmade.placed.at_place, hnone]
    simp
  · exact hmade.placed.files q content hq

theorem spares_of_writeFile (ht : t.Tidy) {content : α} (h : t.writeFile p content = .ok u) :
    Spares (fun q => q = t.spot p) t u :=
  (made_of_writeFile ht h).spares

end StaticSite.Tree
