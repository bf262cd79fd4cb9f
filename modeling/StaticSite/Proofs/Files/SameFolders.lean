import StaticSite.Proofs.Files.Walk

/-!
# Trees with the same folders

Two trees with the same folders differ in their files only. What is on the way to a file is a
folder, so a path to a file of the one leads, with another last name, to the file of that name in
the other.
-/

namespace StaticSite

open Node

namespace Tree

variable {α : Type} {t u : Tree α} {p : Path} {place parts : List Text}

/-- The trees are seen from the same current folder and have folders at the same places. -/
structure SameFolders (t u : Tree α) : Prop where
  current : u.current = t.current
  folders : ∀ place, (∃ entries, u.root.get? place = some (.folder entries)) ↔
    ∃ entries, t.root.get? place = some (.folder entries)

/-- A walk has only seen folders. -/
inductive SeesFolders (t : Tree α) : Except FileCause (List Text) → Prop
  | nameTooLong : SeesFolders t (.error .nameTooLong)
  | folder {r : List Text} {entries : List (Text × Node α)}
      (h : t.root.get? r = some (.folder entries)) : SeesFolders t (.ok r)

theorem SeesFolders.start {result : Except FileCause (List Text)} (h : t.SeesFolders result)
    (hwalk : walk t.root place parts = result) :
    ∃ entries, t.root.get? place = some (.folder entries) := by
  cases parts with
  | nil =>
      subst hwalk
      cases h with
      | folder h => exact ⟨_, h⟩
  | cons part parts =>
      rw [walk] at hwalk
      split at hwalk
      · subst hwalk
        cases h
      · subst hwalk
        cases h
      · exact ⟨_, by assumption⟩

namespace SameFolders

theorem symm (h : t.SameFolders u) : u.SameFolders t :=
  ⟨h.current.symm, fun place => (h.folders place).symm⟩

theorem start_eq (h : t.SameFolders u) (p : Path) : u.start p = t.start p := by
  rw [start, start, h.current]

theorem walk_eq (h : t.SameFolders u) {result : Except FileCause (List Text)}
    (hseen : t.SeesFolders result) (hwalk : walk t.root place parts = result) :
    walk u.root place parts = result := by
  induction parts generalizing place with
  | nil => exact hwalk
  | cons part parts ih =>
      obtain ⟨entries, hplace⟩ := hseen.start hwalk
      obtain ⟨entries', hplace'⟩ := (h.folders place).mpr ⟨entries, hplace⟩
      rw [walk, hplace] at hwalk
      rw [walk, hplace']
      simp only at hwalk ⊢
      split at hwalk
      · rename_i hpart
        rw [if_pos hpart]
        exact ih hwalk
      · rename_i hpart
        rw [if_neg hpart]
        split at hwalk
        · rename_i hlimit
          rw [if_pos hlimit]
          exact hwalk
        · rename_i hlimit
          rw [if_neg hlimit]
          split at hwalk
          · subst hwalk
            cases hseen
          · obtain ⟨below, hbelow⟩ := (h.folders _).mpr (hseen.start hwalk)
            rw [get?_append_name hplace'] at hbelow
            rw [hbelow]
            exact ih hwalk

/-- Whether a path is too long to be looked up depends on the folders only. -/
theorem find_nameTooLong (h : t.SameFolders u) (hfind : t.find p = .error .nameTooLong) :
    u.find p = .error .nameTooLong := by
  apply find_eq_error_of_locate
  rw [locate]
  by_cases hlong : tooLong p
  · rw [if_pos hlong]
  · rw [if_neg hlong, h.start_eq]
    apply h.walk_eq .nameTooLong
    unfold find at hfind
    rw [locate, if_neg hlong] at hfind
    cases hwalk : walk t.root (t.start p) p.parts with
    | error cause =>
        rw [hwalk] at hfind
        exact congrArg Except.error (Except.error.inj hfind)
    | ok place =>
        rw [hwalk] at hfind
        simp only [bind, Except.bind] at hfind
        split at hfind <;> cases hfind

/-- Where no folder is, nothing more is looked at. -/
theorem barred_of_not_folder {guard : Guard}
    (h : ∀ entries, t.root.get? place ≠ some (.folder entries)) (parts : List Text) :
    barred guard t.root place parts = none := by
  cases parts with
  | nil => rfl
  | cons part parts =>
      rw [barred]
      split
      · exact absurd (by assumption) (h _)
      · rfl

/-- How far a machine lets a path be walked depends on the folders only. -/
theorem barred_eq (h : t.SameFolders u) (hentering : u.guard.entering = t.guard.entering)
    (place parts : List Text) :
    barred u.guard u.root place parts = barred t.guard t.root place parts := by
  induction parts generalizing place with
  | nil => rfl
  | cons part parts ih =>
      by_cases hfolder : ∃ entries, t.root.get? place = some (.folder entries)
      · obtain ⟨entries, hplace⟩ := hfolder
        obtain ⟨entries', hplace'⟩ := (h.folders place).mpr ⟨entries, hplace⟩
        rw [barred, barred, hplace, hplace']
        simp only [hentering]
        split
        · rfl
        · split
          · exact ih _
          · split
            · rfl
            · have hnothing {v : Tree α} {es : List (Text × Node α)}
                  (hes : v.root.get? place = some (.folder es)) (hnone : entry? part es = none) :
                  barred v.guard v.root (place ++ [part]) parts = none := by
                refine barred_of_not_folder (fun more hmore => ?_) parts
                rw [get?_append_name hes, hnone] at hmore
                cases hmore
              cases hentry : entry? part entries with
              | none =>
                  cases hentry' : entry? part entries' with
                  | none => rfl
                  | some m => exact (ih _).trans (hnothing hplace hentry)
              | some n =>
                  cases hentry' : entry? part entries' with
                  | none => exact ((ih _).symm.trans (hnothing hplace' hentry')).symm
                  | some m => exact ih _
      · rw [barred_of_not_folder (fun entries hplace => hfolder ⟨entries, hplace⟩),
          barred_of_not_folder fun entries hplace =>
            hfolder ((h.folders place).mp ⟨entries, hplace⟩)]

end SameFolders

/-- A walk fails where nothing is, or a file, or at a name that is too long. -/
theorem walk_eq_error {cause : FileCause} {root : Node α}
    (h : walk root place parts = .error cause) :
    cause = .missing ∨ cause = .notFolder ∨ cause = .nameTooLong := by
  induction parts generalizing place with
  | nil => cases h
  | cons part parts ih =>
      rw [walk] at h
      split at h
      · cases h
        exact .inl rfl
      · cases h
        exact .inr (.inl rfl)
      · split at h
        · exact ih h
        · split at h
          · cases h
            exact .inr (.inr rfl)
          · split at h
            · cases h
              exact .inl rfl
            · exact ih h

/-- A path is not looked at because it is too long, or because the machine refuses it. -/
theorem look_eq_error {cause : FileCause} (h : t.look p = .error cause)
    (hmissing : cause ≠ .missing)
    (hfolder : cause ≠ .notFolder) :
    (tooLong p = false ∧ ∃ refusal, barred t.guard t.root (t.start p) p.parts = some refusal ∧
        cause = refusal.cause) ∨
      cause = .nameTooLong ∧ (tooLong p ∨
        barred t.guard t.root (t.start p) p.parts = none ∧ t.find p = .error .nameTooLong) := by
  unfold look at h
  split at h
  · rename_i hlong
    cases h
    exact .inr ⟨rfl, .inl hlong⟩
  · rename_i hshort
    split at h
    · rename_i refusal hbarred
      cases h
      exact .inl ⟨by simpa using hshort, refusal, hbarred, rfl⟩
    · rename_i hbarred
      have hcause : cause = .nameTooLong := by
        unfold find at h
        cases hlocate : t.locate p with
        | error other =>
            rw [hlocate] at h
            cases h
            rw [locate, if_neg hshort] at hlocate
            rcases walk_eq_error hlocate with rfl | rfl | rfl
            · exact absurd rfl hmissing
            · exact absurd rfl hfolder
            · rfl
        | ok place =>
            simp only [hlocate, bind, Except.bind] at h
            split at h
            · cases h
            · cases h
              exact absurd rfl hmissing
      subst hcause
      exact .inr ⟨rfl, .inr ⟨hbarred, h⟩⟩

namespace SameFolders

/-- What a machine does not let be looked at depends on the folders only. -/
theorem look_error (h : t.SameFolders u) (hentering : u.guard.entering = t.guard.entering)
    {cause : FileCause} (hlook : t.look p = .error cause) (hmissing : cause ≠ .missing)
    (hfolder : cause ≠ .notFolder) : u.look p = .error cause := by
  have hbarred : barred u.guard u.root (u.start p) p.parts =
      barred t.guard t.root (t.start p) p.parts := by
    rw [h.start_eq, h.barred_eq hentering]
  unfold look
  rcases look_eq_error hlook hmissing hfolder with ⟨hshort, refusal, hrefusal, rfl⟩ |
    ⟨rfl, hlong | ⟨hclear, hfind⟩⟩
  · rw [if_neg (by simp [hshort]), hbarred, hrefusal]
  · rw [if_pos hlong]
  · split
    · rfl
    · rw [hbarred, hclear]
      exact h.find_nameTooLong hfind

/-- A file that is found at a path is looked at in both trees or in neither. -/
theorem look_file (h : t.SameFolders u) (hentering : u.guard.entering = t.guard.entering)
    {content : α} (hlook : t.look p = .ok (.file content))
    (hfind : u.find p = .ok (.file content)) : u.look p = .ok (.file content) := by
  unfold look at hlook
  split at hlook
  · cases hlook
  · rename_i hshort
    split at hlook
    · cases hlook
    · rename_i hclear
      rw [look, if_neg hshort, h.start_eq, h.barred_eq hentering, hclear]
      exact hfind

end SameFolders

/-- A path to a file goes down from the folder of the file. -/
theorem exists_folder_of_find_below {name : Text} {content : α}
    (h : t.find (p.below [name]) = .ok (.file content)) :
    walk t.root (t.start p) p.parts = .ok (t.spot p) ∧ name ≠ parentName ∧
      (∃ entries, t.root.get? (t.spot p) = some (.folder entries)) ∧
      t.root.get? (t.spot p ++ [name]) = some (.file content) := by
  obtain ⟨hlocate, hget⟩ := find_eq_ok_iff.mp h
  obtain ⟨mid, hmid, hname⟩ := exists_walk_of_append (locate_eq_ok_iff.mp hlocate).2
  obtain rfl : mid = t.spot p := eq_lead_of_walk hmid
  have hfolder : ∃ entries, t.root.get? (t.spot p) = some (.folder entries) := by
    rw [walk] at hname
    split at hname
    · cases hname
    · cases hname
    · exact ⟨_, by assumption⟩
  have hup : name ≠ parentName := by
    rintro rfl
    obtain ⟨entries, hentries⟩ := hfolder
    obtain ⟨above, habove⟩ := exists_folder_dropLast hentries
    have hspot : t.spot (p.below [parentName]) = (t.spot p).dropLast := by
      rw [spot, Path.parts_below, lead_append]
      rfl
    rw [hspot, habove] at hget
    cases hget
  rw [spot_below t p (by simpa using Ne.symm hup)] at hget
  exact ⟨hmid, hup, hfolder, hget⟩

theorem SameFolders.find_below (h : t.SameFolders u) {name other : Text} {content : α}
    (hfind : t.find (p.below [name]) = .ok (.file content)) (hother : other ≠ parentName)
    (hfile : u.root.get? (t.spot p ++ [other]) = some (.file content)) :
    u.find (p.below [other]) = .ok (.file content) ∨
      u.find (p.below [other]) = .error .nameTooLong := by
  obtain ⟨hwalk, -, ⟨entries, hentries⟩, -⟩ := exists_folder_of_find_below hfind
  rw [← spot_eq_of_current h.current] at hfile
  refine find_below_of_walk ?_ (by simpa using Ne.symm hother) hfile
  rw [h.start_eq, spot_eq_of_current h.current]
  exact h.walk_eq (.folder hentries) hwalk

/-- A name that leads to the same file in both trees is found in both. -/
theorem SameFolders.find_below_same (h : t.SameFolders u) {name : Text} {content : α}
    (hfind : t.find (p.below [name]) = .ok (.file content))
    (hfile : u.root.get? (t.spot p ++ [name]) = some (.file content)) :
    u.find (p.below [name]) = .ok (.file content) := by
  obtain ⟨-, hup, -⟩ := exists_folder_of_find_below hfind
  refine (h.find_below hfind hup hfile).resolve_right fun hlong => ?_
  cases hfind.symm.trans (h.symm.find_nameTooLong hlong)

end Tree

end StaticSite
