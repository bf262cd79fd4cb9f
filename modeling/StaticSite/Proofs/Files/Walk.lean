import StaticSite.Proofs.Files.Put

/-!
# Places of paths

A path that leads somewhere leads to the place that its parts spell out. What is made at a path
stands at that place, and everything that led somewhere before still leads there.
-/

namespace StaticSite

open Node

namespace Node

variable {α : Type} {n n' : Node α}

/-- Every file stays a file and every folder a folder. -/
def KeepsKinds (n n' : Node α) : Prop :=
  ∀ q m, n.get? q = some m → ∃ m', n'.get? q = some m' ∧ m'.isFolder = m.isFolder

theorem KeepsKinds.refl (n : Node α) : n.KeepsKinds n := fun _ m h => ⟨m, h, rfl⟩

theorem KeepsKinds.trans {n'' : Node α} (h : n.KeepsKinds n') (h' : n'.KeepsKinds n'') :
    n.KeepsKinds n'' := by
  intro q m hm
  obtain ⟨m', hm', hkind⟩ := h q m hm
  obtain ⟨m'', hm'', hkind'⟩ := h' q m' hm'
  exact ⟨m'', hm'', hkind'.trans hkind⟩

theorem KeepsKinds.folder (h : n.KeepsKinds n') {q : List Text} {entries : List (Text × Node α)}
    (hq : n.get? q = some (.folder entries)) :
    ∃ entries', n'.get? q = some (.folder entries') := by
  obtain ⟨m', hm', hkind⟩ := h q _ hq
  obtain ⟨entries', rfl⟩ := exists_of_isFolder hkind
  exact ⟨entries', hm'⟩

theorem Placed.keepsKinds {place : List Text} {new : Node α} (h : Placed place new n n')
    (hthere : ∀ m, n.get? place = some m → m.isFolder = new.isFolder) : n.KeepsKinds n' := by
  intro q m hm
  by_cases hq : q = place
  · subst hq
    exact ⟨new, h.at_place, (hthere m hm).symm⟩
  · cases m with
    | file content => exact ⟨_, (h.files q content hq).mpr hm, rfl⟩
    | folder entries =>
        obtain ⟨entries', hentries'⟩ := (h.folders q hq).mpr ⟨entries, hm⟩
        exact ⟨_, hentries', rfl⟩

theorem get?_append_name {parent : List Text} {entries : List (Text × Node α)}
    (h : n.get? parent = some (.folder entries)) (name : Text) :
    n.get? (parent ++ [name]) = entry? name entries := by
  rw [get?_append h, get?_folder_cons]
  cases entry? name entries <;> rfl

theorem exists_get?_of_append {place more : List Text} {m : Node α}
    (h : n.get? (place ++ more) = some m) : ∃ k, n.get? place = some k := by
  induction place generalizing n with
  | nil => exact ⟨n, rfl⟩
  | cons name place ih =>
      cases n with
      | file content => cases h
      | folder entries =>
          rw [List.cons_append, get?_folder_cons] at h
          obtain ⟨k, hentry, hk⟩ := Option.bind_eq_some_iff.mp h
          rw [get?_folder_cons, hentry]
          exact ih hk

theorem exists_folder_of_append {place more : List Text} {m : Node α} (hne : more ≠ [])
    (h : n.get? (place ++ more) = some m) : ∃ entries, n.get? place = some (.folder entries) := by
  obtain ⟨k, hk⟩ := exists_get?_of_append h
  cases k with
  | folder entries => exact ⟨entries, hk⟩
  | file content =>
      rw [get?_append hk] at h
      cases more with
      | nil => exact absurd rfl hne
      | cons name more => cases h

theorem exists_folder_dropLast {q : List Text} {entries : List (Text × Node α)}
    (h : n.get? q = some (.folder entries)) :
    ∃ entries', n.get? q.dropLast = some (.folder entries') := by
  rcases List.eq_nil_or_concat q with rfl | ⟨init, name, rfl⟩
  · exact ⟨entries, h⟩
  · rw [List.concat_eq_append] at h ⊢
    rw [List.dropLast_concat]
    exact exists_folder_of_append (List.cons_ne_nil name []) h

end Node

namespace Tree

variable {α : Type}

/-- The place that parts lead to from a place, with every `..` taken literally. -/
def lead : List Text → List Text → List Text
  | place, [] => place
  | place, part :: parts =>
      lead (if part = parentName then place.dropLast else place ++ [part]) parts

def spot (t : Tree α) (p : Path) : List Text := lead (t.start p) p.parts

theorem lead_append (place parts more : List Text) :
    lead place (parts ++ more) = lead (lead place parts) more := by
  induction parts generalizing place with
  | nil => rfl
  | cons part parts ih => rw [List.cons_append, lead, lead, ih]

theorem lead_of_notMem {parts : List Text} (h : parentName ∉ parts) (place : List Text) :
    lead place parts = place ++ parts := by
  induction parts generalizing place with
  | nil => rw [lead, List.append_nil]
  | cons part parts ih =>
      rw [List.mem_cons, not_or] at h
      obtain ⟨hpart, hparts⟩ := h
      rw [lead, if_neg (Ne.symm hpart), ih hparts, List.append_assoc, List.singleton_append]

theorem mem_lead {place parts : List Text} {part : Text} (h : part ∈ lead place parts) :
    part ∈ place ∨ part ∈ parts ∧ part ≠ parentName := by
  induction parts generalizing place with
  | nil => exact .inl h
  | cons first parts ih =>
      rw [lead] at h
      rcases ih h with h | ⟨hmem, hup⟩
      · split at h
        · exact .inl (List.dropLast_subset _ h)
        · rename_i hfirst
          refine (List.mem_append.mp h).imp_right fun h => ?_
          rw [List.mem_singleton.mp h]
          exact ⟨List.mem_cons_self, hfirst⟩
      · exact .inr ⟨List.mem_cons_of_mem _ hmem, hup⟩

theorem spot_of_notMem (t : Tree α) {p : Path} (h : parentName ∉ p.parts) :
    t.spot p = t.start p ++ p.parts :=
  lead_of_notMem h _

theorem spot_below (t : Tree α) (p : Path) {parts : List Text} (h : parentName ∉ parts) :
    t.spot (p.below parts) = t.spot p ++ parts := by
  rw [spot, Path.parts_below, lead_append, lead_of_notMem h]
  rfl

theorem reverse_collapse_fold (done parts : List Text) :
    (parts.foldl (fun done part => if part = "..".toList then done.drop 1 else part :: done)
      done).reverse = lead done.reverse parts := by
  induction parts generalizing done with
  | nil => rfl
  | cons part parts ih =>
      rw [List.foldl_cons, ih, lead]
      by_cases hpart : part = parentName
      · rw [if_pos hpart, if_pos (by exact hpart), List.drop_one, ← List.dropLast_reverse]
      · rw [if_neg hpart, if_neg (by exact hpart), List.reverse_cons]

theorem parts_resolve {t : Tree α} (h : parentName ∉ t.current) (p : Path) :
    (t.resolve p).parts = t.spot p := by
  have hstart : lead [] (if p.isAbsolute then [] else t.current) = t.start p := by
    rw [start]
    split
    · rfl
    · exact lead_of_notMem h []
  change Path.collapse _ = _
  rw [Path.collapse, reverse_collapse_fold, List.reverse_nil, lead_append, hstart]
  rfl

/-! ## Walks -/

section Walk

variable {root root' : Node α} {place parts more mid r : List Text}

theorem eq_lead_of_walk (h : walk root place parts = .ok r) : r = lead place parts := by
  induction parts generalizing place with
  | nil =>
      cases h
      rfl
  | cons part parts ih =>
      rw [walk] at h
      split at h
      · cases h
      · cases h
      · rw [lead]
        split at h
        · rename_i hpart
          rw [if_pos hpart]
          exact ih h
        · rename_i hpart
          rw [if_neg hpart]
          split at h
          · cases h
          · split at h
            · cases h
            · exact ih h

theorem walk_append (h : walk root place parts = .ok mid) :
    walk root place (parts ++ more) = walk root mid more := by
  induction parts generalizing place with
  | nil =>
      cases h
      rfl
  | cons part parts ih =>
      rw [walk] at h
      rw [List.cons_append, walk]
      split at h
      · cases h
      · cases h
      · split at h
        · rename_i hpart
          rw [if_pos hpart]
          exact ih h
        · rename_i hpart
          rw [if_neg hpart]
          split at h
          · cases h
          · rename_i hlimit
            rw [if_neg hlimit]
            split at h
            · cases h
            · exact ih h

theorem exists_walk_of_append (h : walk root place (parts ++ more) = .ok r) :
    ∃ mid, walk root place parts = .ok mid ∧ walk root mid more = .ok r := by
  induction parts generalizing place with
  | nil => exact ⟨place, rfl, h⟩
  | cons part parts ih =>
      rw [List.cons_append, walk] at h
      rw [walk]
      split at h
      · cases h
      · cases h
      · split at h
        · rename_i hpart
          rw [if_pos hpart]
          exact ih h
        · rename_i hpart
          rw [if_neg hpart]
          split at h
          · cases h
          · rename_i hlimit
            rw [if_neg hlimit]
            split at h
            · cases h
            · exact ih h

theorem walk_name {entries : List (Text × Node α)} {name : Text}
    (hfolder : root.get? place = some (.folder entries)) (hname : name ≠ parentName)
    (hlimit : ¬nameLimit < (Text.encodeUtf8 name).length)
    (hentry : ∃ n, root.get? (place ++ [name]) = some n) :
    walk root place [name] = .ok (place ++ [name]) := by
  obtain ⟨n, hn⟩ := hentry
  rw [get?_append_name hfolder] at hn
  rw [walk, hfolder]
  simp only
  rw [if_neg hname, if_neg hlimit, hn]
  rfl

/-- What a walk passes is there: a folder where it goes up, an entry where it goes down. -/
theorem walk_keepsKinds (hkinds : root.KeepsKinds root') (h : walk root place parts = .ok r) :
    walk root' place parts = .ok r := by
  induction parts generalizing place with
  | nil => exact h
  | cons part parts ih =>
      rw [walk] at h ⊢
      split at h
      · cases h
      · cases h
      · rename_i entries hfolder
        obtain ⟨entries', hfolder'⟩ := hkinds.folder hfolder
        rw [hfolder']
        simp only
        split at h
        · rename_i hpart
          rw [if_pos hpart]
          exact ih h
        · rename_i hpart
          rw [if_neg hpart]
          split at h
          · cases h
          · rename_i hlimit
            rw [if_neg hlimit]
            split at h
            · cases h
            · rename_i n hentry
              rw [← get?_append_name hfolder] at hentry
              obtain ⟨n', hn', -⟩ := hkinds _ _ hentry
              rw [get?_append_name hfolder'] at hn'
              rw [hn']
              exact ih h

/-- A walk that another tree allows is allowed where its end is there. -/
theorem walk_of_get? (hup : parentName ∉ parts) (h : walk root' place parts = .ok r) {n : Node α}
    (hn : root.get? (place ++ parts) = some n) : walk root place parts = .ok (place ++ parts) := by
  induction parts generalizing place with
  | nil => rw [walk, List.append_nil]
  | cons part parts ih =>
      rw [List.mem_cons, not_or] at hup
      obtain ⟨hpart, hparts⟩ := hup
      rw [walk] at h
      split at h
      · cases h
      · cases h
      · rw [if_neg (Ne.symm hpart)] at h
        split at h
        · cases h
        · rename_i hlimit
          split at h
          · cases h
          · have hplace : place ++ part :: parts = place ++ [part] ++ parts := by simp
            rw [hplace] at hn ⊢
            have hwalk := ih hparts h hn
            obtain ⟨m, hm⟩ := exists_get?_of_append hn
            obtain ⟨entries, hentries⟩ := exists_folder_of_append (List.cons_ne_nil part []) hm
            have hname := walk_name hentries (Ne.symm hpart) hlimit ⟨m, hm⟩
            rw [← List.singleton_append, walk_append hname, hwalk]

/-- A walk along what is there only fails at a name that is too long. -/
theorem walk_of_there (hup : parentName ∉ parts) {n : Node α}
    (hn : root.get? (place ++ parts) = some n) :
    walk root place parts = .ok (place ++ parts) ∨
      walk root place parts = .error .nameTooLong := by
  induction parts generalizing place with
  | nil => exact .inl (by rw [walk, List.append_nil])
  | cons part parts ih =>
      rw [List.mem_cons, not_or] at hup
      obtain ⟨hpart, hparts⟩ := hup
      have hplace : place ++ part :: parts = place ++ [part] ++ parts := by simp
      obtain ⟨entries, hfolder⟩ := exists_folder_of_append (List.cons_ne_nil part parts) hn
      rw [hplace] at hn ⊢
      obtain ⟨m, hm⟩ := exists_get?_of_append hn
      rw [get?_append_name hfolder] at hm
      rw [walk, hfolder]
      simp only
      rw [if_neg (Ne.symm hpart), hm]
      split
      · exact .inr rfl
      · exact ih hparts hn

theorem barred_singleton {guard : Guard} {entries : List (Text × Node α)}
    (h : root.get? place = some (.folder entries)) (name : Text) :
    barred guard root place [name] = guard.entering place := by
  rw [barred, h]
  simp only
  split
  · rename_i refusal hentering
    exact hentering.symm
  · rename_i hentering
    rw [hentering]
    split
    · rfl
    · split
      · rfl
      · split <;> rfl

/-- What is refused on the way depends on the folders that are passed. -/
theorem barred_append_keepsKinds (guard : Guard) (hkinds : root.KeepsKinds root')
    (hwalk : walk root place parts = .ok r)
    (hmore : barred guard root' r more = barred guard root r more) :
    barred guard root' place (parts ++ more) = barred guard root place (parts ++ more) := by
  induction parts generalizing place with
  | nil =>
      cases hwalk
      exact hmore
  | cons part parts ih =>
      rw [walk] at hwalk
      rw [List.cons_append, barred, barred]
      split at hwalk
      · cases hwalk
      · cases hwalk
      · rename_i entries hplace
        obtain ⟨entries', hplace'⟩ := hkinds.folder hplace
        rw [hplace, hplace']
        simp only
        split at hwalk
        · rename_i hpart
          rw [if_pos hpart, if_pos hpart, ih hwalk]
        · rename_i hpart
          rw [if_neg hpart, if_neg hpart]
          split at hwalk
          · cases hwalk
          · rename_i hlimit
            rw [if_neg hlimit, if_neg hlimit]
            split at hwalk
            · cases hwalk
            · rename_i n hentry
              rw [← get?_append_name hplace] at hentry
              obtain ⟨n', hn', -⟩ := hkinds _ _ hentry
              rw [get?_append_name hplace'] at hn'
              rw [hn']
              simp only [ih hwalk]

theorem barred_concat_keepsKinds (guard : Guard) (hkinds : root.KeepsKinds root') (name : Text)
    (hwalk : walk root place parts = .ok r)
    (hfolder : ∃ entries, root.get? r = some (.folder entries)) :
    barred guard root' place (parts ++ [name]) = barred guard root place (parts ++ [name]) := by
  obtain ⟨entries, hplace⟩ := hfolder
  obtain ⟨entries', hplace'⟩ := hkinds.folder hplace
  refine barred_append_keepsKinds guard hkinds hwalk ?_
  rw [barred_singleton hplace', barred_singleton hplace]

theorem barred_of_there (guard : Guard) (hkinds : root.KeepsKinds root') (hup : parentName ∉ parts)
    {n : Node α} (hn : root.get? (place ++ parts) = some n) :
    barred guard root' place parts = barred guard root place parts := by
  induction parts generalizing place with
  | nil => rfl
  | cons part parts ih =>
      rw [List.mem_cons, not_or] at hup
      obtain ⟨hpart, hparts⟩ := hup
      obtain ⟨entries, hplace⟩ := exists_folder_of_append (List.cons_ne_nil part parts) hn
      obtain ⟨entries', hplace'⟩ := hkinds.folder hplace
      rw [List.append_cons] at hn
      obtain ⟨m, hm⟩ := exists_get?_of_append hn
      obtain ⟨m', hm', -⟩ := hkinds _ _ hm
      rw [get?_append_name hplace] at hm
      rw [get?_append_name hplace'] at hm'
      rw [barred, barred, hplace, hplace']
      simp only [hm, hm', if_neg (Ne.symm hpart), ih hparts hn]

theorem barred_keepsKinds (guard : Guard) (hkinds : root.KeepsKinds root')
    (hwalk : walk root place parts = .ok r) :
    barred guard root' place parts = barred guard root place parts := by
  rcases List.eq_nil_or_concat parts with rfl | ⟨init, name, rfl⟩
  · rfl
  · rw [List.concat_eq_append] at hwalk ⊢
    obtain ⟨mid, hmid, hlast⟩ := exists_walk_of_append hwalk
    refine barred_concat_keepsKinds guard hkinds name hmid ?_
    rw [walk] at hlast
    split at hlast
    · cases hlast
    · cases hlast
    · exact ⟨_, by assumption⟩

/-- What is open as a whole is open in its first part. -/
theorem barred_of_append {guard : Guard} (h : barred guard root place (parts ++ more) = none) :
    barred guard root place parts = none := by
  induction parts generalizing place with
  | nil => rfl
  | cons part parts ih =>
      rw [List.cons_append, barred] at h
      rw [barred]
      split at h
      · split at h
        · cases h
        · split at h
          · rename_i hpart
            rw [if_pos hpart]
            exact ih h
          · rename_i hpart
            rw [if_neg hpart]
            split at h
            · rename_i hlimit
              rw [if_pos hlimit]
            · rename_i hlimit
              rw [if_neg hlimit]
              split at h
              · rfl
              · exact ih h
      · rfl

end Walk

/-! ## What paths lead to -/

variable {t u : Tree α} {p : Path}

theorem locate_eq_ok_iff {place : List Text} :
    t.locate p = .ok place ↔ tooLong p = false ∧ walk t.root (t.start p) p.parts = .ok place := by
  unfold locate
  cases tooLong p <;> simp

theorem find_eq_ok_iff {n : Node α} :
    t.find p = .ok n ↔ t.locate p = .ok (t.spot p) ∧ t.root.get? (t.spot p) = some n := by
  unfold find
  constructor
  · intro h
    cases hlocate : t.locate p with
    | error cause => rw [hlocate] at h; cases h
    | ok place =>
        rw [hlocate] at h
        have hplace : place = t.spot p := eq_lead_of_walk (locate_eq_ok_iff.mp hlocate).2
        simp only [bind, Except.bind] at h
        split at h
        · rename_i m hm
          cases h
          exact ⟨by rw [hplace], by rw [← hplace, hm]⟩
        · cases h
  · rintro ⟨hlocate, hn⟩
    rw [hlocate]
    simp only [bind, Except.bind, hn]
    rfl

theorem find_eq_error_of_locate {cause : FileCause} (h : t.locate p = .error cause) :
    t.find p = .error cause := by
  unfold find
  rw [h]
  rfl

/-- What lies below a path that can be walked is found, unless its path is too long. -/
theorem find_below_of_walk {m : Node α} (hwalk : walk t.root (t.start p) p.parts = .ok (t.spot p))
    {parts : List Text} (hup : parentName ∉ parts)
    (hm : t.root.get? (t.spot p ++ parts) = some m) :
    t.find (p.below parts) = .ok m ∨ t.find (p.below parts) = .error .nameTooLong := by
  by_cases hlong : tooLong (p.below parts)
  · refine .inr (find_eq_error_of_locate ?_)
    rw [locate, if_pos hlong]
  · have hparts : t.locate (p.below parts) = walk t.root (t.spot p) parts := by
      rw [locate, if_neg hlong, Path.parts_below]
      exact walk_append hwalk
    rcases walk_of_there hup hm with hthere | hthere
    · refine .inl (find_eq_ok_iff.mpr ?_)
      rw [spot_below _ _ hup, hparts]
      exact ⟨hthere, hm⟩
    · exact .inr (find_eq_error_of_locate (hparts.trans hthere))

theorem find_below {n m : Node α} (hp : t.find p = .ok n) {parts : List Text}
    (hup : parentName ∉ parts) (hm : t.root.get? (t.spot p ++ parts) = some m) :
    t.find (p.below parts) = .ok m ∨ t.find (p.below parts) = .error .nameTooLong :=
  find_below_of_walk (locate_eq_ok_iff.mp (find_eq_ok_iff.mp hp).1).2 hup hm

/-- What stands where a path without `..` leads is found, unless the path is too long. -/
theorem find_of_there (hup : parentName ∉ p.parts) {n : Node α}
    (hn : t.root.get? (t.spot p) = some n) :
    t.find p = .ok n ∨ t.find p = .error .nameTooLong := by
  rw [spot_of_notMem t hup] at hn
  exact find_below_of_walk (p := ⟨p.anchor, []⟩) rfl hup hn

/-- What is found is seen, unless the machine refuses to show it. -/
theorem look_of_find {n : Node α} (h : t.find p = .ok n ∨ t.find p = .error .nameTooLong) :
    t.look p = .ok n ∨
      ∃ cause, t.look p = .error cause ∧ cause ≠ .missing ∧ cause ≠ .notFolder := by
  unfold look
  split
  · exact .inr ⟨_, rfl, by decide, by decide⟩
  · split
    · rename_i refusal _
      exact .inr ⟨_, rfl, by cases refusal <;> decide, by cases refusal <;> decide⟩
    · exact h.imp_right fun h => ⟨_, h, by decide, by decide⟩

theorem look_eq_of_short (h : tooLong p = false)
    (hbarred : barred t.guard t.root (t.start p) p.parts = none) : t.look p = t.find p := by
  rw [look, if_neg (by simp [h]), hbarred]

theorem look_eq_ok_iff {n : Node α} : t.look p = .ok n ↔
    barred t.guard t.root (t.start p) p.parts = none ∧ t.find p = .ok n := by
  constructor
  · intro h
    unfold look at h
    split at h
    · cases h
    · split at h
      · cases h
      · exact ⟨by assumption, h⟩
  · rintro ⟨hclear, hfind⟩
    have hshort := (locate_eq_ok_iff.mp (find_eq_ok_iff.mp hfind).1).1
    rw [look_eq_of_short hshort hclear, hfind]

theorem find_of_look {n : Node α} (h : t.look p = .ok n) : t.find p = .ok n :=
  (look_eq_ok_iff.mp h).2

theorem read_eq_ok_iff {n : Node α} :
    t.read p = .ok n ↔ t.look p = .ok n ∧ t.checkReading p = .ok () := by
  unfold read
  cases t.look p <;> cases t.checkReading p <;> simp [bind, Except.bind, pure, Except.pure]

theorem look_of_read {n : Node α} (h : t.read p = .ok n) : t.look p = .ok n :=
  (read_eq_ok_iff.mp h).1

theorem find_of_read {n : Node α} (h : t.read p = .ok n) : t.find p = .ok n :=
  find_of_look (look_of_read h)

theorem list_eq_ok_iff {entries : List (Text × Node α)} :
    t.list p = .ok entries ↔ t.read p = .ok (.folder entries) := by
  unfold list read
  cases t.look p with
  | error cause => exact iff_of_false nofun nofun
  | ok n =>
      simp only [bind, Except.bind]
      cases n <;> cases t.checkReading p <;> simp [pure, Except.pure, throw, throwThe]

theorem spot_eq_of_current (h : u.current = t.current) (p : Path) : u.spot p = t.spot p := by
  rw [spot, spot, start, start, h]

end Tree

end StaticSite
