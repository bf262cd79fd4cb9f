import StaticSite.Proofs.Component.Reach
import StaticSite.Proofs.Site.Frame
import StaticSite.Site.Starter

/-!
# What a new site writes

Writing a new site makes folders and writes the starter files, each at its place below the target.
However far it comes, a file that was there before either is as it was or stands at the place of a
starter file and has that one's text. A target that counts as empty has no such place taken.
-/

namespace StaticSite

open Builder Tree Path Node Engine

/-! ## Targets that count as empty -/

namespace Starter

variable {t : SiteTree} {p : Path}

/-- What comes of looking whether a path leads nowhere or to a folder without entries. -/
def emptiness (t : SiteTree) (p : Path) : Except Fault Bool := do
  match ← seen t p with
  | none => return true
  | some (.file _) => return false
  | some (.folder _) => return (← listing t p).isEmpty

theorem looks_isEmptyFolder : Looks t (isEmptyFolder p) (emptiness t p) := by
  refine looks_find?.bind fun there => ?_
  rcases there with _ | content | entries
  · exact .pure true
  · exact .pure false
  · exact looks_openFolder.bind fun entries => .pure _

/-- Nothing stands below a path that leads nowhere or to a folder without entries. -/
theorem get?_below_of_isEmptyFolder (ht : t.WellFormed) (hup : parentName ∉ p.parts) {s : Session}
    (hempty : ((isEmptyFolder p).exec t s).1 = .ok true) {rest : List Text} (hrest : rest ≠ []) :
    t.root.get? (t.spot p ++ rest) = none := by
  rw [looks_isEmptyFolder s] at hempty
  refine Option.eq_none_iff_forall_ne_some.mpr fun n hn => ?_
  obtain ⟨entries, hfolder⟩ := exists_folder_of_append hrest hn
  have hnull : '\x00' ∉ p.text := by
    rw [null_mem_text_iff]
    rintro ⟨part, hpart, hmem⟩
    have hspot : part ∈ t.spot p := by
      rw [spot_of_notMem t hup]
      exact List.mem_append_right _ hpart
    exact (ht.names _ _ hfolder part hspot).2.2.1 hmem
  have hadmits : Admits t p := by
    intro cause hrefused
    rw [emptiness, seen_error_iff.mpr ⟨cause, hrefused, rfl⟩] at hempty
    cases hempty
  have hlook : t.look p = .ok (.folder entries) := by
    have hsame := look_eq_find hadmits hnull
    rcases find_of_there hup hfolder with hfind | hlong
    · rw [hsame, hfind]
    · rw [hlong] at hsame
      exact (hadmits _ ⟨hnull, hsame, by decide, by decide⟩).elim
  rw [emptiness, seen_of_look hnull hlook] at hempty
  have hempty : (listing t p >>= fun entries => return entries.isEmpty) = .ok true := hempty
  obtain ⟨listed, hlisted, hempty⟩ := bind_eq_ok_iff.mp hempty
  have hread := list_eq_ok_iff.mp (listing_eq_ok_iff.mp hlisted).2
  cases hlook.symm.trans (look_of_read hread)
  have hentries : entries = [] := List.isEmpty_iff.mp (Except.ok.inj hempty)
  rw [get?_append hfolder, hentries] at hn
  cases rest with
  | nil => exact hrest rfl
  | cons name rest => cases hn

/-! ## Writing the files -/

/-- Files were written: each that is there afterwards was there before or is one of those given. -/
structure Writes (texts : List Text → Content → Prop) (t u : SiteTree) : Prop
    extends Changes (fun q => ∃ content, texts q content) t u where
  contents : ∀ q content, u.root.get? q = some (.file content) →
    t.root.get? q = some (.file content) ∨ texts q content

section Writes

variable {base t u v : SiteTree} {texts : List Text → Content → Prop} {p target : Path}

theorem Writes.of_changes (h : Changes (fun _ => False) t u) : Writes texts t u :=
  ⟨h.mono fun _ => False.elim, fun q content hq => .inl ((h.files q content id).mp hq)⟩

theorem Writes.trans (h : Writes texts t u) (h' : Writes texts u v) : Writes texts t v := by
  refine ⟨h.toChanges.trans h'.toChanges, fun q content hq => ?_⟩
  rcases h'.contents q content hq with hu | hnew
  · exact h.contents q content hu
  · exact .inr hnew

/-- A file that was there is as it was, or is one of those given now. -/
theorem Writes.file_or (h : Writes texts t u) {q : List Text} {content : Content}
    (hq : t.root.get? q = some (.file content)) :
    u.root.get? q = some (.file content) ∨
      ∃ new, texts q new ∧ u.root.get? q = some (.file new) := by
  obtain ⟨m, hm, hkind⟩ := h.kinds q _ hq
  obtain ⟨new, rfl⟩ := exists_of_not_isFolder hkind
  rcases h.contents q new hm with hold | hnew
  · cases hold.symm.trans hq
    exact .inl hm
  · exact .inr ⟨new, hnew, hm⟩

/-- From any tree that a file system can hold and that is seen from the same folder, the given files
are written and no others. -/
def WritesFrom (base : SiteTree) (texts : List Text → Content → Prop) (w w' : World) : Prop :=
  w.tree.WellFormed → w.tree.current = base.current → Writes texts w.tree w'.tree

theorem stepwise_writesFrom : Stepwise (WritesFrom base texts) where
  refl := fun _ ht _ => .of_changes (.refl ht)
  trans := by
    intro w₁ w₂ w₃ hfirst hlater ht hcurrent
    have hmid := hfirst ht hcurrent
    exact hmid.trans (hlater hmid.wellFormed (hmid.current.trans hcurrent))
  logged := fun _ _ ht _ => .of_changes (.refl ht)

theorem writes_makeFolders (hp : p.IsProper) : Keeps (WritesFrom base texts) (makeFolders p) := by
  intro w ht hcurrent
  exact .of_changes (changes_makeFolders hp w ht hcurrent)

theorem writes_writeText (hp : p.IsProper) {s : Text}
    (htexts : texts (base.spot p) (.bytes (Text.encodeUtf8 s))) :
    Keeps (WritesFrom base texts) (writeText p s) := by
  refine keeps_change stepwise_writesFrom fun hnull w u hwrite ht hcurrent => ?_
  have hchanges := changes_of_writeFile ht hp hnull (fun module h => by cases h) hwrite
  have hmade := made_of_writeFile ht.toTidy hwrite
  have hspot := spot_eq_of_current hcurrent p
  refine ⟨hchanges.mono fun q hq => ⟨_, hq ▸ hspot ▸ htexts⟩, fun q content hq => ?_⟩
  by_cases hplace : q = w.tree.spot p
  · rw [hplace, hmade.placed.at_place] at hq
    cases hq
    exact .inr (hplace ▸ hspot ▸ htexts)
  · exact .inl ((hchanges.files q content hplace).mp hq)

theorem writes_writeEach (htarget : target.IsProper) (name : Text)
    {files : List (Text × (Text → Text))}
    (htexts : ∀ f ∈ files,
      texts (base.spot (target.child f.1)) (.bytes (Text.encodeUtf8 (f.2 name)))) :
    Keeps (WritesFrom base texts) (writeEach target name files) := by
  have hR := @stepwise_writesFrom base texts
  induction files with
  | nil => exact keeps_pure hR []
  | cons f files ih =>
      have hpath := htarget.child f.1
      have hparent : (target.child f.1).parent.IsProper :=
        hpath.of_subset (List.dropLast_subset _)
      refine (writes_makeFolders hparent).bind hR fun _ => ?_
      refine (writes_writeText hpath (htexts f (by simp))).bind hR fun _ => ?_
      have hrest := ih fun other hother => htexts other (by simp [hother])
      exact hrest.bind hR fun _ => keeps_pure hR _

end Writes

section Create

variable {base : SiteTree} {name : Text} {w : World} {target : Path} {q : List Text}
  {content : Content}

theorem leadsDown_files : ∀ f ∈ files, LeadsDown f.1 := by
  have hdown : ∀ f ∈ files, (ofText f.1).isAbsolute = false ∧ (ofText f.1).parts ≠ [] ∧
      parentName ∉ (ofText f.1).parts := by decide
  intro f hf
  obtain ⟨hrelative, hparts, hup⟩ := hdown f hf
  exact ⟨hrelative, hparts, hup⟩

/-- A new site of the name at `place` has at `q` a starter file with this content. -/
def IsStarterFile (place : List Text) (name : Text) (q : List Text) (content : Content) : Prop :=
  ∃ f ∈ files, q = place ++ (ofText f.1).parts ∧ content = .bytes (Text.encodeUtf8 (f.2 name))

theorem writes_create (target : Path) (htarget : target.IsProper) :
    Keeps (WritesFrom base (IsStarterFile (base.spot target) name)) (create target name) := by
  refine writes_writeEach htarget name fun f hf => ⟨f, hf, ?_, rfl⟩
  exact spot_child_of_leadsDown base (leadsDown_files f hf) target

/-- However writing a new site ends, a file that was there is as it was or is now a starter file. -/
theorem file_of_create (ht : w.tree.WellFormed) (htarget : target.IsProper)
    (hq : w.tree.root.get? q = some (.file content)) :
    ((create target name).exec w).2.tree.root.get? q = some (.file content) ∨
      ∃ new, IsStarterFile (w.tree.spot target) name q new ∧
        ((create target name).exec w).2.tree.root.get? q = some (.file new) :=
  (writes_create target htarget w ht rfl).file_or hq

/-- In a target that counts as empty no file is in the way of a new site. -/
theorem file_of_create_of_isEmptyFolder (ht : w.tree.WellFormed) (htarget : target.IsProper)
    (hup : parentName ∉ target.parts) {s : Session}
    (hempty : ((isEmptyFolder target).exec w.tree s).1 = .ok true)
    (hq : w.tree.root.get? q = some (.file content)) :
    ((create target name).exec w).2.tree.root.get? q = some (.file content) := by
  refine (file_of_create ht htarget hq).resolve_right ?_
  rintro ⟨new, ⟨f, hf, rfl, -⟩, -⟩
  rw [get?_below_of_isEmptyFolder ht hup hempty (leadsDown_files f hf).some_part] at hq
  cases hq

end Create

end Starter

end StaticSite
