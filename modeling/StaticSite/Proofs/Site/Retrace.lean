import StaticSite.Proofs.Site.Frame

/-!
# Steps that are taken again

A build runs again over the tree that it has left, with what else was left besides. Wherever the
first run had come, the second comes to a tree of the final shape that holds the same inputs, and in
which each file is the one of the first run at that point or still the one that the second run has
begun with. One lemma for each kind of step says that this is kept.
-/

namespace StaticSite

open Builder Tree Path Node

/-! ## Actions that end well from every session -/

/-- Over the tree `t`, whatever was done before, the action ends well with the result `a`, and
`post` holds of the tree after it. -/
def Builder.Does {α : Type} (act : Builder α) (t : SiteTree) (a : α) (post : SiteTree → Prop) :
    Prop :=
  ∀ s, ∃ w', act.Runs ⟨t, s⟩ a w' ∧ post w'.tree

namespace Builder.Does

variable {α β : Type} {act : Builder α} {t u : SiteTree} {a : α} {b : β}
  {post last : SiteTree → Prop}

theorem pure (h : post t) : Does (Pure.pure a : Builder α) t a post :=
  fun s => ⟨⟨t, s⟩, runs_pure_iff.mpr ⟨rfl, rfl⟩, h⟩

theorem bind {next : α → Builder β} (h : Does act t a post)
    (hnext : ∀ u, post u → Does (next a) u b last) : Does (act >>= next) t b last := by
  intro s
  obtain ⟨⟨u, s'⟩, hact, hpost⟩ := h s
  obtain ⟨w', hlast, hw'⟩ := hnext u hpost s'
  exact ⟨w', runs_bind_iff.mpr ⟨a, ⟨u, s'⟩, hact, hlast⟩, hw'⟩

theorem observe {act : Engine α} (h : ∀ s, (act.exec t s).1 = .ok a) (hpost : post t) :
    Does (Builder.observe act) t a post := by
  intro s
  refine ⟨⟨t, (act.exec t s).2⟩, ?_, hpost⟩
  rw [Runs, exec_observe, h s]

/-- An action that only observes goes on from the same tree. -/
theorem observe_bind {act : Engine α} {next : α → Builder β}
    (h : ∀ s, (act.exec t s).1 = .ok a) (hnext : Does (next a) t b last) :
    Does (Builder.observe act >>= next) t b last := by
  have hact : Does (Builder.observe act) t a (· = t) := observe h rfl
  refine hact.bind ?_
  rintro u rfl
  exact hnext

theorem change {p : Path} {operation : SiteTree → Except FileCause SiteTree}
    (hnull : '\x00' ∉ p.text) (h : operation t = .ok u) (hpost : post u) :
    Does (Builder.change p operation) t () post := by
  intro s
  refine ⟨⟨u, s⟩, ?_, hpost⟩
  rw [Runs, exec_change, if_neg (by simpa using hnull), h]

end Builder.Does

/-! ## Folders that are there -/

section Folders

variable {t u : SiteTree} {w w' : World} {p : Path} {done : Unit}

theorem looks_isFolder_of_look {n : Node Content} (hnull : '\x00' ∉ p.text)
    (h : t.look p = .ok n) : Engine.Looks t (Engine.isFolder p) (.ok n.isFolder) := by
  intro s
  rw [Engine.looks_isFolder s, Engine.seen_of_look hnull h]
  rfl

/-- The folder is there and can be looked at. -/
def FolderThere (t : SiteTree) (p : Path) : Prop :=
  '\x00' ∉ p.text ∧ ∃ entries, t.look p = .ok (.folder entries)

theorem folderThere_of_isFolder {s : Session}
    (h : ((Engine.isFolder p).exec t s).1 = .ok true) : FolderThere t p := by
  obtain ⟨entries, hentries⟩ :=
    Engine.looks_isFolder_iff.mp (Engine.looks_isFolder.of_exec h)
  exact (Engine.seen_some hentries).imp_right fun hlook => ⟨entries, hlook⟩

theorem FolderThere.mono (h : FolderThere t p) (hu : t.Grows u) : FolderThere u p := by
  obtain ⟨hnull, entries, hlook⟩ := h
  obtain ⟨m, hm, hkind⟩ := hu.look hlook
  obtain ⟨entries', rfl⟩ := exists_of_isFolder hkind
  exact ⟨hnull, entries', hm⟩

theorem folderThere_of_unlessFolder {fault : Fault}
    (h : (unlessFolder p fault).Runs w done w') : FolderThere w'.tree p := by
  obtain ⟨there, w₁, hlook, h⟩ := runs_bind_iff.mp h
  split at h
  · rename_i hboth
    rw [Bool.and_eq_true] at hboth
    obtain ⟨-, rfl⟩ := runs_pure_iff.mp h
    have hthere := hlook.exec_observed
    rw [hboth.2] at hthere
    rw [hlook.tree_observe]
    exact folderThere_of_isFolder hthere
  · exact (not_runs_throw h).elim

/-- A folder that was made, or could not be made because it was there, is there. -/
theorem folderThere_of_tryCatch (ht : w.tree.Tidy) {missing : Fault → Builder Unit}
    (hmissing : ∀ fault w₁, w₁.tree = w.tree → (missing fault).Runs w₁ done w' →
      FolderThere w'.tree p)
    (h : (tryCatch (makeFolder p) (orElse p missing)).Runs w done w') : FolderThere w'.tree p := by
  rw [Runs, exec_tryCatch] at h
  cases hmake : (makeFolder p).exec w with
  | mk result after =>
      rw [hmake] at h
      cases result with
      | ok made =>
          cases h
          obtain ⟨hnull, hmade⟩ := Runs.changed hmake
          exact ⟨hnull, [], look_of_makeFolder ht hmade⟩
      | error fault =>
          have htree := (tame_change p (fun t => t.makeFolder p) w).2 fault after hmake
          have hrun : (orElse p missing fault).Runs after done w' := h
          unfold orElse at hrun
          split at hrun
          · exact hmissing _ after htree hrun
          · exact folderThere_of_unlessFolder hrun

theorem folderThere_of_makeFolders (hp : p.IsProper) (hw : w.tree.WellFormed)
    (h : (makeFolders p).Runs w done w') : FolderThere w'.tree p := by
  unfold makeFolders at h
  have hthrow : ∀ fault (w₁ : World), w₁.tree = w.tree →
      (throw fault : Builder Unit).Runs w₁ done w' → FolderThere w'.tree p :=
    fun _ _ _ h => (not_runs_throw h).elim
  cases hlength : p.parts.length with
  | zero =>
      rw [hlength, makeFoldersAbove_zero] at h
      exact folderThere_of_tryCatch hw.toTidy hthrow h
  | succ above =>
      rw [hlength, makeFoldersAbove_succ] at h
      refine folderThere_of_tryCatch hw.toTidy (fun fault w₁ htree hrun => ?_) h
      -- The parent was missing: it is made first, in a tree that stays proper.
      obtain ⟨_, w₂, habove, hlast⟩ := runs_bind_iff.mp hrun
      have hparent : p.parent.IsProper := hp.of_subset (List.dropLast_subset _)
      have hkeeps : Keeps (ChangesFrom w₁.tree (fun _ => False) fun _ => True)
          (makeFoldersAbove above p.parent) := keeps_foldersAbove hparent above
      have hmid := (hkeeps.runs habove (htree ▸ hw) rfl).1.wellFormed
      exact folderThere_of_tryCatch hmid.toTidy (fun _ _ _ h => (not_runs_throw h).elim) hlast

theorem exists_makeFoldersAbove_eq (above : Nat) (p : Path) :
    ∃ missing, makeFoldersAbove above p = tryCatch (makeFolder p) (orElse p missing) := by
  cases above with
  | zero => exact ⟨_, makeFoldersAbove_zero p⟩
  | succ above => exact ⟨_, makeFoldersAbove_succ above p⟩

theorem does_unlessFolder (h : FolderThere t p) {fault : Fault} (hfault : fault.isFileFault)
    {post : SiteTree → Prop} (hpost : post t) : Does (unlessFolder p fault) t () post := by
  obtain ⟨hnull, entries, hlook⟩ := h
  refine Does.observe_bind (fun s => congrArg Prod.fst (looks_isFolder_of_look hnull hlook s)) ?_
  rw [hfault]
  exact Does.pure hpost

/-- Where a folder is there already, making it and the folders above it changes nothing. -/
theorem does_makeFolders (h : FolderThere t p) {post : SiteTree → Prop} (hpost : post t) :
    Does (makeFolders p) t () post := by
  obtain ⟨missing, hmissing⟩ := exists_makeFoldersAbove_eq p.parts.length p
  rw [makeFolders, hmissing]
  intro s
  have hmake : (makeFolder p).exec ⟨t, s⟩ = (.error (.file .alreadyThere p), ⟨t, s⟩) := by
    obtain ⟨hnull, entries, hlook⟩ := h
    rw [Builder.makeFolder, exec_change, if_neg (by simpa using hnull), makeFolder_of_look hlook]
  have hfile : (Fault.file .alreadyThere p).isFileFault := rfl
  obtain ⟨w', hunless, hw'⟩ := does_unlessFolder h hfile hpost s
  refine ⟨w', ?_, hw'⟩
  rw [Runs, exec_tryCatch, hmake]
  exact hunless

end Folders

theorem Builder.Copied.does {source target : Path} {t u : SiteTree} {intoFolder : Bool}
    {content : Content} (h : Copied source target t u intoFolder content)
    {post : SiteTree → Prop} (hpost : post u) : Does (copyFile source target) t () post := by
  obtain ⟨hlooked, hnameable, hopened, hapart, hclean, hwritten⟩ := h
  refine Does.observe_bind (fun s => congrArg Prod.fst (hlooked s)) ?_
  dsimp only
  generalize hif : (if intoFolder then target.below [source.name] else target) = final
  have hfinal : copyTarget source target intoFolder = final := hif
  rw [hfinal] at hapart hclean hwritten
  have hchange : Does (Builder.change final fun t => t.writeFile final content) t () post :=
    Does.change hclean hwritten hpost
  intro s
  obtain ⟨w', hruns, hw'⟩ := hchange s
  refine ⟨w', ?_, hw'⟩
  rw [Runs, exec_bind]
  change (if t.samePlace source final then _ else _ : Builder Unit).exec ⟨t, s⟩ = _
  rw [if_neg (by simp [hapart]), exec_bind, exec_observe,
    Engine.looks_openNode s, Engine.opened_eq_ok_iff.mpr ⟨hnameable, hopened⟩]
  exact hruns

/-! ## Two runs side by side -/

/-- Both trees have the same file at the place, or neither has one. -/
def Tree.AgreeAt (t u : SiteTree) (q : List Text) : Prop :=
  ∀ content, u.root.get? q = some (.file content) ↔ t.root.get? q = some (.file content)

/-- The same file put into both trees leaves them with the same files wherever they had the same. -/
theorem Tree.AgreeAt.placed {t u x y : SiteTree} {place q : List Text} {n : Node Content}
    (h : Placed place n t.root u.root) (h' : Placed place n x.root y.root)
    (hq : q = place ∨ AgreeAt t x q) : AgreeAt u y q := by
  intro other
  by_cases hplace : q = place
  · rw [hplace, h.at_place, h'.at_place]
  · have hagree := hq.resolve_left hplace
    exact ((h'.files q other hplace).trans (hagree other)).trans (h.files q other hplace).symm

/-- A tree that comes after the first one, with files written at some places, and holds nothing that
the last one does not hold in the same kind. -/
structure Between (written : List Text → Prop) (first last t : SiteTree) : Prop
    extends Changes written first t where
  bound : t.root.KeepsKinds last.root

theorem Between.mono {written more : List Text → Prop} {first last t : SiteTree}
    (h : Between written first last t) (hmore : ∀ q, written q → more q) :
    Between more first last t :=
  ⟨h.toChanges.mono hmore, h.bound⟩

/-- The tree before a first run and the one in which a second begins, the places at which a run may
write, those at which files were left besides, and those of files that a run copies. -/
structure Rerun where
  first : SiteTree
  last : SiteTree
  written : List Text → Prop
  left : List Text → Prop
  input : List Text → Prop

/-- The places at which the two trees of the runs may differ. -/
def Rerun.Touched (r : Rerun) (q : List Text) : Prop := r.written q ∨ r.left q

/-- A run may come to the tree: what was left besides the runs is in it as it is in the first tree,
or as it is in the last one. -/
structure Rerun.Meets (r : Rerun) (t : SiteTree) : Prop extends
    Between r.Touched r.first r.last t where
  beside : (∀ q, r.left q → AgreeAt r.first t q) ∨ ∀ q, r.left q → AgreeAt r.last t q

/-- The first run has come to the tree `t`, and the second, which began in the last tree, to the
tree `x`. -/
structure Rerun.Tracks (r : Rerun) (t x : SiteTree) : Prop where
  ahead : Between r.written r.first r.last t
  behind : Between r.Touched r.first r.last x
  shape : r.last.root.KeepsKinds x.root
  settled : ∀ q, (r.written q ∧ AgreeAt t x q) ∨ AgreeAt r.last x q
  inputs : ∀ q, r.input q → AgreeAt t x q

namespace Rerun.Tracks

variable {r : Rerun} {t u x : SiteTree} {p source target : Path} {content : Content}

/-- At first the second run is at the tree in which it begins. -/
theorem start (hfirst : r.first.WellFormed) (h : Changes r.Touched r.first r.last)
    (hinputs : ∀ q, r.input q → AgreeAt r.first r.last q) : r.Tracks r.first r.last where
  ahead := ⟨.refl hfirst, h.kinds⟩
  behind := ⟨h, .refl _⟩
  shape := .refl _
  settled := fun _ => .inr fun _ => Iff.rfl
  inputs := hinputs

theorem grows (h : r.Tracks t x) : t.Grows x where
  current := h.behind.current.trans h.ahead.current.symm
  guard := h.behind.guard.trans h.ahead.guard.symm
  kinds := h.ahead.bound.trans h.shape

theorem meets_ahead (h : r.Tracks t x) (hapart : ∀ q, r.left q → ¬r.written q) : r.Meets t where
  toBetween := h.ahead.mono fun _ => .inl
  beside := .inl fun q hleft content => h.ahead.files q content (hapart q hleft)

theorem meets_behind (h : r.Tracks t x) (hapart : ∀ q, r.left q → ¬r.written q) : r.Meets x where
  toBetween := h.behind
  beside := .inr fun q hleft =>
    (h.settled q).resolve_left fun hwritten => hapart q hleft hwritten.1

/-- The second run sees what the first one has just made or written. -/
theorem look (h : r.Tracks t x) (hu : Changes r.written t u)
    (hbound : u.root.KeepsKinds r.last.root) {n : Node Content} (hn : u.look p = .ok n) :
    ∃ m, x.look p = .ok m ∧ m.isFolder = n.isFolder := by
  have hgrows : u.Grows x :=
    ⟨h.grows.current.trans hu.current.symm, h.grows.guard.trans hu.guard.symm,
      hbound.trans h.shape⟩
  exact hgrows.look hn

/-- Folders that the first run makes are there in the second. -/
theorem folders (h : r.Tracks t x) (hu : Changes (fun _ => False) t u)
    (hbound : u.root.KeepsKinds r.last.root) : r.Tracks u x := by
  have hagree (q : List Text) (hq : AgreeAt t x q) : AgreeAt u x q :=
    fun content => (hq content).trans (hu.files q content id).symm
  constructor
  case ahead => exact ⟨h.ahead.trans (hu.mono fun _ => False.elim), hbound⟩
  case behind => exact h.behind
  case shape => exact h.shape
  case settled => exact fun q => (h.settled q).imp_left (And.imp_right (hagree q))
  case inputs => exact fun q hq => hagree q (h.inputs q hq)

/-- What the first run writes, the second can write too, as a file is there already. -/
theorem write (h : r.Tracks t x) (hp : p.IsProper) (hnull : '\x00' ∉ p.text)
    (hplace : r.written (r.first.spot p))
    (hmodules : ∀ module, content = .code module →
      (∃ q, t.root.get? q = some (.file (.code module))) ∧
        ∃ q, x.root.get? q = some (.file (.code module)))
    (hwrite : t.writeFile p content = .ok u) (hbound : u.root.KeepsKinds r.last.root) :
    ∃ y, x.writeFile p content = .ok y ∧ r.Tracks u y := by
  have hmade := made_of_writeFile h.ahead.wellFormed.toTidy hwrite
  have hspot : t.spot p = r.first.spot p := h.ahead.spot p
  have hspot' : x.spot p = t.spot p := h.grows.spot p
  have hu : Changes r.written t u := by
    have hchanges := changes_of_writeFile h.ahead.wellFormed hp hnull
      (fun module hmodule => (hmodules module hmodule).1) hwrite
    refine hchanges.mono ?_
    rintro q rfl
    rwa [hspot]
  -- The first run has left a file at the place, which is what the second run overwrites.
  have hwritten := look_of_writeFile h.ahead.wellFormed.toTidy hwrite
  obtain ⟨m, hm, hkind⟩ := h.look hu hbound hwritten
  obtain ⟨old, rfl⟩ := exists_of_not_isFolder hkind
  have hwrite' : x.writeFile p content = .ok (x.putAt (x.spot p) (.file content)) :=
    writeFile_of_look hm
  refine ⟨_, hwrite', ?_⟩
  generalize x.putAt (x.spot p) (.file content) = y at hwrite'
  have hmade' := made_of_writeFile h.behind.wellFormed.toTidy hwrite'
  have hy : Changes r.Touched x y := by
    have hchanges := changes_of_writeFile h.behind.wellFormed hp hnull
      (fun module hmodule => (hmodules module hmodule).2) hwrite'
    refine hchanges.mono ?_
    rintro q rfl
    exact .inl (by rwa [hspot', hspot])
  have hback : y.root.KeepsKinds x.root :=
    hmade'.keepsKinds_back ⟨_, (find_eq_ok_iff.mp (find_of_look hm)).2, rfl⟩
  have hagree {q : List Text} (hq : q = t.spot p ∨ AgreeAt t x q) : AgreeAt u y q :=
    AgreeAt.placed hmade.placed (hspot' ▸ hmade'.placed) hq
  constructor
  case ahead => exact ⟨h.ahead.trans hu, hbound⟩
  case behind => exact ⟨h.behind.trans hy, hback.trans h.behind.bound⟩
  case shape => exact h.shape.trans hy.kinds
  case settled =>
    intro q
    by_cases hq : q = t.spot p
    · exact .inl ⟨by rwa [hq, hspot], hagree (.inl hq)⟩
    · refine (h.settled q).imp (And.imp_right fun hsame => hagree (.inr hsame)) ?_
      intro hlast other
      exact (hmade'.placed.files q other (hspot' ▸ hq)).trans (hlast other)
  case inputs => exact fun q hinput => hagree (.inr (h.inputs q hinput))

/-- What the first run reads from an input, the second reads too. -/
theorem read_input (h : r.Tracks t x) (hinput : r.input (r.first.spot p))
    (hread : t.read p = .ok (.file content)) : x.read p = .ok (.file content) := by
  have hfound := find_of_read hread
  obtain ⟨m, hm, hkind⟩ := h.grows.find hfound
  obtain ⟨other, rfl⟩ := exists_of_not_isFolder hkind
  have hother := (find_eq_ok_iff.mp hm).2
  rw [h.behind.spot] at hother
  have hsame := (h.inputs _ hinput other).mp hother
  rw [← h.ahead.spot, (find_eq_ok_iff.mp hfound).2] at hsame
  rw [← Node.file.inj (Option.some.inj hsame)] at hm
  exact h.grows.read_of_find hread hm

/-- The second run copies into a folder just where the first one did. -/
theorem looks_target (h : r.Tracks t x) {intoFolder : Bool}
    (hcopied : Copied source target t u intoFolder content) (hu : Changes r.written t u)
    (hbound : u.root.KeepsKinds r.last.root) :
    Engine.Looks x (Engine.isFolder target) (.ok intoFolder) := by
  -- Where the target is no folder, the copy itself makes it the file that the second run sees.
  obtain ⟨hclear, n, hn, rfl⟩ :
      '\x00' ∉ target.text ∧ ∃ n, u.look target = .ok n ∧ n.isFolder = intoFolder := by
    cases intoFolder with
    | false =>
        exact ⟨hcopied.clean, _, look_of_writeFile h.ahead.wellFormed.toTidy hcopied.written, rfl⟩
    | true =>
        have hthere := folderThere_of_isFolder (congrArg Prod.fst (hcopied.looked .start))
        obtain ⟨hclear, entries, hn⟩ := hthere.mono hu.toGrows
        exact ⟨hclear, _, hn, rfl⟩
  obtain ⟨m, hm, hkind⟩ := h.look hu hbound hn
  exact hkind ▸ looks_isFolder_of_look hclear hm

/-- What the first run copies, the second copies too. -/
theorem copy (h : r.Tracks t x) {intoFolder : Bool}
    (hcopied : Copied source target t u intoFolder content)
    (hsource : r.input (r.first.spot source)) (htarget : target.IsProper)
    (hname : IsName source.name)
    (hplace : ∀ deep, (∀ name ∈ deep, IsName name) → r.written (r.first.spot target ++ deep))
    (hbound : u.root.KeepsKinds r.last.root) :
    ∃ y, Copied source target x y intoFolder content ∧ r.Tracks u y := by
  have hu : Changes r.written t u := by
    obtain ⟨deep, hdeep, hchanges⟩ := hcopied.changes h.ahead.wellFormed htarget hname
    refine hchanges.mono ?_
    rintro q rfl
    rw [h.ahead.spot]
    exact hplace deep hdeep
  have hlooked := h.looks_target hcopied hu hbound
  have hopened := h.read_input hsource hcopied.opened
  obtain ⟨-, hnameable, hread, hapart, hclean, hwritten⟩ := hcopied
  have hfirst := find_of_read hread
  have hmodules : ∀ module, content = .code module →
      (∃ q, t.root.get? q = some (.file (.code module))) ∧
        ∃ q, x.root.get? q = some (.file (.code module)) := by
    rintro module rfl
    exact ⟨⟨_, (find_eq_ok_iff.mp hfirst).2⟩, ⟨_, (find_eq_ok_iff.mp (find_of_read hopened)).2⟩⟩
  obtain ⟨deep, hdeep, -, hfinal⟩ := exists_copyTarget_eq target intoFolder hname
  have hproper : (copyTarget source target intoFolder).IsProper := hfinal ▸ htarget.below hdeep
  have hgoes : r.written (r.first.spot (copyTarget source target intoFolder)) := by
    rw [hfinal, spot_below _ _ (parentName_notMem hdeep)]
    exact hplace deep hdeep
  obtain ⟨y, hwritten', htracks⟩ := h.write hproper hclean hgoes hmodules hwritten hbound
  refine ⟨y, ⟨hlooked, hnameable, hopened, ?_, hclean, hwritten'⟩, htracks⟩
  -- The places were apart in the first run, where the target need not have been there yet.
  obtain ⟨parent, name, hreaches⟩ := exists_reaches_of_writeFile h.ahead.wellFormed.toTidy hwritten
  refine Bool.eq_false_iff.mpr fun hsame => hreaches.spot_ne hfirst hapart ?_
  have hspot := spot_eq_of_samePlace hsame
  rwa [h.grows.spot, h.grows.spot] at hspot

end Rerun.Tracks

/-! ## What a second run repeats -/

/-- The second run does over any tree that it comes to what the first has done, with the same
result. -/
structure Rerun.Repeats {α : Type} (r : Rerun) (act : Builder α) : Prop where
  keeps : Keeps (ChangesFrom r.first r.written fun _ => True) act
  again : ∀ {w a w' x}, act.Runs w a w' → r.Tracks w.tree x →
    w'.tree.root.KeepsKinds r.last.root → Does act x a (r.Tracks w'.tree)

namespace Rerun.Repeats

variable {α β : Type} {r : Rerun} {p source target : Path}

theorem pure (a : α) : r.Repeats (Pure.pure a : Builder α) := by
  refine ⟨keeps_pure stepwise_changesFrom a, fun hruns htracks _ => ?_⟩
  obtain ⟨rfl, rfl⟩ := runs_pure_iff.mp hruns
  exact Does.pure htracks

theorem bind {act : Builder α} {next : α → Builder β} (h : r.Repeats act)
    (hnext : ∀ a, r.Repeats (next a)) : r.Repeats (act >>= next) := by
  refine ⟨h.keeps.bind stepwise_changesFrom fun a => (hnext a).keeps, ?_⟩
  intro w b w' x hruns htracks hbound
  obtain ⟨a, mid, hact, hlast⟩ := runs_bind_iff.mp hruns
  obtain ⟨hmid, -⟩ := h.keeps.runs hact htracks.ahead.wellFormed htracks.ahead.current
  obtain ⟨hrest, -⟩ := (hnext a).keeps.runs hlast hmid.wellFormed
    (hmid.current.trans htracks.ahead.current)
  refine (h.again hact htracks (hrest.kinds.trans hbound)).bind fun y hy => ?_
  exact (hnext a).again hlast hy hbound

/-- What is observed in both runs must be the same. -/
theorem observe {act : Engine α}
    (hkeeps : Keeps (ChangesFrom r.first r.written fun _ => True) (Builder.observe act))
    (h : ∀ {t x s a}, r.Tracks t x → (act.exec t s).1 = .ok a →
      ∀ s', (act.exec x s').1 = .ok a) : r.Repeats (Builder.observe act) := by
  refine ⟨hkeeps, fun {w a w' x} hruns htracks _ => ?_⟩
  rw [hruns.tree_observe]
  exact Does.observe (h htracks hruns.exec_observed) htracks

theorem info (message : Text) : r.Repeats (Builder.info message) :=
  observe (keeps_info stepwise_changesFrom message) fun _ _ _ => rfl

theorem makeFolders (hp : p.IsProper) : r.Repeats (Builder.makeFolders p) := by
  refine ⟨keeps_makeFolders hp, fun {w a w' x} hruns htracks hbound => ?_⟩
  have hchanges := changes_makeFolders hp w htracks.ahead.wellFormed rfl
  rw [hruns] at hchanges
  have hthere := folderThere_of_makeFolders hp htracks.ahead.wellFormed hruns
  have htracks' := htracks.folders hchanges hbound
  exact does_makeFolders (hthere.mono htracks'.grows) htracks'

theorem writeText (hp : p.IsProper) (hplace : r.written (r.first.spot p)) (s : Text) :
    r.Repeats (Builder.writeText p s) := by
  refine ⟨keeps_writeText hp hplace s, fun hruns htracks hbound => ?_⟩
  obtain ⟨hnull, hwrite⟩ := hruns.changed
  obtain ⟨y, hwrite', htracks'⟩ :=
    htracks.write hp hnull hplace (fun module h => by cases h) hwrite hbound
  exact Does.change hnull hwrite' htracks'

theorem copyFile (hsource : r.input (r.first.spot source)) (htarget : target.IsProper)
    (hname : IsName source.name)
    (hplace : ∀ deep, (∀ name ∈ deep, IsName name) → r.written (r.first.spot target ++ deep)) :
    r.Repeats (Builder.copyFile source target) := by
  refine ⟨keeps_copyFile htarget hname hplace, fun hruns htracks hbound => ?_⟩
  obtain ⟨intoFolder, content, hcopied⟩ := hruns.copied
  obtain ⟨y, hcopied', htracks'⟩ := htracks.copy hcopied hsource htarget hname hplace hbound
  exact hcopied'.does htracks'

end Rerun.Repeats

end StaticSite
