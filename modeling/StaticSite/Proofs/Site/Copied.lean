import StaticSite.Proofs.Site.Listed
import StaticSite.Proofs.Site.Written

/-!
# What copying assets writes

The files below the assets folder are copied to their places below the output folder. A page that
stands at such a place, because it is a file below the assets folder itself, is overwritten; no
other page is.
-/

namespace StaticSite

open Builder Tree Path Node

/-- Where a copy is written: at the target or, if that is a folder, below it. -/
def Builder.copyTarget (source target : Path) (intoFolder : Bool) : Path :=
  if intoFolder then target.below [source.name] else target

theorem exists_copyTarget_eq {source : Path} (target : Path) (intoFolder : Bool)
    (hname : IsName source.name) :
    ∃ deep, (∀ name ∈ deep, IsName name) ∧ (deep = [] ∨ intoFolder = true) ∧
      copyTarget source target intoFolder = target.below deep := by
  cases intoFolder with
  | false => exact ⟨[], by simp, .inl rfl, by simp [copyTarget, below]⟩
  | true => exact ⟨[source.name], by simpa using hname, .inr rfl, rfl⟩

theorem Path.isName_name_below (p : Path) {place : List Text} (hne : place ≠ [])
    (hnames : ∀ name ∈ place, IsName name) : IsName (p.below place).name := by
  rw [Path.name, parts_below, List.getLast?_append, List.getLast?_eq_some_getLast hne]
  exact hnames _ (List.getLast_mem hne)

/-- A file that was copied from one path to another. -/
structure Builder.Copied (source target : Path) (t u : SiteTree) (intoFolder : Bool)
    (content : Content) : Prop where
  looked : Engine.Looks t (Engine.isFolder target) (.ok intoFolder)
  nameable : '\x00' ∉ source.text
  opened : t.read source = .ok (.file content)
  apart : t.samePlace source (copyTarget source target intoFolder) = false
  clean : '\x00' ∉ (copyTarget source target intoFolder).text
  written : t.writeFile (copyTarget source target intoFolder) content = .ok u

theorem Builder.Runs.copied {source target : Path} {w w' : World} {u : Unit}
    (h : (copyFile source target).Runs w u w') :
    ∃ intoFolder content, Copied source target w.tree w'.tree intoFolder content := by
  unfold copyFile at h
  obtain ⟨intoFolder, w₁, hinto, h⟩ := runs_bind_iff.mp h
  have hlooked := Engine.looks_isFolder.of_exec hinto.exec_observed
  dsimp only at h
  generalize hif : (if intoFolder then target.below [source.name] else target) = final at h
  have hfinal : copyTarget source target intoFolder = final := hif
  obtain ⟨w₂, w₃, hget, h⟩ := runs_bind_iff.mp h
  obtain ⟨rfl, rfl⟩ : w₁ = w₂ ∧ w₁ = w₃ := by
    cases hget
    exact ⟨rfl, rfl⟩
  have htree := hinto.tree_observe
  split at h
  · obtain ⟨_, w₄, hthrow, -⟩ := runs_bind_iff.mp h
    exact (not_runs_throw hthrow).elim
  · rename_i hsame
    obtain ⟨n, w₄, hopen, h⟩ := runs_bind_iff.mp h
    have hopened := hopen.exec_observed
    rw [Engine.looks_openNode, htree] at hopened
    obtain ⟨hnameable, hread⟩ := Engine.opened_eq_ok_iff.mp hopened
    cases n with
    | folder entries => exact (not_runs_throw h).elim
    | file content =>
        obtain ⟨hclean, hwrite⟩ := h.changed
        rw [hopen.tree_observe, htree, ← hfinal] at hwrite
        rw [htree, ← hfinal] at hsame
        rw [← hfinal] at hclean
        exact ⟨intoFolder, content, hlooked, hnameable, hread, by simpa using hsame, hclean, hwrite⟩

theorem assetsRoot_below {e : Environment} (h : IsName e.assetsDir) (place : List Text) :
    e.assetsRoot.below place = e.root.below (e.assetsDir :: place) := by
  rw [Environment.assetsRoot, child_name _ h, below_below]
  rfl

/-- What a build starts from: a proper tree in which the output path lies outside the root. -/
structure Setup (e : Environment) (out : Path) (t : SiteTree) : Prop where
  wellFormed : t.WellFormed
  assets : IsName e.assetsDir
  outside : ∀ deep, ¬t.spot out <+: t.spot e.root ++ deep

section Copies

variable {e : Environment} {out : Path} {t : SiteTree} {w w' : World} {place pl : List Text}
  {u : Unit} {raw content : Content}

namespace Setup

theorem names (hs : Setup e out t) {n : Node Content}
    (h : t.root.get? (t.spot e.root ++ place) = some n) : ∀ name ∈ place, IsName name :=
  fun name hname => hs.wellFormed.names _ _ h name (List.mem_append_right _ hname)

theorem names_cons (hs : Setup e out t) (hnames : ∀ name ∈ place, IsName name) :
    ∀ name ∈ e.assetsDir :: place, IsName name := by
  intro name hname
  rcases List.mem_cons.mp hname with rfl | hname
  · exact hs.assets
  · exact hnames name hname

theorem get?_file_iff (hs : Setup e out t) {v : SiteTree} (hv : AgreesOutside out t v) :
    v.root.get? (t.spot e.root ++ place) = some (.file content) ↔
      t.root.get? (t.spot e.root ++ place) = some (.file content) :=
  hv.files _ _ (hs.outside place)

/-- Whatever a build has made on the way to the output folder, none of it is named `..`. -/
theorem parentName_notMem (hs : Setup e out t) {v : SiteTree} (hv : AgreesOutside out t v)
    {n : Node Content} (h : v.root.get? (t.spot e.root ++ place) = some n) :
    parentName ∉ place := by
  rcases hv.fresh _ n h with ⟨m, hm⟩ | hbelow | ⟨parts, -, hspot⟩
  · exact Tree.parentName_notMem (hs.names hm)
  · exact absurd hbelow (hs.outside place)
  · intro hup
    have hlead : parentName ∈ t.spot ⟨out.anchor, parts⟩ := hspot ▸ List.mem_append_right _ hup
    rcases mem_lead hlead with hstart | ⟨-, hne⟩
    · unfold start at hstart
      split at hstart
      · cases hstart
      · exact hs.wellFormed.parentName_notMem_current hstart
    · exact hne rfl

/-- What is found below the root of a tree that a build reached is a file of the first tree. -/
theorem get?_of_find (hs : Setup e out t) {v : SiteTree} (hv : AgreesOutside out t v)
    (hup : parentName ∉ place) (h : v.find (e.root.below place) = .ok (.file content)) :
    t.root.get? (t.spot e.root ++ place) = some (.file content) := by
  obtain ⟨-, hfile⟩ := find_eq_ok_iff.mp h
  rw [Extends.spot hv, spot_below _ _ hup] at hfile
  exact (hs.get?_file_iff hv).mp hfile

end Setup

/-- A copy writes at the place that the asset has below the output folder, or below it if a folder
stands there. -/
theorem Builder.Runs.copied_asset (hs : Setup e out t) (hw : AgreesOutside out t w.tree)
    (hnames : ∀ name ∈ place, IsName name)
    (h : (copyFile (e.assetsRoot.below place)
      (out.below (e.assetsDir :: place))).Runs w u w') :
    ∃ content deep, t.root.get? (t.spot e.root ++ e.assetsDir :: place) = some (.file content) ∧
      (deep = [] ∨ ∃ entries,
        w.tree.find (out.below (e.assetsDir :: place)) = .ok (.folder entries)) ∧
      Extends out (fun q => q = t.spot out ++ (e.assetsDir :: place ++ deep)) w.tree w'.tree ∧
      w'.tree.find (out.below (e.assetsDir :: place ++ deep)) = .ok (.file content) := by
  obtain ⟨intoFolder, content, hinto, -, hopened, -, -, hwrite⟩ := h.copied
  have hsource := find_of_read hopened
  have hall := hs.names_cons hnames
  rw [assetsRoot_below hs.assets] at hsource hwrite
  have hcontent := hs.get?_of_find hw (parentName_notMem hall) hsource
  obtain ⟨deep, hdeep, hcase, hfinal⟩ := exists_copyTarget_eq
    (out.below (e.assetsDir :: place)) intoFolder
    (isName_name_below e.root (List.cons_ne_nil _ _) hall)
  rw [below_below] at hfinal
  have hthere : deep = [] ∨ ∃ entries,
      w.tree.find (out.below (e.assetsDir :: place)) = .ok (.folder entries) := by
    refine hcase.imp_right ?_
    rintro rfl
    exact Engine.find_of_isFolder (congrArg Prod.fst (hinto w.session))
  rw [hfinal] at hwrite
  have hup : parentName ∉ e.assetsDir :: place ++ deep := by
    refine parentName_notMem fun name hname => ?_
    exact (List.mem_append.mp hname).elim (hall name) (hdeep name)
  have htidy := hw.toSpares.tidy hs.wellFormed.toTidy
  have hmodules : ∀ module, content = .code module →
      ∃ q, w.tree.root.get? q = some (.file (.code module)) := by
    rintro module rfl
    exact ⟨_, (find_eq_ok_iff.mp hsource).2⟩
  obtain ⟨hextends, hfind⟩ := extends_of_writeFile htidy hup hmodules hwrite
  rw [Extends.spot hw] at hextends
  exact ⟨content, deep, hcontent, hthere, hextends, hfind⟩

/-- A copy changes a page just when the page is the asset that is copied. -/
theorem Builder.Runs.page_of_copied (hs : Setup e out t) (hw : AgreesOutside out t w.tree)
    (hnames : ∀ name ∈ place, IsName name)
    (h : (copyFile (e.assetsRoot.below place) (out.below (e.assetsDir :: place))).Runs w u w') :
    AgreesOutside out t w'.tree ∧ ∀ pl raw content,
      t.root.get? (t.spot e.root ++ pl) = some (.file raw) →
      w.tree.find (out.below pl) = .ok (.file content) →
      w'.tree.find (out.below pl) =
        .ok (.file (if pl = e.assetsDir :: place then raw else content)) := by
  obtain ⟨asset, deep, hasset, hcase, hextends, hfind⟩ := h.copied_asset hs hw hnames
  constructor
  · refine hw.trans (hextends.mono fun q hq => ?_)
    rw [hq, Extends.spot hw]
    exact List.prefix_append _ _
  · intro pl raw content hraw hpage
    have hup := parentName_notMem (hs.names hraw)
    by_cases hpl : pl = e.assetsDir :: place
    · subst hpl
      rw [if_pos rfl]
      cases hasset.symm.trans hraw
      rcases hcase with rfl | ⟨entries, hfolder⟩
      · rwa [List.append_nil] at hfind
      · cases hfolder.symm.trans hpage
    · rw [if_neg hpl]
      refine hextends.find_file hpage ?_
      rw [Extends.spot hw, spot_below _ _ hup]
      intro hplace
      rw [List.append_cancel_left hplace, ← List.append_assoc, get?_append hasset] at hraw
      cases deep with
      | nil => exact hpl (by rw [List.append_cancel_left hplace, List.append_nil])
      | cons name deep => cases hraw

/-- Once all assets are copied, a page holds what it held, or what its source holds if it is one of
them. -/
theorem page_of_copyEach (hs : Setup e out t) {places : List (List Text)} {copied : List Text}
    (hw : AgreesOutside out t w.tree)
    (hplaces : ∀ place ∈ places, ∀ name ∈ place, IsName name)
    (h : (copyEach e.assetsRoot e.assetsDir out places).Runs w copied w') :
    AgreesOutside out t w'.tree ∧ ∀ pl raw content,
      t.root.get? (t.spot e.root ++ pl) = some (.file raw) →
      w.tree.find (out.below pl) = .ok (.file content) →
      w'.tree.find (out.below pl) =
        .ok (.file (if ∃ place ∈ places, pl = e.assetsDir :: place then raw else content)) := by
  induction places generalizing w copied with
  | nil =>
      obtain ⟨-, rfl⟩ := runs_pure_iff.mp h
      refine ⟨hw, fun pl raw content _ hpage => ?_⟩
      simpa using hpage
  | cons place places ih =>
      have hnames := hplaces place (by simp)
      have hall := hs.names_cons hnames
      have htarget : out.child ((ofText e.assetsDir).below place).text =
          out.below (e.assetsDir :: place) := by
        rw [text_ofText_below hs.assets, child_slashed _ (List.cons_ne_nil _ _) hall]
      rw [copyEach, htarget] at h
      obtain ⟨_, w₁, hfolders, h⟩ := runs_bind_iff.mp h
      obtain ⟨_, w₂, hcopy, h⟩ := runs_bind_iff.mp h
      obtain ⟨rest, w₃, hrest, h⟩ := runs_bind_iff.mp h
      obtain ⟨-, rfl⟩ := runs_pure_iff.mp h
      have hparent : (out.below (e.assetsDir :: place)).parent.parts <+:
          out.parts ++ e.assetsDir :: place := List.dropLast_prefix _
      have hanchor : (out.below (e.assetsDir :: place)).parent.anchor = out.anchor := rfl
      have hmade := extends_makeFolders out (hw.toSpares.tidy hs.wellFormed.toTidy) hanchor hparent
        (parentName_notMem hall) hfolders
      have hw₁ : AgreesOutside out t w₁.tree := hw.trans (hmade.mono fun _ => False.elim)
      obtain ⟨hw₂, hcopied⟩ := hcopy.page_of_copied hs hw₁ hnames
      obtain ⟨hw₃, hlater⟩ := ih hw₂ (fun p hp => hplaces p (by simp [hp])) hrest
      refine ⟨hw₃, fun pl raw content hraw hpage => ?_⟩
      have hpage₁ := hmade.find_file hpage id
      have hpage₂ := hcopied pl raw content hraw hpage₁
      rw [hlater pl raw _ hraw hpage₂]
      by_cases hpl : pl = e.assetsDir :: place <;> simp [hpl]

end Copies

end StaticSite
