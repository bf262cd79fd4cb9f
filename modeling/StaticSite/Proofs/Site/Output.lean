import StaticSite.Proofs.Site.Blocks
import StaticSite.Proofs.Site.Copied
import StaticSite.Proofs.Site.Remains

/-!
# Pages in the output folder

After a build the output folder holds every page: its compiled form, unless the page lies below the
assets folder, where the copy of its source has overwritten that.
-/

namespace StaticSite

open Builder Tree Path Node

namespace Tree

variable {α : Type} {t : Tree α}

/-- Neither path leads to a place at or below the other's. -/
def Apart (t : Tree α) (p q : Path) : Prop :=
  ¬(t.resolve p).parts <+: (t.resolve q).parts ∧ ¬(t.resolve q).parts <+: (t.resolve p).parts

instance (t : Tree α) (p q : Path) : Decidable (t.Apart p q) :=
  inferInstanceAs (Decidable (_ ∧ _))

theorem Apart.not_below {p q : Path} (h : t.Apart p q) (ht : t.WellFormed) (deep : List Text) :
    ¬t.spot q <+: t.spot p ++ deep := by
  have hup := ht.parentName_notMem_current
  rw [Apart, parts_resolve hup, parts_resolve hup] at h
  intro hbelow
  rcases List.prefix_or_prefix_of_prefix hbelow (List.prefix_append _ deep) with hq | hp
  · exact h.2 hq
  · exact h.1 hp

end Tree

section Build

variable {e : Environment} {out : Path} {t : SiteTree} {w w' : World}

/-- What is listed below the assets folder are files of the first tree. -/
theorem exists_of_mem_listedBelow (hs : Setup e out t) {v : SiteTree} (hv : AgreesOutside out t v)
    {entries : List (Text × Node Content)} (hlook : v.look e.assetsRoot = .ok (.folder entries))
    {places : List (List Text)} (hplaces : listedBelow v e.assetsRoot = .ok places)
    {place : List Text} (hplace : place ∈ places) : place ≠ [] ∧ ∃ content,
      t.root.get? (t.spot e.root ++ e.assetsDir :: place) = some (.file content) := by
  have hup : parentName ∉ [e.assetsDir] := parentName_notMem (by simpa using hs.assets)
  have hspot : v.spot e.assetsRoot = t.spot e.root ++ [e.assetsDir] := by
    rw [Environment.assetsRoot, child_name _ hs.assets, spot_below _ _ hup, Extends.spot hv]
  obtain ⟨-, hfolder⟩ := find_eq_ok_iff.mp (find_of_look hlook)
  have hordered := (hv.toSpares.tidy hs.wellFormed.toTidy).ordered.get? hfolder
  obtain ⟨hne, ⟨m, hm⟩, -, content, hseen⟩ :=
    (mem_listedBelow_iff hordered hlook hplaces).mp hplace
  refine ⟨hne, content, ?_⟩
  rw [← get?_append hfolder, hspot, List.append_assoc, List.singleton_append] at hm
  have hdown := hs.parentName_notMem hv hm
  obtain ⟨-, hfile⟩ := Engine.seen_of_file hseen
  rw [assetsRoot_below hs.assets] at hfile
  exact hs.get?_of_find hv hdown hfile

/-- What is copied are the files that are listed below the assets folder, if there is one. -/
theorem Builder.Runs.assets_copied {copied : List Text}
    (h : (copyAssets e out).Runs w copied w') :
    (∃ entries places mid, Engine.seen w.tree e.assetsRoot = .ok (some (.folder entries)) ∧
      listedBelow w.tree e.assetsRoot = .ok places ∧ mid.tree = w.tree ∧
      (copyEach e.assetsRoot e.assetsDir out places).Runs mid copied w') ∨
    copied = [] ∧ w'.tree = w.tree ∧
      Engine.Looks w.tree (Engine.isFolder e.assetsRoot) (.ok false) := by
  rw [copyAssets, runs_bind_iff] at h
  obtain ⟨there, w₁, hlook, h⟩ := h
  have htree := hlook.tree_observe
  have hlooks := Engine.looks_isFolder.of_exec hlook.exec_observed
  cases there with
  | true =>
      obtain ⟨entries, hentries⟩ := Engine.looks_isFolder_iff.mp hlooks
      obtain ⟨places, w₂, hlisted, h⟩ := runs_bind_iff.mp h
      obtain ⟨_, w₃, hinfo, h⟩ := runs_bind_iff.mp h
      have hplaces := hlisted.exec_observed
      rw [looks_filesBelow, htree] at hplaces
      refine .inl ⟨entries, places, w₃, hentries, hplaces, ?_, h⟩
      rw [hinfo.tree_observe, hlisted.tree_observe, htree]
  | false =>
      obtain ⟨_, w₂, hinfo, h⟩ := runs_bind_iff.mp h
      obtain ⟨rfl, rfl⟩ := runs_pure_iff.mp h
      exact .inr ⟨rfl, by rw [hinfo.tree_observe, htree], hlooks⟩

/-- A page below the assets folder is listed there wherever it was discovered. -/
theorem mem_listedBelow_of_reached (hs : Setup e out t) {v : SiteTree} (hv : AgreesOutside out t v)
    {entries more : List (Text × Node Content)} {rest : List Text} {raw : Content}
    (hlists : Lists t e.root entries) (hrest : rest ≠ [])
    (hreached : Reached t e.root e.componentsDir entries (e.assetsDir :: rest) (.file raw))
    (hseen : Engine.Admits t (e.root.below (e.assetsDir :: rest)))
    (hlook : v.look e.assetsRoot = .ok (.folder more)) {places : List (List Text)}
    (hplaces : listedBelow v e.assetsRoot = .ok places) : rest ∈ places := by
  have hwf := hs.wellFormed
  have hgrows : t.Grows v := hv.toGrows
  have hraw := hreached.get? hlists
  obtain ⟨-, hfolder⟩ := find_eq_ok_iff.mp (find_of_look hlook)
  have hordered := (hv.toSpares.tidy hwf.toTidy).ordered.get? hfolder
  have hfile := hreached.look hwf hlists hseen
  have hfile' : v.look (e.root.below (e.assetsDir :: rest)) = .ok (.file raw) := by
    refine hgrows.look_of_find hfile (hv.toSpares.find_file (find_of_look hfile) ?_)
    rw [spot_below _ _ (parentName_notMem (hs.names hraw))]
    exact hs.outside _
  refine (mem_listedBelow_iff hordered hlook hplaces).mpr
    ⟨hrest, ?_, fun upper hupper => ?_, raw, ?_⟩
  · have hup : parentName ∉ [e.assetsDir] := parentName_notMem (by simpa using hs.assets)
    refine ⟨.file raw, ?_⟩
    rw [← get?_append hfolder, Environment.assetsRoot, child_name _ hs.assets, spot_below _ _ hup,
      Extends.spot hv, List.append_assoc, List.singleton_append]
    exact (hs.get?_file_iff hv).mpr hraw
  · have hproper : upper ≠ rest := by
      rintro rfl
      have hlength := hupper.length_le
      rw [List.length_dropLast] at hlength
      have := List.length_pos_iff.mpr hrest
      omega
    obtain ⟨under, hunder⟩ := hreached.listed (e.assetsDir :: upper)
      (List.cons_prefix_cons.mpr ⟨rfl, hupper.trans (List.dropLast_prefix _)⟩)
      (fun heq => hproper (List.cons.inj heq).2) (List.cons_ne_nil _ _)
    rw [assetsRoot_below hs.assets]
    exact hgrows.list (Engine.listing_eq_ok_iff.mp hunder).2
  · rw [assetsRoot_below hs.assets]
    exact Engine.seen_of_look (hreached.null_notMem hwf hlists) hfile'

theorem page_of_copyAssets (hs : Setup e out t) (hw : AgreesOutside out t w.tree)
    {entries : List (Text × Node Content)} {pages : List Text}
    (hpages : Discovered t e.root e.componentsDir entries pages) {copied : List Text}
    (h : (copyAssets e out).Runs w copied w') {place : List Text} {raw content : Content}
    (hreached : Reached t e.root e.componentsDir entries place (.file raw))
    (hpage : w.tree.find (out.below place) = .ok (.file content)) :
    AgreesOutside out t w'.tree ∧ w'.tree.find (out.below place) = .ok (.file
      (if Text.startsWith (e.assetsDir ++ "/") (slashed place) then raw else content)) := by
  have hlists := hpages.lists
  have hraw := hreached.get? hlists
  obtain ⟨first, rest, rfl⟩ := List.exists_cons_of_ne_nil hreached.ne
  have hfirst : '/' ∉ first := (hs.names hraw first (by simp)).2.1
  simp only [startsWith_slashed_iff hs.assets hfirst]
  rcases h.assets_copied with ⟨more, places, mid, hseen, hplaces, htree, hcopy⟩ | ⟨-, hkept, hno⟩
  · obtain ⟨-, hlook⟩ := Engine.seen_some hseen
    have hnames : ∀ place ∈ places, ∀ name ∈ place, IsName name := by
      intro place hplace name hname
      obtain ⟨-, asset, hasset⟩ := exists_of_mem_listedBelow hs hw hlook hplaces hplace
      exact hs.names hasset name (by simp [hname])
    rw [← htree] at hpage
    obtain ⟨hagrees, hcopies⟩ := page_of_copyEach hs (htree ▸ hw) hnames hcopy
    refine ⟨hagrees, ?_⟩
    rw [hcopies _ raw content hraw hpage]
    have hcopied : (∃ place ∈ places, first :: rest = e.assetsDir :: place) ↔
        first = e.assetsDir ∧ rest ≠ [] := by
      constructor
      · rintro ⟨place, hplace, heq⟩
        cases heq
        exact ⟨rfl, (exists_of_mem_listedBelow hs hw hlook hplaces hplace).1⟩
      · rintro ⟨rfl, hrest⟩
        exact ⟨rest, mem_listedBelow_of_reached hs hw hlists hrest hreached
          (hpages.seen _ _ hreached) hlook hplaces, rfl⟩
    simp only [hcopied]
  -- Without an assets folder the page is no asset, as its source would lie in that folder.
  · have hasset : ¬(first = e.assetsDir ∧ rest ≠ []) := by
      rintro ⟨rfl, hrest⟩
      obtain ⟨more, hmore⟩ := hreached.listed [e.assetsDir] ⟨rest, rfl⟩
        (fun heq => hrest (List.cons.inj heq).2.symm) (List.cons_ne_nil _ _)
      obtain ⟨hnull, hlook⟩ := Lists.look hmore
      have hfolder : t.find (e.root.below [e.assetsDir]) = .ok (.folder more) := find_of_look hlook
      obtain ⟨more', hfolder'⟩ := Extends.find_folder hw hfolder
      have hthere := Engine.looks_isFolder_iff.mpr
        ⟨more', Engine.seen_of_look hnull (Grows.look_of_find hw.toGrows hlook hfolder')⟩
      rw [Environment.assetsRoot, child_name _ hs.assets] at hno
      cases (hno .start).symm.trans (hthere .start)
    rw [if_neg hasset, hkept]
    exact ⟨hw, hpage⟩

end Build

theorem exists_find_of_buildPage {e : Environment} {page html : Text} {files : SiteTree}
    {s : Session} (h : ((e.buildPage page).exec files s).1 = .ok html) :
    ∃ n, files.find (e.pagePath page) = .ok n := by
  unfold Environment.buildPage at h
  cases hread : ((Engine.readText .utf8 (e.pagePath page)).exec files s).1 with
  | error fault =>
      rw [Engine.exec_bind_of_error hread] at h
      cases h
  | ok source =>
      rw [Engine.looks_readText .utf8 s] at hread
      obtain ⟨content, hcontent, -⟩ := bind_eq_ok_iff.mp hread
      exact ⟨_, find_of_read (Engine.contained_eq_ok_iff.mp hcontent).2⟩

/-- What a page is built to does not depend on what lies in the output folder. -/
def Environment.Ignores (e : Environment) (out : Path) (t : SiteTree) (page : Text) : Prop :=
  ∀ u, AgreesOutside out t u →
    ∀ s, ((e.buildPage page).exec u s).1 = ((e.buildPage page).exec t s).1

/-- A build discovers the pages, writes them all, and then copies the assets. -/
theorem Builder.Runs.site_built {e : Environment} {out : Path} {w w' : World} {report : Report}
    (h : (buildSite e out).Runs w report w') : report.outDir = out ∧ ∃ w₁ w₂ s,
      ((discoverPages e.root e.componentsDir).exec w.tree s).1 = .ok report.pages ∧
      w₁.tree = w.tree ∧ (buildEach e out report.pages).Runs w₁ () w₂ ∧
      (copyAssets e out).Runs w₂ report.assets w' := by
  rw [buildSite, runs_bind_iff] at h
  obtain ⟨_, w₁, h₁, h⟩ := h
  obtain ⟨_, w₂, h₂, h⟩ := runs_bind_iff.mp h
  obtain ⟨_, w₃, h₃, h⟩ := runs_bind_iff.mp h
  obtain ⟨pages, w₄, hdiscover, h⟩ := runs_bind_iff.mp h
  obtain ⟨_, w₅, h₅, h⟩ := runs_bind_iff.mp h
  obtain ⟨_, w₆, hbuild, h⟩ := runs_bind_iff.mp h
  obtain ⟨copied, w₇, hcopy, h⟩ := runs_bind_iff.mp h
  obtain ⟨rfl, rfl⟩ := runs_pure_iff.mp h
  have htree : w₃.tree = w.tree := by rw [h₃.tree_observe, h₂.tree_observe, h₁.tree_observe]
  have hpages := hdiscover.exec_observed
  rw [htree] at hpages
  refine ⟨rfl, w₅, w₆, _, hpages, ?_, hbuild, hcopy⟩
  rw [h₅.tree_observe, hdiscover.tree_observe, htree]

theorem find_page_of_buildSite {e : Environment} {out : Path} {w w' : World} {report : Report}
    (hwf : w.tree.WellFormed) (hassets : IsName e.assetsDir) (hapart : w.tree.Apart e.root out)
    (hpure : ∀ t, AgreesOutside out w.tree t → e.provider.IsPure e.compiler.reenter t)
    (h : (buildSite e out).Runs w report w') :
    ∀ page ∈ report.pages, ∃ raw t html,
      w.tree.find (e.pagePath page) = .ok (.file raw) ∧ AgreesOutside out w.tree t ∧
      (∀ s, ((e.buildPage page).exec t s).1 = .ok html) ∧
      (e.Ignores out w.tree page → ∀ s, ((e.buildPage page).exec w.tree s).1 = .ok html) ∧
      (let built := if Text.startsWith (e.assetsDir ++ "/") page then raw
        else .bytes (Text.encodeUtf8 html)
      w'.tree.find (out.child page) = .ok (.file built) ∧
        (¬w'.Leaves (w'.tree.resolve (out.child page)).parts →
          w'.disk.find (out.child page) = .ok (.file built))) := by
  obtain ⟨-, w₁, w₂, s, hdiscover, htree, hbuild, hcopy⟩ := h.site_built
  have hs : Setup e out w.tree := ⟨hwf, hassets, hapart.not_below hwf⟩
  have hfile {page : Text} (hpage : page ∈ report.pages) :=
    file_of_discoverPages hwf.ordered hdiscover hpage
  have hnames : ∀ page ∈ report.pages, IsPageName page := by
    intro page hpage
    obtain ⟨place, raw, rfl, hne, hraw⟩ := hfile hpage
    exact ⟨place, rfl, hne, hs.names hraw⟩
  obtain ⟨hwritten, hbuilt⟩ := extends_buildEach (htree ▸ hwf.toTidy) hnames hbuild
  rw [htree] at hwritten hbuilt
  have hagrees : AgreesOutside out w.tree w₂.tree := by
    refine hwritten.mono ?_
    rintro q ⟨page, hpage, rfl⟩
    exact (hnames page hpage).below w.tree out
  intro page hpage
  obtain ⟨t, s', html, ht, hhtml, hfound⟩ := hbuilt page hpage
  obtain ⟨entries, hpages⟩ := discovered_of_mem hwf.ordered hdiscover hpage
  obtain ⟨place, raw, rfl, hreached, -⟩ := (hpages.mem page).mp hpage
  have hne := hreached.ne
  have hraw := hreached.get? hpages.lists
  have hplace := hs.names hraw
  have huniform (s : Session) : ((e.buildPage (slashed place)).exec t s).1 = .ok html :=
    (Environment.uniform_buildPage (hpure t ht) _ s s').trans hhtml
  rw [child_slashed _ hne hplace] at hfound ⊢
  refine ⟨raw, t, html, ?_, ht, huniform, ?_, ?_⟩
  · obtain ⟨n, hn⟩ := exists_find_of_buildPage hhtml
    rw [Environment.pagePath, child_slashed _ hne hplace] at hn ⊢
    exact Grows.find_below ht.toGrows hpages.lists.find.2 (parentName_notMem hplace) hn hraw
  · intro hignores s
    rw [← hignores t ht s, huniform]
  · obtain ⟨hlast, hheld⟩ := page_of_copyAssets hs hagrees hpages hcopy hreached hfound
    refine ⟨hheld, fun hspared => World.find_disk (hlast.toSpares.tidy hwf.toTidy) ?_ hheld hspared⟩
    rw [hlast.current]
    exact hwf.parentName_notMem_current

/-! ## A site that loses pages -/

theorem codeFree_of_extends {t u : SiteTree} {out : Path} {written : List Text → Prop}
    {leaves : List Folders} (h : Extends out written t u)
    (hplain : ∀ f ∈ leaves, f.runtime = .plain) (hroot : t.root.isCode = false)
    (hbelow : ∀ d ∈ t.root.descendants, d.2.isCode = false) : CodeFree leaves u := by
  refine codeFree_of_get? hplain fun place n hn => ?_
  rcases n with (data | module) | entries
  · rfl
  · obtain ⟨q, hq⟩ := h.modules _ module hn
    exact Node.isCode_get? hroot hbelow hq
  · rfl

/-- The bytes that a look-up gives, when it gives a file of bytes. -/
def bytesOf? : Except FileCause (Node Content) → Option (List UInt8)
  | .ok (.file (.bytes data)) => some data
  | _ => none

/-- A build whose output folder does not hold the page in the form it has over the first tree. -/
def Environment.LosesPage (e : Environment) (out : Path) (w : World) (page : Text) : Prop :=
  (w.tree.WellFormed ∧ IsName e.assetsDir ∧ w.tree.Apart e.root out ∧
    ∀ t, AgreesOutside out w.tree t → e.provider.IsPure e.compiler.reenter t) ∧
  ∃ report w' html, (buildSite e out).Runs w report w' ∧ page ∈ report.pages ∧
    (∀ s, ((e.buildPage page).exec w.tree s).1 = .ok html) ∧
    w'.tree.find (out.child page) ≠ .ok (.file (.bytes (Text.encodeUtf8 html)))

section Overlap

def overlapEntries : List (Text × Node Content) :=
  [("a.html", textFile "A"),
    ("assets", .folder [("x.html", textFile "\x7b\x7bx\x7d\x7d")]),
    ("b.html", textFile "<Component src=\"a\" />")]

/-- A site with a page in its assets folder and a page that asks for another as a component. -/
def overlapFiles : SiteTree := ⟨.folder [("src", .folder overlapEntries)], []⟩

def overlapPages : List Text := ["a.html", "assets/x.html", "b.html"]

def overlap : Environment := .ofRoot (ofText "src") none

def overlapWorld : World := ⟨overlapFiles, .start⟩

theorem wellFormed_overlapFiles : overlapFiles.WellFormed :=
  wellFormed_of_descendants (by decide) (by decide) ⟨_, rfl⟩

theorem isPure_overlap {out : Path} {t : SiteTree} (h : AgreesOutside out overlapFiles t) :
    overlap.provider.IsPure overlap.compiler.reenter t := by
  have hstatic : overlap.provider.IsStatic := trivial
  have hplain : ∀ f ∈ overlap.provider.leaves, f.runtime = .plain := fun f hf => by
    rw [List.mem_singleton.mp hf]
    rfl
  exact Provider.isPure_of_static (codeFree_of_extends h hplain rfl (by decide)) hstatic _

/-- A page without tags and holes is built as it is. -/
theorem exec_buildPage_overlap {t : SiteTree} (h : AgreesOutside (ofText "dist") overlapFiles t)
    (s : Session) : ((overlap.buildPage "a.html").exec t s).1 = .ok ['A'] := by
  have hfile : overlapFiles.read (overlap.pagePath "a.html") = .ok (textFile ['A']) := rfl
  have hopened := Grows.read_of_find h.toGrows hfile
    (h.toSpares.find_file (find_of_read hfile) (by decide))
  have hread : ((Engine.readText .utf8 (overlap.pagePath "a.html")).exec t s).1 = .ok ['A'] := by
    rw [Engine.looks_readText_of_read (by decide) hopened .utf8 s]
    rfl
  have hcompiled : ((overlap.compiledPage "a.html").exec t s).1 = .ok ['A'] := by
    rw [Environment.compiledPage, Engine.exec_bind_of_ok hread]
    exact exec_compile_of_settled overlap.compiler t ⟨rfl, by decide⟩ _ _
  rw [Environment.exec_buildPage rfl rfl hcompiled]
  rfl

theorem find_page_of_buildSite_overlap : ∃ report w',
    (buildSite overlap (ofText "dist")).Runs overlapWorld report w' ∧
    report.pages = overlapPages ∧
    (∀ s, ((overlap.buildPage "a.html").exec overlapFiles s).1 = .ok ['A']) ∧
    w'.tree.find ((ofText "dist").child "a.html") =
      .ok (.file (.bytes (Text.encodeUtf8 ['A']))) ∧
    w'.disk.find ((ofText "dist").child "a.html") =
      .ok (.file (.bytes (Text.encodeUtf8 ['A']))) := by
  have hdone : ((buildSite overlap (ofText "dist")).exec overlapWorld).1.toOption.map
      Report.pages = some overlapPages := by
    decide +kernel
  have hbytecode : ((buildSite overlap (ofText "dist")).exec overlapWorld).2.session.bytecode =
      [] := by
    decide +kernel
  obtain ⟨report, hruns, hpages⟩ := exists_runs hdone
  have hpage : "a.html".toList ∈ report.pages := by
    rw [hpages]
    decide
  obtain ⟨raw, t, html, -, ht, hbuilt, hsource, hheld, hdisk⟩ :=
    find_page_of_buildSite wellFormed_overlapFiles (by decide) (by decide)
      (fun t ht => isPure_overlap ht) hruns _ hpage
  have hhtml : html = ['A'] :=
    Except.ok.inj ((hbuilt .start).symm.trans (exec_buildPage_overlap ht .start))
  subst hhtml
  have hignores : overlap.Ignores (ofText "dist") overlapFiles "a.html" := by
    intro u hu s
    rw [exec_buildPage_overlap hu, exec_buildPage_overlap (.refl _ _ _)]
  refine ⟨report, _, hruns, hpages, hsource hignores, hheld, hdisk ?_⟩
  rintro ⟨k, hk, -⟩
  rw [hbytecode] at hk
  cases hk

theorem losesPage_overlap {out : Path} {page html : Text}
    (hapart : overlapFiles.Apart overlap.root out) (hpage : page ∈ overlapPages)
    (hruns : ((buildSite overlap out).exec overlapWorld).1.toOption.map Report.pages =
      some overlapPages)
    (hbuilt : ((overlap.buildPage page).exec overlapFiles .start).1.toOption = some html)
    (hfile : bytesOf? (((buildSite overlap out).exec overlapWorld).2.tree.find
      (out.child page)) ≠ some (Text.encodeUtf8 html)) :
    overlap.LosesPage out overlapWorld page := by
  refine ⟨⟨wellFormed_overlapFiles, by decide, hapart, fun t ht => isPure_overlap ht⟩, ?_⟩
  obtain ⟨report, hreport, hpages⟩ := exists_runs hruns
  refine ⟨report, _, html, hreport, hpages ▸ hpage, fun s => ?_, fun hheld => hfile ?_⟩
  · have huniform := Environment.uniform_buildPage (isPure_overlap (.refl out _ _)) page
    exact (huniform s .start).trans (eq_ok_of_toOption hbuilt)
  · rw [hheld]
    rfl

/-- The build into `dist` overwrites the page in the assets folder. The build into `components`
finds the first page, just written there, as the component that the last page asks for. -/
theorem buildSite_loses_pages :
    overlap.LosesPage (ofText "dist") overlapWorld "assets/x.html" ∧
      overlap.LosesPage (ofText "components") overlapWorld "b.html" := by
  constructor
  · exact @losesPage_overlap _ _ [] (by decide) (by decide) (by decide +kernel) (by decide +kernel)
      (by decide +kernel)
  · exact @losesPage_overlap _ _ (notFoundMarker "a") (by decide) (by decide) (by decide +kernel)
      (by decide +kernel) (by decide +kernel)

end Overlap

end StaticSite
