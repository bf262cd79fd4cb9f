import StaticSite.Proofs.Site.Stages

/-!
# Building a site again

A second build right after the first repeats it: it writes the same pages and assets again and
leaves the disk as it is. That takes two things of the first build. It must not have made a page of
the root or touched the assets folder, for then there is more to build or other things to copy; and
what its pages are built to must not depend on what it writes. The bytecode that it leaves is on the
disk when the second begins.
-/

namespace StaticSite

open Builder Tree Path Node

/-- The places of which a report speaks: those of its pages, and those at or below its assets, as an
asset is copied into a folder that stands at its place. -/
def Report.Names (report : Report) (t : SiteTree) (q : List Text) : Prop :=
  (∃ page ∈ report.pages, q = (t.resolve (report.outDir.child page)).parts) ∨
    ∃ asset ∈ report.assets, (t.resolve (report.outDir.child asset)).parts <+: q

/-- Once both runs have ended, the second is back at the tree that it began with, provided that the
first has written to all its places what is there in the last tree. -/
theorem Rerun.Tracks.eq_last {r : Rerun} {t x : SiteTree} (h : r.Tracks t x)
    (hgrows : t.Grows r.last) (hwf : r.last.WellFormed)
    (hwritten : ∀ q, r.written q → AgreeAt t r.last q) : x = r.last := by
  have halike : x.root.Alike r.last.root := by
    constructor
    case forth => exact h.behind.bound
    case back => exact h.shape
    case files =>
      intro q
      rcases h.settled q with ⟨hq, hagree⟩ | hagree
      · exact fun content => (hagree content).trans (hwritten q hq content).symm
      · exact hagree
  have hroot : x.root = r.last.root := Alike.eq _ h.behind.wellFormed.ordered hwf.ordered halike
  have hcurrent : x.current = r.last.current := h.grows.current.trans hgrows.current.symm
  have hguard : x.guard = r.last.guard := h.grows.guard.trans hgrows.guard.symm
  obtain ⟨root, current⟩ := x
  cases hroot
  cases hcurrent
  cases hguard
  rfl

/-- The bytecode that is left at the end of a build is out of the way of another build: it is apart
from some places, and the root and the assets folder are seen as they were without it. -/
structure World.LeavesAside (w : World) (e : Environment) (places : List Text → Prop) : Prop where
  wellFormed : w.disk.WellFormed
  apart : ∀ q, w.Leaves q → ¬places q
  root : FolderThere w.disk e.root → FolderThere w.tree e.root
  assets : ∀ there, Engine.Looks w.tree (Engine.isFolder e.assetsRoot) (.ok there) →
    Engine.Looks w.disk (Engine.isFolder e.assetsRoot) (.ok there)

theorem World.leavesAside_of_nothing {w : World} (hwf : w.tree.WellFormed)
    (h : w.session.bytecode = []) (e : Environment) (places : List Text → Prop) :
    w.LeavesAside e places := by
  have hdisk : w.disk = w.tree := by rw [World.disk, h, List.foldl_nil]
  constructor
  case wellFormed => exact hdisk ▸ hwf
  case apart =>
    rintro q ⟨k, hk, -⟩
    rw [h] at hk
    cases hk
  case root => exact hdisk ▸ id
  case assets => exact fun there hthere => hdisk ▸ hthere

/-- A second build, over the disk that the first has left, gives the same report and leaves that
disk as it is, apart from the bytecode that it leaves itself. That is so if the first has made no
page of the root, left the assets folder as it was and made nothing in either that cannot be looked
at, its bytecode is out of the way, and what its pages are built to does not depend on what it
writes, be the bytecode not there yet or as it was left. -/
theorem buildSite_again {e : Environment} {out : Path} {w w₁ : World} {report : Report}
    (hwf : w.tree.WellFormed) (hout : out.IsProper)
    (hpure : e.provider.IsPure e.compiler.reenter w.tree)
    (h : (buildSite e out).Runs w report w₁) (haside : w₁.LeavesAside e (report.Names w.tree))
    (hkept : e.KeepsInputs w.tree w₁.disk)
    (hopens : OpensNew w.tree w₁.disk e.root ∧ OpensNew w.tree w₁.disk e.assetsRoot)
    (hignores : ∀ page ∈ report.pages, ∀ u,
      Between (fun q => report.Names w.tree q ∨ w₁.Leaves q) w.tree w₁.disk u →
      ((∀ q, w₁.Leaves q → AgreeAt w.tree u q) ∨ ∀ q, w₁.Leaves q → AgreeAt w₁.disk u q) →
      ∀ s, ((e.buildPage page).exec u s).1 = ((e.buildPage page).exec w.tree s).1) :
    ∀ s, ∃ w₂, (buildSite e out).Runs ⟨w₁.disk, s⟩ report w₂ ∧ w₂.tree = w₁.disk := by
  obtain ⟨rfl, w', mid, s₀, hdiscover, htree, hbuild, hcopy⟩ := h.site_built
  have hspot (p : Path) : (w.tree.resolve p).parts = w.tree.spot p :=
    parts_resolve hwf.parentName_notMem_current p
  let r : Rerun :=
    ⟨w.tree, w₁.disk, report.Names w.tree, w₁.Leaves, w.tree.IsBelow e.assetsRoot⟩
  have hpages : ∀ page ∈ report.pages, r.written (r.first.spot (report.outDir.child page)) :=
    fun page hpage => .inl ⟨page, hpage, (hspot _).symm⟩
  have hassets : ∀ asset ∈ report.assets, ∀ deep,
      r.written (r.first.spot (report.outDir.child asset) ++ deep) :=
    fun asset hasset deep => .inr ⟨asset, hasset, hspot _ ▸ List.prefix_append _ deep⟩
  have hrepeats : r.Repeats (buildEach e report.outDir report.pages) := by
    refine repeats_buildEach hout haside.apart (fun page hpage u hu s s' => ?_) hpages
    have hsame := hignores page hpage u hu.toBetween hu.beside s
    exact hsame.trans (Environment.uniform_buildPage hpure page s s')
  have hmid : Changes r.written w.tree mid.tree := by
    have hchanges := (hrepeats.keeps.runs hbuild (htree ▸ hwf) (htree ▸ rfl)).1
    rwa [htree] at hchanges
  have hafter : Changes r.written mid.tree w₁.tree :=
    changes_of_copyAssets hwf hout (fun _ => id) hassets hcopy hmid
  have hdisk : Changes w₁.Leaves w₁.tree w₁.disk :=
    World.changes_disk hafter.wellFormed haside.wellFormed
  have hall : Changes r.Touched w.tree w₁.disk :=
    ((hmid.trans hafter).mono fun _ => .inl).trans (hdisk.mono fun _ => .inr)
  have hbound : mid.tree.root.KeepsKinds w₁.disk.root := hafter.kinds.trans hdisk.kinds
  have hstart : r.Tracks w'.tree w₁.disk := htree ▸ .start hwf hall hkept.assets
  have hbuilt := hrepeats.again hbuild hstart hbound
  have hroot (hthere : FolderThere w₁.disk e.root) : FolderThere w.tree e.root := by
    by_contra hnone
    exact hnone (tree_of_buildSite hwf hnone h ▸ haside.root hthere)
  have hdiscovered := discoverPages_again hwf hall hkept hopens.1 hroot hdiscover
  have hsame : ∀ q, r.written q → AgreeAt w₁.tree r.last q := fun q hq content =>
    hdisk.files q content fun hleft => haside.apart q hleft hq
  have hdone : Does (buildSite e report.outDir) w₁.disk report (· = w₁.disk) := by
    refine Does.observe_bind (fun _ => rfl) (Does.observe_bind (fun _ => rfl) ?_)
    refine Does.observe_bind (fun _ => rfl) (Does.observe_bind hdiscovered ?_)
    refine Does.observe_bind (fun _ => rfl) (hbuilt.bind fun x hx => ?_)
    have hcopied := does_copyAssets hwf hout (fun _ => id) hassets hcopy hx hdisk.toGrows
      haside.wellFormed hopens.2 haside.assets
    refine hcopied.bind fun y hy => Does.pure ?_
    exact hy.eq_last hdisk.toGrows haside.wellFormed hsame
  exact hdone

/-! ## A site that is built beside its root -/

/-- A build into a folder apart from the root neither makes a page of the root nor touches the
assets folder. -/
theorem keepsInputs_of_apart {e : Environment} {out : Path} {w w₁ : World} {report : Report}
    (hwf : w.tree.WellFormed) (hout : out.IsProper) (hassets : IsName e.assetsDir)
    (hapart : w.tree.Apart e.root out) (h : (buildSite e out).Runs w report w₁) :
    e.KeepsInputs w.tree w₁.tree := by
  have hup : parentName ∉ [e.assetsDir] := parentName_notMem (by simpa using hassets)
  have hkeeps : Keeps (ChangesFrom w.tree (fun q => w.tree.spot out <+: q) fun _ => True)
      (buildSite e out) := by
    refine keeps_buildSite hout (fun place _ _ => List.prefix_append _ _) (fun _ rest _ _ => ?_)
      fun _ _ => trivial
    rw [child_name _ hassets, spot_below _ _ hup, List.append_assoc]
    exact List.prefix_append _ _
  obtain ⟨hchanges, -⟩ := hkeeps.runs h hwf rfl
  have hbeside (deep : List Text) : AgreeAt w.tree w₁.tree (w.tree.spot e.root ++ deep) :=
    fun content => hchanges.files _ content (hapart.not_below hwf deep)
  constructor
  case pages =>
    intro place content _ hcontent
    rw [parts_resolve hwf.parentName_notMem_current] at hcontent ⊢
    exact ⟨content, (hbeside place content).mp hcontent⟩
  case assets =>
    intro q hq
    obtain ⟨rest, -, rfl⟩ := (isBelow_iff hwf).mp hq
    rw [Environment.assetsRoot, child_name _ hassets, spot_below _ _ hup, List.append_assoc]
    exact hbeside _

theorem wellFormed_of_buildSite {e : Environment} {out : Path} {w w₁ : World} {report : Report}
    (hwf : w.tree.WellFormed) (hout : out.IsProper) (h : (buildSite e out).Runs w report w₁) :
    w₁.tree.WellFormed := by
  have hkeeps : Keeps (ChangesFrom w.tree (fun _ => True) fun _ => True) (buildSite e out) :=
    keeps_buildSite hout (fun _ _ _ => trivial) (fun _ _ _ _ => trivial) fun _ _ => trivial
  exact (hkeeps.runs h hwf rfl).1.wellFormed

theorem exec_buildPage_of_settled {e : Environment} {t : SiteTree} {page html : Text}
    {content : Content} (hcss : e.inlineCss) (hjs : e.inlineJs)
    (hnull : '\x00' ∉ (e.pagePath page).text)
    (hfile : t.read (e.pagePath page) = .ok (.file content))
    (hdecode : Text.Encoding.utf8.decode content.toBytes = .ok html)
    (hunified : Text.unifyLineEnds html = html) (hsettled : IsSettled html) (s : Session) :
    ((e.buildPage page).exec t s).1 = .ok (Asset.stripDevScripts e.markers
      (Markup.clearHoles (e.withScripts t (e.withStyles t html)))) := by
  have hread : ((Engine.readText .utf8 (e.pagePath page)).exec t s).1 = .ok html := by
    rw [Engine.looks_readText_of_read hnull hfile .utf8 s, Engine.decoded, hdecode]
    exact congrArg Except.ok hunified
  have hcompiled : ((e.compiledPage page).exec t s).1 = .ok html := by
    rw [Environment.compiledPage, Engine.exec_bind_of_ok hread]
    exact exec_compile_of_settled e.compiler t hsettled _ _
  exact Environment.exec_buildPage hcss hjs hcompiled

section Plain

def plainEntries : List (Text × Node Content) :=
  [("assets", .folder [("x.html", textFile "\x7b\x7bx\x7d\x7d")]), ("index.html", textFile "i")]

/-- A site whose pages use no components. One of them is an asset too, so that it is written
compiled and then copied over. -/
def plainFiles : SiteTree := ⟨.folder [("src", .folder plainEntries)], []⟩

def plainPages : List Text := ["assets/x.html", "index.html"]

def plain : Environment := .ofRoot (ofText "src") none

theorem wellFormed_plainFiles : plainFiles.WellFormed :=
  wellFormed_of_descendants (by decide) (by decide) ⟨_, rfl⟩

/-- Without modules a site's components depend on their props alone. -/
theorem isPure_ofRoot (p : Path) {root : Node Content} (hroot : root.isCode = false)
    (h : ∀ d ∈ root.descendants, d.2.isCode = false) (current : List Text) :
    (Environment.ofRoot p none).provider.IsPure (Environment.ofRoot p none).compiler.reenter
      ⟨root, current⟩ := by
  have hstatic : (Environment.ofRoot p none).provider.IsStatic := trivial
  refine Provider.isPure_of_static (codeFree_of_descendants (fun f hf => ?_) hroot h) hstatic _
  rw [List.mem_singleton.mp hf]
  rfl

def plainReport : Report := ⟨ofText "dist", plainPages, ["assets/x.html"]⟩

theorem exists_runs_plain :
    ∃ w₁, (buildSite plain (ofText "dist")).Runs ⟨plainFiles, .start⟩ plainReport w₁ ∧
      w₁.session.bytecode = [] ∧
      (w₁.tree.root.get? ["src"]).map (fun n => n.descendants.map Prod.fst) =
        some ([["assets"], ["assets", "x.html"], ["index.html"]] : List (List Text)) := by
  have hnames : ((buildSite plain (ofText "dist")).exec
      ⟨plainFiles, .start⟩).1.toOption.map (fun report => (report.pages, report.assets)) =
        some (plainReport.pages, plainReport.assets) := by
    decide +kernel
  have hbytecode : ((buildSite plain (ofText "dist")).exec
      ⟨plainFiles, .start⟩).2.session.bytecode = [] := by
    decide +kernel
  have hsource : ((((buildSite plain (ofText "dist")).exec ⟨plainFiles, .start⟩).2.tree.root.get?
      ["src"]).map fun n => n.descendants.map Prod.fst) =
        some ([["assets"], ["assets", "x.html"], ["index.html"]] : List (List Text)) := by
    decide +kernel
  obtain ⟨report, hruns, hnames⟩ := exists_runs hnames
  obtain ⟨hout, -⟩ := hruns.site_built
  have hsame : report = plainReport := by
    obtain ⟨out, pages, assets⟩ := report
    cases hout
    cases hnames
    rfl
  exact ⟨_, hsame ▸ hruns, hbytecode, hsource⟩

/-- Over every tree between the two builds a page is built as over the first one. -/
theorem ignores_plain {touched : List Text → Prop} {u last : SiteTree}
    (h : Between touched plainFiles last u)
    (htouched : ∀ q, touched q → plainReport.Names plainFiles q) {page : Text}
    (hpage : page ∈ plainPages) (s : Session) :
    ((plain.buildPage page).exec u s).1 = ((plain.buildPage page).exec plainFiles s).1 := by
  have hbuilt {page html : Text} (hnull : '\x00' ∉ (plain.pagePath page).text)
      (hfile : plainFiles.read (plain.pagePath page) = .ok (textFile html))
      (hspared : ¬plainReport.Names plainFiles (plainFiles.spot (plain.pagePath page)))
      (hdecode : Text.Encoding.utf8.decode (Text.encodeUtf8 html) = .ok html)
      (hunified : Text.unifyLineEnds html = html) (hsettled : IsSettled html)
      (hblocks : ∀ t, plain.withScripts t (plain.withStyles t html) = html) :
      ((plain.buildPage page).exec u s).1 = ((plain.buildPage page).exec plainFiles s).1 := by
    have hfound := h.find_file (find_of_read hfile) fun hq => hspared (htouched _ hq)
    have hfile' := h.toGrows.read_of_find hfile hfound
    rw [exec_buildPage_of_settled rfl rfl hnull hfile hdecode hunified hsettled, hblocks,
      exec_buildPage_of_settled rfl rfl hnull hfile' hdecode hunified hsettled, hblocks]
  rw [plainPages, List.mem_cons, List.mem_singleton] at hpage
  unfold Report.Names at hbuilt
  rcases hpage with rfl | rfl
  · exact hbuilt (by decide) rfl (by decide) rfl rfl ⟨rfl, by decide⟩ fun _ => rfl
  · exact hbuilt (by decide) rfl (by decide) rfl rfl ⟨rfl, by decide⟩ fun _ => rfl

/-- A build into `dist` makes nothing new in `src`. -/
theorem opensNew_plain {w₁ : World} (hsource : (w₁.tree.root.get? ["src"]).map
      (fun n => n.descendants.map Prod.fst) =
        some ([["assets"], ["assets", "x.html"], ["index.html"]] : List (List Text)))
    {p : Path} {lead : List Text} (hp : (plainFiles.resolve p).parts = "src".toList :: lead) :
    OpensNew plainFiles w₁.tree p := by
  intro place n hnone hn
  obtain ⟨source, hget, hplaces⟩ := Option.map_eq_some_iff.mp hsource
  have hthere : ∀ q ∈ source.descendants.map Prod.fst,
      (plainFiles.root.get? ("src".toList :: q)).isSome := by
    rw [hplaces]
    decide
  have hall : ∀ q m, source.get? q = some m →
      (plainFiles.root.get? ("src".toList :: q)).isSome := by
    intro q m hm
    by_cases hempty : q = []
    · rw [hempty]
      rfl
    · exact hthere q (List.mem_map.mpr ⟨_, mem_descendants hm hempty, rfl⟩)
  rw [hp] at hnone hn
  have hold := hall (lead ++ place) n ((get?_append hget (lead ++ place)).symm.trans hn)
  rw [List.cons_append] at hnone
  rw [hnone] at hold
  cases hold

/-- What the next build starts with: the disk as this one has left it. -/
def World.next (w : World) : World := ⟨w.disk, w.session⟩

theorem buildSite_again_plain : ∃ w₁ w₂,
    (buildSite plain (ofText "dist")).Runs ⟨plainFiles, .start⟩ plainReport w₁ ∧
      (buildSite plain (ofText "dist")).Runs w₁.next plainReport w₂ ∧ w₂.tree = w₁.disk := by
  obtain ⟨w₁, hruns, hbytecode, hsource⟩ := exists_runs_plain
  have hdisk : w₁.disk = w₁.tree := by rw [World.disk, hbytecode, List.foldl_nil]
  have hwf := @wellFormed_of_buildSite _ _ ⟨plainFiles, .start⟩ w₁ _ wellFormed_plainFiles
    (by decide) hruns
  have haside : w₁.LeavesAside plain (plainReport.Names plainFiles) :=
    World.leavesAside_of_nothing hwf hbytecode _ _
  have hkept : plain.KeepsInputs plainFiles w₁.disk := by
    have happart : plainFiles.Apart plain.root (ofText "dist") := by decide
    rw [hdisk]
    exact @keepsInputs_of_apart _ _ ⟨plainFiles, .start⟩ w₁ _ wellFormed_plainFiles (by decide)
      (by decide) happart hruns
  have hopens : OpensNew plainFiles w₁.disk plain.root ∧
      OpensNew plainFiles w₁.disk plain.assetsRoot := by
    rw [hdisk]
    exact ⟨@opensNew_plain _ hsource plain.root [] (by decide),
      @opensNew_plain _ hsource plain.assetsRoot ["assets"] (by decide)⟩
  have htouched (q : List Text) (hq : plainReport.Names plainFiles q ∨ w₁.Leaves q) :
      plainReport.Names plainFiles q := by
    rcases hq with hq | ⟨k, hk, -⟩
    · exact hq
    · rw [hbytecode] at hk
      cases hk
  obtain ⟨w₂, hagain, htree⟩ := @buildSite_again _ _ ⟨plainFiles, .start⟩ w₁ _
    wellFormed_plainFiles (by decide) (isPure_ofRoot _ rfl (by decide) []) hruns haside hkept hopens
    (fun page hpage u hu _ s => ignores_plain hu htouched hpage s) w₁.session
  exact ⟨w₁, w₂, hruns, hagain, htree⟩

/-- A second build right after the first gives the same pages and assets and leaves every file. -/
def Environment.BuildsAgain (e : Environment) (out : Path) (w : World) : Prop :=
  ∀ report w₁, (buildSite e out).Runs w report w₁ → ∃ report' w₂,
    (buildSite e out).Runs w₁.next report' w₂ ∧ report'.pages = report.pages ∧
      report'.assets = report.assets ∧ ∀ q, AgreeAt w₁.disk w₂.disk q

/-- With the output folder below the root, the pages in it are built too the next time. -/
theorem not_buildsAgain_plain : ¬plain.BuildsAgain (ofText "src/dist") ⟨plainFiles, .start⟩ := by
  have hpages : ((buildSite plain (ofText "src/dist")).exec
      ⟨plainFiles, .start⟩).1.toOption.map Report.pages = some plainPages := by
    decide +kernel
  have hmore : ((buildSite plain (ofText "src/dist")).exec ((buildSite plain
      (ofText "src/dist")).exec ⟨plainFiles, .start⟩).2.next).1.toOption.map Report.pages =
        some (["assets/x.html", "dist/assets/x.html", "dist/index.html", "index.html"] :
          List Text) := by
    decide +kernel
  obtain ⟨report, hruns, hpages⟩ := exists_runs hpages
  intro hagain
  obtain ⟨report', w₂, hruns', hpages', -, -⟩ := hagain report _ hruns
  rw [hruns'] at hmore
  have hlisted : report'.pages =
      (["assets/x.html", "dist/assets/x.html", "dist/index.html", "index.html"] : List Text) :=
    Option.some.inj hmore
  rw [hpages', hpages] at hlisted
  revert hlisted
  decide

def earlyEntries : List (Text × Node Content) :=
  [("a.html", textFile "<Component src=\"b\" />"), ("b.html", textFile "B")]

/-- A site with a page that asks for a later page as a component. -/
def earlyFiles : SiteTree := ⟨.folder [("src", .folder earlyEntries)], []⟩

theorem wellFormed_earlyFiles : earlyFiles.WellFormed :=
  wellFormed_of_descendants (by decide) (by decide) ⟨_, rfl⟩

/-- With the output folder among the folders that are searched for components, the page that comes
first finds the other only the next time. -/
theorem not_buildsAgain_early :
    ¬plain.BuildsAgain (ofText "components") ⟨earlyFiles, .start⟩ := by
  have hpages : ((buildSite plain (ofText "components")).exec
      ⟨earlyFiles, .start⟩).1.toOption.map Report.pages =
        some (["a.html", "b.html"] : List Text) := by
    decide +kernel
  have hfile : bytesOf? (((buildSite plain (ofText "components")).exec
      ⟨earlyFiles, .start⟩).2.disk.find (ofText "/components/a.html")) =
        some (Text.encodeUtf8 (notFoundMarker "b")) := by
    decide +kernel
  have hfile' : bytesOf? (((buildSite plain (ofText "components")).exec
      ((buildSite plain (ofText "components")).exec
        ⟨earlyFiles, .start⟩).2.next).2.disk.find (ofText "/components/a.html")) =
        some (Text.encodeUtf8 "B") := by
    decide +kernel
  obtain ⟨report, hruns, -⟩ := exists_runs hpages
  intro hagain
  obtain ⟨report', w₂, hruns', -, -, hsame⟩ := hagain report _ hruns
  rw [hruns'] at hfile'
  obtain ⟨-, hbefore⟩ := find_eq_ok_iff.mp (find_of_bytesOf? hfile)
  obtain ⟨-, hafter⟩ := find_eq_ok_iff.mp (find_of_bytesOf? hfile')
  have hkept := (hsame ["components", "a.html"] _).mpr hbefore
  have hbytes := Content.bytes.inj (Node.file.inj (Option.some.inj (hkept.symm.trans hafter)))
  revert hbytes
  decide

/-- The root `src`, in a spelling that leaves room for short names only. -/
def windingRoot : Text := (List.replicate 583 "src/../".toList).flatten ++ "src"

def winding : Environment := .ofRoot (ofText windingRoot) none

def windingFiles : SiteTree := ⟨.folder [("src", .folder [("a.html", textFile "a")])], []⟩

theorem wellFormed_windingFiles : windingFiles.WellFormed :=
  wellFormed_of_descendants (by decide) (by decide) ⟨_, rfl⟩

/-- On the way to the output folder the build makes a folder below the root that the next build
cannot look at. -/
theorem not_buildsAgain_winding :
    ¬winding.BuildsAgain (ofText "src/abcdefghijkl/../../dist") ⟨windingFiles, .start⟩ := by
  have hdone : ((buildSite winding (ofText "src/abcdefghijkl/../../dist")).exec
      ⟨windingFiles, .start⟩).1.toOption.map Report.pages = some ["a.html".toList] ∧
      ((discoverPages winding.root winding.componentsDir).exec ((buildSite winding
        (ofText "src/abcdefghijkl/../../dist")).exec ⟨windingFiles, .start⟩).2.next.tree
          .start).1.toOption = none := by
    decide +kernel
  obtain ⟨hpages, hwalk⟩ := hdone
  obtain ⟨report, hruns, -⟩ := exists_runs hpages
  intro hagain
  obtain ⟨report', w₂, hruns', -⟩ := hagain report _ hruns
  obtain ⟨-, _, _, s, hdiscover, -⟩ := hruns'.site_built
  obtain ⟨result, records, hreports⟩ := exists_reports_discoverPages_any _ winding.root _
  rw [hreports s] at hdiscover
  rw [hreports .start, hdiscover] at hwalk
  cases hwalk

/-- A build that returns need not give the same again, with every component a file. -/
theorem buildSite_differs_again :
    (plainFiles.WellFormed ∧ plain.provider.IsPure plain.compiler.reenter plainFiles ∧
        ¬plain.BuildsAgain (ofText "src/dist") ⟨plainFiles, .start⟩) ∧
      (earlyFiles.WellFormed ∧ plain.provider.IsPure plain.compiler.reenter earlyFiles ∧
        ¬plain.BuildsAgain (ofText "components") ⟨earlyFiles, .start⟩) ∧
      windingFiles.WellFormed ∧ winding.provider.IsPure winding.compiler.reenter windingFiles ∧
        ¬winding.BuildsAgain (ofText "src/abcdefghijkl/../../dist") ⟨windingFiles, .start⟩ :=
  ⟨⟨wellFormed_plainFiles, isPure_ofRoot _ rfl (by decide) [], not_buildsAgain_plain⟩,
    ⟨wellFormed_earlyFiles, isPure_ofRoot _ rfl (by decide) [], not_buildsAgain_early⟩,
    wellFormed_windingFiles, isPure_ofRoot _ rfl (by decide) [], not_buildsAgain_winding⟩

end Plain

end StaticSite
