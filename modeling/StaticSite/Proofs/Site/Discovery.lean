import StaticSite.Proofs.Files.Changes
import StaticSite.Proofs.Site.Listed
import StaticSite.Proofs.Site.Written

/-!
# Which files are pages

Discovery goes by names: a file below the root is a page when its own name has the suffix and none
of the folders above it bears the name of the components folder, and the pages are listed in strict
order. So what lies in the components folder is left out when that folder is named by a single name,
and only then.
-/

namespace StaticSite

open Builder Engine Tree Path Node

/-- A place below the root that is a page's by its names. -/
def IsPagePlace (componentsDir : Text) (place : List Text) : Prop :=
  componentsDir ∉ place.dropLast ∧ suffix (place.getLast?.getD []) = pageSuffix

/-! ## The list of the pages -/

section Listed

variable {files : SiteTree} {root : Path} {componentsDir : Text}
  {entries : List (Text × Node Content)}

theorem logs_discoverPages_of_unlisted {fault : Fault} (h : listing files root = .error fault)
    (hfile : fault.isFileFault) (hstops : fault.stops = false) :
    Logs files (discoverPages root componentsDir) [] [unlisted root fault] :=
  (logs_listFolder?_of_unlisted h hfile hstops).bind (logs_pure [])

/-- Below a root that can be listed, discovery gives the pages in strict code point order and
nothing else, as long as what it comes to can be looked at; a folder that cannot be listed is passed
over with a warning. What cannot be looked at makes it fail. Where the root cannot be listed it
gives no page and one warning, save for a root that holds the character that ends paths: there it
fails. -/
theorem discoverPages_exact (hwf : files.WellFormed) (root : Path) (componentsDir : Text) :
    (∀ entries, Lists files root entries →
      ((∀ place n, Reached files root componentsDir entries place n →
          Admits files (root.below place)) →
        ∃ pages records, Reports files (discoverPages root componentsDir) (.ok pages) records ∧
          (pages.Pairwise fun s t => Text.le s t ∧ s ≠ t) ∧
          (∀ page, page ∈ pages ↔ ∃ place content, page = slashed place ∧
            Reached files root componentsDir entries place (.file content) ∧
            suffix (place.getLast?.getD []) = pageSuffix) ∧
          ∀ record, record ∈ records ↔ ∃ place more fault,
            Reached files root componentsDir entries place (.folder more) ∧
            place.getLast? ≠ some componentsDir ∧
            listing files (root.below place) = .error fault ∧
            record = unlisted (root.below place) fault) ∧
      ((∃ place n cause, Reached files root componentsDir entries place n ∧
          Refuses files (root.below place) cause) →
        ∃ place n cause records, Reached files root componentsDir entries place n ∧
          Refuses files (root.below place) cause ∧
          Reports files (discoverPages root componentsDir)
            (.error (.file cause (root.below place))) records)) ∧
    ((∀ entries, ¬Lists files root entries) →
      ('\x00' ∉ root.text → ∃ cause,
        Logs files (discoverPages root componentsDir) [] [unlisted root (.file cause root)]) ∧
      ('\x00' ∈ root.text →
        Looks files (discoverPages root componentsDir) (.error .nullInPath))) := by
  refine ⟨fun entries hlists => ?_, fun hnot => ⟨fun hnull => ?_, fun hnull => ?_⟩⟩
  · have hordered := hwf.ordered.get? (find_eq_ok_iff.mp hlists.find.2).2
    rcases exists_reports_discoverPages hordered hlists with
      ⟨pages, records, hreports, hdiscovered, hwarned⟩ |
      ⟨place, n, fault, records, hreached, hhalts, hreports⟩
    · refine ⟨fun _ => ?_, ?_⟩
      · exact ⟨pages, records, hreports, hdiscovered.ordered, hdiscovered.mem, hwarned⟩
      · rintro ⟨place, n, cause, hreached, hrefused⟩
        exact (hdiscovered.seen place n hreached cause hrefused).elim
    · cases hhalts with
      | refused hrefused =>
          refine ⟨fun hseen => (hseen place n hreached _ hrefused).elim, fun _ => ?_⟩
          exact ⟨place, n, _, records, hreached, hrefused, hreports⟩
      | null hnull => exact (hreached.null_notMem hwf hlists hnull).elim
  · cases hlisting : listing files root with
    | ok entries => exact (hnot entries hlisting).elim
    | error fault =>
        have hcause : ∃ cause, fault = .file cause root := by
          unfold listing at hlisting
          rw [if_neg (by simpa using hnull)] at hlisting
          cases hlist : files.list root with
          | ok entries =>
              rw [hlist] at hlisting
              cases hlisting
          | error cause =>
              rw [hlist] at hlisting
              cases hlisting
              exact ⟨cause, rfl⟩
        obtain ⟨cause, rfl⟩ := hcause
        exact ⟨cause, logs_discoverPages_of_unlisted hlisting rfl rfl⟩
  · intro s
    rw [discoverPages, Engine.exec_bind, looks_listFolder?_of_null hnull s]

end Listed

def partsEntries : List (Text × Node Content) :=
  [("components", .folder [("A.html", textFile "a")]), ("index.html", textFile "i")]

def partsFiles : SiteTree := ⟨.folder [("src", .folder partsEntries)], []⟩

theorem wellFormed_partsFiles : partsFiles.WellFormed :=
  wellFormed_of_descendants (by decide) (by decide) ⟨_, rfl⟩

theorem look_partsEntries : ∀ d ∈ (Node.folder partsEntries).descendants,
    partsFiles.look ((ofText "src").below d.1) = .ok d.2 := by
  intro d hd
  change d ∈ [(_, _), (_, _), (_, _)] at hd
  simp only [List.mem_cons, List.not_mem_nil, or_false] at hd
  rcases hd with rfl | rfl | rfl <;> rfl

theorem discoverPages_exact_parts :
    (∃ pages records, Reports partsFiles (discoverPages (ofText "src") "components") (.ok pages)
        records ∧ "index.html".toList ∈ pages) ∧
    ∃ cause, Logs partsFiles (discoverPages (ofText "lib") "components") []
      [unlisted (ofText "lib") (.file cause (ofText "lib"))] := by
  constructor
  · obtain ⟨pages, records, hreports, -, hmem, -⟩ := ((discoverPages_exact wellFormed_partsFiles
      (ofText "src") "components").1 partsEntries rfl).1 fun place n hreached =>
        admits_of_look (look_partsEntries _ (mem_descendants hreached.there hreached.ne))
    refine ⟨pages, records, hreports,
      (hmem _).mpr ⟨["index.html"], .bytes (Text.encodeUtf8 "i"), rfl, ?_, rfl⟩⟩
    refine ⟨List.cons_ne_nil _ _, rfl, List.not_mem_nil, fun upper hupper hne hnonempty => ?_⟩
    rcases List.prefix_cons_iff.mp hupper with rfl | ⟨rest, rfl, hrest⟩
    · exact absurd rfl hnonempty
    · exact absurd (congrArg _ (List.prefix_nil.mp hrest)) hne
  · refine ((discoverPages_exact wellFormed_partsFiles (ofText "lib") "components").2 ?_).1
      (by decide)
    intro entries hlists
    cases hlists

/-- A root with the character that ends paths is listed nowhere, and still discovery fails. -/
theorem discoverPages_null_fails :
    (∀ entries, ¬Lists partsFiles (ofText "a\x00b") entries) ∧
      ((discoverPages (ofText "a\x00b") "components").exec partsFiles .start).1 ≠ .ok [] := by
  constructor
  · intro entries hlists
    cases hlists
  · have hfault : ((discoverPages (ofText "a\x00b") "components").exec partsFiles .start).1 =
        .error .nullInPath := rfl
    rw [hfault]
    rintro ⟨⟩

/-! ## The components folder -/

/-- What the page's name means lies in the components folder. -/
def Environment.LiesInComponents (e : Environment) (files : SiteTree) (page : Text) : Prop :=
  files.IsBelow e.componentsRoot (files.resolve (e.pagePath page)).parts

section Discovery

variable {files : SiteTree} {e : Environment} {entries : List (Text × Node Content)}
  {place : List Text} {content : Content}

/-- A page lies in the place that its name says below the root. -/
theorem spot_pagePath (hwf : files.WellFormed) (hne : place ≠ []) {n : Node Content}
    (hn : files.root.get? (files.spot e.root ++ place) = some n) :
    files.spot (e.pagePath (slashed place)) = files.spot e.root ++ place := by
  have hnames : ∀ name ∈ place, IsName name :=
    fun name hname => hwf.names _ _ hn name (List.mem_append_right _ hname)
  rw [Environment.pagePath, child_slashed _ hne hnames, spot_below _ _ (parentName_notMem hnames)]

/-- A components folder with a single name holds no page, as pages are not looked for below that
name. -/
theorem not_liesInComponents (hwf : files.WellFormed) (hname : IsName e.componentsDir)
    (hplace : IsPagePlace e.componentsDir place) (hne : place ≠ [])
    (hget : files.root.get? (files.spot e.root ++ place) = some (.file content)) :
    ¬e.LiesInComponents files (slashed place) := by
  rw [Environment.LiesInComponents, isBelow_iff hwf,
    parts_resolve hwf.parentName_notMem_current]
  rintro ⟨rest, hrest, hspot⟩
  have hup : parentName ∉ [e.componentsDir] := parentName_notMem (by simpa using hname)
  rw [spot_pagePath hwf hne hget, Environment.componentsRoot, child_name _ hname,
    spot_below _ _ hup, List.append_assoc] at hspot
  have hfolders := hplace.1
  rw [List.append_cancel_left hspot, List.singleton_append, List.dropLast_cons_of_ne_nil hrest]
    at hfolders
  exact hfolders List.mem_cons_self

/-- Whatever stands in the tree has a proper name, so another text never hides a folder. -/
theorem isPagePlace_of_not_isName (hwf : files.WellFormed) (hname : ¬IsName e.componentsDir)
    {before : List Text}
    (hget : files.root.get? (before ++ place) = some (.file content))
    (hsuffix : suffix (place.getLast?.getD []) = pageSuffix) :
    IsPagePlace e.componentsDir place := by
  refine ⟨fun hmem => hname ?_, hsuffix⟩
  exact hwf.names _ _ hget _ (List.mem_append_right _ (List.dropLast_subset _ hmem))

/-- Everything below a folder can be looked at, and every folder there can be listed. -/
def OpenBelow (files : SiteTree) (root : Path) (entries : List (Text × Node Content)) : Prop :=
  ∀ place n, place ≠ [] → (Node.folder entries).get? place = some n →
    Admits files (root.below place) ∧
      (n.isFolder → ∃ more, Lists files (root.below place) more)

/-- Below an open folder a walk only leaves out what lies in components folders. -/
theorem OpenBelow.reached {root : Path} {componentsDir : Text} (h : OpenBelow files root entries)
    (hne : place ≠ []) {n : Node Content} (hn : (Node.folder entries).get? place = some n)
    (houtside : componentsDir ∉ place.dropLast) :
    Reached files root componentsDir entries place n := by
  refine ⟨hne, hn, houtside, ?_⟩
  rintro upper ⟨rest, rfl⟩ hproper hnonempty
  have hrest : rest ≠ [] := fun hempty => hproper (by rw [hempty, List.append_nil])
  obtain ⟨more, hfolder⟩ := exists_folder_of_append hrest hn
  exact (h upper _ hnonempty hfolder).2 rfl

/-- Where the components folder lies properly below the root: when it is named by a single name, no
page that is discovered lies in it; when it is named in any other way, and nothing below the root
is closed, every `.html` file in it is discovered as a page. -/
theorem discoverPages_components (hwf : files.WellFormed)
    (hproper : files.IsBelow e.root (files.resolve e.componentsRoot).parts) :
    (IsName e.componentsDir → ∀ s pages,
      ((discoverPages e.root e.componentsDir).exec files s).1 = .ok pages →
      ∀ page ∈ pages, ¬e.LiesInComponents files page) ∧
    (¬IsName e.componentsDir → Lists files e.root entries → OpenBelow files e.root entries →
      ∀ s, ∃ pages, ((discoverPages e.root e.componentsDir).exec files s).1 = .ok pages ∧
        ∀ rest content, rest ≠ [] → suffix (rest.getLast?.getD []) = pageSuffix →
          files.root.get? ((files.resolve e.componentsRoot).parts ++ rest) =
            some (.file content) →
          ∃ page ∈ pages, (files.resolve (e.pagePath page)).parts =
            (files.resolve e.componentsRoot).parts ++ rest) := by
  constructor
  · intro hname s pages h page hpage
    obtain ⟨entries, hdiscovered⟩ := discovered_of_mem hwf.ordered h hpage
    obtain ⟨place, content, rfl, hreached, hsuffix⟩ := (hdiscovered.mem page).mp hpage
    exact not_liesInComponents hwf hname ⟨hreached.outside, hsuffix⟩ hreached.ne
      (hreached.get? hdiscovered.lists)
  · intro hname hlists hopen s
    obtain ⟨-, hfolder⟩ := find_eq_ok_iff.mp hlists.find.2
    have hordered := hwf.ordered.get? hfolder
    rcases @exists_reports_discoverPages _ _ e.componentsDir _ hordered hlists with
      ⟨pages, records, hreports, hdiscovered, -⟩ | ⟨q, m, fault, records, hreached, hhalts, -⟩
    · refine ⟨pages, congrArg Prod.fst (hreports s), ?_⟩
      intro rest content hrest hsuffix hget
      obtain ⟨deep, -, hdeep⟩ := (isBelow_iff hwf).mp hproper
      rw [hdeep, List.append_assoc] at hget ⊢
      have hne : deep ++ rest ≠ [] := List.append_ne_nil_of_right_ne_nil deep hrest
      have hlast : suffix ((deep ++ rest).getLast?.getD []) = pageSuffix := by
        rw [List.getLast?_eq_some_getLast hrest] at hsuffix
        rw [List.getLast?_append, List.getLast?_eq_some_getLast hrest]
        exact hsuffix
      have hplace := isPagePlace_of_not_isName hwf hname hget hlast
      refine ⟨slashed (deep ++ rest), ?_, ?_⟩
      · rw [get?_append hfolder] at hget
        exact (hdiscovered.mem _).mpr ⟨_, content, rfl, hopen.reached hne hget hplace.1, hlast⟩
      · rw [parts_resolve hwf.parentName_notMem_current]
        exact spot_pagePath hwf hne hget
    · cases hhalts with
      | refused hrefused => exact ((hopen q m hreached.ne hreached.there).1 _ hrefused).elim
      | null hnull => exact (hreached.null_notMem hwf hlists hnull).elim

end Discovery

/-! ## A components folder in two spellings -/

section Spellings

def partsSite (componentsDir : Text) : Environment :=
  (Environment.ofRoot (ofText "src") none).withComponentsDir componentsDir

theorem isBelow_root_parts {componentsDir : Text}
    (h : ofText componentsDir = ⟨.relative, ["components".toList]⟩) :
    partsFiles.IsBelow (partsSite componentsDir).root
      (partsFiles.resolve (partsSite componentsDir).componentsRoot).parts := by
  refine ⟨["components"], List.cons_ne_nil _ _, ?_⟩
  have hroot : (partsSite componentsDir).componentsRoot =
      ofText "src" ++ ofText componentsDir := rfl
  rw [hroot, h]
  rfl

theorem openBelow_parts : OpenBelow partsFiles (ofText "src") partsEntries := by
  intro place n hne hn
  have hmem := mem_descendants hn hne
  refine ⟨admits_of_look (look_partsEntries _ hmem), fun hfolder => ?_⟩
  change (place, n) ∈ [(_, _), (_, _), (_, _)] at hmem
  simp only [List.mem_cons, List.not_mem_nil, or_false] at hmem
  rcases hmem with h | h | h <;> cases h
  · exact ⟨_, rfl⟩
  · cases hfolder
  · cases hfolder

theorem discoverPages_components_parts :
    (∀ s pages, ((discoverPages (partsSite "components").root
        (partsSite "components").componentsDir).exec partsFiles s).1 = .ok pages →
      ∀ page ∈ pages, ¬(partsSite "components").LiesInComponents partsFiles page) ∧
    ∀ s, ∃ pages, ((discoverPages (partsSite "components/").root
        (partsSite "components/").componentsDir).exec partsFiles s).1 = .ok pages ∧
      ∃ page ∈ pages, (partsFiles.resolve ((partsSite "components/").pagePath page)).parts =
        (["src", "components", "A.html"] : List Text) := by
  have hplain : ofText "components" = ⟨.relative, ["components".toList]⟩ := by decide
  have hslash : ofText "components/" = ⟨.relative, ["components".toList]⟩ := by decide
  constructor
  · exact (@discoverPages_components _ _ partsEntries wellFormed_partsFiles
      (isBelow_root_parts hplain)).1 (by decide)
  · intro s
    obtain ⟨pages, hrun, hall⟩ := (@discoverPages_components _ _ partsEntries
      wellFormed_partsFiles (isBelow_root_parts hslash)).2 (by decide) rfl openBelow_parts s
    exact ⟨pages, hrun, hall ["A.html"] _ (by decide) (by decide) rfl⟩

/-- With a slash behind its name the components folder is searched for components, and its files
are discovered as pages. -/
theorem discoverPages_publishes_component :
    partsFiles.IsBelow (partsSite "components/").root
        (partsFiles.resolve (partsSite "components/").componentsRoot).parts ∧
      (ofText (partsSite "components/").componentsDir).isAbsolute = false ∧
      ∃ pages, ((discoverPages (partsSite "components/").root
          (partsSite "components/").componentsDir).exec partsFiles .start).1 = .ok pages ∧
        ∃ page ∈ pages, (partsSite "components/").LiesInComponents partsFiles page := by
  refine ⟨isBelow_root_parts (by decide), by decide, ["components/A.html", "index.html"], rfl, ?_⟩
  exact ⟨"components/A.html", List.mem_cons_self, ["A.html"], List.cons_ne_nil _ _, by decide⟩

end Spellings

end StaticSite
