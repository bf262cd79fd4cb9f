import StaticSite.Proofs.Component.Reach
import StaticSite.Proofs.Files.Changes
import StaticSite.Proofs.Site.Output
import StaticSite.Proofs.Site.Remains

/-!
# Where a build writes

However a build ends, it has written files below the output folder only, and below the folder that
the name of the assets folder makes of it. The two are the same place unless that name leads up and
out of the output folder.
-/

namespace StaticSite

open Builder Tree Path Node

namespace Path

/-- The path of a copied asset, which is named relative to the output folder. -/
theorem child_text_below (p : Path) (s : Text) {place : List Text}
    (hnames : ∀ name ∈ place, IsName name) :
    p.child ((ofText s).below place).text = (p.child s).below place := by
  rw [child, ofText_text ((isProper_ofText s).below hnames)]
  change (if ((ofText s).below place).isAbsolute then (ofText s).below place
      else ⟨p.anchor, p.parts ++ ((ofText s).below place).parts⟩ : Path) =
    Path.below (if (ofText s).isAbsolute then ofText s
      else ⟨p.anchor, p.parts ++ (ofText s).parts⟩) place
  have hanchor : ((ofText s).below place).isAbsolute = (ofText s).isAbsolute := rfl
  rw [hanchor]
  split
  · rfl
  · exact congrArg _ (List.append_assoc _ _ _).symm

end Path

/-- From any tree that a file system can hold and that is seen from the same folder, files are
written at the given places only, and bytecode of a kind is left. -/
def ChangesFrom (base : SiteTree) (written : List Text → Prop) (kind : Engine.Bytecode)
    (w w' : World) : Prop :=
  w.tree.WellFormed → w.tree.current = base.current →
    Changes written w.tree w'.tree ∧ w.session.Gains kind w'.session

section Frame

variable {base : SiteTree} {written : List Text → Prop} {kind : Engine.Bytecode} {e : Environment}
  {out p : Path} {w : World}

theorem stepwise_changesFrom : Stepwise (ChangesFrom base written kind) where
  refl := fun _ ht _ => ⟨.refl ht, Session.gains_of_eq rfl⟩
  trans := by
    intro w₁ w₂ w₃ hfirst hlater ht hcurrent
    obtain ⟨htree, hgains⟩ := hfirst ht hcurrent
    obtain ⟨htree', hgains'⟩ := hlater htree.wellFormed (htree.current.trans hcurrent)
    exact ⟨htree.trans htree', hgains.trans hgains'⟩
  logged := fun _ _ ht _ => ⟨.refl ht, Session.gains_of_eq rfl⟩

/-- What an action does to the world, when what comes after its first part depends on what that part
gave. -/
theorem Builder.leaves_bind {α β : Type} {R : World → World → Prop} (hR : Stepwise R)
    {act : Builder α} {next : α → Builder β} (h : R w (act.exec w).2)
    (hnext : ∀ a w', act.Runs w a w' → R w' ((next a).exec w').2) :
    R w ((act >>= next).exec w).2 := by
  rw [exec_bind]
  cases hexec : act.exec w with
  | mk result after =>
      rw [hexec] at h
      cases result with
      | ok a => exact hR.trans h (hnext a after hexec)
      | error fault => exact h

theorem keeps_foldersAbove (hp : p.IsProper) (above : Nat) :
    Keeps (ChangesFrom base written kind) (makeFoldersAbove above p) := by
  refine keeps_makeFoldersAbove stepwise_changesFrom (fun parts hparts => ?_) above
  refine keeps_change stepwise_changesFrom fun hnull w u hmake ht _ => ?_
  have hproper : IsProper ⟨p.anchor, parts⟩ := hp.of_subset hparts.subset
  have hchanges := changes_of_makeFolder ht hproper hnull hmake
  exact ⟨hchanges.mono fun _ => False.elim, Session.gains_of_eq rfl⟩

theorem keeps_makeFolders (hp : p.IsProper) :
    Keeps (ChangesFrom base written kind) (makeFolders p) :=
  keeps_foldersAbove hp p.parts.length

/-- Making folders writes no file. -/
theorem changes_makeFolders (hp : p.IsProper) (w : World) (hw : w.tree.WellFormed)
    (hcurrent : w.tree.current = base.current) :
    Changes (fun _ => False) w.tree ((makeFolders p).exec w).2.tree := by
  have hkeeps : Keeps (ChangesFrom base (fun _ => False) fun _ => True) (makeFolders p) :=
    keeps_makeFolders hp
  exact (hkeeps w hw hcurrent).1

theorem keeps_writeText (hp : p.IsProper) (hwritten : written (base.spot p)) (s : Text) :
    Keeps (ChangesFrom base written kind) (writeText p s) := by
  refine keeps_change stepwise_changesFrom fun hnull w u hwrite ht hcurrent => ?_
  have hchanges := changes_of_writeFile ht hp hnull (fun module h => by cases h) hwrite
  refine ⟨hchanges.mono ?_, Session.gains_of_eq rfl⟩
  rintro q rfl
  rwa [spot_eq_of_current hcurrent]

/-- Building a page leaves the tree as it is. -/
theorem keeps_buildPage (hkind : ∀ k, e.provider.Caches base k.1 → kind k) (page : Text) :
    Keeps (ChangesFrom base written kind) (observe (e.buildPage page)) := by
  intro w ht hcurrent
  refine ⟨.refl ht, ?_⟩
  obtain ⟨more, hmore, hcaches⟩ := e.gains_buildPage w.tree page w.session
  exact ⟨more, hmore, fun k hk => hkind k ((Provider.caches_of_current hcurrent).mp (hcaches k hk))⟩

theorem keeps_buildEach (hout : out.IsProper) (hkind : ∀ k, e.provider.Caches base k.1 → kind k)
    {pages : List Text} (hwritten : ∀ page ∈ pages, written (base.spot (out.child page))) :
    Keeps (ChangesFrom base written kind) (buildEach e out pages) := by
  have hR := @stepwise_changesFrom base written kind
  induction pages with
  | nil => exact keeps_pure hR ()
  | cons page pages ih =>
      have htarget := hout.child page
      have hparent : (out.child page).parent.IsProper :=
        htarget.of_subset (List.dropLast_subset _)
      refine (keeps_buildPage hkind page).bind hR fun html => ?_
      refine (keeps_makeFolders hparent).bind hR fun _ => ?_
      refine (keeps_writeText htarget (hwritten page (by simp)) html).bind hR fun _ => ?_
      refine (keeps_info hR _).bind hR fun _ => ?_
      exact ih fun other hother => hwritten other (by simp [hother])

/-! ## Copies -/

/-- The action leaves the session as it is, and changes the tree only when it succeeds. -/
def Builder.Tame {α : Type} (act : Builder α) : Prop :=
  ∀ w, (act.exec w).2.session = w.session ∧
    ∀ fault w', act.exec w = (.error fault, w') → w'.tree = w.tree

theorem Builder.tame_throw {α : Type} (fault : Fault) : (throw fault : Builder α).Tame := by
  refine fun w => ⟨rfl, ?_⟩
  rintro _ _ ⟨⟩
  rfl

theorem Builder.tame_change (p : Path) (operation : SiteTree → Except FileCause SiteTree) :
    (change p operation).Tame := by
  intro w
  rw [exec_change]
  split
  · refine ⟨rfl, ?_⟩
    rintro _ _ ⟨⟩
    rfl
  · cases operation w.tree <;> refine ⟨rfl, ?_⟩ <;> rintro _ _ ⟨⟩
    rfl

theorem Builder.Tame.after_looks {α β : Type} {act : Engine α} {next : α → Builder β}
    {result : SiteTree → Except Fault α} (hact : ∀ files, Engine.Looks files act (result files))
    (h : ∀ a, (next a).Tame) : (observe act >>= next).Tame := by
  intro w
  rw [exec_bind, exec_observe, hact w.tree w.session]
  cases result w.tree with
  | ok a => exact h a w
  | error cause =>
      refine ⟨rfl, ?_⟩
      rintro _ _ ⟨⟩
      rfl

theorem tame_copyFile (source target : Path) : (copyFile source target).Tame := by
  refine Tame.after_looks (fun _ => Engine.looks_isFolder) fun intoFolder w => ?_
  dsimp only
  generalize (if intoFolder then target.below [source.name] else target) = final
  rw [exec_bind]
  change (fun result : Except Fault Unit × World => result.2.session = w.session ∧
    ∀ fault w', result = (.error fault, w') → w'.tree = w.tree)
      ((if w.tree.samePlace source final then _ else _ : Builder Unit).exec w)
  split
  · exact tame_throw _ w
  · refine Tame.after_looks (fun _ => Engine.looks_openNode) (fun n => ?_) w
    cases n with
    | file content => exact tame_change _ _
    | folder entries => exact tame_throw _

/-- A path is not copied to itself. -/
theorem not_runs_copyFile_self {w' : World} {u : Unit} : ¬(copyFile p p).Runs w u w' := by
  intro h
  obtain ⟨intoFolder, content, hlooked, -, hopened, hapart, -, -⟩ := h.copied
  have hfound := find_of_read hopened
  cases intoFolder with
  | true =>
      obtain ⟨entries, hfolder⟩ := Engine.find_of_isFolder (congrArg Prod.fst (hlooked w.session))
      cases hfound.symm.trans hfolder
  | false =>
      rw [copyTarget, if_neg Bool.false_ne_true, samePlace, (find_eq_ok_iff.mp hfound).1] at hapart
      simp at hapart

/-- A copy writes at the target or, if that is a folder, below it. -/
theorem Builder.Copied.changes {source target : Path} {t u : SiteTree} {intoFolder : Bool}
    {content : Content} (h : Copied source target t u intoFolder content)
    (ht : t.WellFormed) (htarget : target.IsProper) (hname : IsName source.name) :
    ∃ deep, (∀ name ∈ deep, IsName name) ∧
      Changes (fun q => q = t.spot target ++ deep) t u := by
  obtain ⟨-, -, hopened, -, hclean, hwritten⟩ := h
  have hfound := find_of_read hopened
  have hmodules : ∀ module, content = .code module →
      ∃ q, t.root.get? q = some (.file (.code module)) := by
    rintro module rfl
    exact ⟨_, (find_eq_ok_iff.mp hfound).2⟩
  obtain ⟨deep, hdeep, -, hfinal⟩ := exists_copyTarget_eq target intoFolder hname
  rw [hfinal] at hclean hwritten
  have hchanges := changes_of_writeFile ht (htarget.below hdeep) hclean hmodules hwritten
  refine ⟨deep, hdeep, hchanges.mono ?_⟩
  rintro q rfl
  exact spot_below _ _ (parentName_notMem hdeep)

theorem keeps_copyFile {source target : Path} (htarget : target.IsProper)
    (hname : IsName source.name)
    (hwritten : ∀ deep, (∀ name ∈ deep, IsName name) → written (base.spot target ++ deep)) :
    Keeps (ChangesFrom base written kind) (copyFile source target) := by
  intro w ht hcurrent
  obtain ⟨hsession, htame⟩ := tame_copyFile source target w
  refine ⟨?_, Session.gains_of_eq (congrArg Session.bytecode hsession)⟩
  cases hexec : (copyFile source target).exec w with
  | mk result after =>
      cases result with
      | error fault =>
          rw [htame fault after hexec]
          exact .refl ht
      | ok u =>
          obtain ⟨intoFolder, content, hcopied⟩ := Runs.copied hexec
          obtain ⟨deep, hdeep, hchanges⟩ := hcopied.changes ht htarget hname
          refine hchanges.mono ?_
          rintro q rfl
          rw [spot_eq_of_current hcurrent]
          exact hwritten deep hdeep

theorem keeps_copyFile_self (p : Path) :
    Keeps (ChangesFrom base written kind) (copyFile p p) := by
  intro w ht _
  obtain ⟨hsession, htame⟩ := tame_copyFile p p w
  refine ⟨?_, Session.gains_of_eq (congrArg Session.bytecode hsession)⟩
  cases hexec : (copyFile p p).exec w with
  | mk result after =>
      cases result with
      | error fault =>
          rw [htame fault after hexec]
          exact .refl ht
      | ok u => exact (not_runs_copyFile_self hexec).elim

/-- Where copies of assets may be written: nowhere when the name of the assets folder is an absolute
path, as each file would then be copied to itself. -/
def AllowsAssets (base : SiteTree) (written : List Text → Prop) (e : Environment)
    (out : Path) : Prop :=
  (ofText e.assetsDir).isAbsolute = false → ∀ rest, rest ≠ [] → (∀ name ∈ rest, IsName name) →
    written (base.spot (out.child e.assetsDir) ++ rest)

theorem keeps_copyEach (hout : out.IsProper) {places : List (List Text)}
    (hplaces : ∀ place ∈ places, place ≠ [] ∧ ∀ name ∈ place, IsName name)
    (hwritten : (ofText e.assetsDir).isAbsolute = false → ∀ place ∈ places,
      ∀ deep, (∀ name ∈ deep, IsName name) →
        written (base.spot ((out.child e.assetsDir).below place) ++ deep)) :
    Keeps (ChangesFrom base written kind) (copyEach e.assetsRoot e.assetsDir out places) := by
  have hR := @stepwise_changesFrom base written kind
  induction places with
  | nil => exact keeps_pure hR []
  | cons place places ih =>
      obtain ⟨hne, hnames⟩ := hplaces place (by simp)
      have htarget : ((out.child e.assetsDir).below place).IsProper := (hout.child _).below hnames
      have hparent : ((out.child e.assetsDir).below place).parent.IsProper :=
        htarget.of_subset (List.dropLast_subset _)
      have hcopy : Keeps (ChangesFrom base written kind)
          (copyFile (e.assetsRoot.below place) ((out.child e.assetsDir).below place)) := by
        cases habsolute : (ofText e.assetsDir).isAbsolute with
        | true =>
            rw [Environment.assetsRoot, child_of_isAbsolute _ habsolute,
              child_of_isAbsolute _ habsolute]
            exact keeps_copyFile_self _
        | false =>
            refine keeps_copyFile htarget ?_ (hwritten habsolute place (by simp))
            exact isName_name_below _ hne hnames
      rw [copyEach, child_text_below out e.assetsDir hnames]
      refine (keeps_makeFolders hparent).bind hR fun _ => ?_
      refine hcopy.bind hR fun _ => ?_
      have hrest := ih (fun other hother => hplaces other (by simp [hother]))
        fun habsolute other hother => hwritten habsolute other (by simp [hother])
      exact hrest.bind hR fun _ => keeps_pure hR _

theorem keeps_copyAssets (hout : out.IsProper) (hwritten : AllowsAssets base written e out) :
    Keeps (ChangesFrom base written kind) (copyAssets e out) := by
  have hR := @stepwise_changesFrom base written kind
  intro w ht hcurrent
  have hthere := keeps_looks hR (fun _ => @Engine.looks_isFolder _ e.assetsRoot)
  refine leaves_bind hR (hthere w) (fun there w₁ hthere => ?_) ht hcurrent
  cases there with
  | false => exact (keeps_info hR _).bind hR (fun _ => keeps_pure hR _) w₁
  | true =>
      obtain ⟨entries, hentries⟩ :=
        Engine.looks_isFolder_iff.mp (Engine.looks_isFolder.of_exec hthere.exec_observed)
      obtain ⟨-, hlook⟩ := Engine.seen_some hentries
      have hfound := keeps_looks hR (fun _ => @looks_filesBelow _ e.assetsRoot)
      refine leaves_bind hR (hfound w₁) fun places w₂ hlisted => ?_
      have hplaces := hlisted.exec_observed
      rw [looks_filesBelow, hthere.tree_observe] at hplaces
      have hfiles (place : List Text) (hplace : place ∈ places) :=
        file_of_mem_listedBelow ht hlook hplaces hplace
      refine (keeps_info hR _).bind hR (fun _ => keeps_copyEach hout ?_ ?_) w₂
      · exact fun place hplace => ⟨(hfiles place hplace).1, (hfiles place hplace).2.1⟩
      · intro habsolute place hplace deep hdeep
        obtain ⟨hne, hnames, -⟩ := hfiles place hplace
        rw [spot_below _ _ (parentName_notMem hnames), List.append_assoc]
        refine hwritten habsolute _ (List.append_ne_nil_of_left_ne_nil hne deep) ?_
        exact fun name hname => (List.mem_append.mp hname).elim (hnames name) (hdeep name)

theorem keeps_buildSite (hout : out.IsProper)
    (hpages : ∀ place, place ≠ [] → (∀ name ∈ place, IsName name) →
      written (base.spot out ++ place))
    (hassets : AllowsAssets base written e out)
    (hkind : ∀ k, e.provider.Caches base k.1 → kind k) :
    Keeps (ChangesFrom base written kind) (buildSite e out) := by
  have hR := @stepwise_changesFrom base written kind
  intro w ht hcurrent
  refine leaves_bind hR (keeps_info hR _ w) (fun _ w₁ h₁ => ?_) ht hcurrent
  refine leaves_bind hR (keeps_info hR _ w₁) (fun _ w₂ h₂ => ?_)
  refine leaves_bind hR (keeps_info hR _ w₂) (fun _ w₃ h₃ => ?_)
  have hdiscover := keeps_observe hR
    fun files => exists_reports_discoverPages_any files e.root e.componentsDir
  refine leaves_bind hR (hdiscover w₃) (fun pages w₄ h₄ => ?_)
  have htree : w₃.tree = w.tree := by rw [h₃.tree_observe, h₂.tree_observe, h₁.tree_observe]
  have hdiscovered := h₄.exec_observed
  rw [htree] at hdiscovered
  have hwritten : ∀ page ∈ pages, written (base.spot (out.child page)) := by
    intro page hpage
    obtain ⟨place, raw, rfl, hne, hraw⟩ := file_of_discoverPages ht.ordered hdiscovered hpage
    have hnames : ∀ name ∈ place, IsName name :=
      fun name hname => ht.names _ _ hraw name (List.mem_append_right _ hname)
    rw [child_slashed out hne hnames, spot_below _ _ (parentName_notMem hnames)]
    exact hpages place hne hnames
  refine (keeps_info hR _).bind hR (fun _ => ?_) w₄
  refine (keeps_buildEach hout hkind hwritten).bind hR fun _ => ?_
  exact (keeps_copyAssets hout hassets).bind hR fun _ => keeps_pure hR _

end Frame

/-! ## Bytecode -/

/-- At this place the runtime keeps the bytecode of a source that the provider looks for. -/
def Environment.KeepsAt (e : Environment) (t : SiteTree) (q : List Text) : Prop :=
  ∃ cache, e.provider.Caches t cache ∧ q = (t.resolve cache).parts

/-- As a rule bytecode is kept in folders of their own. -/
theorem Environment.KeepsAt.beside {e : Environment} {t : SiteTree} {q : List Text}
    (h : e.KeepsAt t q) (ht : t.WellFormed)
    (hbeside : ∀ f ∈ e.provider.leaves, f.runtime.KeepsBeside) :
    ∃ folder name, q = folder ++ ["__pycache__".toList, name] := by
  obtain ⟨cache, ⟨f, hf, base, -, identifier, -, hcache⟩, rfl⟩ := h
  obtain ⟨tag, rfl⟩ := hbeside f hf _ _ hcache
  obtain ⟨name, hname, hup⟩ := exists_cacheBeside_eq tag
    (t.absolute (f.producerPath base identifier))
  refine ⟨t.spot (t.absolute (f.producerPath base identifier)).parent, name, ?_⟩
  rw [hname, parts_resolve ht.parentName_notMem_current, spot_below _ _ hup]

/-- However a build ends: a file that it has made or changed lies below the output folder or below
the assets folder in it, and the latter only when the assets folder has a relative name, or holds
bytecode of a component. So all others lie below the output folder when that name is absolute, or
leads, with every `..` taken literally, to the output folder or below it. -/
theorem files_of_buildSite {e : Environment} {out : Path} {w : World} (hwf : w.tree.WellFormed)
    (hfresh : w.session.bytecode = []) (hout : out.IsProper) :
    (∀ q content, ¬w.tree.IsBelow out q →
      ((ofText e.assetsDir).isAbsolute ∨ ¬w.tree.IsBelow (out.child e.assetsDir) q) →
      ¬e.KeepsAt w.tree q →
      (((buildSite e out).exec w).2.disk.root.get? q = some (.file content) ↔
        w.tree.root.get? q = some (.file content))) ∧
    ((ofText e.assetsDir).isAbsolute ∨
        (w.tree.resolve out).parts <+: (w.tree.resolve (out.child e.assetsDir)).parts →
      ∀ q content, ¬w.tree.IsBelow out q → ¬e.KeepsAt w.tree q →
        (((buildSite e out).exec w).2.disk.root.get? q = some (.file content) ↔
          w.tree.root.get? q = some (.file content))) := by
  have hframe : ∀ q content, ¬w.tree.IsBelow out q →
      ((ofText e.assetsDir).isAbsolute ∨ ¬w.tree.IsBelow (out.child e.assetsDir) q) →
      ¬e.KeepsAt w.tree q →
      (((buildSite e out).exec w).2.disk.root.get? q = some (.file content) ↔
        w.tree.root.get? q = some (.file content)) := by
    let written (q : List Text) : Prop := w.tree.IsBelow out q ∨
      ((ofText e.assetsDir).isAbsolute = false ∧ w.tree.IsBelow (out.child e.assetsDir) q)
    have hkeeps : Keeps (ChangesFrom w.tree written fun k => e.provider.Caches w.tree k.1)
        (buildSite e out) := by
      refine keeps_buildSite hout (fun place hne _ => ?_) (fun habsolute rest hne _ => ?_)
        fun _ => id
      · exact .inl ((isBelow_iff hwf).mpr ⟨place, hne, rfl⟩)
      · exact .inr ⟨habsolute, (isBelow_iff hwf).mpr ⟨rest, hne, rfl⟩⟩
    obtain ⟨hchanges, more, hmore, hcaches⟩ := hkeeps w hwf rfl
    rw [hfresh, List.nil_append] at hmore
    have hdisk : Spares (e.KeepsAt w.tree) ((buildSite e out).exec w).2.tree
        ((buildSite e out).exec w).2.disk := by
      refine World.spares_disk hchanges.wellFormed.toTidy fun k hk => ?_
      refine ⟨k.1, hcaches k (hmore ▸ hk), ?_⟩
      rw [hchanges.spot, parts_resolve hwf.parentName_notMem_current]
    intro q content hbelow hassets hkept
    rw [hdisk.files q content hkept]
    refine hchanges.files q content ?_
    rintro (hq | ⟨habsolute, hq⟩)
    · exact hbelow hq
    · rcases hassets with hassets | hassets
      · rw [habsolute] at hassets
        cases hassets
      · exact hassets hq
  refine ⟨hframe, fun hinside q content hbelow => hframe q content hbelow ?_⟩
  refine hinside.imp_right ?_
  rintro ⟨deep, hdeep⟩ ⟨rest, hrest, rfl⟩
  exact hbelow ⟨deep ++ rest, List.append_ne_nil_of_right_ne_nil deep hrest, by
    rw [← hdeep, List.append_assoc]⟩

/-! ## An assets folder beside the root -/

theorem find_of_bytesOf? {result : Except FileCause (Node Content)} {data : List UInt8}
    (h : bytesOf? result = some data) : result = .ok (.file (.bytes data)) := by
  unfold bytesOf? at h
  split at h
  · cases h
    rfl
  · cases h

section Stray

def strayFiles : SiteTree :=
  ⟨.folder [("pub", .folder [("x.txt", textFile "x")]),
    ("src", .folder [("index.html", textFile "i")])], []⟩

/-- The runtime keeps the bytecode of all it compiles beside the sources. -/
def strayRuntime : Runtime := { keepingRuntime with keep := fun _ _ => some [13, 10] }

def straySite (assetsDir : Text) : Environment :=
  let e := Environment.ofRoot (ofText "src") none
  { e with
    assetsDir
    provider := .folders ⟨Environment.searchPaths e.root e.projectRoot "components", .utf8,
      ".html", ".py", strayRuntime⟩ }

theorem wellFormed_strayFiles : strayFiles.WellFormed :=
  wellFormed_of_descendants (by decide) (by decide) ⟨_, rfl⟩

theorem not_isBelow_stray {out : Path} {q : List Text} (first : List Text)
    (hout : (strayFiles.resolve out).parts = first) (hq : ¬first <+: q) :
    ¬strayFiles.IsBelow out q := by
  rintro ⟨rest, -, rfl⟩
  rw [hout] at hq
  exact hq (List.prefix_append _ _)

theorem not_keepsAt_stray (assetsDir : Text) {q : List Text}
    (hq : ∀ folder name, q ≠ folder ++ ["__pycache__".toList, name]) :
    ¬(straySite assetsDir).KeepsAt strayFiles q := by
  intro h
  obtain ⟨folder, name, heq⟩ := h.beside wellFormed_strayFiles <| by
    intro f hf source cache hcache
    rw [List.mem_singleton.mp hf] at hcache
    exact ⟨_, (Option.some.inj hcache).symm⟩
  exact hq folder name heq

theorem files_of_buildSite_stray :
    (∀ content, ((buildSite (straySite "../pub") (ofText "d/e")).exec
        ⟨strayFiles, .start⟩).2.disk.root.get? ["src", "index.html"] = some (.file content) ↔
      strayFiles.root.get? ["src", "index.html"] = some (.file content)) ∧
    ∀ q content, ¬strayFiles.IsBelow (ofText "d/e") q →
      (∀ folder name, q ≠ folder ++ ["__pycache__".toList, name]) →
      (((buildSite (straySite "assets") (ofText "d/e")).exec
          ⟨strayFiles, .start⟩).2.disk.root.get? q = some (.file content) ↔
        strayFiles.root.get? q = some (.file content)) := by
  constructor
  · intro content
    have hsource : ∀ folder name,
        (["src", "index.html"] : List Text) ≠ folder ++ ["__pycache__".toList, name] := by
      rintro (_ | ⟨first, _ | ⟨second, _ | ⟨third, folder⟩⟩⟩) name heq <;>
        simp at heq
    exact (@files_of_buildSite (straySite "../pub") (ofText "d/e") ⟨strayFiles, .start⟩
      wellFormed_strayFiles rfl (by decide)).1 _ content
      (not_isBelow_stray ["d", "e"] (by decide) (by decide))
      (.inr (not_isBelow_stray ["d", "pub"] (by decide) (by decide)))
      (not_keepsAt_stray _ hsource)
  · intro q content hbelow hq
    exact (@files_of_buildSite (straySite "assets") (ofText "d/e") ⟨strayFiles, .start⟩
      wellFormed_strayFiles rfl (by decide)).2 (.inr (by decide)) q content hbelow
      (not_keepsAt_stray _ hq)

/-- A page that uses a component which is a module leaves the bytecode of the module. -/
example :
    bytesOf? (((buildSite (straySite "assets") (ofText "d/e")).exec ⟨⟨.folder [("src", .folder
      [("components", .folder [("Clock.py", .file (.code ⟨"clock", fun _ => .done
        [("default", .text "noon")], fun _ => .done .none, []⟩))]),
        ("index.html", textFile "<Component src=\"Clock\" />")])], []⟩, .start⟩).2.disk.find
          (ofText "/src/components/__pycache__/Clock.cpython-311.pyc")) = some [13, 10] := by
  decide +kernel

/-- The build succeeds and copies the asset to a place beside the output folder. -/
theorem buildSite_writes_outside :
    ∃ report w' content, (buildSite (straySite "../pub") (ofText "d/e")).Runs
        ⟨strayFiles, .start⟩ report w' ∧
      ¬strayFiles.IsBelow (ofText "d/e") ["d", "pub", "x.txt"] ∧
      strayFiles.root.get? ["d", "pub", "x.txt"] = none ∧
      w'.tree.root.get? ["d", "pub", "x.txt"] = some (.file content) := by
  have hruns : ((buildSite (straySite "../pub") (ofText "d/e")).exec
      ⟨strayFiles, .start⟩).1.toOption.map Report.assets = some ["../pub/x.txt".toList] := by
    decide +kernel
  have hfile : bytesOf? (((buildSite (straySite "../pub") (ofText "d/e")).exec
      ⟨strayFiles, .start⟩).2.tree.find (ofText "/d/pub/x.txt")) = some (Text.encodeUtf8 "x") := by
    decide +kernel
  obtain ⟨report, hbuilt, -⟩ := exists_runs hruns
  have hnew : strayFiles.root.get? ["d", "pub", "x.txt"] = none := rfl
  exact ⟨report, _, _, hbuilt, not_isBelow_stray ["d", "e"] (by decide) (by decide), hnew,
    (find_eq_ok_iff.mp (find_of_bytesOf? hfile)).2⟩

end Stray

end StaticSite
