import StaticSite.Proofs.Site.Relisting
import StaticSite.Proofs.Site.Retrace

/-!
# The stages of a build that runs again

Pages are discovered again, written again, and assets copied again, as long as what a build looks
for and copies is still what it was.
-/

namespace StaticSite

open Builder Tree Path Node

section Repeats

variable {r : Rerun} {e : Environment} {out : Path}

theorem repeats_buildEach (hout : out.IsProper) (hapart : ∀ q, r.left q → ¬r.written q)
    {pages : List Text}
    (hsteady : ∀ page ∈ pages, ∀ t, r.Meets t → ∀ s s',
      ((e.buildPage page).exec t s).1 = ((e.buildPage page).exec r.first s').1)
    (hplace : ∀ page ∈ pages, r.written (r.first.spot (out.child page))) :
    r.Repeats (buildEach e out pages) := by
  induction pages with
  | nil => exact .pure ()
  | cons page pages ih =>
      have htarget := hout.child page
      have hparent : (out.child page).parent.IsProper :=
        htarget.of_subset (List.dropLast_subset _)
      have hhtml : r.Repeats (Builder.observe (e.buildPage page)) := by
        refine .observe (keeps_buildPage (fun _ _ => trivial) page)
          fun {t x s html} htracks hbuilt s' => ?_
        have hfirst := hsteady page (by simp) t (htracks.meets_ahead hapart) s s
        rw [hsteady page (by simp) x (htracks.meets_behind hapart) s' s, ← hfirst, hbuilt]
      refine hhtml.bind fun html => ?_
      refine (Rerun.Repeats.makeFolders hparent).bind fun _ => ?_
      have hwrite := Rerun.Repeats.writeText htarget (hplace page (by simp)) html
      refine hwrite.bind fun _ => (Rerun.Repeats.info _).bind fun _ => ?_
      exact ih (fun other hother => hsteady other (by simp [hother]))
        fun other hother => hplace other (by simp [hother])

theorem repeats_copyEach (hout : out.IsProper) {places : List (List Text)}
    (hplaces : ∀ place ∈ places, place ≠ [] ∧ ∀ name ∈ place, IsName name)
    (hinput : ∀ place ∈ places, r.input (r.first.spot (e.assetsRoot.below place)))
    (hwritten : ∀ place ∈ places, ∀ deep, (∀ name ∈ deep, IsName name) →
      r.written (r.first.spot ((out.child e.assetsDir).below place) ++ deep)) :
    r.Repeats (copyEach e.assetsRoot e.assetsDir out places) := by
  induction places with
  | nil => exact .pure []
  | cons place places ih =>
      obtain ⟨hne, hnames⟩ := hplaces place (by simp)
      have htarget : ((out.child e.assetsDir).below place).IsProper := (hout.child _).below hnames
      have hparent : ((out.child e.assetsDir).below place).parent.IsProper :=
        htarget.of_subset (List.dropLast_subset _)
      have hcopy : r.Repeats
          (copyFile (e.assetsRoot.below place) ((out.child e.assetsDir).below place)) :=
        .copyFile (hinput place (by simp)) htarget (isName_name_below _ hne hnames)
          (hwritten place (by simp))
      rw [copyEach, child_text_below out e.assetsDir hnames]
      refine (Rerun.Repeats.makeFolders hparent).bind fun _ => ?_
      refine hcopy.bind fun _ => ?_
      have hrest := ih (fun other hother => hplaces other (by simp [hother]))
        (fun other hother => hinput other (by simp [hother]))
        fun other hother => hwritten other (by simp [hother])
      exact hrest.bind fun _ => .pure _

end Repeats

section Assets

variable {e : Environment} {out : Path} {w w' : World} {copied : List Text}

/-- Assets are reported by their names below the output folder. -/
theorem copied_of_copyEach {places : List (List Text)}
    (h : (copyEach e.assetsRoot e.assetsDir out places).Runs w copied w') :
    copied = places.map fun place => ((ofText e.assetsDir).below place).text := by
  induction places generalizing w w' copied with
  | nil => exact (runs_pure_iff.mp h).1.symm
  | cons place places ih =>
      obtain ⟨_, w₁, -, h⟩ := runs_bind_iff.mp h
      obtain ⟨_, w₂, -, h⟩ := runs_bind_iff.mp h
      obtain ⟨rest, w₃, hrest, h⟩ := runs_bind_iff.mp h
      obtain ⟨rfl, -⟩ := runs_pure_iff.mp h
      rw [ih hrest, List.map_cons]

/-- Whether a folder is seen at a path depends on the shape of the tree. -/
theorem looks_isFolder_of_shape {t u : SiteTree} {p : Path} (h : t.Grows u)
    (h' : u.root.KeepsKinds t.root) {there : Bool}
    (hthere : Engine.Looks t (Engine.isFolder p) (.ok there)) :
    Engine.Looks u (Engine.isFolder p) (.ok there) := by
  have hkinds : (Engine.seen u p).map (·.map Node.isFolder) =
      (Engine.seen t p).map (·.map Node.isFolder) := by
    have hshape := look_map_isFolder h h' p
    unfold Engine.seen
    split
    · rfl
    · cases ht : t.look p with
      | ok n =>
          obtain ⟨m, hm, hkind⟩ := h.look ht
          simp [hm, Except.map, hkind]
      | error cause =>
          rw [ht] at hshape
          cases hu : u.look p with
          | ok m =>
              rw [hu] at hshape
              cases hshape
          | error other =>
              rw [hu] at hshape
              obtain rfl : other = cause := Except.error.inj hshape
              cases other <;> rfl
  have hsame : (Engine.seen u p).map (fun n => (n.map Node.isFolder).getD false) =
      (Engine.seen t p).map (fun n => (n.map Node.isFolder).getD false) := by
    cases hu : Engine.seen u p <;> cases ht : Engine.seen t p <;>
      simp_all [Except.map]
  have hlooks : Engine.Looks u (Engine.isFolder p) _ := Engine.looks_isFolder
  have hlooks' : Engine.Looks t (Engine.isFolder p) _ := Engine.looks_isFolder
  rw [hsame] at hlooks
  have hends : (Engine.seen t p).map (fun n => (n.map Node.isFolder).getD false) = .ok there :=
    congrArg Prod.fst ((hlooks' .start).symm.trans (hthere .start))
  rwa [hends] at hlooks

/-- The copies that a run of `copyAssets` makes of the files that it found. -/
theorem repeats_copyEach_of_found {r : Rerun} {t : SiteTree} {entries : List (Text × Node Content)}
    {places : List (List Text)} (hfirst : r.first.WellFormed) (hout : out.IsProper)
    (hinput : ∀ q, r.first.IsBelow e.assetsRoot q → r.input q)
    (hwritten : ∀ asset ∈ copied, ∀ deep, r.written (r.first.spot (out.child asset) ++ deep))
    (ht : t.WellFormed) (hlook : t.look e.assetsRoot = .ok (.folder entries))
    (hlisted : listedBelow t e.assetsRoot = .ok places)
    (h : (copyEach e.assetsRoot e.assetsDir out places).Runs w copied w') :
    r.Repeats (copyEach e.assetsRoot e.assetsDir out places) := by
  have hplaces : ∀ place ∈ places, place ≠ [] ∧ ∀ name ∈ place, IsName name := by
    intro place hplace
    obtain ⟨hne, hnames, -⟩ := file_of_mem_listedBelow ht hlook hlisted hplace
    exact ⟨hne, hnames⟩
  refine repeats_copyEach hout hplaces (fun place hplace => ?_) fun place hplace deep _ => ?_
  · obtain ⟨hne, hnames⟩ := hplaces place hplace
    exact hinput _ (isBelow_spot_below hfirst hne hnames)
  · have hasset : ((ofText e.assetsDir).below place).text ∈ copied := by
      rw [copied_of_copyEach h]
      exact List.mem_map_of_mem hplace
    have hdone := hwritten _ hasset deep
    rwa [child_text_below out e.assetsDir (hplaces place hplace).2] at hdone

section CopyAssets

variable {r : Rerun} {x : SiteTree} (hfirst : r.first.WellFormed) (hout : out.IsProper)
  (hinput : ∀ q, r.first.IsBelow e.assetsRoot q → r.input q)
  (hwritten : ∀ asset ∈ copied, ∀ deep, r.written (r.first.spot (out.child asset) ++ deep))
  (h : (copyAssets e out).Runs w copied w')
include hfirst hout hinput hwritten h

theorem changes_of_copyAssets (hw : Changes r.written r.first w.tree) :
    Changes r.written w.tree w'.tree := by
  rcases h.assets_copied with ⟨entries, places, mid, hseen, hlisted, htree, hcopy⟩ | ⟨-, hkept, -⟩
  · have hrepeats := repeats_copyEach_of_found hfirst hout hinput hwritten hw.wellFormed
      (Engine.seen_some hseen).2 hlisted hcopy
    have hchanges := (hrepeats.keeps.runs hcopy (htree ▸ hw.wellFormed) (htree ▸ hw.current)).1
    rwa [htree] at hchanges
  · rw [hkept]
    exact .refl hw.wellFormed

/-- The second run finds the same files to copy, or none where the first has found none. -/
theorem does_copyAssets (htracks : r.Tracks w.tree x) (hlast : w'.tree.Grows r.last)
    (hwf : r.last.WellFormed) (hopens : OpensNew r.first r.last e.assetsRoot)
    (hseen : ∀ there, Engine.Looks w'.tree (Engine.isFolder e.assetsRoot) (.ok there) →
      Engine.Looks r.last (Engine.isFolder e.assetsRoot) (.ok there)) :
    Does (copyAssets e out) x copied (r.Tracks w'.tree) := by
  have hchanges := changes_of_copyAssets hfirst hout hinput hwritten h htracks.ahead.toChanges
  have hx : r.last.Grows x :=
    ⟨(htracks.grows.current.trans hchanges.current.symm).trans hlast.current.symm,
      (htracks.grows.guard.trans hchanges.guard.symm).trans hlast.guard.symm, htracks.shape⟩
  rcases h.assets_copied with
    ⟨entries, places, mid, hfound, hlisted, htree, hcopy⟩ | ⟨rfl, hkept, hnone⟩
  · obtain ⟨hnull, hlook⟩ := Engine.seen_some hfound
    have hrepeats := repeats_copyEach_of_found hfirst hout hinput hwritten
      htracks.ahead.wellFormed hlook hlisted hcopy
    obtain ⟨m, hm, hkind⟩ := htracks.grows.look hlook
    obtain ⟨entries', rfl⟩ := exists_of_isFolder hkind
    obtain ⟨last, hafter, -⟩ := (hchanges.toGrows.trans hlast).look hlook
    have hregrown : Regrown w.tree x e.assetsRoot entries entries' := by
      refine ⟨htracks.grows, htracks.ahead.wellFormed, htracks.behind.wellFormed, hnull, hlook, hm,
        ?_⟩
      exact hopens.between hfirst hwf htracks.ahead.toGrows htracks.grows hx htracks.behind.bound
        htracks.ahead.wellFormed.parentName_notMem_current hnull (find_of_look hafter)
    have hlisted' : listedBelow x e.assetsRoot = .ok places := by
      refine hregrown.listedBelow_eq (fun q content hne => ?_) hlisted
      rw [htracks.ahead.spot]
      exact htracks.inputs _ (hinput _ ((isBelow_iff hfirst).mpr ⟨q, hne, rfl⟩)) content
    have hthere := Engine.looks_isFolder_iff.mpr ⟨entries', Engine.seen_of_look hnull hm⟩
    refine Does.observe_bind (fun s => congrArg Prod.fst (hthere s)) ?_
    have hfiles (s : Session) : ((filesBelow e.assetsRoot).exec x s).1 = .ok places :=
      (congrArg Prod.fst (looks_filesBelow s)).trans hlisted'
    refine Does.observe_bind hfiles (Does.observe_bind (fun _ => rfl) ?_)
    exact hrepeats.again hcopy (htree ▸ htracks) hlast.kinds
  · -- Nothing was copied, so the first run has ended in this very tree.
    have hnone' := looks_isFolder_of_shape hx htracks.behind.bound (hseen _ (hkept ▸ hnone))
    refine Does.observe_bind (fun s => congrArg Prod.fst (hnone' s)) ?_
    exact Does.observe_bind (fun _ => rfl) (Does.pure (hkept ▸ htracks))

end CopyAssets

end Assets

/-! ## The root -/

section Root

variable {e : Environment} {out p : Path} {t u : SiteTree} {w w' : World} {parts : List Text}

/-- A folder that is seen below a path shows that the path leads to a folder too. -/
theorem folderThere_of_below (hparts : ∀ part ∈ parts, part ≠ [] ∧ '/' ∉ part)
    (h : FolderThere t (p.below parts)) : FolderThere t p := by
  obtain ⟨hnull, entries, hlook⟩ := h
  obtain ⟨hopen, hfind⟩ := look_eq_ok_iff.mp hlook
  obtain ⟨hlocate, hfolder⟩ := find_eq_ok_iff.mp hfind
  obtain ⟨hshort, hwalk⟩ := locate_eq_ok_iff.mp hlocate
  rw [parts_below] at hwalk hopen
  obtain ⟨mid, hmid, hrest⟩ := exists_walk_of_append hwalk
  have hspot : mid = t.spot p := eq_lead_of_walk hmid
  have hclear : '\x00' ∉ p.text := by
    rw [null_mem_text_iff] at hnull ⊢
    rintro ⟨part, hpart, hmem⟩
    exact hnull ⟨part, List.mem_append_left _ hpart, hmem⟩
  have hthere : ∃ entries, t.root.get? mid = some (.folder entries) := by
    cases parts with
    | nil =>
        cases hrest
        exact ⟨entries, hfolder⟩
    | cons part parts =>
        rw [walk] at hrest
        split at hrest
        · cases hrest
        · cases hrest
        · rename_i entries hentries
          exact ⟨entries, hentries⟩
  obtain ⟨above, habove⟩ := hthere
  refine ⟨hclear, above, look_eq_ok_iff.mpr ⟨barred_of_append hopen, find_eq_ok_iff.mpr ⟨?_, ?_⟩⟩⟩
  · exact locate_eq_ok_iff.mpr ⟨tooLong_of_below hparts hshort, hspot ▸ hmid⟩
  · exact hspot ▸ habove

/-- Without a root that is seen nothing is copied: an assets folder with a relative name lies below
the root, and what lies below one with an absolute name would be copied to itself. -/
theorem tree_of_copyAssets {copied : List Text} (hwf : w.tree.WellFormed)
    (hroot : ¬FolderThere w.tree e.root) (h : (copyAssets e out).Runs w copied w') :
    w'.tree = w.tree := by
  rcases h.assets_copied with ⟨entries, places, mid, hseen, hlisted, htree, hcopy⟩ | ⟨-, hkept, -⟩
  · obtain ⟨hnull, hlook⟩ := Engine.seen_some hseen
    cases habsolute : (ofText e.assetsDir).isAbsolute with
    | false =>
        have hassets : e.assetsRoot = e.root.below (ofText e.assetsDir).parts :=
          if_neg (by simp [habsolute])
        rw [hassets] at hnull hlook
        refine absurd (folderThere_of_below (fun part hpart => ?_) ⟨hnull, entries, hlook⟩) hroot
        obtain ⟨hempty, hslash, -⟩ := isProper_ofText e.assetsDir part hpart
        exact ⟨hempty, hslash⟩
    | true =>
        cases places with
        | nil =>
            obtain ⟨-, rfl⟩ := runs_pure_iff.mp hcopy
            exact htree
        | cons place places =>
            obtain ⟨-, hnames, -⟩ :=
              file_of_mem_listedBelow hwf hlook hlisted (List.mem_cons_self (a := place))
            rw [copyEach, child_text_below out e.assetsDir hnames,
              Environment.assetsRoot, child_of_isAbsolute _ habsolute,
              child_of_isAbsolute _ habsolute] at hcopy
            obtain ⟨_, w₁, -, hcopy⟩ := runs_bind_iff.mp hcopy
            obtain ⟨_, w₂, hself, -⟩ := runs_bind_iff.mp hcopy
            exact (not_runs_copyFile_self hself).elim
  · exact hkept

/-- Without a root that is seen a build leaves the tree as it is. -/
theorem tree_of_buildSite {report : Report} (hwf : w.tree.WellFormed)
    (hroot : ¬FolderThere w.tree e.root) (h : (buildSite e out).Runs w report w') :
    w'.tree = w.tree := by
  obtain ⟨-, w₁, w₂, s, hdiscover, htree, hbuild, hcopy⟩ := h.site_built
  have hempty : report.pages = [] := by
    refine List.eq_nil_iff_forall_not_mem.mpr fun page hpage => hroot ?_
    obtain ⟨entries, hpages⟩ := discovered_of_mem hwf.ordered hdiscover hpage
    exact ⟨hpages.lists.look.1, entries, hpages.lists.look.2⟩
  rw [hempty] at hbuild
  obtain ⟨-, rfl⟩ := runs_pure_iff.mp hbuild
  rw [← htree] at hroot hwf ⊢
  exact tree_of_copyAssets hwf hroot hcopy

/-- What a build looks for below the root, and what it copies, is in `u` as it is in `t`: no further
file is a page, and the files below the assets folder are the same. -/
structure Environment.KeepsInputs (e : Environment) (t u : SiteTree) : Prop where
  pages : ∀ place content, IsPagePlace e.componentsDir place →
    u.root.get? ((t.resolve e.root).parts ++ place) = some (.file content) →
      ∃ old, t.root.get? ((t.resolve e.root).parts ++ place) = some (.file old)
  assets : ∀ q, t.IsBelow e.assetsRoot q → AgreeAt t u q

/-- The same pages are discovered again. -/
theorem discoverPages_again (hwf : t.WellFormed) {written : List Text → Prop}
    (hu : Changes written t u) (hkept : e.KeepsInputs t u) (hopens : OpensNew t u e.root)
    (hroot : FolderThere u e.root → FolderThere t e.root) {s : Session} {pages : List Text}
    (h : ((discoverPages e.root e.componentsDir).exec t s).1 = .ok pages) (s' : Session) :
    ((discoverPages e.root e.componentsDir).exec u s').1 = .ok pages := by
  rcases discovered_of_discoverPages hwf.ordered h with ⟨entries, hpages⟩ |
    ⟨rfl, hnull, hnone⟩
  · obtain ⟨hnull, hlist⟩ := Engine.listing_eq_ok_iff.mp hpages.lists
    obtain ⟨entries', hlist'⟩ := hu.toGrows.list hlist
    have hlists' : Lists u e.root entries' := Engine.listing_eq_ok_iff.mpr ⟨hnull, hlist'⟩
    have hregrown : Regrown t u e.root entries entries' :=
      ⟨hu.toGrows, hwf, hu.wellFormed, hnull, hpages.lists.look.2, hlists'.look.2, hopens⟩
    refine hregrown.discoverPages_eq hlists' hpages (fun place content hplace hcontent => ?_) s'
    have hold := hkept.pages place content hplace
    rw [parts_resolve hwf.parentName_notMem_current] at hold
    exact hold hcontent
  -- A root that cannot be listed cannot be listed again.
  · cases hlisting : Engine.listing u e.root with
    | ok entries' =>
        obtain ⟨-, hlist'⟩ := Engine.listing_eq_ok_iff.mp hlisting
        have hthere : Lists u e.root entries' := hlisting
        obtain ⟨-, entries, hlook⟩ := hroot ⟨hnull, entries', hthere.look.2⟩
        have hlist := hu.toGrows.list_back (find_of_look hlook) hlist'
        exact (hnone _ (Engine.listing_eq_ok_iff.mpr ⟨hnull, hlist⟩)).elim
    | error fault =>
        obtain ⟨hfile, hstops⟩ := (listing_eq_error hlisting).resolve_right fun h => hnull h.1
        rw [logs_discoverPages_of_unlisted hlisting hfile hstops s']

end Root

end StaticSite
