import StaticSite.Proofs.Compile.Uniform
import StaticSite.Proofs.Files.Names
import StaticSite.Proofs.Site.Extends
import StaticSite.Proofs.Site.Runs

/-!
# What a build writes

A page is found in the output folder, compiled, once it is written, and stays there until its place
is written again. An asset is copied to its place, or below it where a folder stands there.
-/

namespace StaticSite

open Builder Tree Path

section Steps

variable {out p : Path} {place : List Text} {w w' : World} {u : Unit}

theorem extends_makeFolders (out : Path) (ht : w.tree.Tidy) (hp : p.anchor = out.anchor)
    (hparts : p.parts <+: out.parts ++ place) (hplace : parentName ∉ place)
    (h : (makeFolders p).Runs w u w') : Extends out (fun _ => False) w.tree w'.tree := by
  let R (w w' : World) : Prop := w.tree.Tidy → Extends out (fun _ => False) w.tree w'.tree
  have hR : Stepwise R := by
    refine ⟨fun _ _ => .refl _ _ _, fun hfirst hlater ht => ?_, fun _ _ _ => .refl _ _ _⟩
    exact (hfirst ht).trans (hlater ((hfirst ht).tidy ht))
  have hfolder (parts : List Text) (hbegin : parts <+: p.parts) :
      Keeps R (makeFolder ⟨p.anchor, parts⟩) := by
    refine keeps_change hR fun _ w u hmake ht => ?_
    rw [hp] at hmake
    exact extends_of_makeFolder ht (hbegin.trans hparts) hplace hmake
  have hkeeps := keeps_makeFoldersAbove hR hfolder p.parts.length w ht
  rw [Runs, makeFolders] at h
  rwa [h] at hkeeps

theorem extends_writeText (ht : w.tree.Tidy) (hplace : parentName ∉ place) {s : Text}
    (h : (writeText (out.below place) s).Runs w u w') :
    Extends out (fun q => q = w.tree.spot out ++ place) w.tree w'.tree ∧
      w'.tree.find (out.below place) = .ok (.file (.bytes (Text.encodeUtf8 s))) := by
  refine extends_of_writeFile ht hplace (fun module hmodule => ?_) h.changed.2
  cases hmodule

end Steps

/-! ## Pages -/

/-- A page under the name that discovery gives it. -/
def IsPageName (page : Text) : Prop :=
  ∃ place, page = slashed place ∧ place ≠ [] ∧ ∀ name ∈ place, IsName name

section Pages

variable {e : Environment} {out : Path} {w w' : World} {page : Text} {pages : List Text} {u : Unit}

theorem IsPageName.spot_child (h : IsPageName page) (t : SiteTree) (out : Path) :
    ∃ place, page = slashed place ∧ t.spot (out.child page) = t.spot out ++ place := by
  obtain ⟨place, rfl, hne, hnames⟩ := h
  refine ⟨place, rfl, ?_⟩
  rw [child_slashed out hne hnames, spot_below _ _ (parentName_notMem hnames)]

theorem IsPageName.below (h : IsPageName page) (t : SiteTree) (out : Path) :
    t.spot out <+: t.spot (out.child page) := by
  obtain ⟨place, -, hplace⟩ := h.spot_child t out
  rw [hplace]
  exact List.prefix_append _ _

theorem IsPageName.eq_of_spot {other : Text} (h : IsPageName page) (hother : IsPageName other)
    {t : SiteTree} (hspot : t.spot (out.child page) = t.spot (out.child other)) : page = other := by
  obtain ⟨place, rfl, hplace⟩ := h.spot_child t out
  obtain ⟨place', rfl, hplace'⟩ := hother.spot_child t out
  rw [hplace, hplace'] at hspot
  rw [List.append_cancel_left hspot]

theorem extends_buildEach_cons (ht : w.tree.Tidy) (hpage : IsPageName page)
    (h : (buildEach e out (page :: pages)).Runs w u w') :
    ∃ html mid, ((e.buildPage page).exec w.tree w.session).1 = .ok html ∧
      Extends out (fun q => q = w.tree.spot (out.child page)) w.tree mid.tree ∧
      mid.tree.find (out.child page) = .ok (.file (.bytes (Text.encodeUtf8 html))) ∧
      (buildEach e out pages).Runs mid u w' := by
  obtain ⟨place, rfl, hne, hnames⟩ := hpage
  have hup := parentName_notMem hnames
  have htarget : out.child (slashed place) = out.below place := child_slashed out hne hnames
  rw [buildEach, runs_bind_iff] at h
  obtain ⟨html, w₁, hbuild, h⟩ := h
  obtain ⟨_, w₂, hfolders, h⟩ := runs_bind_iff.mp h
  obtain ⟨_, w₃, hwrite, h⟩ := runs_bind_iff.mp h
  obtain ⟨_, w₄, hinfo, h⟩ := runs_bind_iff.mp h
  rw [htarget] at hfolders hwrite ⊢
  have htree := hbuild.tree_observe
  have hparent : (out.below place).parent.parts <+: out.parts ++ place := List.dropLast_prefix _
  have hanchor : (out.below place).parent.anchor = out.anchor := rfl
  have hmade := extends_makeFolders out (htree ▸ ht) hanchor hparent hup hfolders
  rw [htree] at hmade
  obtain ⟨hwritten, hfind⟩ := extends_writeText (hmade.tidy ht) hup hwrite
  have hinfo := hinfo.tree_observe
  refine ⟨html, w₄, hbuild.exec_observed, ?_, by rw [hinfo, hfind], h⟩
  rw [hinfo, spot_below _ _ hup]
  refine (hmade.mono fun _ => False.elim).trans (hwritten.mono fun q hq => ?_)
  rw [hq, hmade.spot]

/-- Each page is built from a tree that agrees with the first one outside the output folder, and
once written it stays until its place is written again. -/
theorem extends_buildEach (ht : w.tree.Tidy) (hpages : ∀ page ∈ pages, IsPageName page)
    (h : (buildEach e out pages).Runs w u w') :
    Extends out (fun q => ∃ page ∈ pages, q = w.tree.spot (out.child page)) w.tree w'.tree ∧
      ∀ page ∈ pages, ∃ t s html, AgreesOutside out w.tree t ∧
        ((e.buildPage page).exec t s).1 = .ok html ∧
        w'.tree.find (out.child page) = .ok (.file (.bytes (Text.encodeUtf8 html))) := by
  induction pages generalizing w with
  | nil =>
      obtain ⟨-, rfl⟩ := runs_pure_iff.mp h
      exact ⟨.refl _ _ _, by simp⟩
  | cons page pages ih =>
      have hpage := hpages page (by simp)
      have hrest : ∀ page ∈ pages, IsPageName page := fun p hp => hpages p (by simp [hp])
      obtain ⟨html, mid, hbuild, hextends, hfind, hruns⟩ := extends_buildEach_cons ht hpage h
      obtain ⟨hlater, hbuilt⟩ := ih (hextends.tidy ht) hrest hruns
      have hspot := hextends.spot
      have hagrees : AgreesOutside out w.tree mid.tree :=
        hextends.mono fun q hq => hq ▸ hpage.below w.tree out
      constructor
      · refine (hextends.mono fun q hq => ⟨page, by simp, hq⟩).trans (hlater.mono ?_)
        rintro q ⟨other, hother, hq⟩
        exact ⟨other, by simp [hother], by rw [hq, hspot]⟩
      · intro other hother
        by_cases hmem : other ∈ pages
        · obtain ⟨t, s, html', ht', hbuild', hfind'⟩ := hbuilt other hmem
          exact ⟨t, s, html', hagrees.trans ht', hbuild', hfind'⟩
        · obtain rfl : other = page := (List.mem_cons.mp hother).resolve_right hmem
          refine ⟨w.tree, w.session, html, .refl _ _ _, hbuild, hlater.find_file hfind ?_⟩
          rintro ⟨later, hin, heq⟩
          exact hmem (hpage.eq_of_spot (hrest later hin) heq ▸ hin)

end Pages

end StaticSite
