import StaticSite.Proofs.Files.Changes

/-!
# Trees that extend others

What a build does to a tree: folders are added on the way to an output path and below it, and
files are written at places of which a condition holds. Nothing else changes.
-/

namespace StaticSite.Tree

open Node

structure Extends (out : Path) (written : List Text → Prop) (t u : SiteTree) : Prop
    extends Spares written t u where
  /-- A module is never made, only copied. -/
  modules : ∀ q module, u.root.get? q = some (.file (.code module)) →
    ∃ q', t.root.get? q' = some (.file (.code module))
  /-- What is new lies below the output path, or leads there. -/
  fresh : ∀ q n, u.root.get? q = some n → (∃ n', t.root.get? q = some n') ∨
    t.spot out <+: q ∨ ∃ parts, parts <+: out.parts ∧ q = t.spot ⟨out.anchor, parts⟩

/-- The trees differ below an output path only, apart from folders that lead there. -/
def AgreesOutside (out : Path) (t u : SiteTree) : Prop :=
  Extends out (fun q => t.spot out <+: q) t u

variable {t u v : SiteTree} {out : Path} {written more : List Text → Prop} {place : List Text}

namespace Extends

theorem refl (out : Path) (written : List Text → Prop) (t : SiteTree) : Extends out written t t :=
  ⟨.refl written t, fun q _ h => ⟨q, h⟩, fun _ n h => .inl ⟨n, h⟩⟩

theorem spot (h : Extends out written t u) (p : Path) : u.spot p = t.spot p := h.toGrows.spot p

theorem trans (h : Extends out written t u) (h' : Extends out written u v) :
    Extends out written t v := by
  constructor
  case toSpares => exact h.toSpares.trans h'.toSpares
  case modules =>
    intro q module hq
    obtain ⟨q', hq'⟩ := h'.modules q module hq
    exact h.modules q' module hq'
  case fresh =>
    intro q n hn
    rcases h'.fresh q n hn with ⟨n', hn'⟩ | hbelow | ⟨parts, hparts, rfl⟩
    · exact h.fresh q n' hn'
    · exact .inr (.inl (h.spot out ▸ hbelow))
    · exact .inr (.inr ⟨parts, hparts, h.spot _⟩)

theorem mono (h : Extends out written t u) (hmore : ∀ q, written q → more q) :
    Extends out more t u :=
  { h with toSpares := h.toSpares.mono hmore }

theorem find_folder (h : Extends out written t u) {p : Path} {entries : List (Text × Node Content)}
    (hp : t.find p = .ok (.folder entries)) : ∃ entries', u.find p = .ok (.folder entries') := by
  obtain ⟨hlocate, hfolder⟩ := find_eq_ok_iff.mp hp
  obtain ⟨entries', hentries'⟩ := h.kinds.folder hfolder
  refine ⟨entries', find_eq_ok_iff.mpr ?_⟩
  rw [h.spot]
  exact ⟨h.locate hlocate, hentries'⟩

end Extends

theorem AgreesOutside.trans (h : AgreesOutside out t u) (h' : AgreesOutside out u v) :
    AgreesOutside out t v := by
  unfold AgreesOutside at h'
  rw [Extends.spot h out] at h'
  exact Extends.trans h h'

/-- A path on the way to a place below the output path leads to it, or is below it. -/
theorem spot_of_prefix (t : SiteTree) {p : Path} (hp : p.anchor = out.anchor)
    (hparts : p.parts <+: out.parts ++ place) (hplace : parentName ∉ place) :
    t.spot out <+: t.spot p ∨
      ∃ parts, parts <+: out.parts ∧ t.spot p = t.spot ⟨out.anchor, parts⟩ := by
  rcases List.prefix_or_prefix_of_prefix hparts (List.prefix_append out.parts place)
    with hbegin | ⟨deep, hdeep⟩
  · exact .inr ⟨p.parts, hbegin, by rw [← hp]⟩
  · left
    have hdeepPlace : deep <+: place := by
      rw [← hdeep] at hparts
      exact (List.prefix_append_right_inj _).mp hparts
    have hup : parentName ∉ deep := fun hmem => hplace (hdeepPlace.subset hmem)
    have hbelow : p = out.below deep := by rw [Path.below, ← hp, hdeep]
    rw [hbelow, spot_below t out hup]
    exact List.prefix_append _ _

theorem Made.extends {new : Node Content} {p : Path} (h : Made (t.spot p) new t u)
    (hp : p.anchor = out.anchor) (hparts : p.parts <+: out.parts ++ place)
    (hplace : parentName ∉ place)
    (hspares : Spares written t u)
    (hmodules : ∀ module, new = .file (.code module) →
      ∃ q, t.root.get? q = some (.file (.code module))) : Extends out written t u := by
  constructor
  case toSpares => exact hspares
  case modules =>
    intro q module hq
    by_cases hspot : q = t.spot p
    · rw [hspot, h.placed.at_place] at hq
      exact hmodules module (Option.some.inj hq)
    · exact ⟨q, (h.placed.files q _ hspot).mp hq⟩
  case fresh =>
    intro q n hn
    by_cases hspot : q = t.spot p
    · exact .inr (hspot ▸ spot_of_prefix t hp hparts hplace)
    · refine .inl ?_
      cases n with
      | file content => exact ⟨_, (h.placed.files q content hspot).mp hn⟩
      | folder entries =>
          obtain ⟨entries', hentries'⟩ := (h.placed.folders q hspot).mp ⟨entries, hn⟩
          exact ⟨_, hentries'⟩

/-- A folder made on the way to a place below the output path writes no file. -/
theorem extends_of_makeFolder (ht : t.Tidy) {parts : List Text}
    (hparts : parts <+: out.parts ++ place) (hplace : parentName ∉ place)
    (h : t.makeFolder ⟨out.anchor, parts⟩ = .ok u) : Extends out (fun _ => False) t u := by
  obtain ⟨hmade, -⟩ := made_of_makeFolder ht h
  exact hmade.extends rfl hparts hplace (spares_of_makeFolder ht h) fun module hnew => by cases hnew

theorem extends_of_writeFile (ht : t.Tidy) {content : Content} (hplace : parentName ∉ place)
    (hmodules : ∀ module, content = .code module →
      ∃ q, t.root.get? q = some (.file (.code module)))
    (h : t.writeFile (out.below place) content = .ok u) :
    Extends out (fun q => q = t.spot out ++ place) t u ∧
      u.find (out.below place) = .ok (.file content) := by
  have hmade := made_of_writeFile ht h
  have hspares := hmade.spares
  rw [spot_below t out hplace] at hspares
  refine ⟨hmade.extends rfl (List.prefix_refl _) hplace hspares fun module hnew => ?_,
    find_of_look (look_of_writeFile ht h)⟩
  exact hmodules module (Node.file.inj hnew)

end StaticSite.Tree
