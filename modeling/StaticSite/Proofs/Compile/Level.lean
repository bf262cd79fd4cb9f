import StaticSite.Proofs.Compile.Ensures
import StaticSite.Proofs.Compile.Found
import StaticSite.Proofs.Compile.Splice

/-!
# One level of expansion

The first pass replaces the calls with children by their expansions and leaves a flat document.
The second pass replaces the self-closing calls of that. Expansions are ordinary text, so the
second pass finds nothing in what the first has put in.
-/

namespace StaticSite

open Markup

/-- What a document may become when each of its outermost calls may become what `may` allows. -/
inductive Becomes (may : Call → Text → Prop) : Document → Text → Prop
  | empty : Becomes may .empty []
  | text (s : Text) {rest : Document} {out : Text} (h : Becomes may rest out) :
      Becomes may (.text s rest) (s ++ out)
  | selfClosing {attributes : List (Text × Text)} {rest : Document} {expansion out : Text}
      (hcall : may (Call.ofSelfClosing attributes) expansion) (h : Becomes may rest out) :
      Becomes may (.selfClosing attributes rest) (expansion ++ out)
  | around {identifier : Text} {attributes : List (Text × Text)} {inside rest : Document}
      {expansion out : Text} (hcall : may (Call.ofAround identifier attributes inside) expansion)
      (h : Becomes may rest out) :
      Becomes may (.around identifier attributes inside rest) (expansion ++ out)

namespace Compiler

variable {c : Compiler} {reenter : Engine.Reentry} {inner : Inner} {ctx : Context}
  {files : SiteTree} {may : Call → Text → Prop}

/-- Every call is expanded to ordinary text that `may` allows. -/
def Expands (c : Compiler) (reenter : Engine.Reentry) (inner : Inner) (ctx : Context)
    (files : SiteTree) (may : Call → Text → Prop) : Prop :=
  ∀ call : Call, call.WellFormed → ∀ start source,
    (c.expand reenter inner ctx (call.reference start source)).Ensures files
      fun expansion => isOrdinary expansion ∧ may call expansion

/-- What the first pass leaves of a document. -/
def IsFirstPass (may : Call → Text → Prop) (d : Document) (html : Text) : Prop :=
  ∃ flat : Document, html = flat.render ∧ flat.WellFormed ∧ flat.IsFlat ∧
    ∀ out, Becomes may flat out → Becomes may d out

theorem ensures_splice_references (h : c.Expands reenter inner ctx files may) {d : Document}
    (hd : d.WellFormed) (position : Nat) :
    (splice Reference.start Reference.stop (c.expand reenter inner ctx) position d.render
      (d.references position)).Ensures files (IsFirstPass may d) := by
  induction d generalizing position with
  | empty => exact Engine.ensures_pure ⟨.empty, rfl, trivial, trivial, fun _ hout => hout⟩
  | text s rest ih =>
      rw [Document.render, Document.references,
        splice_append fun r hr => Document.le_start_of_mem_references hr]
      refine Engine.ensures_map ((ih hd.2 _).mono ?_)
      rintro html ⟨flat, rfl, hwf, hflat, hbecomes⟩
      refine ⟨.text s flat, rfl, ⟨hd.1, hwf⟩, hflat, fun out hout => ?_⟩
      cases hout with
      | text _ hout => exact .text s (hbecomes _ hout)
  | selfClosing attributes rest ih =>
      obtain ⟨hsource, hattributes, hrest⟩ := hd
      rw [Document.render, Document.references,
        splice_append fun r hr => Document.le_start_of_mem_references hr]
      refine Engine.ensures_map ((ih hrest _).mono ?_)
      rintro html ⟨flat, rfl, hwf, hflat, hbecomes⟩
      refine ⟨.selfClosing attributes flat, rfl, ⟨hsource, hattributes, hwf⟩, hflat,
        fun out hout => ?_⟩
      cases hout with
      | selfClosing hcall hout => exact .selfClosing hcall (hbecomes _ hout)
  | around identifier attributes inside rest _ ih =>
      obtain ⟨hidentifier, hattributes, hinside, hrest⟩ := hd
      have hcall := Call.wellFormed_ofAround hidentifier hattributes hinside
      rw [Document.references, Document.render, ← Document.renderAround, splice_cons]
      · refine (h _ hcall _ _).bind fun expansion hexpansion => ?_
        refine Engine.ensures_map ((ih hrest _).mono ?_)
        rintro html ⟨flat, rfl, hwf, hflat, hbecomes⟩
        refine ⟨.text expansion flat, rfl, ⟨hexpansion.1, hwf⟩, hflat, fun out hout => ?_⟩
        cases hout with
        | text _ hout => exact .around hexpansion.2 (hbecomes _ hout)
      · rfl
      · rfl

theorem ensures_splice_selfClosings (h : c.Expands reenter inner ctx files may) {d : Document}
    (hd : d.WellFormed) (hflat : d.IsFlat) (position : Nat) :
    (splice Text.Span.start Text.Span.stop (c.expandTag reenter inner ctx) position d.render
      (d.selfClosings position)).Ensures files fun out => isOrdinary out ∧ Becomes may d out := by
  induction d generalizing position with
  | empty => exact Engine.ensures_pure ⟨rfl, .empty⟩
  | text s rest ih =>
      rw [Document.render, Document.selfClosings,
        splice_append fun tag htag => Document.le_start_of_mem_selfClosings htag]
      refine Engine.ensures_map ((ih hd.2 hflat _).mono ?_)
      rintro out ⟨hordinary, hbecomes⟩
      exact ⟨isOrdinary_append hd.1 hordinary, .text s hbecomes⟩
  | selfClosing attributes rest ih =>
      obtain ⟨hsource, hattributes, hrest⟩ := hd
      have hcall := Call.wellFormed_ofSelfClosing hsource hattributes
      rw [Document.selfClosings, Document.render, splice_cons]
      · rw [expandTag, selfClosingReference?_render hsource hattributes]
        refine (h _ hcall _ _).bind fun expansion hexpansion => ?_
        refine Engine.ensures_map ((ih hrest hflat _).mono ?_)
        rintro out ⟨hordinary, hbecomes⟩
        exact ⟨isOrdinary_append hexpansion.1 hordinary, .selfClosing hexpansion.2 hbecomes⟩
      · rfl
      · rfl
  | around identifier attributes inside rest => exact absurd hflat id

/-- One level of expansion makes of a document what the expansions of its calls make of it. -/
theorem ensures_expandAll (h : c.Expands reenter inner ctx files may) {d : Document}
    (hd : d.WellFormed) :
    (c.expandAll reenter inner ctx d.render).Ensures files
      fun out => isOrdinary out ∧ Becomes may d out := by
  have hfirst :
      (c.expandChildren reenter inner ctx d.render).Ensures files (IsFirstPass may d) := by
    rw [expandChildren, Document.childReferences_render hd]
    exact ensures_splice_references h hd 0
  refine hfirst.bind ?_
  rintro html ⟨flat, rfl, hwf, hflat, hbecomes⟩
  have hsecond := ensures_splice_selfClosings h hwf hflat 0
  rw [← Document.selfClosingTags_render hwf hflat] at hsecond
  exact hsecond.mono fun out hout => ⟨hout.1, hbecomes out hout.2⟩

end Compiler

end StaticSite
