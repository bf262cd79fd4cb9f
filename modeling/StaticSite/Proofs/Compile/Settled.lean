import StaticSite.Proofs.Compile.NoTags
import StaticSite.Proofs.Compile.Splice

/-!
# Pages that compiling leaves alone

A page is settled when compiling finds nothing in it to replace. Every compile leaves such a page
as it is. What a well-formed page compiles to is settled.
-/

namespace StaticSite

open Markup Text

/-- No tag in the page makes a reference. -/
structure IsSettled (html : Text) : Prop where
  no_children : childReferences html = []
  malformed : ∀ tag ∈ selfClosingTags html, selfClosingReference? tag = none

namespace Compiler

variable {files : SiteTree}

theorem ensures_expandAll_of_settled (c : Compiler) (reenter : Engine.Reentry) (inner : Inner)
    (ctx : Context) {html : Text} (h : IsSettled html) :
    (c.expandAll reenter inner ctx html).Ensures files (· = html) := by
  have hfirst : c.expandChildren reenter inner ctx html = pure html := by
    rw [expandChildren, h.no_children]
    rfl
  have htag : ∀ tag ∈ selfClosingTags html,
      (c.expandTag reenter inner ctx tag).Ensures files (· = tag.source) := by
    intro tag htag
    rw [expandTag, h.malformed tag htag]
    exact (Engine.ensures_record _ _ _).bind fun _ _ => Engine.ensures_pure rfl
  rw [expandAll, hfirst, pure_bind]
  have hsplice := ensures_splice_replaceAll consumes_readSelfClosing (fun _ source => source) htag
  refine hsplice.mono fun out hout => ?_
  rw [hout, replaceAll_source consumes_readSelfClosing]

theorem ensures_compileIn_of_settled (c : Compiler) (reenter : Engine.Reentry) (ctx : Context)
    {html : Text} (h : IsSettled html) :
    (c.compileIn reenter ctx html).Ensures files (· = html) := by
  obtain ⟨inner, hinner⟩ := c.exists_compileWithin_eq reenter ctx.room
  rw [compileIn, hinner]
  exact c.ensures_expandAll_of_settled reenter inner ctx h

end Compiler

theorem isSettled_of_isOrdinary {html : Text} (h : isOrdinary html) : IsSettled html := by
  have hwf : (Document.text html .empty).WellFormed := ⟨h, trivial⟩
  have hrender : (Document.text html .empty).render = html := List.append_nil html
  have hchildren := Document.childReferences_render hwf
  have htags := Document.selfClosingTags_render hwf trivial
  rw [hrender] at hchildren htags
  refine ⟨hchildren, fun tag htag => ?_⟩
  rw [htags] at htag
  cases htag

theorem exec_compile_of_settled (c : Compiler) (files : SiteTree) {html : Text}
    (h : IsSettled html) (page : Option Text) (s : Session) :
    ((c.compile html page).exec files s).1 = .ok html := by
  let ctx := Context.top c.maxDepth page
  have hcompile : (c.compileIn c.reenter ctx html).Ensures files (· = html) :=
    c.ensures_compileIn_of_settled c.reenter ctx h
  obtain ⟨_, hout, rfl⟩ := hcompile.within ctx s
  exact hout

end StaticSite
