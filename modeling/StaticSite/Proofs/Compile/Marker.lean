import StaticSite.Proofs.Compile.Answers
import StaticSite.Proofs.Markup.Sealed

/-!
# Markers

What a page writes as the name of a component stands as it is in the marker for a missing or too
deep one. The marker is one comment all the same, as every reference that a compile expands is
sealed. To say so of whole compiles, a compile is read with the treatment of a reference as a
parameter: a treatment that is right for sealed references is right altogether.
-/

namespace StaticSite

open Markup Text

/-! ## Markers are comments -/

theorem isComment_notFoundMarker {identifier : Text} (h : IsSealed identifier) :
    IsComment (notFoundMarker identifier) := by
  have hbody : '>' ∉ " Component \"" ++ (identifier ++ "\" not found ") := by simp [h.2]
  refine ⟨_, ?_, hbody⟩
  unfold notFoundMarker
  simp

theorem isComment_depthMarker {identifier : Text} (h : IsSealed identifier) (maxDepth : Int) :
    IsComment (depthMarker identifier maxDepth) := by
  have hnumber : '>' ∉ Text.ofInt maxDepth := notMem_ofInt (by decide) (by decide) maxDepth
  have hbody : '>' ∉ " Component \"" ++ (identifier ++
      ("\" exceeded maximum nesting depth (" ++ (Text.ofInt maxDepth ++ ") "))) := by
    simp [h.2, hnumber]
  refine ⟨_, ?_, hbody⟩
  unfold depthMarker
  simp

namespace Compiler

theorem isComment_of_markerFor? {r : Reference} (hr : r.IsSealed) {fault : Fault} {marker : Text}
    (h : markerFor? r fault = some marker) : IsComment marker := by
  cases fault with
  | depthExceeded _ maxDepth _ =>
      cases h
      exact isComment_depthMarker hr.identifier maxDepth
  | producerFailed =>
      cases h
      exact isComment_notFoundMarker hr.identifier
  | componentNotFound =>
      cases h
      exact isComment_notFoundMarker hr.identifier
  | _ => cases h

/-! ## Compiles by a treatment of references -/

/-- How a reference is expanded, given how a compile nested in site code and one a level deeper
are done. -/
abbrev Treatment := Engine.Reentry → Inner → Context → Reference → Engine Text

section Level

variable (expand : Reference → Engine Text)

def expandTagBy (tag : Span Unit) : Engine Text :=
  match selfClosingReference? tag with
  | some r => expand r
  | none => do
      Engine.record .debug .compiler
        ("Skipping malformed component tag: " ++ Text.quoted tag.source)
      return tag.source

def expandAllBy (html : Text) : Engine Text := do
  let flat ← splice Reference.start Reference.stop expand 0 html (childReferences html)
  splice Span.start Span.stop (expandTagBy expand) 0 flat (selfClosingTags flat)

end Level

def compileWithinBy (treat : Inner → Context → Reference → Engine Text) : Nat → Inner
  | 0, ctx, html => expandAllBy (treat (fun _ html => pure html) ctx) html
  | room + 1, ctx, html => expandAllBy (treat (compileWithinBy treat room) ctx) html

/-- A compile with its own treatment of references, at every level and in nested compiles. -/
def compileBy (treat : Treatment) (maxDepth : Int) : Nat → Text → Option Text → Engine Text
  | 0, _, _ => throw .nestedTooDeep
  | nesting + 1, html, page =>
      let ctx := Context.top maxDepth page
      Engine.within ctx
        (compileWithinBy (treat (compileBy treat maxDepth nesting)) ctx.room ctx html)

theorem splice_congr {α : Type} {start stop : α → Nat} {expand other : α → Engine Text}
    {as : List α} (h : ∀ a ∈ as, expand a = other a) (position : Nat) (rest : Text) :
    splice start stop expand position rest as = splice start stop other position rest as := by
  induction as generalizing position rest with
  | nil => rfl
  | cons a as ih =>
      obtain ⟨ha, has⟩ := List.forall_mem_cons.mp h
      simp only [splice, ha, ih has]

/-- On one level, what is done with references that are not sealed makes no difference. -/
theorem expandAllBy_congr {expand other : Reference → Engine Text}
    (h : ∀ r : Reference, r.IsSealed → expand r = other r) (html : Text) :
    expandAllBy expand html = expandAllBy other html := by
  have htag : ∀ tag, expandTagBy expand tag = expandTagBy other tag := by
    intro tag
    unfold expandTagBy
    cases hr : selfClosingReference? tag with
    | none => rfl
    | some r => exact h r (isSealed_of_selfClosingReference? hr)
  have hchildren : ∀ r ∈ childReferences html, expand r = other r :=
    fun r hr => h r (isSealed_of_mem_childReferences hr)
  unfold expandAllBy
  rw [splice_congr hchildren]
  exact bind_congr fun flat => splice_congr (fun tag _ => htag tag) 0 flat

variable {treat : Treatment} {c : Compiler}

/-- Whether references that are sealed, and so have comments for markers, are expanded as the
compiler expands them. -/
def Treatment.RightOnSealed (treat : Treatment) (c : Compiler) : Prop :=
  ∀ reenter inner ctx (r : Reference), r.IsSealed →
    (∀ fault marker, markerFor? r fault = some marker → IsComment marker) →
      treat reenter inner ctx r = c.expand reenter inner ctx r

theorem Treatment.RightOnSealed.expandAll (h : treat.RightOnSealed c) (reenter : Engine.Reentry)
    (inner : Inner) (ctx : Context) (html : Text) :
    expandAllBy (treat reenter inner ctx) html = c.expandAll reenter inner ctx html :=
  expandAllBy_congr
    (fun r hr => h reenter inner ctx r hr fun _ _ hmarker => isComment_of_markerFor? hr hmarker)
    html

theorem Treatment.RightOnSealed.compileWithin (h : treat.RightOnSealed c)
    (reenter : Engine.Reentry) (room : Nat) :
    compileWithinBy (treat reenter) room = c.compileWithin reenter room := by
  induction room with
  | zero =>
      funext ctx html
      exact h.expandAll reenter _ ctx html
  | succ room ih =>
      funext ctx html
      rw [compileWithinBy, ih]
      exact h.expandAll reenter _ ctx html

theorem Treatment.RightOnSealed.compileNested (h : treat.RightOnSealed c) (nesting : Nat) :
    compileBy treat c.maxDepth nesting = c.compileNested nesting := by
  induction nesting with
  | zero => rfl
  | succ nesting ih =>
      funext html page
      simp only [compileBy, ih, h.compileWithin]
      rfl

/-- Whatever stands in a page, every reference that a compile expands, at every level and in the
compiles nested in producers, names a component and gives props in which no quote and no `>`
stand. So every marker is one comment, and in what the search for self-closing tags goes through
it is passed over as a whole. -/
theorem markers_are_comments (c : Compiler) :
    (∀ html, ∀ r ∈ childReferences html, r.IsSealed) ∧
      (∀ tag r, selfClosingReference? tag = some r → r.IsSealed) ∧
      (∀ r : Reference, r.IsSealed → ∀ fault marker, markerFor? r fault = some marker →
        IsComment marker) ∧
      (∀ treat : Treatment, treat.RightOnSealed c → ∀ nesting html page,
        compileBy treat c.maxDepth nesting html page = c.compileNested nesting html page) ∧
      ∀ marker, IsComment marker → ∀ before after,
        split readSelfClosing (before ++ (marker ++ after)) =
          split readSelfClosing before ++ (marker.map .gap ++ split readSelfClosing after) := by
  refine ⟨fun html r hr => isSealed_of_mem_childReferences hr,
    fun tag r hr => isSealed_of_selfClosingReference? hr,
    fun r hr fault marker h => isComment_of_markerFor? hr h,
    fun treat h nesting html page => ?_, fun marker h before after => ?_⟩
  · rw [h.compileNested]
  · exact split_append_comment h before after

/-- A treatment that ends the compile at a reference that is not sealed. -/
def sealedOnly (c : Compiler) : Treatment := fun reenter inner ctx r =>
  if r.IsSealed then c.expand reenter inner ctx r else throw .nestedTooDeep

/-- A compiler that finds no component. -/
def finder : Compiler := ⟨.ofEntries [], Context.defaultMaxDepth⟩

def slyName : Text := "--<!-- <Component src= /"

def slyPage : Text := "<Component src=\"--<!-- <Component src= /\" />"

/-- The name opens a comment and a tag of its own and ends neither. -/
theorem markers_are_comments_sly :
    (∃ r, selfClosingReference? ⟨0, slyPage.length, slyPage, ()⟩ = some r ∧ r.IsSealed ∧
      ∃ marker, markerFor? r (.componentNotFound slyName [] []) = some marker ∧
        marker = notFoundMarker slyName ∧ IsComment marker ∧
        split readSelfClosing ("<Component " ++ (marker ++ " />")) =
          split readSelfClosing "<Component " ++
            (marker.map .gap ++ split readSelfClosing " />")) ∧
      compileBy (sealedOnly finder) finder.maxDepth 1 slyPage none =
        finder.compileNested 1 slyPage none := by
  obtain ⟨-, hself, hmarker, hcompile, hsplit⟩ := markers_are_comments finder
  have hname : (selfClosingReference? ⟨0, slyPage.length, slyPage, ()⟩).map (·.identifier) =
      some slyName := by
    decide +kernel
  obtain ⟨r, hr, hidentifier⟩ := Option.map_eq_some_iff.mp hname
  have hsealed := hself _ r hr
  have hcomment : IsComment (notFoundMarker r.identifier) :=
    hmarker r hsealed (.componentNotFound slyName [] []) _ rfl
  have hright : (sealedOnly finder).RightOnSealed finder :=
    fun reenter inner ctx r hr _ => if_pos hr
  refine ⟨⟨r, hr, hsealed, notFoundMarker r.identifier, rfl, ?_, hcomment, ?_⟩,
    hcompile _ hright 1 slyPage none⟩
  · rw [hidentifier]
  · exact hsplit _ hcomment _ _

end Compiler

end StaticSite
