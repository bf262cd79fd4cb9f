import StaticSite.Proofs.Compile.Library

/-!
# The meaning of a document

A document means a text: its own text, and in place of each reference what the component's content
means one level deeper, or a comment when the component is missing or lies too deep. Compiling the
rendered document gives this text when the provider answers by identifier and props.
-/

namespace StaticSite

open Markup

section Meaning

variable (library : Text → Props → Option Document) (maxDepth : Int)

mutual

/-- The text that a document stands for at a depth. -/
def meaning (depth : Nat) : Document → Text
  | .empty => []
  | .text s rest => s ++ meaning depth rest
  | .selfClosing attributes rest =>
      callMeaning depth (Call.ofSelfClosing attributes) ++ meaning depth rest
  | .around identifier attributes inside rest =>
      callMeaning depth (Call.ofAround identifier attributes inside) ++ meaning depth rest
termination_by d => ((maxDepth - depth).toNat, sizeOf d)

/-- The text that a call stands for at a depth. -/
def callMeaning (depth : Nat) (call : Call) : Text :=
  if maxDepth ≤ depth then depthMarker call.identifier maxDepth
  else match library call.identifier call.props with
    | none => notFoundMarker call.identifier
    | some content => meaning (depth + 1) (call.bound content)
termination_by ((maxDepth - depth).toNat, 0)

end

end Meaning

section Run

variable {library : Text → Props → Option Document} {maxDepth : Int}

theorem Becomes.eq_meaning {depth : Nat} {may : Call → Text → Prop}
    (hmay : ∀ call e, may call e → e = callMeaning library maxDepth depth call) {d : Document}
    {out : Text} (h : Becomes may d out) : out = meaning library maxDepth depth d := by
  induction h with
  | empty => rw [meaning]
  | text s _ ih => rw [meaning, ih]
  | selfClosing hcall _ ih => rw [meaning, ih, hmay _ _ hcall]
  | around hcall _ ih => rw [meaning, ih, hmay _ _ hcall]

theorem CallBecomes.eq_callMeaning {depth room : Nat} (hroom : room = (maxDepth - depth).toNat)
    {inner : Document → Text → Prop}
    (hinner : room ≠ 0 → ∀ d out, inner d out → out = meaning library maxDepth (depth + 1) d)
    {call : Call} {out : Text}
    (h : CallBecomes (fun identifier props answer => answer = library identifier props) maxDepth
      room inner call out) : out = callMeaning library maxDepth depth call := by
  rw [callMeaning]
  cases h with
  | refused h => rw [if_pos (by omega)]
  | missing h hanswer => rw [if_neg (by omega), ← hanswer]
  | found h hanswer hout =>
      rw [if_neg (by omega), ← hanswer]
      exact hinner h _ _ hout

theorem MayBecome.eq_meaning {room depth : Nat} (hroom : room = (maxDepth - depth).toNat)
    {d : Document} {out : Text}
    (h : MayBecome (fun identifier props answer => answer = library identifier props) maxDepth
      room d out) : out = meaning library maxDepth depth d := by
  induction room generalizing depth d out with
  | zero =>
      refine Becomes.eq_meaning (fun call e he => ?_) h
      exact he.eq_callMeaning hroom fun h => absurd rfl h
  | succ room ih =>
      refine Becomes.eq_meaning (fun call e he => ?_) h
      refine he.eq_callMeaning hroom fun _ e out hout => ?_
      exact ih (by omega) hout

end Run

/-- When the provider's answer depends on identifier and props alone, compiling a document gives
its meaning. -/
theorem Compiler.compileIn_eq_meaning (c : Compiler) (reenter : Engine.Reentry) (files : SiteTree)
    (library : Text → Props → Option Document)
    (hserves : c.provider.Serves reenter files
      fun identifier props answer => answer = library identifier props)
    (hsound : ∀ identifier props content, library identifier props = some content →
      content.IsComponent)
    {d : Document} (hd : d.WellFormed) (ctx : Context) (s : Session) :
    ((c.compileIn reenter ctx d.render).exec files s).1 =
      .ok (meaning library ctx.maxDepth ctx.depth d) := by
  have hanswers : Answers.Sound fun identifier props answer => answer = library identifier props :=
    fun identifier props content h => hsound identifier props content h.symm
  obtain ⟨out, hout, -, hbecomes⟩ := c.ensures_compileIn hserves hanswers ctx hd s
  rw [hout, hbecomes.eq_meaning rfl]

/-- A card that puts its children into a list, and a loop that refers to itself. -/
def cardDocuments : List (Text × Document) :=
  [("ui/Card", .text "<section>{{ title }}: {{ children }}</section>" .empty),
   ("Loop", .text "<b>{{ n }}</b>" (.selfClosing [("src", "Loop"), ("n", "2")] .empty))]

def cardPage : Document :=
  .text "<!DOCTYPE html>" (.around "ui\\Card" [("title", "News")]
    (.text " <i>" (.selfClosing [("src", "Loop"), ("n", "1")] (.text "</i> " .empty)))
    (.selfClosing [("src", "Gone")] .empty))

def cardCompiler : Compiler := ⟨.ofDocuments cardDocuments, 3⟩

theorem compileIn_eq_meaning_card :
    ((cardCompiler.compileIn cardCompiler.reenter (Context.top 3 none) cardPage.render).exec
      ⟨.folder [], []⟩ Session.start).1 =
      .ok (meaning (fun identifier _ => contentOf cardDocuments identifier) 3 0 cardPage) :=
  cardCompiler.compileIn_eq_meaning cardCompiler.reenter ⟨.folder [], []⟩
    (fun identifier _ => contentOf cardDocuments identifier)
    (serves_ofDocuments cardDocuments cardCompiler.reenter ⟨.folder [], []⟩)
    (fun _ _ _ h => isComponent_of_contentOf (by decide) h) (by decide) (Context.top 3 none)
    Session.start

example : ((cardCompiler.compile cardPage.render none).exec ⟨.folder [], []⟩
    Session.start).1.toOption = some ("<!DOCTYPE html><section>News: <i><b>1</b><b>2</b>" ++
      "<!-- Component \"Loop\" exceeded maximum nesting depth (3) --></i></section>" ++
      "<!-- Component \"Gone\" not found -->").toList := by
  decide +kernel

end StaticSite
