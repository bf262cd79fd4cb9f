import StaticSite.Proofs.Compile.Meaning
import StaticSite.Proofs.Compile.Settled
import StaticSite.Proofs.Markup.Peel

/-!
# Compiling twice

What a page compiles to stays what it is when it is compiled again, whatever the provider, exactly
when the page is settled. For any other page there is a provider that answers by the identifier and
the props alone, and whose layered kernels the first compile cannot use up.
-/

namespace StaticSite

open Markup Text

/-- What the provider gives for a reference depends on the identifier and the props alone. -/
def Provider.IsPure (p : Provider) (reenter : Engine.Reentry) (files : SiteTree) : Prop :=
  ∀ identifier props s t,
    ((do (← p.resolve reenter identifier).render reenter props).exec files s).1 =
      ((do (← p.resolve reenter identifier).render reenter props).exec files t).1

theorem isPure_ofDocuments (documents : List (Text × Document)) (reenter : Engine.Reentry)
    (files : SiteTree) : (Provider.ofDocuments documents).IsPure reenter files := by
  intro identifier props s t
  have hget := get?_ofDocuments documents identifier
  rw [Provider.ofDocuments, Provider.ofEntries, Provider.resolve, Provider.resolveTable, hget]
  cases contentOf documents identifier <;> rfl

/-! ## A provider of layers -/

def layersFor (n : Nat) (identifier : Text) (props : Props) : Text :=
  if isKernel n (identifier, props) then "C" else layered n 2

/-- Gives the letter for a kernel and two layers for everything else. -/
def Provider.layers (n : Nat) : Provider :=
  .function fun identifier => .done <|
    if identifier.isEmpty then
      .producer fun props => .done (.text (layersFor n [] props))
    else .text (layered n 2)

theorem get?_without {α : Type} (t : Table α) {names : List Text} {name : Text}
    (h : name ∉ names) : (t.without names).get? name = t.get? name := by
  rw [Table.get?, Table.get?, Table.without, List.find?_filter]
  congr
  funext e
  by_cases he : e.1 = name
  · simp [he, h]
  · simp [he]

theorem layersFor_without (n : Nat) (props : Props) :
    layersFor n [] (props.without lookupNames) = layersFor n [] props := by
  have hname : kernelName n ∉ lookupNames := by
    rw [kernelName, List.replicate_succ]
    simp [lookupNames]
  rw [layersFor, layersFor, isKernel, isKernel, get?_without props hname]

theorem exec_layers (n : Nat) (reenter : Engine.Reentry) (files : SiteTree) (identifier : Text)
    (props : Props) (s : Session) :
    ((do (← (Provider.layers n).resolve reenter identifier).render reenter props).exec files s).1 =
      .ok (layersFor n identifier props) := by
  cases identifier with
  | nil =>
      rw [← layersFor_without]
      rfl
  | cons c rest => rfl

theorem isPure_layers (n : Nat) (reenter : Engine.Reentry) (files : SiteTree) :
    (Provider.layers n).IsPure reenter files := by
  intro identifier props s t
  rw [exec_layers, exec_layers]

/-! ## What a pass makes of a page -/

namespace Compiler

def layers (n : Nat) : Compiler := ⟨.layers n, 2⟩

theorem bind_of_notMem {content : Text} (h : '{' ∉ content) (r : Reference) :
    bind r content = content := by
  have hfold : ∀ es : List (Text × Text),
      es.foldl (fun s e => fill e.1 e.2 s) content = content := by
    intro es
    induction es with
    | nil => rfl
    | cons e es ih => rwa [List.foldl_cons, fill_eq_self_of_notMem e.1 e.2 h]
  unfold bind
  cases r.form with
  | around children =>
      change r.props.entries.foldl (fun s e => fill e.1 e.2 s)
        (fill childrenName children content) =
        content
      rw [fill_eq_self_of_notMem _ _ h, hfold]
  | selfClosing =>
      rw [bindSelfClosing, Call.foldl_bindProp, hfold, fill_eq_self_of_notMem _ _ h]

variable {n : Nat} {reenter : Engine.Reentry} {files : SiteTree} {inner : Inner} {ctx : Context}

theorem ensures_layers_expand (hroom : ctx.room ≠ 0) {r : Reference} {out : Text}
    (hinner : (inner (ctx.child r.identifier) (layersFor n r.identifier r.props)).Ensures files
      (· = out)) :
    ((layers n).expand reenter inner ctx r).Ensures files (· = out) := by
  have hcontent : (Engine.attempt ((layers n).content reenter ctx r)).Ensures files
      (· = .ok (layersFor n r.identifier r.props)) := by
    rw [content_of_room hroom]
    refine Engine.ensures_attempt fun s => ?_
    have hexec := exec_layers n reenter files r.identifier r.props s
    exact ⟨hexec, fun fault hfault => by cases hexec.symm.trans hfault⟩
  have hbrace : '{' ∉ layersFor n r.identifier r.props := by
    rw [layersFor]
    split
    · decide
    · exact notMem_brace_layered n 2
  refine hcontent.bind ?_
  rintro _ rfl
  simp only [bind_of_notMem hbrace]
  exact hinner.within _

theorem isSettled_letter : IsSettled "C" := ⟨rfl, by decide⟩

theorem ensures_letter (c : Compiler) (reenter : Engine.Reentry) (room : Nat) (ctx : Context) :
    (c.compileWithin reenter room ctx "C").Ensures files (· = "C") := by
  obtain ⟨inner, hinner⟩ := c.exists_compileWithin_eq reenter room
  rw [hinner]
  exact c.ensures_expandAll_of_settled reenter inner ctx isSettled_letter

/-- The pass over self-closing tags takes kernels, and puts one layer for any other reference once
two layers compile to one. -/
theorem ensures_layers_expandSelfClosing (hroom : ctx.room ≠ 0) {room : Nat} {html : Text}
    (hother : IsInert n html ∨ ∀ identifier,
      ((layers n).compileWithin reenter room (ctx.child identifier) (layered n 2)).Ensures files
        (· = layered n 1)) :
    ((layers n).expandSelfClosing reenter ((layers n).compileWithin reenter room) ctx
      html).Ensures files (· = peel n html) := by
  refine ensures_splice_replaceAll consumes_readSelfClosing (fun _ => peeled n) fun tag htag => ?_
  rw [expandTag, selfClosingReference?_eq]
  cases hnamed : named? tag.source with
  | none =>
      have hself : peeled n tag.source = tag.source := peeled_eq_self (by rw [hnamed]; rfl)
      rw [hself]
      exact (Engine.ensures_record _ _ _).bind fun _ _ => Engine.ensures_pure rfl
  | some r =>
      refine ensures_layers_expand hroom ?_
      rw [peeled, hnamed]
      simp only
      cases hkernel : isKernel n r with
      | true =>
          rw [layersFor, if_pos hkernel, if_pos rfl]
          exact ensures_letter _ _ _ _
      | false =>
          rw [layersFor, if_neg (by simp [hkernel]), if_neg (by simp)]
          rcases hother with hinert | hother
          · have hsource := hinert tag.source r (hit_mem_of_mem_place htag) hnamed
            rw [hkernel] at hsource
            cases hsource
          · exact hother r.1

/-- Two layers compile to one. -/
theorem ensures_layered (hroom : ctx.room ≠ 0) (room : Nat) :
    ((layers n).compileWithin reenter (room + 1) ctx (layered n 2)).Ensures files
      (· = layered n 1) := by
  have hfirst : (layers n).expandChildren reenter ((layers n).compileWithin reenter room) ctx
      (layered n 2) = pure (layered n 2) := by
    rw [expandChildren, childReferences_layered]
    rfl
  rw [compileWithin, expandAll, hfirst, pure_bind, ← peel_layered n 1]
  exact ensures_layers_expandSelfClosing hroom (.inl (isInert_layered 2))

/-- A compile puts a layer for every reference with children, and peels what comes out. -/
theorem ensures_layers_compile (page : Option Text) (html : Text) :
    ((layers n).compile html page).Ensures files fun out => ∃ flat,
      Patched (layered n 1) html flat ∧
        (childReferences html = [] ∧ flat = html ∨
          ∃ before rest, flat = before ++ (layered n 1 ++ rest)) ∧
        out = peel n flat := by
  let ctx := Context.top (layers n).maxDepth page
  have hroom : ctx.room ≠ 0 := by simp [ctx, Context.room, Context.top, layers]
  have hchild : ∀ identifier, (ctx.child identifier).room ≠ 0 := by
    intro identifier
    rw [Context.room_child]
    simp [ctx, Context.room, Context.top, layers]
  have hinner : ∀ identifier, ((layers n).compileWithin (layers n).reenter 1
      (ctx.child identifier) (layered n 2)).Ensures files (· = layered n 1) :=
    fun identifier => ensures_layered (hchild identifier) 0
  have hexpand : ∀ r ∈ childReferences html, r.identifier ≠ [] →
      ((layers n).expand (layers n).reenter ((layers n).compileWithin (layers n).reenter 1) ctx
        r).Ensures files (· = layered n 1) := by
    intro r _ hname
    have hkernel : isKernel n (r.identifier, r.props) = false := by simp [isKernel, hname]
    refine ensures_layers_expand hroom ?_
    rw [layersFor, if_neg (by simp [hkernel])]
    exact hinner r.identifier
  have hflat := ensures_splice_patched (elements_childReferences html) hexpand
  refine Engine.Ensures.within (hflat.bind fun flat hpatched => ?_) ctx
  refine (ensures_layers_expandSelfClosing hroom (.inr hinner)).mono fun out hout => ?_
  exact ⟨flat, hpatched.1, hpatched.2, hout⟩

end Compiler

/-! ## The second compile differs from the first -/

section Second

variable {n : Nat} {html flat : Text}

theorem isInert_of_append {before rest : Text} (h : IsInert n (before ++ rest)) :
    IsInert n before :=
  fun source r hsource hr => h source r (mem_split_append hsource rest) hr

theorem isInert_of_closed_append {before rest : Text} (hclosed : before.getLast? = some '>')
    (h : IsInert n (before ++ rest)) : IsInert n rest := by
  have hend : ∀ c ∈ before.getLast?, c = '>' := by simp [hclosed]
  intro source r hsource hr
  refine h source r ?_ hr
  rw [split_append_of_closed hend]
  exact List.mem_append_right _ hsource

theorem Patched.isInert (h : Patched (layered n 1) html flat) (hinert : IsInert n html) :
    IsInert n flat := by
  induction h with
  | refl s => exact hinert
  | @element before source rest out hsource hrest ih =>
      have hclosed : (before ++ source).getLast? = some '>' := by
        rw [List.getLast?_append, hsource.closes]
        rfl
      rw [← List.append_assoc] at hinert
      have hafter := ih (isInert_of_closed_append hclosed hinert)
      rw [List.append_assoc] at hinert
      exact isInert_append_block (isBlock_layered n 1) (isInert_of_append hinert)
        (isInert_layered 1) hafter

theorem Patched.isInert_peel (h : Patched (layered n 1) html flat) (hlength : html.length ≤ n) :
    IsInert n (peel n flat) := by
  induction h with
  | refl s => exact Markup.isInert_peel hlength
  | @element before source rest out hsource hrest ih =>
      rw [List.length_append, List.length_append] at hlength
      rw [peel_append_block n (isBlock_layered n 1), peel_layered n 0]
      exact isInert_append_block (isBlock_layered n 0) (Markup.isInert_peel (by omega))
        (isInert_layered 0) (ih (by omega))

/-- An element holds two marks `<` at least, as many as a layered kernel. -/
theorem Patched.count_le (h : Patched (layered n 1) html flat) :
    flat.count '<' ≤ html.count '<' := by
  have hlayered : (layered n 1).count '<' = 2 := by
    have htail : (kernelTail n).count '<' = 0 := List.count_eq_zero.mpr (notMem_kernelTail n)
    simp [layered, kernel_eq, halves, htail]
  induction h with
  | refl s => exact Nat.le_refl _
  | @element before source rest out hsource hrest ih =>
      have := hsource.two_tags
      simp only [List.count_append, hlayered]
      omega

theorem isActive_of_not_isSettled (hchildren : childReferences html = []) (h : ¬IsSettled html) :
    IsActive html := by
  refine Classical.byContradiction fun hidle => h ⟨hchildren, fun tag htag => ?_⟩
  rw [selfClosingReference?_eq]
  cases hnamed : named? tag.source with
  | none => rfl
  | some r => exact absurd ⟨tag.source, hit_mem_of_mem_place htag, by simp [hnamed]⟩ hidle

end Second

def Compiler.compileTwice (c : Compiler) (html : Text) (page : Option Text) : Engine Text := do
  c.compile (← c.compile html page) page

theorem Compiler.exec_compileTwice_of_settled (c : Compiler) {files : SiteTree} {html : Text}
    {page : Option Text} {s : Session} {out : Text}
    (h : ((c.compile html page).exec files s).1 = .ok out) (hsettled : IsSettled out) :
    ((c.compileTwice html page).exec files s).1 = ((c.compile html page).exec files s).1 := by
  rw [compileTwice, Engine.exec_bind_of_ok h, h]
  exact exec_compile_of_settled c files hsettled page _

/-- What the compiler of layers leaves of a page that is not settled, it does not leave alone. -/
theorem Compiler.exec_layers_compileTwice_ne {html : Text} (h : ¬IsSettled html)
    (files : SiteTree) (page : Option Text) (s : Session) :
    (((layers html.length).compileTwice html page).exec files s).1 ≠
      (((layers html.length).compile html page).exec files s).1 := by
  let n := html.length
  have hensures := fun html : Text => show ((layers n).compile html page).Ensures files _ from
    ensures_layers_compile page html
  obtain ⟨out, hout, flat, hpatched, hflat, rfl⟩ := hensures html s
  have hinert : IsInert n (peel n flat) := hpatched.isInert_peel (Nat.le_refl _)
  have hactive : IsActive (peel n flat) := by
    rcases hflat with ⟨hchildren, rfl⟩ | ⟨before, rest, rfl⟩
    · exact isActive_peel (Nat.le_refl _) (isActive_of_not_isSettled hchildren h)
    · rw [peel_append_block n (isBlock_layered n 1), peel_layered n 0]
      exact isActive_append_layered _ 0 _
  obtain ⟨again, hagain, flat', hpatched', hflat', rfl⟩ :=
    hensures (peel n flat) (((layers n).compile html page).exec files s).2
  have hactive' : IsActive flat' := by
    rcases hflat' with ⟨-, rfl⟩ | ⟨before, rest, rfl⟩
    · exact hactive
    · exact isActive_append_layered _ 1 _
  have hlt := (count_peel (hpatched'.isInert hinert)).2 hactive'
  have hle := hpatched'.count_le
  rw [compileTwice, Engine.exec_bind_of_ok hout, hagain, hout]
  intro heq
  have hsame : peel n flat' = peel n flat := Except.ok.inj heq
  rw [hsame] at hlt
  omega

/-- Compiling a page twice is compiling it once over every provider that answers by the identifier
and the props alone, exactly when the page is settled. Over a sound provider it is so for every
well-formed page. -/
theorem compileTwice_eq_compile_iff (html : Text) :
    (IsSettled html ↔ ∀ (c : Compiler) (files : SiteTree), c.provider.IsPure c.reenter files →
      ∀ page s, ((c.compileTwice html page).exec files s).1 =
        ((c.compile html page).exec files s).1) ∧
    ∀ (c : Compiler) (files : SiteTree), c.provider.IsSound c.reenter files →
      ∀ d : Document, d.WellFormed → d.render = html → ∀ page s,
        ((c.compileTwice html page).exec files s).1 = ((c.compile html page).exec files s).1 := by
  constructor
  · constructor
    · intro h c files _ page s
      exact c.exec_compileTwice_of_settled (exec_compile_of_settled c files h page s) h
    · intro h
      refine Classical.byContradiction fun hnot => ?_
      let files : SiteTree := ⟨.folder [], []⟩
      exact Compiler.exec_layers_compileTwice_ne hnot files none Session.start
        (h (.layers html.length) files (isPure_layers _ _ _) none Session.start)
  · rintro c files hsound d hd rfl page s
    obtain ⟨out, hout, hordinary⟩ := Compiler.ensures_compile_isOrdinary hsound page hd s
    exact c.exec_compileTwice_of_settled hout (isSettled_of_isOrdinary hordinary)

def letterDocuments : List (Text × Document) := [("A", .text "C" .empty)]

def letterCompiler : Compiler := ⟨.ofDocuments letterDocuments, 50⟩

theorem compileTwice_eq_compile_iff_card :
    ((letterCompiler.compileTwice "C" none).exec ⟨.folder [], []⟩ Session.start).1 =
        ((letterCompiler.compile "C" none).exec ⟨.folder [], []⟩ Session.start).1 ∧
      ((cardCompiler.compileTwice cardPage.render none).exec ⟨.folder [], []⟩ Session.start).1 =
        ((cardCompiler.compile cardPage.render none).exec ⟨.folder [], []⟩ Session.start).1 := by
  have hpure : letterCompiler.provider.IsPure letterCompiler.reenter ⟨.folder [], []⟩ :=
    isPure_ofDocuments letterDocuments letterCompiler.reenter ⟨.folder [], []⟩
  have hsound : cardCompiler.provider.IsSound cardCompiler.reenter ⟨.folder [], []⟩ :=
    isSound_ofDocuments (by decide) cardCompiler.reenter ⟨.folder [], []⟩
  exact ⟨(compileTwice_eq_compile_iff "C").1.mp Compiler.isSettled_letter letterCompiler
      ⟨.folder [], []⟩ hpure none Session.start,
    (compileTwice_eq_compile_iff cardPage.render).2 cardCompiler ⟨.folder [], []⟩ hsound cardPage
      (by decide) rfl none Session.start⟩

/-- A page in which the expansion of one tag completes another tag. -/
def splicedPage : Text := "<<Component src=\"A\" />omponent src=\"A\" />"

/-- Over a table of texts, what a page compiles to can change when it is compiled again. -/
theorem compileTwice_splicedPage :
    letterCompiler.provider.IsPure letterCompiler.reenter ⟨.folder [], []⟩ ∧
      ((letterCompiler.compile splicedPage none).exec ⟨.folder [], []⟩
        Session.start).1.toOption = some "<Component src=\"A\" />".toList ∧
      ((letterCompiler.compileTwice splicedPage none).exec ⟨.folder [], []⟩
        Session.start).1.toOption = some "C".toList ∧
      "<Component src=\"A\" />".toList ≠ "C".toList :=
  ⟨isPure_ofDocuments letterDocuments letterCompiler.reenter ⟨.folder [], []⟩, by decide +kernel,
    by decide +kernel, by decide⟩

end StaticSite
