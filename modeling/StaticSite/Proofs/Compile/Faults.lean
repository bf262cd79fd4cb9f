import StaticSite.Proofs.Compile.Found
import StaticSite.Proofs.Compile.Splice
import StaticSite.Proofs.Component.Steady

/-!
# How compiling can fail

A compile fails only when a look-up leaks, and then with the fault of that look-up, or when a site's
code fails where nothing holds its faults up. Where no code of a site has a say this is exact: a
compile gives a text if and only if nothing that it asks for leaks. -/

namespace StaticSite

open Markup Engine Provider

/-- Accounts of what an action has asked: `good` when it gives a result, `bad` for a fault. -/
structure Accounting (good : List Entry → Prop) (bad : Fault → List Entry → Prop) : Prop where
  nil : good []
  append : ∀ {added more}, good added → good more → good (added ++ more)
  fails : ∀ {added fault more}, good added → bad fault more → bad fault (added ++ more)

section Account

variable {files : SiteTree} {good : List Entry → Prop} {bad : Fault → List Entry → Prop}
  {α β : Type}

def Accounted (files : SiteTree) (good : List Entry → Prop) (bad : Fault → List Entry → Prop)
    (act : Engine α) : Prop :=
  Ends files act fun result added => Outcome (fun _ => good added) (bad · added) result

namespace Accounted

theorem pure (accounting : Accounting good bad) (a : α) : Accounted files good bad (Pure.pure a) :=
  ends_pure accounting.nil

theorem bind (accounting : Accounting good bad) {act : Engine α} {next : α → Engine β}
    (h : Accounted files good bad act) (hnext : ∀ a, Accounted files good bad (next a)) :
    Accounted files good bad (act >>= next) := by
  refine Ends.bind h (fun a added hadded => (hnext a).mono fun result more hmore => ?_)
    (fun _ _ hfault => hfault)
  cases result with
  | ok b => exact accounting.append hadded hmore
  | error fault => exact accounting.fails hadded hmore

theorem splice (accounting : Accounting good bad) {start stop : α → Nat}
    {expand : α → Engine Text} (h : ∀ a, Accounted files good bad (expand a)) (position : Nat)
    (rest : Text) (as : List α) :
    Accounted files good bad (StaticSite.splice start stop expand position rest as) := by
  induction as generalizing position rest with
  | nil => exact pure accounting rest
  | cons a as ih =>
      rw [StaticSite.splice]
      refine (h a).bind accounting fun expansion => ?_
      exact (ih _ _).bind accounting fun tail => pure accounting _

end Accounted

end Account

namespace Compiler

variable {c : Compiler} {reenter : Reentry} {files : SiteTree} {good : List Entry → Prop}
  {bad : Fault → List Entry → Prop}

/-- Getting a component's content ends with it, with a fault that a page shows, or badly. -/
def ContentAccounted (c : Compiler) (reenter : Reentry) (files : SiteTree)
    (good : List Entry → Prop) (bad : Fault → List Entry → Prop) : Prop :=
  ∀ ctx r, Ends files (c.content reenter ctx r) fun result added =>
    Outcome (fun _ => good added) (fun fault => fault.stops = false ∧
      if (markerFor? r fault).isSome then good added else bad fault added) result

variable (accounting : Accounting good bad)
  (hcontent : c.ContentAccounted reenter files good bad)
include accounting hcontent

theorem accounted_expand {inner : Inner}
    (hinner : ∀ ctx html, Accounted files good bad (inner ctx html))
    (ctx : Context) (r : Reference) : Accounted files good bad (c.expand reenter inner ctx r) := by
  refine (hcontent ctx r).after_attempt (fun _ _ h => h.1) ?_
  intro outcome added h
  cases outcome with
  | ok content =>
      refine (ends_within (hinner (ctx.child r.identifier) _) _).mono fun result more hmore => ?_
      cases result with
      | ok out => exact accounting.append h hmore
      | error fault => exact accounting.fails h hmore
  | error fault =>
      obtain ⟨-, h⟩ := h
      cases hmarker : markerFor? r fault with
      | some marker =>
          have hgood : good (added ++ []) := by simpa [hmarker] using h
          simp only [hmarker]
          refine Ends.after_record ?_ _ _ _
          exact ends_pure hgood
      | none =>
          have hbad : bad fault (added ++ []) := by simpa [hmarker] using h
          simp only [hmarker]
          exact ends_throw hbad

theorem accounted_expandAll {inner : Inner}
    (hinner : ∀ ctx html, Accounted files good bad (inner ctx html)) (ctx : Context) (html : Text) :
    Accounted files good bad (c.expandAll reenter inner ctx html) := by
  have hexpand := accounted_expand accounting hcontent hinner ctx
  have htag : ∀ tag, Accounted files good bad (c.expandTag reenter inner ctx tag) := by
    intro tag
    unfold expandTag
    cases selfClosingReference? tag with
    | some r => exact hexpand r
    | none =>
        refine Ends.after_record ?_ _ _ _
        exact Accounted.pure accounting tag.source
  refine (Accounted.splice accounting hexpand _ _ _).bind accounting fun flat => ?_
  exact Accounted.splice accounting htag _ _ _

theorem accounted_compileWithin (room : Nat) (ctx : Context) (html : Text) :
    Accounted files good bad (c.compileWithin reenter room ctx html) := by
  induction room generalizing ctx html with
  | zero =>
      exact accounted_expandAll accounting hcontent (fun _ html => Accounted.pure accounting html)
        ctx html
  | succ room ih => exact accounted_expandAll accounting hcontent ih ctx html

end Compiler

/-! ## Look-ups -/

namespace Provider

variable {p : Provider} {reenter : Reentry} {files : SiteTree}

/-- Looks a component up and renders it. -/
def fetch (p : Provider) (reenter : Reentry) (identifier : Text) (props : Props) : Engine Text := do
  (← p.resolve reenter identifier).render reenter props

/-- Some session makes the look-up of a component, or its rendering, end in a fault that a page does
not show. -/
def Leaks (p : Provider) (reenter : Reentry) (files : SiteTree) (identifier : Text) : Prop :=
  ∃ s props fault, ((p.fetch reenter identifier props).exec files s).1 = .error fault ∧
    fault.isShown = false

/-- No code of a site has a say in what a provider finds among these files. -/
structure StaticIn (p : Provider) (files : SiteTree) : Prop where
  isStatic : p.IsStatic
  codeFree : CodeFree p.leaves files

/-- Without code of a site, a component has one outcome whatever the props. -/
theorem StaticIn.exists_outcome (h : p.StaticIn files) (reenter : Reentry) (identifier : Text) :
    ∃ outcome, ∀ props, Ends files (p.fetch reenter identifier props) fun result added =>
      result = outcome ∧ ∀ e ∈ added, e.2 = .asked identifier := by
  obtain ⟨found, hfound, hends⟩ := @steady_resolve files reenter identifier p h.codeFree h.isStatic
  cases found with
  | error fault =>
      refine ⟨.error fault, fun props => hends.bind ?_ ?_⟩
      · rintro source _ ⟨hsource, -⟩
        cases hsource
      · rintro other added ⟨hother, hadded⟩
        cases hother
        exact ⟨rfl, hadded⟩
  | ok source =>
      obtain ⟨outcome, hrender⟩ := Source.exists_render_eq hfound
      refine ⟨outcome, fun props => hends.bind ?_ ?_⟩
      · rintro other added ⟨hother, hadded⟩
        cases hother
        rw [hrender]
        exact ends_ofExcept ⟨rfl, by simpa using hadded⟩
      · rintro fault _ ⟨hfault, -⟩
        cases hfault

/-- Without code of a site, nothing was asked that leaks. -/
def Clean (p : Provider) (reenter : Reentry) (files : SiteTree) (added : List Entry) : Prop :=
  p.StaticIn files → ∀ identifier, Asked identifier added → ¬p.Leaks reenter files identifier

/-- The fault came through, and without code of a site something was asked that leaks. -/
structure ComesThrough (loose : Fault → Prop) (p : Provider) (reenter : Reentry) (files : SiteTree)
    (fault : Fault) (added : List Entry) : Prop where
  escapes : Escapes loose p.leaves files added fault
  leaks : p.StaticIn files → ∃ identifier, Asked identifier added ∧
    p.Leaks reenter files identifier

theorem accounting_leaks {loose : Fault → Prop} (hloose : LooseFaults loose) (p : Provider)
    (reenter : Reentry) (files : SiteTree) :
    Accounting (p.Clean reenter files) (p.ComesThrough loose reenter files) where
  nil := fun _ _ ⟨_, h⟩ => by cases h
  append := by
    rintro added more hadded hmore hstatic identifier ⟨context, h⟩
    rcases List.mem_append.mp h with h | h
    · exact hadded hstatic identifier ⟨context, h⟩
    · exact hmore hstatic identifier ⟨context, h⟩
  fails := by
    rintro added fault more - ⟨hescapes, hleaks⟩
    refine ⟨(escaping hloose p.leaves files).append hescapes, fun hstatic => ?_⟩
    obtain ⟨identifier, hasked, hidentifier⟩ := hleaks hstatic
    exact ⟨identifier, hasked.append_left added, hidentifier⟩

/-- What a page can show of a component has asked for nothing that leaks. -/
theorem clean_fetch (hstatic : p.StaticIn files) (identifier : Text) (props : Props) :
    Ends files (p.fetch reenter identifier props) fun result added =>
      (∀ fault, result = .error fault → fault.isShown) → p.Clean reenter files added := by
  obtain ⟨outcome, hends⟩ := hstatic.exists_outcome reenter identifier
  refine (hends props).mono ?_
  rintro result added ⟨rfl, hadded⟩ hresult - other ⟨context, hother⟩
    ⟨s, others, fault, hfault, hhidden⟩
  have hsame : other = identifier := by
    have hevent := hadded _ hother
    cases hevent
    rfl
  subst hsame
  obtain ⟨-, -, houtcome, -⟩ := hends others s
  have hshown := hresult fault (houtcome.symm.trans hfault)
  simp [hhidden] at hshown

/-- How looking a component up and rendering it ends, with an account of what was asked. -/
theorem ends_fetch {loose : Fault → Prop} (hloose : LooseFaults loose)
    (hreenter : Gentle files (Escapes loose p.leaves files) reenter)
    (hfiles : MildFiles loose p.leaves files) (hp : p.Mild loose) (identifier : Text)
    (props : Props) :
    Ends files (p.fetch reenter identifier props) fun result added =>
      Outcome (fun _ => p.Clean reenter files added)
        (fun fault => fault.stops = false ∧ if fault.isShown then p.Clean reenter files added
          else p.ComesThrough loose reenter files fault added) result := by
  have hfetch : Ends files (p.fetch reenter identifier props) fun result added =>
      Outcome (fun _ => True) (fun fault => fault.isMissing ∨
        Asked identifier added ∧ Escapes loose p.leaves files added fault) result := by
    refine (ends_resolve hloose hreenter hfiles identifier p hp fun _ hf => hf).bind ?_
      (fun _ _ h => h.cause)
    rintro source added ⟨hsource, hasked⟩
    refine (source.ends_render (escaping hloose p.leaves files) hreenter hsource props).mono ?_
    intro result more h
    cases result with
    | ok text => trivial
    | error fault => exact h.imp_right fun h => ⟨hasked.append_right more, .inl h⟩
  have hclean : Ends files (p.fetch reenter identifier props) fun result added =>
      (∀ fault, result = .error fault → fault.isShown) → p.Clean reenter files added := by
    by_cases hstatic : p.StaticIn files
    · exact clean_fetch hstatic identifier props
    · exact hfetch.mono fun _ _ _ _ h => absurd h hstatic
  refine (hfetch.from_session.and hclean).mono ?_
  rintro result added ⟨⟨h, s, hs⟩, hclean⟩
  cases result with
  | ok text => exact hclean fun fault hfault => by cases hfault
  | error fault =>
      have hstops : fault.stops = false := by
        rcases h with hmissing | ⟨-, hescapes⟩
        · exact Fault.stops_of_isMissing hmissing
        · exact ((escaping hloose p.leaves files).guarded hescapes).not_stops
      refine ⟨hstops, ?_⟩
      split
      · rename_i hshown
        exact hclean fun other hother => by cases hother; exact hshown
      · rename_i hhidden
        obtain ⟨hasked, hescapes⟩ :=
          h.resolve_left fun hmissing => hhidden (Fault.isShown_of_isMissing hmissing)
        exact ⟨hescapes, fun _ => ⟨identifier, hasked, s, props, fault, hs, by simpa using hhidden⟩⟩

end Provider

/-! ## Compiles -/

/-- A page of one self-closing tag. -/
def tagPage (identifier : Text) : Document := .selfClosing [(sourceName, identifier)] .empty

theorem wellFormed_tagPage {identifier : Text} (h : IsPlain identifier) :
    (tagPage identifier).WellFormed := by
  refine ⟨⟨_, List.mem_singleton_self _, rfl⟩, fun a ha => ?_, trivial⟩
  rw [List.mem_singleton.mp ha]
  exact ⟨show sourceName ≠ [] by decide,
    show ∀ c ∈ sourceName, NameStyle.hyphenated.inName c by decide, h⟩

/-- The reference of a tag that has nothing but an identifier. -/
def bareReference (position : Nat) (identifier : Text) : Reference :=
  (Call.ofSelfClosing [(sourceName, identifier)]).reference position
    (renderSelfClosing [(sourceName, identifier)])

def bareProps (identifier : Text) : Props := Table.ofList [(sourceName, identifier)]

theorem identifier_bareReference (position : Nat) (identifier : Text) :
    (bareReference position identifier).identifier = identifier := by
  simp [bareReference, Call.reference, Call.ofSelfClosing, Table.ofList, Table.get?_set]

/-- One self-closing tag between two texts. -/
def tagIn (before identifier after : Text) : Document :=
  .text before (.selfClosing [(sourceName, identifier)] (.text after .empty))

section TagIn

variable {before identifier after : Text}

theorem wellFormed_tagIn (h : IsPlain identifier) (hbefore : isOrdinary before)
    (hafter : isOrdinary after) : (tagIn before identifier after).WellFormed := by
  obtain ⟨hsource, hattributes, -⟩ := wellFormed_tagPage h
  exact ⟨hbefore, hsource, hattributes, hafter, trivial⟩

theorem render_tagIn (before identifier after : Text) :
    (tagIn before identifier after).render =
      before ++ (renderSelfClosing [(sourceName, identifier)] ++ after) := by
  simp [tagIn, Document.render]

theorem selfClosingTags_tagIn (h : IsPlain identifier) (hbefore : isOrdinary before)
    (hafter : isOrdinary after) :
    selfClosingTags (tagIn before identifier after).render = [⟨0 + before.length,
      0 + before.length + (renderSelfClosing [(sourceName, identifier)]).length,
      renderSelfClosing [(sourceName, identifier)], ()⟩] :=
  Document.selfClosingTags_render (wellFormed_tagIn h hbefore hafter) trivial

end TagIn

namespace Compiler

variable {c : Compiler} {reenter : Reentry} {files : SiteTree}

theorem isSome_markerFor? (fault : Fault) (r : Reference) :
    (markerFor? r fault).isSome = fault.isShown := by
  cases fault <;> rfl

theorem content_eq_fetch {ctx : Context} (hroom : ctx.room ≠ 0) (r : Reference) :
    c.content reenter ctx r = c.provider.fetch reenter r.identifier r.props :=
  content_of_room hroom r

section Accounts

variable {loose : Fault → Prop} (hloose : LooseFaults loose)
  (hfiles : MildFiles loose c.provider.leaves files) (hmild : c.provider.Mild loose)
include hloose hfiles hmild

theorem contentAccounted (hreenter : Gentle files (Escapes loose c.provider.leaves files) reenter) :
    c.ContentAccounted reenter files (c.provider.Clean reenter files)
      (c.provider.ComesThrough loose reenter files) := by
  intro ctx r
  by_cases hroom : ctx.room = 0
  · rw [content, Context.checkDepth, if_pos hroom]
    exact ends_throw ⟨rfl, (accounting_leaks hloose c.provider reenter files).nil⟩
  · rw [content_eq_fetch hroom]
    refine (ends_fetch hloose hreenter hfiles hmild r.identifier r.props).mono ?_
    intro result added h
    cases result with
    | ok text => exact h
    | error fault =>
        refine ⟨h.1, ?_⟩
        rw [isSome_markerFor?]
        exact h.2

theorem accounted_compileIn
    (hreenter : Gentle files (Escapes loose c.provider.leaves files) reenter) (ctx : Context)
    (html : Text) :
    Accounted files (c.provider.Clean reenter files)
      (c.provider.ComesThrough loose reenter files) (c.compileIn reenter ctx html) :=
  accounted_compileWithin (accounting_leaks hloose c.provider reenter files)
    (contentAccounted hloose hfiles hmild hreenter) ctx.room ctx html

theorem gentle_compileNested (nesting : Nat) :
    Gentle files (Escapes loose c.provider.leaves files) (c.compileNested nesting) := by
  induction nesting with
  | zero => exact fun _ _ => ends_throw (.inl rfl)
  | succ nesting ih =>
      intro html page
      have hrun := accounted_compileIn hloose hfiles hmild ih (Context.top c.maxDepth page) html
      refine (ends_within hrun _).mono fun result added h => ?_
      cases result with
      | ok out => trivial
      | error fault => exact .inr h.escapes

end Accounts

theorem expandAll_tagIn {before identifier after : Text} (h : IsPlain identifier)
    (hbefore : isOrdinary before)
    (hafter : isOrdinary after) (inner : Inner) (ctx : Context) :
    c.expandAll reenter inner ctx (tagIn before identifier after).render =
      (fun out => before ++ (out ++ after)) <$>
        c.expand reenter inner ctx (bareReference before.length identifier) := by
  have hwf := wellFormed_tagIn h hbefore hafter
  have hfirst : c.expandChildren reenter inner ctx (tagIn before identifier after).render =
      pure (tagIn before identifier after).render := by
    rw [expandChildren, Document.childReferences_render hwf]
    rfl
  have hreference := selfClosingReference?_render hwf.2.1 hwf.2.2.1 (0 + before.length)
  rw [expandAll, hfirst, pure_bind, expandSelfClosing, selfClosingTags_tagIn h hbefore hafter,
    render_tagIn, splice_append (by simp), splice_cons]
  · rw [expandTag, hreference]
    simp [splice, bareReference]
  · rfl
  · rfl

theorem expandAll_tagPage {identifier : Text} (h : IsPlain identifier) (inner : Inner)
    (ctx : Context) :
    c.expandAll reenter inner ctx (tagPage identifier).render =
      c.expand reenter inner ctx (bareReference 0 identifier) := by
  have hrender : (tagPage identifier).render = (tagIn [] identifier []).render := by
    rw [render_tagIn]
    rfl
  rw [hrender, expandAll_tagIn h isOrdinary_nil isOrdinary_nil]
  simp

/-- A fault that no page shows breaks the expansion off. -/
theorem exec_expand_of_hidden {inner : Inner} {ctx : Context} {r : Reference} {s : Session}
    {fault : Fault} (hhidden : fault.isShown = false)
    (hcontent : ((c.content reenter ctx r).exec files s).1 = .error fault) :
    ((c.expand reenter inner ctx r).exec files s).1 = .error fault := by
  have hmarker : markerFor? r fault = none := by
    rw [← Option.not_isSome_iff_eq_none, isSome_markerFor?, hhidden]
    decide
  rw [expand, exec_bind]
  by_cases hstops : fault.stops
  · rw [exec_attempt_of_stop hcontent hstops]
  · rw [exec_attempt_of_error hcontent (by simpa using hstops)]
    simp [hmarker]

/-- What breaks off the look-up or the rendering of a component makes the page of its tag fail. -/
theorem exec_compile_tagPage {identifier : Text} (h : IsPlain identifier) (hdepth : 0 < c.maxDepth)
    (page : Option Text) (s : Session) {fault : Fault} (hhidden : fault.isShown = false)
    (hfetch : ((c.provider.fetch c.reenter identifier (bareProps identifier)).exec files
      { s with context := some (Context.top c.maxDepth page) }).1 = .error fault) :
    ((c.compile (tagPage identifier).render page).exec files s).1 = .error fault := by
  let ctx := Context.top c.maxDepth page
  have hroom : ctx.room ≠ 0 := by
    rw [Ne, Context.room_eq_zero_iff]
    simp only [ctx, Context.top]
    omega
  obtain ⟨inner, hinner⟩ := c.exists_compileWithin_eq c.reenter ctx.room
  have hcompile : c.compileIn c.reenter ctx (tagPage identifier).render = _ := hinner ctx _
  rw [expandAll_tagPage h] at hcompile
  change ((c.compileIn c.reenter ctx (tagPage identifier).render).exec files _).1 = _
  rw [hcompile]
  refine exec_expand_of_hidden hhidden ?_
  rw [content_eq_fetch hroom, identifier_bareReference]
  exact hfetch

/-- A compile ends in a text, or in a fault that comes through. Without code of a site it ends in a
text exactly when it asks for nothing that leaks. -/
theorem compile_ends {loose : Fault → Prop} (hloose : LooseFaults loose)
    (hmild : c.provider.Mild loose) (hfiles : MildFiles loose c.provider.leaves files) (html : Text)
    (page : Option Text) :
    Ends files (c.compile html page) fun result added =>
      ((∃ out, result = .ok out) ∨ ∃ fault, result = .error fault ∧
        Escapes loose c.provider.leaves files added fault) ∧
      (c.provider.StaticIn files → ((∃ out, result = .ok out) ↔
        ∀ identifier, Asked identifier added → ¬c.provider.Leaks c.reenter files identifier)) := by
  have hreenter := gentle_compileNested hloose hfiles hmild nestingLimit
  have hrun := ends_within (accounted_compileIn hloose hfiles hmild hreenter
    (Context.top c.maxDepth page) html) (Context.top c.maxDepth page)
  refine Ends.mono hrun fun result added h => ?_
  cases result with
  | ok out => exact ⟨.inl ⟨out, rfl⟩, fun hstatic => ⟨fun _ => h hstatic, fun _ => ⟨out, rfl⟩⟩⟩
  | error fault =>
      refine ⟨.inr ⟨fault, rfl, h.escapes⟩, fun hstatic => ⟨?_, fun hnone => ?_⟩⟩
      · rintro ⟨out, hout⟩
        cases hout
      · obtain ⟨identifier, hasked, hleaks⟩ := h.leaks hstatic
        exact absurd hleaks (hnone identifier hasked)

end Compiler

/-- A name of more bytes than a file name can have. -/
def longName : Text := List.replicate 300 'a'

def folderCompiler : Compiler := ⟨.folders (Folders.ofPaths [Path.ofText "components"]), 50⟩

def folderFiles : SiteTree :=
  ⟨.folder [("components", .folder [("Logo.html", .file (.bytes [60, 98, 62]))])], []⟩

theorem staticIn_folderFiles : folderCompiler.provider.StaticIn folderFiles :=
  ⟨trivial, codeFree_of_descendants (by simp [folderCompiler, leaves, Folders.ofPaths]) rfl
    (by decide)⟩

/-- Whether a component ended in a fault that no page shows. -/
def comesThrough : Except Fault Text → Bool
  | .ok _ => false
  | .error fault => !fault.isShown

end StaticSite
