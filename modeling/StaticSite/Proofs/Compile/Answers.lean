import StaticSite.Proofs.Compile.Level

/-!
# Compiling with answers

A provider serves answers when every reference that a document can make is answered with the
content of a component, itself a rendered document, or with none. Then every document compiles,
with any number of levels, to a text that the answers allow, and that text is ordinary.
-/

namespace StaticSite

open Markup

/-- Whether a result is that of a reference answered with this content, or with none. -/
def Shows : Option Document → Except Fault Text → Prop
  | some content, result => result = .ok content.render
  | none, result => ∃ fault, result = .error fault ∧ fault.isMissing

/-- Each answer that a provider may give, by identifier and props: the content of a component, or
none. -/
abbrev Answers := Text → Props → Option Document → Prop

/-- Whatever is written in a page, and in whatever session, a provider gives one of the answers. -/
def Provider.Serves (p : Provider) (reenter : Engine.Reentry) (files : SiteTree)
    (answers : Answers) : Prop :=
  ∀ identifier props, IsPlain identifier → IsPlainProps props → ∀ s, ∃ answer,
    answers identifier props answer ∧
      Shows answer ((do (← p.resolve reenter identifier).render reenter props).exec files s).1

/-- Content is well-formed wherever there is some. -/
def Answers.Sound (answers : Answers) : Prop :=
  ∀ identifier props content, answers identifier props (some content) → content.IsComponent

/-- What a call may become, where `inner` says what a document may become one level deeper. There
is no deeper level when `room` is zero. -/
inductive CallBecomes (answers : Answers) (maxDepth : Int) (room : Nat)
    (inner : Document → Text → Prop) (call : Call) : Text → Prop
  | refused (h : room = 0) : CallBecomes answers maxDepth room inner call
      (depthMarker call.identifier maxDepth)
  | missing (h : room ≠ 0) (hanswer : answers call.identifier call.props none) :
      CallBecomes answers maxDepth room inner call (notFoundMarker call.identifier)
  | found (h : room ≠ 0) {content : Document}
      (hanswer : answers call.identifier call.props (some content)) {out : Text}
      (hinner : inner (call.bound content) out) : CallBecomes answers maxDepth room inner call out

/-- What a document may become with room for so many deeper levels. -/
def MayBecome (answers : Answers) (maxDepth : Int) : Nat → Document → Text → Prop
  | 0 => Becomes (CallBecomes answers maxDepth 0 fun _ _ => False)
  | room + 1 => Becomes (CallBecomes answers maxDepth (room + 1) (MayBecome answers maxDepth room))

theorem isOrdinary_comment {s : Text} (h : '<' ∉ s) : isOrdinary ('<' :: '!' :: s) := by
  refine isOrdinary_cons.mpr ⟨fun _ => rfl, isOrdinary_cons.mpr ⟨?_, isOrdinary_of_notMem h⟩⟩
  intro hc
  exact absurd hc (by decide)

theorem isOrdinary_notFoundMarker {identifier : Text} (h : IsPlain identifier) :
    isOrdinary (notFoundMarker identifier) := by
  have hmarker : notFoundMarker identifier =
      '<' :: '!' :: ("-- Component \"" ++ identifier ++ "\" not found -->") := rfl
  rw [hmarker]
  apply isOrdinary_comment
  simp [h.notMem]

theorem notMem_ofInt {c : Char} (hdigit : c.isDigit = false) (hsign : c ≠ '-') (n : Int) :
    c ∉ Text.ofInt n := by
  have hdigits : ∀ m, c ∉ Text.ofNat m := by
    intro m hmem
    have hc := Nat.isDigit_of_mem_toDigits (by decide) (by decide) hmem
    rw [hdigit] at hc
    cases hc
  cases n with
  | ofNat m => exact hdigits m
  | negSucc m => simpa [Text.ofInt, hsign] using hdigits (m + 1)

theorem isOrdinary_depthMarker {identifier : Text} (h : IsPlain identifier) (maxDepth : Int) :
    isOrdinary (depthMarker identifier maxDepth) := by
  have hmarker : depthMarker identifier maxDepth =
      '<' :: '!' :: ("-- Component \"" ++ identifier ++
        "\" exceeded maximum nesting depth (" ++ Text.ofInt maxDepth ++ ") -->") := rfl
  have hnumber : '<' ∉ Text.ofInt maxDepth := notMem_ofInt (by decide) (by decide) maxDepth
  rw [hmarker]
  apply isOrdinary_comment
  simp [h.notMem, hnumber]

theorem Shows.stops_eq_false {answer : Option Document} {result : Except Fault Text}
    (h : Shows answer result) (fault : Fault) (hfault : result = .error fault) :
    fault.stops = false := by
  subst hfault
  cases answer with
  | none =>
      obtain ⟨other, hother, hmissing⟩ := h
      cases hother
      exact Fault.stops_of_isMissing hmissing
  | some content => cases h

namespace Compiler

variable {c : Compiler} {reenter : Engine.Reentry} {files : SiteTree} {answers : Answers}

theorem shows_content {call : Call} (hcall : call.WellFormed) (start : Nat) (source : Text)
    {ctx : Context} (hserves : c.provider.Serves reenter files answers) (hroom : ctx.room ≠ 0)
    (s : Session) : ∃ answer, answers call.identifier call.props answer ∧
      Shows answer ((c.content reenter ctx (call.reference start source)).exec files s).1 := by
  obtain ⟨answer, hanswer, hshows⟩ := hserves _ _ hcall.plain hcall.plainProps s
  refine ⟨answer, hanswer, ?_⟩
  rw [content_of_room hroom]
  exact hshows

theorem ensures_expand {inner : Inner} {ctx : Context} {may : Document → Text → Prop}
    (hserves : c.provider.Serves reenter files answers) (hsound : answers.Sound)
    (hinner : ctx.room ≠ 0 → ∀ (identifier : Text) (d : Document), d.WellFormed →
      (inner (ctx.child identifier) d.render).Ensures files
        fun out => isOrdinary out ∧ may d out) :
    c.Expands reenter inner ctx files (CallBecomes answers ctx.maxDepth ctx.room may) := by
  intro call hcall start source
  unfold expand
  by_cases hroom : ctx.room = 0
  · have hcontent : c.content reenter ctx (call.reference start source) =
        throw (.depthExceeded call.identifier ctx.maxDepth (ctx.stack ++ [call.identifier])) := by
      rw [content, Context.checkDepth, if_pos hroom]
      rfl
    have hmarker := isOrdinary_depthMarker hcall.plain ctx.maxDepth
    rw [hcontent]
    intro s
    exact ⟨_, rfl, hmarker, .refused hroom⟩
  · let answered (result : Except Fault Text) : Prop :=
      ∃ answer, answers call.identifier call.props answer ∧ Shows answer result
    have hattempt : (Engine.attempt (c.content reenter ctx (call.reference start source))).Ensures
        files answered := by
      refine Engine.ensures_attempt fun s => ?_
      have hanswered := shows_content hcall start source hserves hroom s
      refine ⟨hanswered, ?_⟩
      obtain ⟨answer, -, hshows⟩ := hanswered
      exact hshows.stops_eq_false
    refine hattempt.bind ?_
    rintro result ⟨answer, hanswer, hshows⟩
    cases answer with
    | none =>
        obtain ⟨fault, rfl, hmissing⟩ := hshows
        simp only [markerFor?_of_isMissing hmissing]
        refine (Engine.ensures_record _ _ _).bind fun _ _ => Engine.ensures_pure ?_
        exact ⟨isOrdinary_notFoundMarker hcall.plain, .missing hroom hanswer⟩
    | some content =>
        cases hshows
        obtain ⟨hwf, hbind⟩ := Call.bound_spec hcall (hsound _ _ _ hanswer)
        have hdeeper := hinner hroom call.identifier _ hwf
        simp only [hbind]
        exact (hdeeper.mono fun out hout => ⟨hout.1, .found hroom hanswer hout.2⟩).within _

theorem ensures_compileWithin (hserves : c.provider.Serves reenter files answers)
    (hsound : answers.Sound) {room : Nat} {ctx : Context} (hroom : ctx.room = room) {d : Document}
    (hd : d.WellFormed) :
    (c.compileWithin reenter room ctx d.render).Ensures files
      fun out => isOrdinary out ∧ MayBecome answers ctx.maxDepth room d out := by
  induction room generalizing ctx d with
  | zero =>
      have hexpand : c.Expands reenter (fun _ html => pure html) ctx files
          (CallBecomes answers ctx.maxDepth ctx.room fun _ _ => False) :=
        ensures_expand hserves hsound fun h => absurd hroom h
      rw [hroom] at hexpand
      exact ensures_expandAll hexpand hd
  | succ room ih =>
      have hexpand : c.Expands reenter (c.compileWithin reenter room) ctx files
          (CallBecomes answers ctx.maxDepth ctx.room (MayBecome answers ctx.maxDepth room)) := by
        refine ensures_expand hserves hsound fun _ identifier e he => ?_
        have hchild : (ctx.child identifier).room = room := by
          rw [Context.room_child, hroom]
          rfl
        exact ih hchild he
      rw [hroom] at hexpand
      exact ensures_expandAll hexpand hd

/-- Compiling a document in any context ends well, with a text that the answers allow. -/
theorem ensures_compileIn (hserves : c.provider.Serves reenter files answers)
    (hsound : answers.Sound) (ctx : Context) {d : Document} (hd : d.WellFormed) :
    (c.compileIn reenter ctx d.render).Ensures files
      fun out => isOrdinary out ∧ MayBecome answers ctx.maxDepth ctx.room d out :=
  ensures_compileWithin hserves hsound rfl hd

theorem ensures_compile (hserves : c.provider.Serves c.reenter files answers)
    (hsound : answers.Sound) (page : Option Text) {d : Document} (hd : d.WellFormed) :
    (c.compile d.render page).Ensures files fun out =>
      isOrdinary out ∧ MayBecome answers c.maxDepth (Context.top c.maxDepth page).room d out :=
  (ensures_compileIn hserves hsound (Context.top c.maxDepth page) hd).within _

end Compiler

end StaticSite
