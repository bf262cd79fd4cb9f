import StaticSite.Compile.Expansion
import StaticSite.Proofs.Component.Unaware

/-!
# Raising the greatest depth

A compile that refuses no component does the same under every greater limit. Where the lower limit
leaves no room each component is refused, so nothing is said of what the higher one finds there;
everywhere else both have the same look-ups and go on inside the same content.
-/

namespace StaticSite

open Markup Engine

/-- The same context under another limit. -/
def Context.limited (maxDepth : Int) (ctx : Context) : Context := { ctx with maxDepth }

theorem Context.room_limited_ne_zero {maxDepth : Int} {ctx : Context}
    (hle : ctx.maxDepth ≤ maxDepth) (h : ctx.room ≠ 0) : (ctx.limited maxDepth).room ≠ 0 := by
  simp only [ne_eq, room_eq_zero_iff, Int.not_le, limited] at h ⊢
  omega

namespace Engine

variable {α : Type} {files : SiteTree}

theorem Mimics.splice {start stop : α → Nat} {expand mimicExpand : α → Engine Text}
    (h : ∀ a, Mimics files (fun _ => True) (expand a) (mimicExpand a)) (position : Nat)
    (rest : Text) (as : List α) :
    Mimics files (fun _ => True) (StaticSite.splice start stop expand position rest as)
      (StaticSite.splice start stop mimicExpand position rest as) := by
  induction as generalizing position rest with
  | nil => exact pure trivial
  | cons a as ih =>
      rw [StaticSite.splice, StaticSite.splice]
      refine (h a).bind fun expansion _ => ?_
      exact (ih _ _).bind fun tail _ => pure trivial

/-- An action that logs a refusal whenever it runs is mimicked by any other. -/
theorem mimics_of_refuses {act mimic : Engine α} {entry : LogRecord} (hentry : entry.IsRefusal)
    (h : ∀ s, ∃ a, act.exec files s = (.ok a, { s with log := s.log ++ [entry] })) :
    Mimics files (fun _ => True) act mimic := by
  intro s t _
  obtain ⟨a, hexec⟩ := h s
  refine ⟨[entry], by rw [hexec], fun _ _ => trivial, fun hfree => ?_⟩
  exact absurd hentry (hfree entry (List.mem_singleton_self entry))

end Engine

namespace Compiler

variable {p : Provider} {n m : Int} {files : SiteTree} {reenter other : Reentry}
  {inner outer : Inner} {ctx : Context}

/-- Without room a reference gives way to a comment, and its refusal is logged. -/
theorem exec_expand_of_no_room {c : Compiler} (hroom : ctx.room = 0) (r : Reference)
    (s : Session) :
    (c.expand reenter inner ctx r).exec files s = (.ok (depthMarker r.identifier ctx.maxDepth),
      { s with log := s.log ++ [⟨.error, .compiler, (Fault.depthExceeded r.identifier ctx.maxDepth
        (ctx.stack ++ [r.identifier])).message⟩] }) := by
  have hcontent : (c.content reenter ctx r).exec files s = (.error (.depthExceeded r.identifier
      ctx.maxDepth (ctx.stack ++ [r.identifier])), s) := by
    rw [content, Context.checkDepth, if_pos hroom]
    rfl
  rw [expand, exec_bind, exec_attempt, hcontent]
  rfl

theorem mimics_expand (hp : p.IgnoresContext files) (hle : ctx.maxDepth ≤ m)
    (hreenter : Echoes files reenter other)
    (hinner : ctx.room ≠ 0 → ∀ identifier html, Mimics files (fun _ => True)
      (inner (ctx.child identifier) html) (outer ((ctx.limited m).child identifier) html))
    (r : Reference) :
    Mimics files (fun _ => True) ((Compiler.mk p n).expand reenter inner ctx r)
      ((Compiler.mk p m).expand other outer (ctx.limited m) r) := by
  by_cases hroom : ctx.room = 0
  · exact mimics_of_refuses ⟨_, _, _, rfl⟩ fun s => ⟨_, exec_expand_of_no_room hroom r s⟩
  · have hcontent : Mimics files (fun _ => True) ((Compiler.mk p n).content reenter ctx r)
        ((Compiler.mk p m).content other (ctx.limited m) r) := by
      rw [content_of_room hroom, content_of_room (Context.room_limited_ne_zero hle hroom)]
      exact hp reenter other hreenter r.identifier r.props
    refine hcontent.attempt.bind fun outcome _ => ?_
    cases outcome with
    | ok content => exact (hinner hroom _ _).within _ _
    | error fault =>
        cases hmarker : markerFor? r fault with
        | none =>
            simp only [hmarker]
            exact .throw fault
        | some marker =>
            simp only [hmarker]
            exact (Mimics.record _ _ _).bind fun _ _ => .pure trivial

theorem mimics_expandAll (hp : p.IgnoresContext files) (hle : ctx.maxDepth ≤ m)
    (hreenter : Echoes files reenter other)
    (hinner : ctx.room ≠ 0 → ∀ identifier html, Mimics files (fun _ => True)
      (inner (ctx.child identifier) html) (outer ((ctx.limited m).child identifier) html))
    (html : Text) :
    Mimics files (fun _ => True) ((Compiler.mk p n).expandAll reenter inner ctx html)
      ((Compiler.mk p m).expandAll other outer (ctx.limited m) html) := by
  have hexpand := mimics_expand (n := n) hp hle hreenter hinner
  refine (Mimics.splice hexpand _ _ _).bind fun flat _ => Mimics.splice (fun tag => ?_) _ _ _
  rw [expandTag, expandTag]
  cases selfClosingReference? tag with
  | some r => exact hexpand r
  | none => exact (Mimics.record _ _ _).bind fun _ _ => .pure trivial

/-- The induction is on the room under the lower limit; the room under the higher one is more, but
how much more does not matter. -/
theorem mimics_compileWithin (hp : p.IgnoresContext files) (hreenter : Echoes files reenter other)
    {room more : Nat} (hmore : room ≤ more) (hroom : ctx.room ≤ room) (hle : ctx.maxDepth ≤ m)
    (html : Text) :
    Mimics files (fun _ => True) ((Compiler.mk p n).compileWithin reenter room ctx html)
      ((Compiler.mk p m).compileWithin other more (ctx.limited m) html) := by
  induction room generalizing more ctx html with
  | zero =>
      obtain ⟨outer, houter⟩ := (Compiler.mk p m).exists_compileWithin_eq other more
      rw [houter]
      exact mimics_expandAll hp hle hreenter (fun hne => absurd (Nat.le_zero.mp hroom) hne) html
  | succ room ih =>
      obtain ⟨more, rfl⟩ := Nat.exists_eq_succ_of_ne_zero (Nat.ne_zero_of_lt hmore)
      refine mimics_expandAll hp hle hreenter (fun _ identifier html => ?_) html
      have hchild : (ctx.child identifier).room ≤ room := by
        rw [Context.room_child]
        exact Nat.sub_le_of_le_add hroom
      have hlimit : (ctx.child identifier).maxDepth ≤ m := hle
      exact ih (Nat.le_of_succ_le_succ hmore) hchild hlimit html

theorem mimics_compileNested (hp : p.IgnoresContext files) (hle : n ≤ m) (nesting : Nat)
    (html : Text) (page : Option Text) :
    Mimics files (fun _ => True) ((Compiler.mk p n).compileNested nesting html page)
      ((Compiler.mk p m).compileNested nesting html page) := by
  induction nesting generalizing html page with
  | zero => exact .throw _
  | succ nesting ih =>
      have hroom : (Context.top n page).room ≤ (Context.top m page).room := by
        simp only [Context.room, Context.top]
        omega
      exact (mimics_compileWithin hp ih hroom (Nat.le_refl _) hle html).within _ _

/-- The limit on depth does not show until it is met: where a compile logs no refusal, one with a
greater limit ends in the same way, logs the same, and has the same things asked of the provider
in the same order. -/
theorem compile_eq_of_no_refusal (hp : p.IgnoresContext files) (hle : n ≤ m) (html : Text)
    (page : Option Text) (s : Session) :
    ∃ added, (((Compiler.mk p n).compile html page).exec files s).2.log = s.log ++ added ∧
      ((∀ entry ∈ added, ¬entry.IsRefusal) →
        (((Compiler.mk p m).compile html page).exec files s).1 =
            (((Compiler.mk p n).compile html page).exec files s).1 ∧
          (((Compiler.mk p m).compile html page).exec files s).2.log =
            (((Compiler.mk p n).compile html page).exec files s).2.log ∧
          (((Compiler.mk p m).compile html page).exec files s).2.trace.map Prod.snd =
            (((Compiler.mk p n).compile html page).exec files s).2.trace.map Prod.snd) := by
  obtain ⟨added, hlog, -, hsame⟩ :=
    mimics_compileNested hp hle (nestingLimit + 1) html page s s (.refl s)
  refine ⟨added, hlog, fun hfree => ?_⟩
  obtain ⟨hresult, halike⟩ := hsame hfree
  exact ⟨hresult, halike.log, halike.events⟩

end Compiler

/-- A table of markup, and a function of which the producer has a text compiled and counts how
often it was called. -/
def panelProvider : Provider :=
  .choice [.ofEntries [("Panel", .text "<p>\x7b\x7bchildren\x7d\x7d</p>")],
    .function fun identifier =>
      if identifier = "Badge".toList then
        .newCounter fun counter => .done (.producer fun _ =>
          .compile "<Component name=\"Panel\">b</Component>" none fun out =>
            .count counter fun reached => .done (.text (out ++ Text.ofNat reached)))
      else .done .none]

def panelPage : Text :=
  "<Component name=\"Panel\"><Component src=\"Badge\" /></Component><Component src=\"Gone\" />"

theorem ignoresContext_panelProvider : panelProvider.IgnoresContext ⟨.folder [], []⟩ := by
  have hnone : UnawareFiles panelProvider.leaves ⟨.folder [], []⟩ := fun _ hf => nomatch hf
  refine Provider.ignoresContext_of_unaware hnone ?_
  refine ⟨Provider.unaware_ofEntries (by simp [Value.Unaware]), fun identifier => ?_, trivial⟩
  show (ite _ _ _ : Script Value).Unaware Value.Unaware
  split
  · exact fun _ _ _ _ => trivial
  · trivial

/-- The page nests one component in another, so that a limit of two is just enough. -/
theorem compile_eq_of_no_refusal_panel :
    panelProvider.IgnoresContext ⟨.folder [], []⟩ ∧ (2 : Int) ≤ 50 ∧
      (((Compiler.mk panelProvider 50).compile panelPage none).exec ⟨.folder [], []⟩ .start).1 =
        .ok "<p><p>b</p>1</p><!-- Component \"Gone\" not found -->" ∧
      (((Compiler.mk panelProvider 50).compile panelPage none).exec ⟨.folder [], []⟩
        .start).2.log = [⟨.error, .compiler, "Component \"Gone\" not found"⟩] := by
  have hlog : (((Compiler.mk panelProvider 2).compile panelPage none).exec ⟨.folder [], []⟩
      .start).2.log = [⟨.error, .compiler, "Component \"Gone\" not found"⟩] := by
    decide +kernel
  have hresult : (((Compiler.mk panelProvider 2).compile panelPage none).exec ⟨.folder [], []⟩
      .start).1.toOption = some "<p><p>b</p>1</p><!-- Component \"Gone\" not found -->".toList := by
    decide +kernel
  obtain ⟨added, hadded, hsame⟩ := Compiler.compile_eq_of_no_refusal ignoresContext_panelProvider
    (show (2 : Int) ≤ 50 by decide) panelPage none .start
  have hfree : ∀ entry ∈ added, ¬entry.IsRefusal := by
    intro entry hentry
    have hmem := List.mem_append_right Session.start.log hentry
    rw [← hadded, hlog, List.mem_singleton] at hmem
    rw [hmem]
    exact LogRecord.not_isRefusal (by decide)
  obtain ⟨hsameResult, hlogs, -⟩ := hsame hfree
  refine ⟨ignoresContext_panelProvider, by decide, ?_, ?_⟩
  · rw [hsameResult]
    exact eq_ok_of_toOption hresult
  · rw [hlogs]
    exact hlog

end StaticSite
