import StaticSite.Compile.Expansion
import StaticSite.Proofs.Component.Closed

/-!
# What was noted is never read

Events are noted for whoever looks at a session from outside. A compile does not look at them: with
other entries in front of its own it does the same.
-/

namespace StaticSite

open Markup Engine

/-! ## Properties that compiles keep -/

namespace Engine.Closed

variable {files : SiteTree} {kind : Bytecode} {P : ∀ {α : Type}, Engine α → Prop}

section Compile

variable (hP : Closed files kind P)
include hP

theorem splice {α : Type} {start stop : α → Nat} {expand : α → Engine Text}
    (h : ∀ a, P (expand a)) (position : Nat) (rest : Text) (as : List α) :
    P (StaticSite.splice start stop expand position rest as) := by
  induction as generalizing position rest with
  | nil => exact hP.pure rest
  | cons a as ih => exact hP.bind (h a) fun expansion => hP.bind (ih _ _) fun tail => hP.pure _

variable (hwithin : ∀ (ctx : Context) (act : Engine Text), P act → P (within ctx act))
include hwithin

variable {c : Compiler} {reenter : Reentry} (hkept : KeepsOnly kind c.provider.leaves files)
  (hreenter : ∀ html page, P (reenter html page))
include hkept hreenter

theorem expand {inner : Compiler.Inner} (hinner : ∀ ctx html, P (inner ctx html)) (ctx : Context)
    (r : Reference) : P (c.expand reenter inner ctx r) := by
  have hcontent : P (c.content reenter ctx r) :=
    hP.bind (hP.ofExcept _) fun _ => hP.bind (hP.resolve hreenter r.identifier c.provider hkept)
      fun source => hP.render hreenter source r.props
  apply hP.bind (hP.attempt hcontent)
  intro outcome
  cases outcome with
  | ok content => exact hwithin _ _ (hinner _ _)
  | error fault =>
      cases hmarker : Compiler.markerFor? r fault with
      | none =>
          simp only [hmarker]
          exact hP.throw fault
      | some marker =>
          simp only [hmarker]
          exact hP.bind (hP.record _ _ _) fun _ => hP.pure marker

theorem expandAll {inner : Compiler.Inner} (hinner : ∀ ctx html, P (inner ctx html))
    (ctx : Context) (html : Text) : P (c.expandAll reenter inner ctx html) := by
  have hexpand := hP.expand hwithin hkept hreenter hinner ctx
  refine hP.bind (hP.splice hexpand _ _ _) fun flat => hP.splice (fun tag => ?_) _ _ _
  unfold Compiler.expandTag
  cases selfClosingReference? tag with
  | some r => exact hexpand r
  | none => exact hP.bind (hP.record _ _ _) fun _ => hP.pure _

theorem compileWithin (room : Nat) (ctx : Context) (html : Text) :
    P (c.compileWithin reenter room ctx html) := by
  induction room generalizing ctx html with
  | zero => exact hP.expandAll hwithin hkept hreenter (fun _ html => hP.pure html) ctx html
  | succ room ih => exact hP.expandAll hwithin hkept hreenter ih ctx html

end Compile

/-- A property that is kept when the context is set and reset holds of all compiles. -/
theorem compileNested (hP : Closed files kind P)
    (hwithin : ∀ (ctx : Context) (act : Engine Text), P act → P (within ctx act)) {c : Compiler}
    (hkept : KeepsOnly kind c.provider.leaves files) (nesting : Nat) (html : Text)
    (page : Option Text) : P (c.compileNested nesting html page) := by
  induction nesting generalizing html page with
  | zero => exact hP.throw .nestedTooDeep
  | succ nesting ih => exact hwithin _ _ (hP.compileWithin hwithin hkept ih _ _ html)

end Engine.Closed

/-! ## Entries noted earlier -/

/-- The session with entries noted before all that it holds. -/
def Session.after (s : Session) (earlier : List Entry) : Session :=
  { s with trace := earlier ++ s.trace }

namespace Engine

variable {α : Type} {files : SiteTree}

/-- Whatever was noted earlier stays in front of what the action notes and makes no other
difference. -/
def Blind (files : SiteTree) (act : Engine α) : Prop :=
  ∀ s earlier, act.exec files (s.after earlier) =
    ((act.exec files s).1, (act.exec files s).2.after earlier)

theorem closed_blind (files : SiteTree) : Closed files (fun _ => True) (Blind files) where
  peeks := by
    rintro α act blame ⟨result, hlooks, -⟩ s earlier
    rw [hlooks, hlooks]
  record := fun _ _ _ _ _ => rfl
  note := by
    intro event s earlier
    rw [exec_note, exec_note]
    exact congrArg (fun trace => (_, Session.mk _ _ trace _ _))
      (List.append_assoc earlier s.trace _)
  keep := fun _ _ _ _ => rfl
  currentContext := fun _ _ => rfl
  tally := fun _ _ _ => rfl
  bind_of := by
    intro α β act next hact hnext s earlier
    rw [exec_bind, exec_bind, hact]
    cases hexec : act.exec files s with
    | mk result after =>
        cases result with
        | ok a => exact hnext a s (by rw [hexec]) after earlier
        | error fault => rfl
  attempt := by
    intro α act hact s earlier
    rw [exec_attempt, exec_attempt, hact]
    cases act.exec files s with
    | mk result after =>
        cases result with
        | ok a => rfl
        | error fault =>
            simp only
            split <;> rfl

theorem Blind.within {act : Engine α} (h : Blind files act) (ctx : Context) :
    Blind files (Engine.within ctx act) := by
  intro s earlier
  have hact := h { s with context := some ctx } earlier
  rw [exec_within, exec_within]
  exact congrArg (fun after => (after.1, { after.2 with context := s.context })) hact

end Engine

/-- A compile does the same whatever was noted before it. -/
theorem Compiler.blind_compileNested (c : Compiler) (files : SiteTree) (nesting : Nat)
    (html : Text) (page : Option Text) : Blind files (c.compileNested nesting html page) :=
  (closed_blind files).compileNested (fun ctx _ h => h.within ctx)
    (keepsOnly_of_all (fun _ => trivial) _ _) nesting html page

end StaticSite
