import StaticSite.Proofs.Asset.Loaded
import StaticSite.Proofs.Compile.Twice
import StaticSite.Proofs.Component.Steady
import StaticSite.Site.Environment

/-!
# Builds that do not depend on the session

Over a provider that answers by the identifier and the props alone, a page compiles and builds to
the same text whatever was done before.
-/

namespace StaticSite

open Markup

namespace Engine

variable {α β : Type} {files : SiteTree}

/-- The action ends in the same way from every session. -/
def Uniform (files : SiteTree) (act : Engine α) : Prop :=
  ∀ s t, (act.exec files s).1 = (act.exec files t).1

variable {act : Engine α}

theorem uniform_pure (a : α) : Uniform files (pure a) := fun _ _ => rfl

theorem uniform_throw (fault : Fault) : Uniform files (throw fault : Engine α) := fun _ _ => rfl

theorem uniform_record (level : Level) (logger : Logger) (message : Text) :
    Uniform files (record level logger message) := fun _ _ => rfl

theorem uniform_ofExcept (result : Except Fault α) : Uniform files (ofExcept result) := by
  cases result <;> exact fun _ _ => rfl

theorem uniform_of_ensures {a : α} (h : Ensures files act (· = a)) : Uniform files act := by
  intro s t
  obtain ⟨_, hs, rfl⟩ := h s
  obtain ⟨_, ht, rfl⟩ := h t
  rw [hs, ht]

theorem uniform_of_steady {events : Event → Prop} {post : α → Prop}
    (h : Steady files events post act) : Uniform files act := by
  obtain ⟨outcome, -, hends⟩ := h
  intro s t
  obtain ⟨_, -, hs, -⟩ := hends s
  obtain ⟨_, -, ht, -⟩ := hends t
  rw [hs, ht]

namespace Uniform

theorem bind {next : α → Engine β} (h : Uniform files act)
    (hnext : ∀ a, Uniform files (next a)) : Uniform files (act >>= next) := by
  intro s t
  cases hs : (act.exec files s).1 with
  | ok a =>
      rw [exec_bind_of_ok hs, exec_bind_of_ok ((h t s).trans hs)]
      exact hnext a _ _
  | error fault => rw [exec_bind_of_error hs, exec_bind_of_error ((h t s).trans hs)]

theorem attempt (h : Uniform files act) : Uniform files (Engine.attempt act) := by
  have hheld : ∀ s, ((Engine.attempt act).exec files s).1 = held (act.exec files s).1 := by
    intro s
    cases hs : (act.exec files s).1 with
    | ok a => rw [exec_attempt_of_ok hs, held]
    | error fault =>
        by_cases hstops : fault.stops
        · rw [exec_attempt_of_stop hs hstops, held, if_pos hstops]
        · rw [exec_attempt_of_error hs (by simpa using hstops), held, if_neg hstops]
  intro s t
  rw [hheld, hheld, h s t]

theorem within (h : Uniform files act) (c : Context) : Uniform files (Engine.within c act) :=
  fun s t => h { s with context := some c } { t with context := some c }

end Uniform

theorem uniform_splice {start stop : α → Nat} {expand : α → Engine Text}
    (h : ∀ a, Uniform files (expand a)) (position : Nat) (rest : Text) (as : List α) :
    Uniform files (splice start stop expand position rest as) := by
  induction as generalizing position rest with
  | nil => exact uniform_pure rest
  | cons a as ih =>
      exact (h a).bind fun expansion => (ih _ _).bind fun tail => uniform_pure _

end Engine

namespace Compiler

open Engine

variable {files : SiteTree} {c : Compiler}

theorem uniform_content (hpure : c.provider.IsPure c.reenter files) (ctx : Context)
    (r : Reference) : Uniform files (c.content c.reenter ctx r) :=
  (uniform_ofExcept _).bind fun _ => hpure r.identifier r.props

theorem uniform_expand {inner : Inner} (hpure : c.provider.IsPure c.reenter files)
    (hinner : ∀ ctx html, Uniform files (inner ctx html)) (ctx : Context) (r : Reference) :
    Uniform files (c.expand c.reenter inner ctx r) := by
  refine (uniform_content hpure ctx r).attempt.bind fun outcome => ?_
  cases outcome with
  | ok content => exact (hinner _ _).within _
  | error fault =>
      cases hmarker : markerFor? r fault with
      | none =>
          simp only [hmarker]
          exact uniform_throw fault
      | some marker =>
          simp only [hmarker]
          exact (uniform_record _ _ _).bind fun _ => uniform_pure marker

theorem uniform_expandAll {inner : Inner} (hpure : c.provider.IsPure c.reenter files)
    (hinner : ∀ ctx html, Uniform files (inner ctx html)) (ctx : Context) (html : Text) :
    Uniform files (c.expandAll c.reenter inner ctx html) := by
  have hexpand := uniform_expand hpure hinner ctx
  refine (uniform_splice hexpand _ _ _).bind fun flat => uniform_splice (fun tag => ?_) _ _ _
  rw [expandTag]
  cases selfClosingReference? tag with
  | some r => exact hexpand r
  | none => exact (uniform_record _ _ _).bind fun _ => uniform_pure _

theorem uniform_compileWithin (hpure : c.provider.IsPure c.reenter files) (room : Nat)
    (ctx : Context) (html : Text) :
    Uniform files (c.compileWithin c.reenter room ctx html) := by
  induction room generalizing ctx html with
  | zero => exact uniform_expandAll hpure (fun _ html => uniform_pure html) ctx html
  | succ room ih => exact uniform_expandAll hpure ih ctx html

theorem uniform_compile (hpure : c.provider.IsPure c.reenter files) (html : Text)
    (page : Option Text) : Uniform files (c.compile html page) :=
  (uniform_compileWithin hpure _ _ html).within _

end Compiler

namespace Environment

open Engine

theorem uniform_buildPage {files : SiteTree} {e : Environment}
    (hpure : e.provider.IsPure e.compiler.reenter files) (page : Text) :
    Uniform files (e.buildPage page) := by
  have hread : Uniform files (readText .utf8 (e.pagePath page)) :=
    uniform_of_steady (@steady_readText files (fun _ => True) _ _)
  have hscripts (html : Text) : Uniform files (do
      let html ← if e.inlineJs then e.inlineScripts html else pure html
      return Asset.stripDevScripts e.markers (clearHoles html)) := by
    split
    · have hinline := @Asset.ensures_inlineScripts files e.assetRoots e.markers html
      exact (uniform_of_ensures hinline).bind fun html => uniform_pure _
    · exact uniform_pure _
  refine hread.bind fun source => ?_
  refine (@Compiler.uniform_compile files e.compiler hpure source (some page)).bind fun html => ?_
  by_cases hcss : e.inlineCss
  · rw [if_pos hcss]
    have hinline := @Asset.ensures_inlineStylesheets files e.assetRoots html
    exact (uniform_of_ensures hinline).bind hscripts
  · rw [if_neg hcss]
    exact hscripts html

end Environment

/-- Where no code of a site has a say, answers depend on the identifier and the props alone. -/
theorem Provider.isPure_of_static {files : SiteTree} {p : Provider}
    (hfree : CodeFree p.leaves files) (hp : p.IsStatic) (reenter : Engine.Reentry) :
    p.IsPure reenter files := by
  intro identifier props
  have hsteady : Engine.Steady files (· = .asked identifier) (fun _ => True)
      (do (← p.resolve reenter identifier).render reenter props) :=
    (steady_resolve identifier p hfree hp).bind fun source h => by
      obtain ⟨result, hrender⟩ := Source.exists_render_eq h
      rw [hrender]
      exact .ofExcept result
  exact Engine.uniform_of_steady hsteady

end StaticSite
