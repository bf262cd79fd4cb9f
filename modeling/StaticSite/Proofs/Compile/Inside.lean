import StaticSite.Compile.Expansion
import StaticSite.Proofs.Component.Moves

/-!
# The context of every look-up

A compile sets and resets the current context at every level. `compileInside` keeps none: it is
told in which references it stands, and puts each look-up into the context made of these. The two
do the same, whatever the site's code does, and a compile leaves the context as it has found it.
-/

namespace StaticSite

open Markup Engine

/-- The context inside the references to `enclosing`, outermost first. -/
def Context.inside (maxDepth : Int) (page : Option Text) (enclosing : List Text) : Context :=
  ⟨enclosing.length, maxDepth, enclosing, page⟩

theorem Context.child_inside (maxDepth : Int) (page : Option Text) (enclosing : List Text)
    (identifier : Text) : (inside maxDepth page enclosing).child identifier =
      inside maxDepth page (enclosing ++ [identifier]) := by
  simp [child, inside]

theorem Context.room_inside_eq_zero_iff (maxDepth : Int) (page : Option Text)
    (enclosing : List Text) :
    (inside maxDepth page enclosing).room = 0 ↔ ¬(enclosing.length : Int) < maxDepth := by
  rw [room_eq_zero_iff, inside, Int.not_lt]

/-! ## Compiling without a current context -/

namespace Compiler

section Inside

variable (c : Compiler) (reenter : Reentry) (page : Option Text)

/-- The content of a component that is referred to inside other references. Only here is a
provider asked, or a producer called. -/
def contentInside (enclosing : List Text) (r : Reference) : Engine Text :=
  if (enclosing.length : Int) < c.maxDepth then
    Engine.within (Context.inside c.maxDepth page enclosing) do
      (← c.provider.resolve reenter r.identifier).render reenter r.props
  else throw (.depthExceeded r.identifier c.maxDepth (enclosing ++ [r.identifier]))

def expandInside (inner : List Text → Text → Engine Text) (enclosing : List Text)
    (r : Reference) : Engine Text := do
  match ← Engine.attempt (c.contentInside reenter page enclosing r) with
  | .ok content => inner (enclosing ++ [r.identifier]) (bind r content)
  | .error fault =>
      match markerFor? r fault with
      | some marker => do
          Engine.record .error .compiler fault.message
          return marker
      | none => throw fault

def expandTagInside (inner : List Text → Text → Engine Text) (enclosing : List Text)
    (tag : Text.Span Unit) : Engine Text :=
  match selfClosingReference? tag with
  | some r => c.expandInside reenter page inner enclosing r
  | none => do
      Engine.record .debug .compiler
        ("Skipping malformed component tag: " ++ Text.quoted tag.source)
      return tag.source

def expandAllInside (inner : List Text → Text → Engine Text) (enclosing : List Text)
    (html : Text) : Engine Text := do
  let flat ← splice Reference.start Reference.stop (c.expandInside reenter page inner enclosing) 0
    html (childReferences html)
  splice Text.Span.start Text.Span.stop (c.expandTagInside reenter page inner enclosing) 0 flat
    (selfClosingTags flat)

/-- Compiles a text inside references, with room for so many deeper levels. -/
def compileInside : Nat → List Text → Text → Engine Text
  | 0 => c.expandAllInside reenter page fun _ html => pure html
  | room + 1 => c.expandAllInside reenter page (compileInside room)

end Inside

/-- Compiles a page with each look-up told in which references it stands. -/
def compileTold (c : Compiler) : Nat → Text → Option Text → Engine Text
  | 0, _, _ => throw .nestedTooDeep
  | nesting + 1, html, page =>
      c.compileInside (c.compileNested nesting) page c.maxDepth.toNat [] html

end Compiler

/-! ## Both do the same -/

namespace Engine

variable {α β : Type} {files : SiteTree} {ctx : Context} {act told : Engine α}

/-- In the context `ctx`, the action does what the one that is told does in any context. -/
def Follows (files : SiteTree) (ctx : Context) (act told : Engine α) : Prop :=
  ∀ s, (told.exec files s).2.context = s.context ∧
    act.exec files { s with context := some ctx } =
      ((told.exec files s).1, { (told.exec files s).2 with context := some ctx })

namespace Follows

theorem pure (a : α) : Follows files ctx (Pure.pure a) (Pure.pure a) :=
  fun _ => ⟨rfl, rfl⟩

theorem throw (fault : Fault) : Follows files ctx (throw fault : Engine α) (throw fault) :=
  fun _ => ⟨rfl, rfl⟩

theorem record (level : Level) (logger : Logger) (message : Text) :
    Follows files ctx (Engine.record level logger message)
      (Engine.record level logger message) :=
  fun _ => ⟨rfl, rfl⟩

theorem bind {next toldNext : α → Engine β} (h : Follows files ctx act told)
    (hnext : ∀ a, Follows files ctx (next a) (toldNext a)) :
    Follows files ctx (act >>= next) (told >>= toldNext) := by
  intro s
  obtain ⟨hcontext, hact⟩ := h s
  rw [exec_bind, exec_bind, hact]
  cases hresult : told.exec files s with
  | mk result after =>
      rw [hresult] at hcontext
      cases result with
      | error fault => exact ⟨hcontext, rfl⟩
      | ok a =>
          obtain ⟨hlast, hrun⟩ := hnext a after
          exact ⟨hlast.trans hcontext, hrun⟩

theorem attempt (h : Follows files ctx act told) :
    Follows files ctx (Engine.attempt act) (Engine.attempt told) := by
  intro s
  obtain ⟨hcontext, hact⟩ := h s
  rw [exec_attempt, exec_attempt, hact]
  cases hresult : told.exec files s with
  | mk result after =>
      rw [hresult] at hcontext
      cases result with
      | ok a => exact ⟨hcontext, rfl⟩
      | error fault =>
          simp only
          split <;> exact ⟨hcontext, rfl⟩

theorem splice {start stop : α → Nat} {expand toldExpand : α → Engine Text}
    (h : ∀ a, Follows files ctx (expand a) (toldExpand a)) (position : Nat) (rest : Text)
    (as : List α) :
    Follows files ctx (StaticSite.splice start stop expand position rest as)
      (StaticSite.splice start stop toldExpand position rest as) := by
  induction as generalizing position rest with
  | nil => exact pure rest
  | cons a as ih =>
      rw [StaticSite.splice, StaticSite.splice]
      refine (h a).bind fun expansion => ?_
      exact (ih _ _).bind fun tail => pure _

/-- An action that goes on in the context of a reference follows one that is told of it. -/
theorem within {child : Context} (h : Follows files child act told) :
    Follows files ctx (Engine.within child act) told := by
  intro s
  obtain ⟨hcontext, hact⟩ := h s
  refine ⟨hcontext, ?_⟩
  rw [exec_within]
  simp only [hact]

end Follows

/-- Setting the context of an action that leaves it alone is what the told one does. -/
theorem follows_within (h : Moves files (fun s t => t.context = s.context) act) :
    Follows files ctx act (within ctx act) := by
  intro s
  have hcontext := h { s with context := some ctx }
  refine ⟨rfl, ?_⟩
  rw [exec_within]
  cases hexec : act.exec files { s with context := some ctx } with
  | mk result after =>
      rw [hexec] at hcontext
      simp only at hcontext ⊢
      rw [← hcontext]

theorem stepwise_context :
    Stepwise (fun _ => True) fun s t => t.context = s.context where
  refl := fun _ => rfl
  trans := fun hst htu => htu.trans hst
  record := fun _ _ => rfl
  note := fun _ _ => rfl
  counters := fun _ _ => rfl
  keep := fun _ _ _ => rfl

end Engine

namespace Compiler

variable {c : Compiler} {reenter : Reentry} {page : Option Text} {files : SiteTree}

/-- However compiles nested in producers end, the context is as before. -/
theorem moves_context_compileNested (c : Compiler) (files : SiteTree) (nesting : Nat)
    (html : Text) (page : Option Text) :
    Moves files (fun s t => t.context = s.context) (c.compileNested nesting html page) := by
  intro s
  cases nesting with
  | zero => rfl
  | succ nesting => exact context_exec_within files s _ _

section Levels

variable (hreenter : ∀ html page, Moves files (fun s t => t.context = s.context)
  (reenter html page))
include hreenter

theorem follows_content (enclosing : List Text) (r : Reference) :
    Follows files (Context.inside c.maxDepth page enclosing)
      (c.content reenter (Context.inside c.maxDepth page enclosing) r)
      (c.contentInside reenter page enclosing r) := by
  have hroom := Context.room_inside_eq_zero_iff c.maxDepth page enclosing
  unfold contentInside
  split
  · rename_i hdepth
    rw [content_of_room fun hzero => hroom.mp hzero hdepth]
    refine follows_within ((Provider.moves_resolve stepwise_context hreenter _
      (keepsOnly_of_all (fun _ => trivial) _ _)).bind stepwise_context fun source => ?_)
    exact source.moves_render stepwise_context hreenter r.props
  · rename_i hdepth
    rw [content, Context.checkDepth, if_pos (hroom.mpr hdepth)]
    exact Follows.throw _

variable {inner : Inner} {toldInner : List Text → Text → Engine Text}

theorem follows_expand (hinner : ∀ enclosing html,
      Follows files (Context.inside c.maxDepth page enclosing)
        (inner (Context.inside c.maxDepth page enclosing) html) (toldInner enclosing html))
    (enclosing : List Text) (r : Reference) :
    Follows files (Context.inside c.maxDepth page enclosing)
      (c.expand reenter inner (Context.inside c.maxDepth page enclosing) r)
      (c.expandInside reenter page toldInner enclosing r) := by
  refine (follows_content hreenter enclosing r).attempt.bind fun outcome => ?_
  cases outcome with
  | ok content =>
      simp only [Context.child_inside]
      exact (hinner (enclosing ++ [r.identifier]) _).within
  | error fault =>
      cases hmarker : markerFor? r fault with
      | some marker =>
          simp only [hmarker]
          exact (Follows.record _ _ _).bind fun _ => Follows.pure marker
      | none =>
          simp only [hmarker]
          exact Follows.throw fault

theorem follows_expandAll (hinner : ∀ enclosing html,
      Follows files (Context.inside c.maxDepth page enclosing)
        (inner (Context.inside c.maxDepth page enclosing) html) (toldInner enclosing html))
    (enclosing : List Text) (html : Text) :
    Follows files (Context.inside c.maxDepth page enclosing)
      (c.expandAll reenter inner (Context.inside c.maxDepth page enclosing) html)
      (c.expandAllInside reenter page toldInner enclosing html) := by
  have hexpand := follows_expand hreenter hinner enclosing
  have htag : ∀ tag, Follows files (Context.inside c.maxDepth page enclosing)
      (c.expandTag reenter inner (Context.inside c.maxDepth page enclosing) tag)
      (c.expandTagInside reenter page toldInner enclosing tag) := by
    intro tag
    unfold expandTag expandTagInside
    cases selfClosingReference? tag with
    | some r => exact hexpand r
    | none => exact (Follows.record _ _ _).bind fun _ => Follows.pure tag.source
  exact (Follows.splice hexpand 0 html _).bind fun flat => Follows.splice htag 0 flat _

theorem follows_compileWithin (room : Nat) (enclosing : List Text) (html : Text) :
    Follows files (Context.inside c.maxDepth page enclosing)
      (c.compileWithin reenter room (Context.inside c.maxDepth page enclosing) html)
      (c.compileInside reenter page room enclosing html) := by
  induction room generalizing enclosing html with
  | zero => exact follows_expandAll hreenter (fun _ html => Follows.pure html) enclosing html
  | succ room ih => exact follows_expandAll hreenter ih enclosing html

end Levels

theorem exec_compileNested (c : Compiler) (files : SiteTree) (nesting : Nat) (html : Text)
    (page : Option Text) (s : Session) :
    (c.compileNested nesting html page).exec files s =
      (c.compileTold nesting html page).exec files s := by
  cases nesting with
  | zero => rfl
  | succ nesting =>
      have hreenter := c.moves_context_compileNested files nesting
      have htop : Context.top c.maxDepth page = Context.inside c.maxDepth page [] := rfl
      have hroom : (Context.inside c.maxDepth page []).room = c.maxDepth.toNat := by
        simp [Context.inside, Context.room]
      have hfollows : Follows files (Context.inside c.maxDepth page []) _ _ :=
        follows_compileWithin hreenter c.maxDepth.toNat [] html
      obtain ⟨hcontext, hrun⟩ := hfollows s
      rw [compileNested, compileIn, htop, hroom, exec_within, hrun, compileTold, ← hcontext]

end Compiler

/-! ## What a compile notes -/

/-- The context of a look-up made for a compile of `page`. -/
def IsInside (maxDepth : Int) (page : Option Text) (context : Option Context) : Prop :=
  ∃ enclosing : List Text, (enclosing.length : Int) < maxDepth ∧
    context = some (Context.inside maxDepth page enclosing)

/-- Entries of which each was made in a context that `own` allows, those of compiles nested in
between aside, which were made in contexts of their own pages. -/
inductive Journal (maxDepth : Int) : (Option Context → Prop) → List Entry → Prop
  | nil {own : Option Context → Prop} : Journal maxDepth own []
  | own {own : Option Context → Prop} {context : Option Context} (h : own context) (event : Event)
      {rest : List Entry} (hrest : Journal maxDepth own rest) :
      Journal maxDepth own ((context, event) :: rest)
  | nested {own : Option Context → Prop} (page : Option Text) {inside rest : List Entry}
      (hinside : Journal maxDepth (IsInside maxDepth page) inside)
      (hrest : Journal maxDepth own rest) : Journal maxDepth own (inside ++ rest)

namespace Journal

variable {maxDepth : Int} {own more : Option Context → Prop} {added rest : List Entry}

theorem append (h : Journal maxDepth own added) (hrest : Journal maxDepth own rest) :
    Journal maxDepth own (added ++ rest) := by
  induction h with
  | nil => exact hrest
  | own h event _ ih => exact .own h event (ih hrest)
  | nested page hinside _ _ ih =>
      rw [List.append_assoc]
      exact .nested page hinside (ih hrest)

theorem mono (h : Journal maxDepth own added) (hmore : ∀ context, own context → more context) :
    Journal maxDepth more added := by
  induction h generalizing more with
  | nil => exact .nil
  | own h event _ ih => exact .own (hmore _ h) event (ih hmore)
  | nested page hinside _ _ ih => exact .nested page hinside (ih hmore)

end Journal

/-- Between two sessions the context is the same and entries were added, in that context or by
nested compiles. -/
def NotesIn (maxDepth : Int) (s t : Session) : Prop :=
  t.context = s.context ∧ ∃ added, t.trace = s.trace ++ added ∧
    Journal maxDepth (· = s.context) added

theorem stepwise_notesIn (maxDepth : Int) : Stepwise (fun _ => True) (NotesIn maxDepth) where
  refl := fun s => ⟨rfl, [], by simp, .nil⟩
  trans := by
    rintro s t u ⟨hst, added, htrace, hadded⟩ ⟨htu, more, hmore, hlast⟩
    refine ⟨htu.trans hst, added ++ more, ?_, ?_⟩
    · rw [hmore, htrace, List.append_assoc]
    · rw [hst] at hlast
      exact hadded.append hlast
  record := fun s _ => ⟨rfl, [], by simp, .nil⟩
  note := by
    intro s event
    refine ⟨rfl, [(s.context, event)], rfl, ?_⟩
    refine .own ?_ event .nil
    rfl
  counters := fun s _ => ⟨rfl, [], by simp, .nil⟩
  keep := fun s _ _ => ⟨rfl, [], by simp, .nil⟩

namespace Compiler

variable {c : Compiler} {reenter : Reentry} {page : Option Text} {files : SiteTree}

/-- What an action adds to the trace is the journal of a compile of `page`. -/
def Journals (files : SiteTree) (maxDepth : Int) (page : Option Text) {α : Type}
    (act : Engine α) : Prop :=
  Ends files act fun _ added => Journal maxDepth (IsInside maxDepth page) added

namespace Journals

variable {α β : Type} {maxDepth : Int} {act : Engine α}

theorem pure (a : α) : Journals files maxDepth page (Pure.pure a) := ends_pure .nil

theorem bind {next : α → Engine β} (h : Journals files maxDepth page act)
    (hnext : ∀ a, Journals files maxDepth page (next a)) :
    Journals files maxDepth page (act >>= next) :=
  Ends.bind h (fun a _ hadded => (hnext a).mono fun _ _ hmore => hadded.append hmore)
    fun _ _ hadded => hadded

theorem splice {start stop : α → Nat} {expand : α → Engine Text}
    (h : ∀ a, Journals files maxDepth page (expand a)) (position : Nat) (rest : Text)
    (as : List α) :
    Journals files maxDepth page (StaticSite.splice start stop expand position rest as) := by
  induction as generalizing position rest with
  | nil => exact pure rest
  | cons a as ih =>
      rw [StaticSite.splice]
      exact (h a).bind fun expansion => (ih _ _).bind fun tail => pure _

end Journals

section Levels

variable (hreenter : ∀ html page, Moves files (NotesIn c.maxDepth) (reenter html page))
include hreenter

theorem journals_contentInside (enclosing : List Text) (r : Reference) :
    Journals files c.maxDepth page (c.contentInside reenter page enclosing r) := by
  have hR := stepwise_notesIn c.maxDepth
  unfold contentInside
  split
  · rename_i hdepth
    intro s
    have hmoves : Moves files (NotesIn c.maxDepth)
        (do (← c.provider.resolve reenter r.identifier).render reenter r.props) :=
      (Provider.moves_resolve hR hreenter _ (keepsOnly_of_all (fun _ => trivial) _ _)).bind hR
        fun source =>
        source.moves_render hR hreenter r.props
    obtain ⟨-, added, htrace, hadded⟩ :=
      hmoves { s with context := some (Context.inside c.maxDepth page enclosing) }
    refine ⟨added, htrace, hadded.mono ?_⟩
    rintro _ rfl
    exact ⟨enclosing, hdepth, rfl⟩
  · exact ends_throw .nil

variable {inner : List Text → Text → Engine Text}
  (hinner : ∀ enclosing html, Journals files c.maxDepth page (inner enclosing html))
include hinner

theorem journals_expandInside (enclosing : List Text) (r : Reference) :
    Journals files c.maxDepth page (c.expandInside reenter page inner enclosing r) := by
  have hattempt : Journals files c.maxDepth page
      (Engine.attempt (c.contentInside reenter page enclosing r)) :=
    (journals_contentInside hreenter enclosing r).attempt.mono fun _ _ ⟨_, _, h⟩ => h
  refine hattempt.bind fun outcome => ?_
  cases outcome with
  | ok content => exact hinner _ _
  | error fault =>
      cases hmarker : markerFor? r fault with
      | some marker =>
          simp only [hmarker]
          refine Ends.after_record ?_ _ _ _
          exact Journals.pure marker
      | none =>
          simp only [hmarker]
          exact ends_throw .nil

theorem journals_expandAllInside (enclosing : List Text) (html : Text) :
    Journals files c.maxDepth page (c.expandAllInside reenter page inner enclosing html) := by
  have hexpand := journals_expandInside hreenter hinner enclosing
  have htag : ∀ tag, Journals files c.maxDepth page
      (c.expandTagInside reenter page inner enclosing tag) := by
    intro tag
    unfold expandTagInside
    cases selfClosingReference? tag with
    | some r => exact hexpand r
    | none =>
        refine Ends.after_record ?_ _ _ _
        exact Journals.pure tag.source
  exact (Journals.splice hexpand 0 html _).bind fun flat => Journals.splice htag 0 flat _

omit hinner in
theorem journals_compileInside (room : Nat) (enclosing : List Text) (html : Text) :
    Journals files c.maxDepth page (c.compileInside reenter page room enclosing html) := by
  induction room generalizing enclosing html with
  | zero =>
      exact journals_expandAllInside hreenter (fun _ html => Journals.pure html) enclosing html
  | succ room ih => exact journals_expandAllInside hreenter ih enclosing html

end Levels

/-- What a compile adds to the trace is its journal, nested compiles included. -/
theorem journals_compileNested (c : Compiler) (files : SiteTree) (nesting : Nat) (html : Text)
    (page : Option Text) : Journals files c.maxDepth page (c.compileNested nesting html page) := by
  induction nesting generalizing html page with
  | zero => exact ends_throw .nil
  | succ nesting ih =>
      have hreenter : ∀ html page,
          Moves files (NotesIn c.maxDepth) (c.compileNested nesting html page) := by
        intro html page s
        obtain ⟨added, htrace, hadded⟩ := ih html page s
        refine ⟨c.moves_context_compileNested files nesting html page s, added, htrace, ?_⟩
        rw [← List.append_nil added]
        exact .nested page hadded .nil
      intro s
      rw [c.exec_compileNested files (nesting + 1) html page s]
      exact journals_compileInside hreenter c.maxDepth.toNat [] html s

end Compiler

/-! ## Site code -/

/-- The script with each request for the context answered by the one that is given. -/
def Script.told {α : Type} (context : Option Context) : Script α → Script α
  | done a => done a
  | fail fault => fail fault
  | .context next => (next context).told context
  | compile html page next => compile html page fun out => (next out).told context
  | newCounter next => newCounter fun n => (next n).told context
  | count counter next => count counter fun n => (next n).told context

/-- Site code sees the context in which it was called, also after compiles of its own. -/
theorem Engine.exec_run_told {α : Type} {files : SiteTree} {reenter : Reentry}
    (hreenter : ∀ html page, Moves files (fun s t => t.context = s.context) (reenter html page))
    (script : Script α) (s : Session) :
    (run reenter script).exec files s = (run reenter (script.told s.context)).exec files s := by
  induction script generalizing s with
  | done a => rfl
  | fail fault => rfl
  | context next ih =>
      rw [exec_run_context]
      exact ih s.context s
  | compile html page next ih =>
      rw [exec_run_compile, Script.told, exec_run_compile, exec_bind, exec_bind]
      have hcontext := hreenter html page s
      cases hexec : (reenter html page).exec files s with
      | mk result after =>
          rw [hexec] at hcontext
          cases result with
          | error fault => rfl
          | ok out =>
              simp only
              rw [ih out after, hcontext]
  | newCounter next ih =>
      rw [exec_run_newCounter, Script.told, exec_run_newCounter]
      exact ih _ _
  | count counter next ih =>
      rw [exec_run_count, Script.told, exec_run_count]
      exact ih _ _

/-- A compile, nested in producers or not, keeps to the contexts of its references: each look-up
is made in the context of the references around it, which has the compile's page and limit and
room for one more level; site code sees that context and no other; and in the end, also a bad one,
the context is what it was. -/
theorem Compiler.compileNested_keeps_context (c : Compiler) (files : SiteTree) (nesting : Nat)
    (html : Text) (page : Option Text) (s : Session) :
    (c.compileNested nesting html page).exec files s =
        (c.compileTold nesting html page).exec files s ∧
      (∃ added, ((c.compileNested nesting html page).exec files s).2.trace = s.trace ++ added ∧
        Journal c.maxDepth (IsInside c.maxDepth page) added) ∧
      ((c.compileNested nesting html page).exec files s).2.context = s.context ∧
      ∀ (α : Type) (script : Script α),
        (run (c.compileNested nesting) script).exec files s =
          (run (c.compileNested nesting) (script.told s.context)).exec files s := by
  refine ⟨c.exec_compileNested files nesting html page s,
    c.journals_compileNested files nesting html page s,
    c.moves_context_compileNested files nesting html page s, ?_⟩
  intro α script
  exact exec_run_told (c.moves_context_compileNested files nesting) script s

end StaticSite
