import StaticSite.Proofs.Component.Leak

/-!
# Properties that look-ups keep

A look-up is put together from a few kinds of steps. A property of actions that holds of each kind
of step, and of actions that are put together from such as have it, holds of every look-up, whatever
the site's code does.
-/

namespace StaticSite

open Markup

namespace Engine

/-- Makes a step with the counters: the result and the counters after it. -/
def tally (step : List Nat → Nat × List Nat) : Engine Nat := fun _ s =>
  (.ok (step s.counters).1, { s with counters := (step s.counters).2 })

section Run

variable {α : Type} (reenter : Reentry)

theorem run_newCounter (next : Nat → Script α) :
    run reenter (.newCounter next) =
      tally (fun counters => (counters.length, counters ++ [0])) >>= fun n =>
        run reenter (next n) := rfl

theorem run_count (counter : Nat) (next : Nat → Script α) :
    run reenter (.count counter next) =
      tally (fun counters => (counters.getD counter 0 + 1,
          counters.set counter (counters.getD counter 0 + 1))) >>= fun n =>
        run reenter (next n) := rfl

end Run

/-- A kind of bytecode files. -/
abbrev Bytecode := Path × List UInt8 → Prop

/-- Properties of actions that are kept where look-ups put actions together, if these leave no
bytecode but of one kind. -/
structure Closed (files : SiteTree) (kind : Bytecode) (P : ∀ {α : Type}, Engine α → Prop) :
    Prop where
  peeks : ∀ {α : Type} {act : Engine α} {blame : Fault → Prop}, Peeks files blame act → P act
  record : ∀ level logger message, P (Engine.record level logger message)
  note : ∀ event, P (Engine.note event)
  keep : ∀ kept, (∀ k ∈ kept, kind k) → P (Engine.keep kept)
  currentContext : P Engine.currentContext
  tally : ∀ step, P (Engine.tally step)
  bind_of : ∀ {α β : Type} {act : Engine α} {next : α → Engine β}, P act →
    (∀ a s, (act.exec files s).1 = .ok a → P (next a)) → P (act >>= next)
  attempt : ∀ {α : Type} {act : Engine α}, P act → P (Engine.attempt act)

namespace Closed

variable {files : SiteTree} {kind : Bytecode} {P : ∀ {α : Type}, Engine α → Prop}
  (hP : Closed files kind P)
include hP

theorem bind {α β : Type} {act : Engine α} {next : α → Engine β} (h : P act)
    (hnext : ∀ a, P (next a)) : P (act >>= next) :=
  hP.bind_of h fun a _ _ => hnext a

theorem pure {α : Type} (a : α) : P (Pure.pure a : Engine α) := by
  have h : Peeks files (fun _ => True) (Pure.pure a) := .pure a
  exact hP.peeks h

theorem throw {α : Type} (fault : Fault) : P (MonadExcept.throw fault : Engine α) := by
  have h : Peeks files (fun _ => True) (MonadExcept.throw fault : Engine α) := .throw trivial
  exact hP.peeks h

theorem ofExcept {α : Type} (result : Except Fault α) : P (Engine.ofExcept result) := by
  cases result with
  | ok a => exact hP.pure a
  | error fault => exact hP.throw fault

end Closed

end Engine

open Engine

/-- The bytecode that is left of the modules that folders load is of a kind. -/
def KeepsOnly (kind : Bytecode) (leaves : List Folders) (files : SiteTree) : Prop :=
  ∀ f ∈ leaves, ∀ base ∈ f.paths, ∀ identifier module kept,
    Loading.loaded files f.runtime (f.producerPath base identifier) = .ready module kept →
    ∀ k ∈ kept, kind k

theorem keepsOnly_of_all {kind : Bytecode} (h : ∀ k, kind k) (leaves : List Folders)
    (files : SiteTree) : KeepsOnly kind leaves files :=
  fun _ _ _ _ _ _ _ _ k _ => h k

namespace Engine.Closed

variable {files : SiteTree} {kind : Bytecode} {P : ∀ {α : Type}, Engine α → Prop}
  {reenter : Reentry}

section Lookups

variable (hP : Closed files kind P)
include hP

theorem readMarkup (f : Folders) (p : Path) : P (f.readMarkup p) := by
  apply hP.bind (hP.peeks (peeks_isFile p))
  intro there
  cases there with
  | false => exact hP.pure none
  | true =>
      have hread : P (readText f.encoding p) := hP.peeks (peeks_readText f.encoding p)
      apply hP.bind (hP.attempt hread)
      intro outcome
      cases outcome with
      | ok markup => exact hP.pure _
      | error fault =>
          simp only
          split
          · exact hP.bind (hP.record _ _ _) fun _ => hP.pure none
          · exact hP.throw fault

theorem resolveTable (entries : Table Value) (identifier : Text) :
    P (Provider.resolveTable entries identifier) := by
  unfold Provider.resolveTable
  split
  · exact hP.throw _
  · exact hP.pure _
  · exact hP.pure _

section Code

variable (hreenter : ∀ html page, P (reenter html page))
include hreenter

theorem run {α : Type} (script : Script α) : P (Engine.run reenter script) := by
  induction script with
  | done a => exact hP.pure a
  | fail fault => exact hP.throw fault
  | context next ih => exact hP.bind hP.currentContext ih
  | compile html page next ih => exact hP.bind (hreenter html page) ih
  | newCounter next ih =>
      rw [run_newCounter]
      exact hP.bind (hP.tally _) ih
  | count counter next ih =>
      rw [run_count]
      exact hP.bind (hP.tally _) ih

theorem render (source : Source) (props : Props) : P (source.render reenter props) := by
  unfold Source.render
  split
  · exact hP.pure _
  · apply hP.bind (hP.note _)
    intro _
    apply hP.bind (hP.attempt (hP.run hreenter _))
    intro outcome
    cases outcome with
    | ok value =>
        simp only
        split
        · exact hP.pure _
        · exact hP.ofExcept _
    | error cause => exact hP.throw _
  · exact hP.ofExcept _

theorem firstExport (module : Module) (exports : Table Value) (names : List Text) :
    P (Folders.firstExport reenter module exports names) := by
  induction names with
  | nil => exact hP.pure _
  | cons name names ih =>
      unfold Folders.firstExport
      cases exports.get? name with
      | some value => exact hP.pure value
      | none =>
          have hrun : P (Engine.run reenter (module.missing name)) := hP.run hreenter _
          apply hP.bind (hP.attempt hrun)
          intro outcome
          cases outcome with
          | ok value => exact hrun
          | error fault =>
              simp only
              split
              · exact ih
              · exact hP.throw fault

theorem execute (identifier : Text) (path : Path) (module : Module) :
    P (Folders.execute reenter identifier path module) := by
  apply hP.bind (hP.note _)
  intro _
  apply hP.bind (hP.attempt (hP.run hreenter _))
  intro outcome
  cases outcome with
  | ok exports => exact hP.firstExport hreenter _ _ _
  | error cause => exact hP.throw _

section Folders

variable {f : Folders} (hkept : KeepsOnly kind [f] files)
include hkept

theorem loadProducer (identifier : Text) {base : Path} (hbase : base ∈ f.paths) :
    P (f.loadProducer reenter identifier (f.producerPath base identifier)) := by
  have hload : Looks files (Loading.ofFile .direct f.runtime (f.producerPath base identifier)) _ :=
    Loading.looks_ofFile _
  apply hP.bind_of (hP.peeks (peeks_of_looks hload))
  intro loading s hloaded
  rw [hload s] at hloaded
  cases loading with
  | unknown => exact hP.pure _
  | unlinked fault => exact hP.throw fault
  | broken cause => exact hP.throw _
  | ready module kept =>
      have hkind := hkept f (List.mem_singleton_self f) base hbase identifier module kept
        (Except.ok.inj hloaded)
      exact hP.bind (hP.keep kept hkind) fun _ => hP.execute hreenter identifier _ module

theorem resolveAt (identifier : Text) {base : Path} (hbase : base ∈ f.paths) :
    P (f.resolveAt reenter identifier base) := by
  apply hP.bind (hP.readMarkup f _)
  intro markup
  cases markup with
  | some markup => exact hP.pure _
  | none =>
      apply hP.bind (hP.peeks (peeks_isFile _))
      intro there
      cases there with
      | false => exact hP.pure none
      | true =>
          exact hP.bind (hP.loadProducer hreenter hkept identifier hbase) fun value => hP.pure _

theorem resolveFrom (identifier : Text) (held : Option Fault) {bases : List Path}
    (hbases : ∀ base ∈ bases, base ∈ f.paths) :
    P (f.resolveFrom reenter identifier held bases) := by
  unfold Folders.resolveFrom
  induction bases generalizing held with
  | nil =>
      cases held with
      | some fault => exact hP.throw fault
      | none => exact hP.bind (hP.peeks f.peeks_list) fun _ => hP.throw _
  | cons base bases ih =>
      have hrest : ∀ b ∈ bases, b ∈ f.paths := fun b hb => hbases b (by simp [hb])
      rw [Folders.resolveFromVia]
      apply hP.bind (hP.attempt (hP.resolveAt hreenter hkept identifier (hbases base (by simp))))
      intro outcome
      cases outcome with
      | ok found =>
          cases found with
          | some source => exact hP.pure source
          | none => exact ih held hrest
      | error fault =>
          cases fault with
          | producerFailed => exact ih _ hrest
          | _ => exact hP.throw _

end Folders

theorem resolveFunction (lookUp : Text → Script Value) (identifier : Text) :
    P (Provider.resolveFunction reenter lookUp identifier) := by
  apply hP.bind (hP.note _)
  intro _
  apply hP.bind (hP.attempt (hP.run hreenter _))
  intro outcome
  cases outcome with
  | error cause => exact hP.throw _
  | ok value =>
      simp only
      split
      · exact hP.throw _
      · exact hP.pure _

end Code

end Lookups

mutual

theorem resolve (hP : Closed files kind P) (hreenter : ∀ html page, P (reenter html page))
    (identifier : Text) : (p : Provider) → KeepsOnly kind p.leaves files →
    P (p.resolve reenter identifier)
  | .table entries, _ => by
      rw [Provider.resolve]
      exact hP.bind (hP.note _) fun _ => hP.resolveTable entries identifier
  | .function lookUp, _ => by
      rw [Provider.resolve]
      exact hP.bind (hP.note _) fun _ => hP.resolveFunction hreenter lookUp identifier
  | .folders f, hkept => by
      rw [Provider.resolve]
      exact hP.bind (hP.note _) fun _ =>
        hP.resolveFrom hreenter hkept identifier none fun _ h => h
  | .choice ps, hkept => by
      rw [Provider.resolve]
      apply hP.bind (resolveFirst hP hreenter identifier ps hkept none)
      intro found
      cases found with
      | some source => exact hP.pure source
      | none => exact hP.bind (hP.peeks (Provider.peeks_listAll ps)) fun _ => hP.throw _

theorem resolveFirst (hP : Closed files kind P) (hreenter : ∀ html page, P (reenter html page))
    (identifier : Text) : (ps : List Provider) → KeepsOnly kind (Provider.allLeaves ps) files →
    (held : Option Fault) → P (Provider.resolveFirst reenter identifier held ps)
  | [], _, some fault => by
      rw [Provider.resolveFirst]
      exact hP.throw fault
  | [], _, none => by
      rw [Provider.resolveFirst]
      exact hP.pure none
  | p :: ps, hkept, held => by
      have hfirst : KeepsOnly kind p.leaves files :=
        fun f hf => hkept f (List.mem_append_left _ hf)
      have hlater : KeepsOnly kind (Provider.allLeaves ps) files :=
        fun f hf => hkept f (List.mem_append_right _ hf)
      rw [Provider.resolveFirst]
      apply hP.bind (hP.attempt (resolve hP hreenter identifier p hfirst))
      intro outcome
      cases outcome with
      | ok source => exact hP.pure (some source)
      | error fault =>
          cases fault with
          | producerFailed => exact resolveFirst hP hreenter identifier ps hlater _
          | componentNotFound => exact resolveFirst hP hreenter identifier ps hlater held
          | _ => exact hP.throw _

end

end Engine.Closed

end StaticSite
