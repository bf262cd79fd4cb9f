import StaticSite.Proofs.Component.Closed

/-!
# What actions do to the session

`Moves files R act` relates the session before an action to the session after it, however the
action ends. A relation that holds along single steps holds along every look-up, whatever the
site's code does.
-/

namespace StaticSite

open Markup

namespace Engine

variable {α β : Type} {files : SiteTree} {kind : Bytecode} {R : Session → Session → Prop}
  {act : Engine α}

/-- Relations that follow a session through records, events, counters and bytecode of a kind. -/
structure Stepwise (kind : Bytecode) (R : Session → Session → Prop) : Prop where
  refl : ∀ s, R s s
  trans : ∀ {s t u}, R s t → R t u → R s u
  record : ∀ s entry, R s { s with log := s.log ++ [entry] }
  note : ∀ s event, R s { s with trace := s.trace ++ [(s.context, event)] }
  counters : ∀ s counters, R s { s with counters }
  keep : ∀ s kept, (∀ k ∈ kept, kind k) → R s { s with bytecode := s.bytecode ++ kept }

def Moves (files : SiteTree) (R : Session → Session → Prop) (act : Engine α) : Prop :=
  ∀ s, R s (act.exec files s).2

namespace Moves

theorem record (hR : Stepwise kind R) (level : Level) (logger : Logger) (message : Text) :
    Moves files R (Engine.record level logger message) := by
  intro s
  rw [exec_record]
  exact hR.record s _

theorem note (hR : Stepwise kind R) (event : Event) : Moves files R (Engine.note event) := by
  intro s
  rw [exec_note]
  exact hR.note s event

theorem of_peeks (hR : Stepwise kind R) {blame : Fault → Prop} (h : Peeks files blame act) :
    Moves files R act := by
  obtain ⟨result, hlooks, -⟩ := h
  intro s
  rw [hlooks s]
  exact hR.refl s

theorem bind_of (hR : Stepwise kind R) {next : α → Engine β} (h : Moves files R act)
    (hnext : ∀ a s, (act.exec files s).1 = .ok a → Moves files R (next a)) :
    Moves files R (act >>= next) := by
  intro s
  have hact := h s
  rw [exec_bind]
  cases hexec : act.exec files s with
  | mk result after =>
      rw [hexec] at hact
      cases result with
      | ok a => exact hR.trans hact (hnext a s (by rw [hexec]) after)
      | error fault => exact hact

theorem bind (hR : Stepwise kind R) {next : α → Engine β} (h : Moves files R act)
    (hnext : ∀ a, Moves files R (next a)) : Moves files R (act >>= next) :=
  bind_of hR h fun a _ _ => hnext a

theorem keep (hR : Stepwise kind R) {kept : List (Path × List UInt8)} (h : ∀ k ∈ kept, kind k) :
    Moves files R (Engine.keep kept) := by
  intro s
  rw [exec_keep]
  exact hR.keep s kept h

theorem attempt (h : Moves files R act) : Moves files R (Engine.attempt act) := by
  intro s
  have hact := h s
  rw [exec_attempt]
  cases hexec : act.exec files s with
  | mk result after =>
      rw [hexec] at hact
      cases result with
      | ok a => exact hact
      | error fault =>
          simp only
          split <;> exact hact

end Moves

theorem closed_moves (hR : Stepwise kind R) : Closed files kind (Moves files R) where
  peeks := Moves.of_peeks hR
  record := Moves.record hR
  note := Moves.note hR
  keep := fun _ => Moves.keep hR
  currentContext := fun s => hR.refl s
  tally := fun _ s => hR.counters s _
  bind_of := Moves.bind_of hR
  attempt := Moves.attempt

end Engine

open Engine

variable {files : SiteTree} {kind : Bytecode} {R : Session → Session → Prop} {reenter : Reentry}

theorem Source.moves_render (hR : Stepwise kind R)
    (hreenter : ∀ html page, Moves files R (reenter html page)) (source : Source) (props : Props) :
    Moves files R (source.render reenter props) :=
  (closed_moves hR).render hreenter source props

theorem Provider.moves_resolve (hR : Stepwise kind R)
    (hreenter : ∀ html page, Moves files R (reenter html page)) (identifier : Text)
    {p : Provider} (hkept : KeepsOnly kind p.leaves files) :
    Moves files R (p.resolve reenter identifier) :=
  (closed_moves hR).resolve hreenter identifier p hkept

end StaticSite
