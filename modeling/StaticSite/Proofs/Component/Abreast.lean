import StaticSite.Proofs.Component.Composition

/-!
# Two look-ups side by side

Two actions run abreast when they end alike from any two sessions in which the same was done, and
again leave such sessions. Each may run over files of its own. What counts as alike is a parameter:
a likeness says which identifiers stand for each other, and how far the places may differ that are
named in sources and faults, and a relation how far the bytecode may differ that is left.
-/

namespace StaticSite

open Engine

/-- Two results that are related, or two faults that are. -/
inductive Outcomes {α β : Type} (faults : Fault → Fault → Prop) (values : α → β → Prop) :
    Except Fault α → Except Fault β → Prop
  | ok {a : α} {b : β} (h : values a b) : Outcomes faults values (.ok a) (.ok b)
  | error {fault other : Fault} (h : faults fault other) :
      Outcomes faults values (.error fault) (.error other)

theorem Outcomes.mono {α β : Type} {faults more : Fault → Fault → Prop}
    {values wider : α → β → Prop} {result : Except Fault α} {other : Except Fault β}
    (h : Outcomes faults values result other) (hfaults : ∀ a b, faults a b → more a b)
    (hvalues : ∀ a b, values a b → wider a b) : Outcomes more wider result other := by
  cases h with
  | ok h => exact .ok (hvalues _ _ h)
  | error h => exact .error (hfaults _ _ h)

theorem Outcomes.ok_or_error {α β : Type} {faults : Fault → Fault → Prop} {values : α → β → Prop}
    {result : Except Fault α} {other : Except Fault β} (h : Outcomes faults values result other) :
    (∃ a b, result = .ok a ∧ other = .ok b ∧ values a b) ∨
      ∃ fault fault', result = .error fault ∧ other = .error fault' ∧ faults fault fault' := by
  cases h with
  | ok h => exact .inl ⟨_, _, rfl, rfl, h⟩
  | error h => exact .inr ⟨_, _, rfl, rfl, h⟩

/-! ## Likeness -/

/-- Two identifiers that are looked up, and what may stand for what where their look-ups end. -/
structure Likeness where
  first : Text
  second : Text
  places : Option Text → Option Text → Prop
  listings : List Text → List Text → Prop

inductive Fault.Like (k : Likeness) : Fault → Fault → Prop
  | same (fault : Fault) : Fault.Like k fault fault
  | missing (searched : List Text) {available others : List Text}
      (h : k.listings available others) :
      Fault.Like k (.componentNotFound k.first searched available)
        (.componentNotFound k.second searched others)
  | failed {location other : Option Text} (h : k.places location other) (cause : Fault) :
      Fault.Like k (.producerFailed k.first location cause)
        (.producerFailed k.second other cause)

/-- Sources with the same content. One that a site's own code has made is the same altogether. -/
inductive Source.Like (k : Likeness) : Source → Source → Prop
  | same (source : Source) : Source.Like k source source
  | named (markup : Option Text) (producer : Value) {origin other : Option Text}
      (h : k.places origin other) :
      Source.Like k ⟨k.first, markup, producer, origin⟩ ⟨k.second, markup, producer, other⟩

theorem Fault.Like.kind {k : Likeness} {fault other : Fault} (h : fault.Like k other) :
    fault.kind = other.kind ∧ fault.stops = other.stops := by
  cases h <;> exact ⟨rfl, rfl⟩

/-- Of two look-ups that hold their first failures, the failures held stay alike. -/
theorem Fault.Like.held_or {k : Likeness} {held others : Option Fault} {fault other : Fault}
    (hheld : Option.Rel (Fault.Like k) held others) (h : fault.Like k other) :
    Option.Rel (Fault.Like k) (held.or (some fault)) (others.or (some other)) := by
  cases hheld with
  | some hfirst => exact .some hfirst
  | none => exact .some h

theorem Fault.Like.inProducer {k : Likeness} {location other : Option Text}
    (h : k.places location other) (cause : Fault) :
    (cause.inProducer k.first location).Like k (cause.inProducer k.second other) := by
  cases cause with
  | unworded kind fault => exact .same fault
  | _ => exact .failed h _

/-! ## Sessions in which the same was done -/

namespace Session.SameWork

variable {s t : Session} {alike : KeptFiles → KeptFiles → Prop}

theorem note (h : s.SameWork t alike) (event : Event) :
    { s with trace := s.trace ++ [(s.context, event)] }.SameWork
      { t with trace := t.trace ++ [(t.context, event)] } alike := by
  refine ⟨h.context, h.log, h.counters, ?_, h.bytecode⟩
  have hwork : s.trace.filter _ = t.trace.filter _ := h.work
  simp only [Session.work, List.filter_append, hwork, h.context]

theorem note_asked (h : s.SameWork t alike) (i j : Text) :
    { s with trace := s.trace ++ [(s.context, Event.asked i)] }.SameWork
      { t with trace := t.trace ++ [(t.context, Event.asked j)] } alike := by
  refine ⟨h.context, h.log, h.counters, ?_, h.bytecode⟩
  have hwork : s.trace.filter _ = t.trace.filter _ := h.work
  simp only [Session.work, List.filter_append, hwork]
  rfl

/-- A blind action does not see which providers were asked. -/
theorem exec_blind {α : Type} {files : SiteTree} {act : Engine α} (h : Blind files act)
    (hst : s.SameWork t Eq) :
    (act.exec files s).1 = (act.exec files t).1 ∧
      (act.exec files s).2.SameWork (act.exec files t).2 Eq := by
  let fresh : Session := { s with trace := [] }
  have hs : fresh.after s.trace = s := by simp [fresh, after]
  have ht : fresh.after t.trace = t := by
    simp [fresh, after, hst.context, hst.log, hst.counters, hst.bytecode]
  have hwork : s.trace.filter _ = t.trace.filter _ := hst.work
  rw [← hs, ← ht, h fresh, h fresh]
  refine ⟨rfl, rfl, rfl, rfl, ?_, rfl⟩
  simp only [Session.work, after, List.filter_append, hwork]

end Session.SameWork

/-! ## Actions abreast -/

namespace Engine

variable {α β γ δ : Type} {files others : SiteTree} {alike : KeptFiles → KeptFiles → Prop}
  {faults : Fault → Fault → Prop} {values : α → β → Prop}

def Abreast (files others : SiteTree) (alike : KeptFiles → KeptFiles → Prop)
    (faults : Fault → Fault → Prop) (values : α → β → Prop) (act : Engine α) (other : Engine β) :
    Prop :=
  ∀ s t, s.SameWork t alike →
    Outcomes faults values (act.exec files s).1 (other.exec others t).1 ∧
      (act.exec files s).2.SameWork (other.exec others t).2 alike

namespace Abreast

theorem pure {a : α} {b : β} (h : values a b) :
    Abreast files others alike faults values (Pure.pure a) (Pure.pure b) :=
  fun _ _ hst => ⟨.ok h, hst⟩

theorem throw {fault other : Fault} (h : faults fault other) :
    Abreast files others alike faults values (throw fault) (throw other) :=
  fun _ _ hst => ⟨.error h, hst⟩

theorem note (event : Event) :
    Abreast files others alike faults Eq (note event) (note event) :=
  fun _ _ hst => ⟨.ok rfl, hst.note event⟩

theorem note_asked (i j : Text) :
    Abreast files others alike faults Eq (Engine.note (.asked i)) (Engine.note (.asked j)) :=
  fun _ _ hst => ⟨.ok rfl, hst.note_asked i j⟩

variable {act : Engine α} {other : Engine β}

theorem of_looks {result : Except Fault α} {result' : Except Fault β}
    (hact : Looks files act result) (hother : Looks others other result')
    (h : Outcomes faults values result result') :
    Abreast files others alike faults values act other := by
  intro s t hst
  rw [hact s, hother t]
  exact ⟨h, hst⟩

theorem of_blind (h : Blind files act) : Abreast files files Eq Eq Eq act act := by
  intro s t hst
  obtain ⟨hresult, hsession⟩ := hst.exec_blind h
  refine ⟨?_, hsession⟩
  rw [← hresult]
  cases (act.exec files s).1 with
  | ok a => exact .ok rfl
  | error fault => exact .error rfl

theorem mono {more : Fault → Fault → Prop} {wider : α → β → Prop}
    (h : Abreast files others alike faults values act other)
    (hfaults : ∀ a b, faults a b → more a b) (hvalues : ∀ a b, values a b → wider a b) :
    Abreast files others alike more wider act other := by
  intro s t hst
  obtain ⟨houtcomes, hsession⟩ := h s t hst
  exact ⟨houtcomes.mono hfaults hvalues, hsession⟩

theorem bind {after : γ → δ → Prop} {next : α → Engine γ} {rest : β → Engine δ}
    (h : Abreast files others alike faults values act other)
    (hnext : ∀ a b, values a b → Abreast files others alike faults after (next a) (rest b)) :
    Abreast files others alike faults after (act >>= next) (other >>= rest) := by
  intro s t hst
  obtain ⟨houtcomes, hsession⟩ := h s t hst
  rw [exec_bind, exec_bind]
  cases hact : act.exec files s with
  | mk result s' =>
      cases hother : other.exec others t with
      | mk result' t' =>
          rw [hact, hother] at houtcomes hsession
          cases houtcomes with
          | ok hab => exact hnext _ _ hab s' t' hsession
          | error hfault => exact ⟨.error hfault, hsession⟩

/-- After an attempt the faults are values, unless they stop the whole program. -/
theorem attempt (hstops : ∀ a b, faults a b → a.stops = b.stops)
    (h : Abreast files others alike faults values act other) :
    Abreast files others alike faults (Outcomes faults values) (attempt act) (attempt other) := by
  intro s t hst
  obtain ⟨houtcomes, hsession⟩ := h s t hst
  rw [exec_attempt, exec_attempt]
  cases hact : act.exec files s with
  | mk result s' =>
      cases hother : other.exec others t with
      | mk result' t' =>
          rw [hact, hother] at houtcomes hsession
          cases houtcomes with
          | ok hab => exact ⟨.ok (.ok hab), hsession⟩
          | @error fault fault' hfault =>
              simp only [hstops _ _ hfault]
              cases fault'.stops with
              | true => exact ⟨.error hfault, hsession⟩
              | false => exact ⟨.ok (.error hfault), hsession⟩

end Abreast

/-- A site's code goes on abreast with itself when the compiles that it asks for do. -/
theorem abreast_run {reenter reenter' : Reentry} {script : Script α}
    (hreenter : ∀ html page,
      Abreast files others alike Eq Eq (reenter html page) (reenter' html page)) :
    Abreast files others alike Eq Eq (run reenter script) (run reenter' script) := by
  induction script with
  | done a => exact .pure rfl
  | fail fault => exact .throw rfl
  | context next ih =>
      intro s t hst
      rw [exec_run_context, exec_run_context, hst.context]
      exact ih _ s t hst
  | compile html page next ih =>
      refine (hreenter html page).bind ?_
      rintro out _ rfl
      exact ih out
  | newCounter next ih =>
      intro s t hst
      rw [exec_run_newCounter, exec_run_newCounter, hst.counters]
      exact ih _ _ _ ⟨hst.context, hst.log, rfl, hst.work, hst.bytecode⟩
  | count counter next ih =>
      intro s t hst
      rw [exec_run_count, exec_run_count, hst.counters]
      exact ih _ _ _ ⟨hst.context, hst.log, rfl, hst.work, hst.bytecode⟩

theorem abreast_attempt_run {k : Likeness} {reenter reenter' : Reentry}
    (hreenter : ∀ html page,
      Abreast files others alike Eq Eq (reenter html page) (reenter' html page))
    (script : Script α) :
    Abreast files others alike (Fault.Like k) (Outcomes Eq Eq) (attempt (run reenter script))
      (attempt (run reenter' script)) := by
  have hrun : Abreast files others alike Eq Eq (run reenter script) (run reenter' script) :=
    abreast_run hreenter
  have hheld := hrun.attempt fun _ _ h => congrArg Fault.stops h
  exact hheld.mono (fun fault _ heq => heq ▸ .same fault) fun _ _ => id

end Engine

/-! ## Folders -/

/-- What loading two files comes to is the same, and the bytecode left of them makes alike what was
so before. -/
inductive Loading.Like (alike : KeptFiles → KeptFiles → Prop) : Loading → Loading → Prop
  | unknown : Loading.Like alike .unknown .unknown
  | unlinked (fault : Fault) : Loading.Like alike (.unlinked fault) (.unlinked fault)
  | broken (cause : Fault) : Loading.Like alike (.broken cause) (.broken cause)
  | ready (module : Module) {kept others : KeptFiles}
      (h : ∀ a b, alike a b → alike (a ++ kept) (b ++ others)) :
      Loading.Like alike (.ready module kept) (.ready module others)

theorem Loading.like_self (l : Loading) : l.Like Eq l := by
  cases l with
  | unknown => exact .unknown
  | unlinked fault => exact .unlinked fault
  | broken cause => exact .broken cause
  | ready module kept => exact .ready module fun a b h => by rw [h]

namespace Folders

variable {files others : SiteTree} {alike : KeptFiles → KeptFiles → Prop} {k : Likeness}
  {f g : Folders} {reenter reenter' : Reentry}

section Modules

variable (hreenter : ∀ html page,
  Abreast files others alike Eq Eq (reenter html page) (reenter' html page))
include hreenter

theorem abreast_firstExport (module : Module) (exports : Table Value) (names : List Text) :
    Abreast files others alike (Fault.Like k) Eq (firstExport reenter module exports names)
      (firstExport reenter' module exports names) := by
  induction names with
  | nil => exact .pure rfl
  | cons name names ih =>
      unfold firstExport
      cases exports.get? name with
      | some value => exact .pure rfl
      | none =>
          have hrun : Abreast files others alike Eq Eq (run reenter (module.missing name))
              (run reenter' (module.missing name)) := abreast_run hreenter
          refine (abreast_attempt_run (k := k) hreenter _).bind ?_
          intro outcome other houtcomes
          cases houtcomes with
          | ok h => exact hrun.mono (fun fault _ heq => heq ▸ .same fault) fun _ _ => id
          | @error fault _ h =>
              cases h
              simp only
              split
              · exact ih
              · exact .throw (.same fault)

theorem abreast_execute (hname : moduleName k.first = moduleName k.second) (module : Module)
    {p q : Path} (hplaces : k.places (some p.text) (some q.text)) :
    Abreast files others alike (Fault.Like k) Eq (execute reenter k.first p module)
      (execute reenter' k.second q module) := by
  unfold execute
  rw [hname]
  refine (Abreast.note _).bind fun _ _ _ => (abreast_attempt_run (k := k) hreenter _).bind ?_
  intro outcome _ houtcomes
  cases houtcomes with
  | ok h =>
      cases h
      exact abreast_firstExport hreenter module _ _
  | error h =>
      cases h
      exact .throw (.inProducer hplaces _)

/-- Two module files of which loading comes to the same are run abreast under the same name. -/
theorem abreast_loadProducer {p q : Path} (hname : moduleName k.first = moduleName k.second)
    (hload : (Loading.loaded files f.runtime p).Like alike (Loading.loaded others g.runtime q))
    (hplaces : k.places (some p.text) (some q.text)) :
    Abreast files others alike (Fault.Like k) Eq (f.loadProducer reenter k.first p)
      (g.loadProducer reenter' k.second q) := by
  have hlooks : Looks files (Loading.ofFile .direct f.runtime p) _ := Loading.looks_ofFile p
  have hlooks' : Looks others (Loading.ofFile .direct g.runtime q) _ := Loading.looks_ofFile q
  unfold loadProducer loadProducerVia
  refine (Abreast.of_looks hlooks hlooks' (.ok hload)).bind fun loading loading' h => ?_
  cases h with
  | unknown => exact .pure rfl
  | unlinked fault => exact .throw (.same fault)
  | broken cause => exact .throw (.inProducer hplaces cause)
  | @ready module kept kept' h =>
      have hkeep : Abreast files others alike (Fault.Like k) Eq (keep kept) (keep kept') :=
        fun s t hst => ⟨.ok rfl, hst.context, hst.log, hst.counters, hst.work,
          h _ _ hst.bytecode⟩
      exact hkeep.bind fun _ _ _ => abreast_execute hreenter hname module hplaces

end Modules

/-- Searches over the same bases run abreast when the look-ups in each base do. -/
theorem abreast_resolveFrom (hpaths : g.paths = f.paths)
    (hlist : Abreast files others alike (Fault.Like k) k.listings f.list g.list) {bases : List Path}
    (hbases : ∀ base ∈ bases, Abreast files others alike (Fault.Like k) (Option.Rel (Source.Like k))
      (f.resolveAt reenter k.first base) (g.resolveAt reenter' k.second base))
    {held held' : Option Fault} (hheld : Option.Rel (Fault.Like k) held held') :
    Abreast files others alike (Fault.Like k) (Source.Like k)
      (f.resolveFrom reenter k.first held bases) (g.resolveFrom reenter' k.second held' bases) := by
  unfold resolveFrom
  induction bases generalizing held held' with
  | nil =>
      cases hheld with
      | some h => exact .throw h
      | none =>
          refine hlist.bind fun available available' h => .throw ?_
          rw [hpaths]
          exact .missing _ h
  | cons base bases ih =>
      obtain ⟨hbase, hrest⟩ := List.forall_mem_cons.mp hbases
      rw [resolveFromVia, resolveFromVia]
      refine (hbase.attempt fun _ _ h => h.kind.2).bind ?_
      intro outcome outcome' houtcomes
      cases houtcomes with
      | ok h =>
          cases h with
          | some hsource => exact .pure hsource
          | none => exact ih hrest hheld
      | error h =>
          cases h with
          | same =>
              rename_i fault
              cases fault with
              | producerFailed => exact ih hrest (Fault.Like.held_or hheld (.same _))
              | _ => exact .throw (.same _)
          | missing searched h => exact .throw (.missing searched h)
          | failed h cause => exact ih hrest (Fault.Like.held_or hheld (.failed h cause))

end Folders

end StaticSite
