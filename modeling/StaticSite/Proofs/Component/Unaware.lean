import StaticSite.Proofs.Component.Steady

/-!
# Site code that does not look at its context

Two runs are compared of which the second has other contexts than the first. As long as the first
refuses no component for its depth, the second does the same at every step: `Mimics` says so of
two actions, and site code that goes on in the same way in every context mimics itself.
-/

namespace StaticSite

open Markup

/-- The record of a component that was refused because it lies too deep. -/
def LogRecord.IsRefusal (entry : LogRecord) : Prop :=
  ∃ identifier maxDepth stack,
    entry = ⟨.error, .compiler, (Fault.depthExceeded identifier maxDepth stack).message⟩

/-- A message that begins with another letter is not about depth. -/
theorem LogRecord.not_isRefusal {entry : LogRecord} (h : entry.message.head? ≠ some 'M') :
    ¬entry.IsRefusal := by
  rintro ⟨identifier, maxDepth, stack, rfl⟩
  apply h
  rfl

/-- Two sessions that differ in contexts alone: in the current one, and in those with which the
events are noted. -/
structure Session.Alike (s t : Session) : Prop where
  log : t.log = s.log
  counters : t.counters = s.counters
  events : t.trace.map Prod.snd = s.trace.map Prod.snd
  bytecode : t.bytecode = s.bytecode

namespace Session.Alike

variable {s t : Session}

theorem refl (s : Session) : s.Alike s := ⟨rfl, rfl, rfl, rfl⟩

theorem in_contexts (h : s.Alike t) (c d : Option Context) :
    { s with context := c }.Alike { t with context := d } :=
  ⟨h.log, h.counters, h.events, h.bytecode⟩

end Session.Alike

namespace Engine

variable {α β : Type} {files : SiteTree} {post : α → Prop} {act mimic : Engine α}

/-- Unless the action logs a refusal, it and its mimic end in the same way when they start from
sessions that are alike, and leave sessions that are alike. `post` holds of its results. -/
def Mimics (files : SiteTree) (post : α → Prop) (act mimic : Engine α) : Prop :=
  ∀ s t, s.Alike t → ∃ added, (act.exec files s).2.log = s.log ++ added ∧
    (∀ a, (act.exec files s).1 = .ok a → post a) ∧
    ((∀ entry ∈ added, ¬entry.IsRefusal) →
      (mimic.exec files t).1 = (act.exec files s).1 ∧
        (act.exec files s).2.Alike (mimic.exec files t).2)

namespace Mimics

theorem pure {a : α} (h : post a) : Mimics files post (Pure.pure a) (Pure.pure a) := by
  intro s t hst
  refine ⟨[], (List.append_nil _).symm, ?_, fun _ => ⟨rfl, hst⟩⟩
  rintro _ ⟨⟩
  exact h

theorem throw (fault : Fault) :
    Mimics files post (throw fault : Engine α) (throw fault) := by
  intro s t hst
  refine ⟨[], (List.append_nil _).symm, ?_, fun _ => ⟨rfl, hst⟩⟩
  rintro _ ⟨⟩

theorem record (level : Level) (logger : Logger) (message : Text) :
    Mimics files (fun _ => True) (Engine.record level logger message)
      (Engine.record level logger message) := by
  intro s t hst
  refine ⟨[⟨level, logger, message⟩], rfl, fun _ _ => trivial, fun _ => ⟨rfl, ?_⟩⟩
  exact ⟨congrArg (· ++ _) hst.log, hst.counters, hst.events, hst.bytecode⟩

theorem note (event : Event) :
    Mimics files (fun _ => True) (Engine.note event) (Engine.note event) := by
  intro s t hst
  refine ⟨[], (List.append_nil _).symm, fun _ _ => trivial, fun _ => ⟨rfl, ?_⟩⟩
  refine ⟨hst.log, hst.counters, ?_, hst.bytecode⟩
  simp only [exec_note, List.map_append, hst.events, List.map_cons, List.map_nil]

theorem keep (kept : List (Path × List UInt8)) :
    Mimics files (fun _ => True) (Engine.keep kept) (Engine.keep kept) := by
  intro s t hst
  refine ⟨[], (List.append_nil _).symm, fun _ _ => trivial, fun _ => ⟨rfl, ?_⟩⟩
  exact ⟨hst.log, hst.counters, hst.events, congrArg (· ++ kept) hst.bytecode⟩

theorem ofExcept {result : Except Fault α} (h : ∀ a, result = .ok a → post a) :
    Mimics files post (Engine.ofExcept result) (Engine.ofExcept result) := by
  cases result with
  | ok a => exact .pure (h a rfl)
  | error fault => exact .throw fault

/-- An action that only looks at files does the same in every session. -/
theorem of_peeks {blame : Fault → Prop} (h : Peeks files blame act)
    (hpost : ∀ s a, (act.exec files s).1 = .ok a → post a) : Mimics files post act act := by
  obtain ⟨result, hlooks, -⟩ := h
  intro s t hst
  refine ⟨[], ?_, hpost s, fun _ => ?_⟩
  · rw [hlooks s, List.append_nil]
  · rw [hlooks s, hlooks t]
    exact ⟨rfl, hst⟩

theorem bind {last : β → Prop} {next mimicNext : α → Engine β} (h : Mimics files post act mimic)
    (hnext : ∀ a, post a → Mimics files last (next a) (mimicNext a)) :
    Mimics files last (act >>= next) (mimic >>= mimicNext) := by
  intro s t hst
  obtain ⟨added, hlog, hpost, hsame⟩ := h s t hst
  cases hresult : (act.exec files s).1 with
  | error fault =>
      rw [exec_bind_of_error hresult]
      refine ⟨added, hlog, by rintro _ ⟨⟩, fun hfree => ?_⟩
      obtain ⟨heq, hafter⟩ := hsame hfree
      rw [exec_bind_of_error (heq.trans hresult)]
      exact ⟨rfl, hafter⟩
  | ok a =>
      have hrest := hnext a (hpost a hresult)
      -- What the rest logs does not depend on whether the mimic has kept up so far.
      obtain ⟨more, hmore, hlast, -⟩ := hrest _ _ (.refl (act.exec files s).2)
      rw [exec_bind_of_ok hresult]
      refine ⟨added ++ more, ?_, hlast, fun hfree => ?_⟩
      · rw [hmore, hlog, List.append_assoc]
      · obtain ⟨heq, hafter⟩ := hsame fun entry hentry =>
          hfree entry (List.mem_append_left more hentry)
        obtain ⟨other, hother, -, hsame⟩ := hrest _ _ hafter
        have hothers : other = more := List.append_cancel_left (hother.symm.trans hmore)
        rw [exec_bind_of_ok (heq.trans hresult)]
        refine hsame fun entry hentry => ?_
        rw [hothers] at hentry
        exact hfree entry (List.mem_append_right added hentry)

theorem attempt (h : Mimics files post act mimic) :
    Mimics files (Outcome post fun _ => True) (Engine.attempt act) (Engine.attempt mimic) := by
  intro s t hst
  obtain ⟨added, hlog, hpost, hsame⟩ := h s t hst
  cases hresult : (act.exec files s).1 with
  | ok a =>
      rw [exec_attempt_of_ok hresult]
      refine ⟨added, hlog, ?_, fun hfree => ?_⟩
      · rintro _ ⟨⟩
        exact hpost a hresult
      · obtain ⟨heq, hafter⟩ := hsame hfree
        rw [exec_attempt_of_ok (heq.trans hresult)]
        exact ⟨rfl, hafter⟩
  | error fault =>
      by_cases hstops : fault.stops
      · rw [exec_attempt_of_stop hresult hstops]
        refine ⟨added, hlog, by rintro _ ⟨⟩, fun hfree => ?_⟩
        obtain ⟨heq, hafter⟩ := hsame hfree
        rw [exec_attempt_of_stop (heq.trans hresult) hstops]
        exact ⟨rfl, hafter⟩
      · have hheld : fault.stops = false := by simpa using hstops
        rw [exec_attempt_of_error hresult hheld]
        refine ⟨added, hlog, ?_, fun hfree => ?_⟩
        · rintro _ ⟨⟩
          trivial
        · obtain ⟨heq, hafter⟩ := hsame hfree
          rw [exec_attempt_of_error (heq.trans hresult) hheld]
          exact ⟨rfl, hafter⟩

/-- It does not matter which contexts the two are put into. -/
theorem within (h : Mimics files post act mimic) (c d : Context) :
    Mimics files post (Engine.within c act) (Engine.within d mimic) := by
  intro s t hst
  obtain ⟨added, hlog, hpost, hsame⟩ := h _ _ (hst.in_contexts (some c) (some d))
  refine ⟨added, hlog, hpost, fun hfree => ?_⟩
  obtain ⟨heq, hafter⟩ := hsame hfree
  exact ⟨heq, hafter.in_contexts s.context t.context⟩

end Mimics

/-- Two ways in which site code has texts compiled, of which the second mimics the first. -/
def Echoes (files : SiteTree) (reenter other : Reentry) : Prop :=
  ∀ html page, Mimics files (fun _ => True) (reenter html page) (other html page)

end Engine

open Engine

/-! ## Scripts -/

/-- The script goes on in the same way in every context, and `post` holds of each result that it
can give. -/
def Script.Unaware {α : Type} (post : α → Prop) : Script α → Prop
  | done a => post a
  | fail _ => True
  | context next => (∀ c d, next c = next d) ∧ ∀ c, (next c).Unaware post
  | compile _ _ next => ∀ out, (next out).Unaware post
  | newCounter next => ∀ n, (next n).Unaware post
  | count _ next => ∀ n, (next n).Unaware post

/-- A producer in the value does not look at its context. -/
def Value.Unaware : Value → Prop
  | producer run => ∀ props, (run props).Unaware fun _ => True
  | source _ _ inner _ => inner.Unaware
  | _ => True

def Source.Unaware (source : Source) : Prop := source.producer.Unaware

/-- No code of the module looks at its context, nor does a producer that it exports. -/
structure Module.Unaware (module : Module) : Prop where
  body : ∀ name, (module.body name).Unaware fun exports => ∀ e ∈ exports, e.2.Unaware
  missing : ∀ name, (module.missing name).Unaware Value.Unaware

/-- The modules that the folders can load do not look at their context. -/
def UnawareFiles (leaves : List Folders) (files : SiteTree) : Prop :=
  ∀ f ∈ leaves, ∀ path module kept, Loading.loaded files f.runtime path = .ready module kept →
    module.Unaware

mutual

/-- No code of the provider looks at its context. -/
def Provider.Unaware : Provider → Prop
  | .table entries => ∀ e ∈ entries.entries, e.2.Unaware
  | .function lookUp => ∀ identifier, (lookUp identifier).Unaware Value.Unaware
  | .folders _ => True
  | .choice providers => Provider.AllUnaware providers

def Provider.AllUnaware : List Provider → Prop
  | [] => True
  | p :: ps => p.Unaware ∧ AllUnaware ps

end

section Lookups

variable {files : SiteTree} {reenter other : Reentry}
  (hreenter : Echoes files reenter other)
include hreenter

theorem Engine.mimics_run {α : Type} {post : α → Prop} {script : Script α}
    (h : script.Unaware post) : Mimics files post (run reenter script) (run other script) := by
  induction script with
  | done a => exact .pure h
  | fail fault => exact .throw fault
  | context next ih =>
      intro s t hst
      rw [exec_run_context, exec_run_context, h.1 t.context s.context]
      exact ih s.context (h.2 s.context) s t hst
  | compile html page next ih => exact (hreenter html page).bind fun out _ => ih out (h out)
  | newCounter next ih =>
      intro s t hst
      rw [exec_run_newCounter, exec_run_newCounter, hst.counters]
      exact ih _ (h _) _ _ ⟨hst.log, rfl, hst.events, hst.bytecode⟩
  | count counter next ih =>
      intro s t hst
      rw [exec_run_count, exec_run_count, hst.counters]
      exact ih _ (h _) _ _ ⟨hst.log, rfl, hst.events, hst.bytecode⟩

theorem Source.mimics_render {source : Source} (h : source.Unaware) (props : Props) :
    Mimics files (fun _ => True) (source.render reenter props) (source.render other props) := by
  unfold render
  split
  · exact .pure trivial
  · rename_i call _ hproducer
    have hcall : (call (props.without lookupNames)).Unaware fun _ => True := by
      have hunaware : source.producer.Unaware := h
      rw [hproducer] at hunaware
      exact hunaware _
    refine (Mimics.note _).bind fun _ _ => ?_
    refine (mimics_run hreenter hcall).attempt.bind fun outcome _ => ?_
    cases outcome with
    | ok value =>
        simp only
        split
        · exact .pure trivial
        · exact .ofExcept fun _ _ => trivial
    | error cause => exact .throw _
  · exact .ofExcept fun _ _ => trivial

end Lookups

namespace Folders

variable {files : SiteTree} {reenter other : Reentry}

theorem mimics_readMarkup (f : Folders) (p : Path) :
    Mimics files (fun _ => True) (f.readMarkup p) (f.readMarkup p) := by
  refine (Mimics.of_peeks (peeks_isFile p) fun _ _ _ => trivial).bind fun there _ => ?_
  cases there with
  | false => exact .pure trivial
  | true =>
      have hread : Mimics files (fun _ => True) (readText f.encoding p) (readText f.encoding p) :=
        .of_peeks (peeks_readText f.encoding p) fun _ _ _ => trivial
      refine hread.attempt.bind fun outcome _ => ?_
      cases outcome with
      | ok markup => exact .pure trivial
      | error fault =>
          simp only
          split
          · exact (Mimics.record _ _ _).bind fun _ _ => .pure trivial
          · exact .throw fault

section Modules

variable {f : Folders} (hfiles : UnawareFiles [f] files) (hreenter : Echoes files reenter other)
include hreenter

theorem mimics_firstExport {module : Module} (hmodule : module.Unaware) {exports : Table Value}
    (hexports : ∀ e ∈ exports.entries, e.2.Unaware) (names : List Text) :
    Mimics files Value.Unaware (firstExport reenter module exports names)
      (firstExport other module exports names) := by
  induction names with
  | nil => exact .pure trivial
  | cons name names ih =>
      unfold firstExport
      cases hget : exports.get? name with
      | some value => exact .pure (hexports _ (Table.mem_of_get?_eq_some hget))
      | none =>
          have hrun := mimics_run hreenter (hmodule.missing name)
          refine hrun.attempt.bind fun outcome _ => ?_
          cases outcome with
          | ok value => exact hrun
          | error fault =>
              simp only
              split
              · exact ih
              · exact .throw fault

include hfiles

theorem mimics_loadProducer (identifier : Text) (p : Path) :
    Mimics files Value.Unaware (f.loadProducer reenter identifier p)
      (f.loadProducer other identifier p) := by
  have hload : Mimics files (fun loading => loading = Loading.loaded files f.runtime p)
      (Loading.ofFile .direct f.runtime p) (Loading.ofFile .direct f.runtime p) := by
    refine .of_peeks (peeks_of_looks (Loading.looks_ofFile p)) fun s loading hloading => ?_
    rw [Loading.looks_ofFile p s] at hloading
    cases hloading
    rfl
  refine hload.bind fun loading hloading => ?_
  cases loading with
  | unknown => exact .pure trivial
  | unlinked fault => exact .throw fault
  | broken cause => exact .throw _
  | ready module kept =>
      have hmodule := hfiles f (List.mem_singleton_self f) p module kept hloading.symm
      refine (Mimics.keep kept).bind fun _ _ => (Mimics.note _).bind fun _ _ => ?_
      refine (mimics_run hreenter (hmodule.body _)).attempt.bind fun outcome h => ?_
      cases outcome with
      | ok exports =>
          exact mimics_firstExport hreenter hmodule (fun e he => h e (Table.mem_of_mem_ofList he)) _
      | error cause => exact .throw _

theorem mimics_resolveAt (identifier : Text) (base : Path) :
    Mimics files (fun source => ∀ found ∈ source, found.Unaware)
      (f.resolveAt reenter identifier base) (f.resolveAt other identifier base) := by
  refine (mimics_readMarkup f _).bind fun markup _ => ?_
  cases markup with
  | some markup => exact .pure fun _ h => by cases h; trivial
  | none =>
      refine (Mimics.of_peeks (peeks_isFile _) fun _ _ _ => trivial).bind fun there _ => ?_
      cases there with
      | false => exact .pure fun _ h => by cases h
      | true =>
          refine (mimics_loadProducer hfiles hreenter identifier _).bind fun value hvalue => ?_
          refine .pure fun found hfound => ?_
          split at hfound
          · cases hfound
          · cases hfound
            exact hvalue

theorem mimics_resolveFrom (identifier : Text) (held : Option Fault) (bases : List Path) :
    Mimics files Source.Unaware (f.resolveFrom reenter identifier held bases)
      (f.resolveFrom other identifier held bases) := by
  unfold resolveFrom
  induction bases generalizing held with
  | nil =>
      cases held with
      | some fault => exact .throw fault
      | none =>
          exact (Mimics.of_peeks (peeks_list f) fun _ _ _ => trivial).bind fun _ _ => .throw _
  | cons base bases ih =>
      rw [resolveFromVia, resolveFromVia]
      refine (mimics_resolveAt hfiles hreenter identifier base).attempt.bind fun outcome h => ?_
      cases outcome with
      | ok found =>
          cases found with
          | some source => exact .pure (h source rfl)
          | none => exact ih held
      | error fault =>
          cases fault with
          | producerFailed => exact ih _
          | _ => exact .throw _

end Modules

end Folders

namespace Provider

variable {files : SiteTree} {reenter other : Reentry}

theorem mimics_resolveTable {entries : Table Value} (h : ∀ e ∈ entries.entries, e.2.Unaware)
    (identifier : Text) :
    Mimics files Source.Unaware (resolveTable entries identifier)
      (resolveTable entries identifier) := by
  unfold resolveTable
  cases hget : entries.get? (normalize identifier) with
  | none => exact .throw _
  | some value =>
      have hvalue := h _ (Table.mem_of_get?_eq_some hget)
      cases value with
      | text markup => exact .pure trivial
      | _ => exact .pure hvalue

theorem unaware_ofEntries {entries : List (Text × Value)} (h : ∀ e ∈ entries, e.2.Unaware) :
    (ofEntries entries).Unaware := by
  intro e he
  obtain ⟨entry, hentry, rfl⟩ := List.mem_map.mp (Table.mem_of_mem_ofList he)
  exact h entry hentry

theorem unaware_ofValue (identifier origin : Text) {value : Value} (h : value.Unaware) :
    (Source.ofValue identifier origin value).Unaware := by
  cases value <;> exact h

theorem mimics_resolveFunction
    (hreenter : Echoes files reenter other)
    {lookUp : Text → Script Value} (h : ∀ identifier, (lookUp identifier).Unaware Value.Unaware)
    (identifier : Text) :
    Mimics files Source.Unaware (resolveFunction reenter lookUp identifier)
      (resolveFunction other lookUp identifier) := by
  refine (Mimics.note _).bind fun _ _ => ?_
  refine (mimics_run hreenter (h _)).attempt.bind fun outcome hvalue => ?_
  cases outcome with
  | error cause => exact .throw _
  | ok value =>
      simp only
      split
      · exact .throw _
      · exact .pure (unaware_ofValue _ _ hvalue)

mutual

theorem mimics_resolve (hreenter : Echoes files reenter other) (identifier : Text) :
    (p : Provider) → UnawareFiles p.leaves files → p.Unaware →
    Mimics files Source.Unaware (p.resolve reenter identifier) (p.resolve other identifier)
  | .table entries, _, hp => by
      rw [resolve, resolve]
      exact (Mimics.note _).bind fun _ _ => mimics_resolveTable hp identifier
  | .function lookUp, _, hp => by
      rw [resolve, resolve]
      exact (Mimics.note _).bind fun _ _ => mimics_resolveFunction hreenter hp identifier
  | .folders f, hfiles, _ => by
      rw [resolve, resolve]
      exact (Mimics.note _).bind fun _ _ =>
        f.mimics_resolveFrom hfiles hreenter identifier none f.paths
  | .choice ps, hfiles, hp => by
      rw [resolve, resolve]
      refine (mimics_resolveFirst hreenter identifier ps hfiles hp none).bind fun found h => ?_
      cases found with
      | some source => exact .pure (h source rfl)
      | none =>
          exact (Mimics.of_peeks (peeks_listAll ps) fun _ _ _ => trivial).bind fun _ _ => .throw _

theorem mimics_resolveFirst (hreenter : Echoes files reenter other) (identifier : Text) :
    (ps : List Provider) → UnawareFiles (allLeaves ps) files → AllUnaware ps →
    (held : Option Fault) →
    Mimics files (fun found => ∀ source ∈ found, source.Unaware)
      (resolveFirst reenter identifier held ps) (resolveFirst other identifier held ps)
  | [], _, _, some fault => by
      rw [resolveFirst, resolveFirst]
      exact .throw fault
  | [], _, _, none => by
      rw [resolveFirst, resolveFirst]
      exact .pure fun _ h => by cases h
  | p :: ps, hfiles, hp, held => by
      have hfirst : UnawareFiles p.leaves files :=
        fun f hf => hfiles f (List.mem_append_left _ hf)
      have hlater : UnawareFiles (allLeaves ps) files :=
        fun f hf => hfiles f (List.mem_append_right _ hf)
      rw [resolveFirst, resolveFirst]
      refine (mimics_resolve hreenter identifier p hfirst hp.1).attempt.bind fun outcome h => ?_
      cases outcome with
      | ok source => exact .pure fun _ hsource => by cases hsource; exact h
      | error fault =>
          cases fault with
          | producerFailed => exact mimics_resolveFirst hreenter identifier ps hlater hp.2 _
          | componentNotFound => exact mimics_resolveFirst hreenter identifier ps hlater hp.2 held
          | _ => exact .throw _

end

/-- What the provider finds, and what comes of it, depends on the identifier and the props, not on
the context of the look-up. Compiles that are asked for on the way are taken as they turn out. -/
def IgnoresContext (p : Provider) (files : SiteTree) : Prop :=
  ∀ reenter other, Echoes files reenter other → ∀ identifier props, Mimics files (fun _ => True)
      (do (← p.resolve reenter identifier).render reenter props)
      (do (← p.resolve other identifier).render other props)

/-- A provider of which no code looks at its context ignores the context. -/
theorem ignoresContext_of_unaware {p : Provider} (hfiles : UnawareFiles p.leaves files)
    (hp : p.Unaware) : p.IgnoresContext files := by
  intro reenter other hreenter identifier props
  refine (mimics_resolve hreenter identifier p hfiles hp).bind fun source hsource => ?_
  exact source.mimics_render hreenter hsource props

end Provider

end StaticSite
