import StaticSite.Compile.Expansion
import StaticSite.Proofs.Component.Loads
import StaticSite.Proofs.Component.Search

/-!
# The order in which folders are searched

The first base that has a component hides all later ones. `Judged` says how looking in one base
ends, in terms of the two files in which the component can be there; `Passed` goes through bases
that do not have it and keeps the first failure.
-/

namespace StaticSite

open Engine

def Node.content? {α : Type} : Node α → Option α
  | .file content => some content
  | .folder _ => none

namespace Engine

variable {files : SiteTree} {p : Path}

/-- What a look for a file at a path finds. It fails when the path cannot be looked at. -/
def probe (files : SiteTree) (p : Path) : Except Fault (Option Content) :=
  (seen files p).map fun n => n.bind Node.content?

theorem looks_isFile_of_probe {found : Option Content} (h : probe files p = .ok found) :
    Looks files (isFile p) (.ok found.isSome) := by
  intro s
  rw [looks_isFile s]
  unfold probe at h
  cases hseen : seen files p with
  | error fault =>
      rw [hseen] at h
      cases h
  | ok n =>
      rw [hseen] at h
      cases h
      cases n with
      | none => rfl
      | some n => cases n <;> rfl

theorem look_of_probe {content : Content} (h : probe files p = .ok (some content)) :
    '\x00' ∉ p.text ∧ files.look p = .ok (.file content) := by
  unfold probe at h
  cases hseen : seen files p with
  | error fault =>
      rw [hseen] at h
      cases h
  | ok n =>
      rw [hseen] at h
      cases n with
      | none => cases h
      | some n =>
          cases n with
          | folder entries => cases h
          | file other =>
              cases h
              exact seen_some hseen

theorem probe_eq_some_iff {content : Content} :
    probe files p = .ok (some content) ↔ '\x00' ∉ p.text ∧ files.look p = .ok (.file content) := by
  refine ⟨look_of_probe, fun ⟨hnull, hlook⟩ => ?_⟩
  rw [probe, seen_of_look hnull hlook]
  rfl

theorem probe_eq_error_iff {fault : Fault} :
    probe files p = .error fault ↔ ∃ cause, Refuses files p cause ∧ fault = .file cause p := by
  rw [← seen_error_iff, probe]
  cases seen files p with
  | ok n => exact iff_of_false nofun nofun
  | error cause => simp [Except.map]

theorem exists_probe (h : Admits files p) : ∃ found, probe files p = .ok found := by
  obtain ⟨there, hseen⟩ := exists_seen h
  rw [probe, hseen]
  exact ⟨_, rfl⟩

theorem textOf_eq_error {encoding : Text.Encoding} {fault : Fault}
    (h : textOf files encoding p = .error fault) : fault.stops = false ∧ fault.Breaks := by
  rcases bind_eq_error_iff.mp h with h | ⟨content, -, h⟩
  · rcases contained_eq_error h with ⟨cause, rfl⟩ | ⟨-, rfl⟩ <;> exact ⟨rfl, rfl⟩
  · unfold decoded at h
    split at h
    · cases h
    · rename_i codec _
      cases h
      cases codec <;> exact ⟨rfl, rfl⟩

end Engine

namespace Folders

/-- How looking for a component in one base ends. -/
inductive Verdict
  | hit (source : Source)
  | pass
  | failed (failure : ProducerFailure)
  | stop (fault : Fault)

def Verdict.outcome : Verdict → Except Fault (Option Source)
  | hit source => .ok (some source)
  | pass => .ok none
  | failed failure => .error failure.fault
  | stop fault => .error fault

/-- How looking in a base ends when its producer file at a path comes to a value or a fault. -/
def Verdict.ofResult (identifier : Text) (p : Path) : Except Fault Value → Verdict
  | .ok value => if value.isNone then pass else hit ⟨identifier, none, value, some p.text⟩
  | .error (.producerFailed other location cause) => failed ⟨other, location, cause⟩
  | .error fault => stop fault

/-- The session in which a module starts to run, with the bytecode that is left of it. -/
def starting (identifier : Text) (module : Module) (kept : KeptFiles)
    (s : Session) : Session :=
  { s with
    bytecode := s.bytecode ++ kept
    trace := s.trace ++ [(s.context, .executed module.label (moduleName identifier))] }

/-- The warning about a markup file that is there and cannot be read. -/
def unreadable (p : Path) (fault : Fault) : LogRecord :=
  ⟨.warning, .providers, "Could not read component file " ++ p.text ++ ": " ++ fault.message⟩

section Verdicts

variable (f : Folders) (reenter : Reentry) (files : SiteTree) (identifier : Text)

/-- No markup is read from a path, and a warning is logged if there is a file. -/
inductive Unread (p : Path) : Session → Session → Prop
  | absent {s : Session} (h : probe files p = .ok none) : Unread p s s
  | unreadable {s : Session} {content : Content} {fault : Fault}
      (h : probe files p = .ok (some content)) (htext : textOf files f.encoding p = .error fault)
      (hfault : fault.isFileFault) : Unread p s { s with log := s.log ++ [unreadable p fault] }

/-- What comes of the producer file at a path: what loading it comes to, and if it has a module,
what running that comes to. The first of the module's exports that can be a component counts. -/
inductive Produces (p : Path) : Session → Except Fault Value → Session → Prop
  | unknown {s : Session} (h : Loading.loaded files f.runtime p = .unknown) :
      Produces p s (.ok .none) s
  | unlinked {s : Session} {fault : Fault}
      (h : Loading.loaded files f.runtime p = .unlinked fault) : Produces p s (.error fault) s
  | broken {s : Session} {cause : Fault} (h : Loading.loaded files f.runtime p = .broken cause) :
      Produces p s (.error (cause.inProducer identifier (some p.text))) s
  | failed {s t : Session} {module : Module} {kept : KeptFiles} {cause : Fault}
      (h : Loading.loaded files f.runtime p = .ready module kept)
      (hrun : (run reenter (module.body (moduleName identifier))).exec files
        (starting identifier module kept s) = (.error cause, t)) :
      Produces p s
        (.error (if cause.stops then cause else cause.inProducer identifier (some p.text))) t
  | exported {s t u : Session} {module : Module} {kept : KeptFiles}
      {exports : List (Text × Value)} {result : Except Fault Value}
      (h : Loading.loaded files f.runtime p = .ready module kept)
      (hrun : (run reenter (module.body (moduleName identifier))).exec files
        (starting identifier module kept s) = (.ok exports, t))
      (hexport : (firstExport reenter module (Table.ofList exports) exportNames).exec files t =
        (result, u)) : Produces p s result u

/-- How looking in a base ends: by its markup file, or, when no markup is read, by its producer
file. -/
inductive Judged (base : Path) : Session → Verdict → Session → Prop
  | markup {s : Session} {content : Content} {markup : Text}
      (h : probe files (f.markupPath base identifier) = .ok (some content))
      (htext : textOf files f.encoding (f.markupPath base identifier) = .ok markup) :
      Judged base s (.hit ⟨identifier, some markup, .none,
        some (f.markupPath base identifier).text⟩) s
  /-- The codec fails in another way than at the bytes of the text. -/
  | codec {s : Session} {content : Content} {fault : Fault}
      (h : probe files (f.markupPath base identifier) = .ok (some content))
      (htext : textOf files f.encoding (f.markupPath base identifier) = .error fault)
      (hfault : fault.isFileFault = false) : Judged base s (.stop fault) s
  | absent {s t : Session} (hmarkup : Unread f files (f.markupPath base identifier) s t)
      (h : probe files (f.producerPath base identifier) = .ok none) : Judged base s .pass t
  | produced {s t u : Session} {content : Content} {result : Except Fault Value}
      (hmarkup : Unread f files (f.markupPath base identifier) s t)
      (h : probe files (f.producerPath base identifier) = .ok (some content))
      (hproduces : Produces f reenter files identifier (f.producerPath base identifier) t
        result u) :
      Judged base s (.ofResult identifier (f.producerPath base identifier) result) u

/-- Looking in bases of which none has the component, with the first producer that failed. -/
inductive Passed : List Path → Session → Option ProducerFailure → Session → Prop
  | nil {s : Session} : Passed [] s none s
  | pass {base : Path} {bases : List Path} {first : Option ProducerFailure} {s t u : Session}
      (h : Judged f reenter files identifier base s .pass t) (hrest : Passed bases t first u) :
      Passed (base :: bases) s first u
  | failed {base : Path} {bases : List Path} {failure : ProducerFailure}
      {later : Option ProducerFailure} {s t u : Session}
      (h : Judged f reenter files identifier base s (.failed failure) t)
      (hrest : Passed bases t later u) : Passed (base :: bases) s (some failure) u

end Verdicts

/-! ## Each base ends as it is judged -/

section Runs

variable {f : Folders} {reenter : Reentry} {files : SiteTree} {identifier : Text} {p base : Path}
  {bases : List Path} {s t u : Session}

/-- What comes of a markup file that is there. -/
theorem exec_readMarkup {content : Content} (h : probe files p = .ok (some content)) (s : Session) :
    (f.readMarkup p).exec files s =
      match textOf files f.encoding p with
      | .ok markup => (.ok (some markup), s)
      | .error fault =>
          if fault.isFileFault then (.ok none, { s with log := s.log ++ [unreadable p fault] })
          else (.error fault, s) := by
  have hfile : Looks files (Access.direct.isFile p) (.ok true) := looks_isFile_of_probe h
  have hread : Looks files (attempt (Access.direct.readText f.encoding p))
      (.ok (textOf files f.encoding p)) :=
    (looks_readText f.encoding).attempt fun _ h => (textOf_eq_error h).1
  unfold readMarkup readMarkupVia
  rw [exec_bind, hfile s]
  simp only [if_true, exec_bind, hread s]
  cases textOf files f.encoding p with
  | ok markup => rfl
  | error fault => cases hfault : fault.isFileFault <;> simp only [hfault] <;> rfl

theorem exec_readMarkup_of_unread (h : Unread f files p s t) :
    (f.readMarkup p).exec files s = (.ok none, t) := by
  cases h with
  | absent h =>
      have hfile : Looks files (Access.direct.isFile p) (.ok false) := looks_isFile_of_probe h
      unfold readMarkup readMarkupVia
      rw [exec_bind, hfile s]
      rfl
  | unreadable h htext hfault =>
      rw [exec_readMarkup h, htext]
      simp only [hfault, if_true]

theorem session_note_executed (module : Module) :
    ((note (.executed module.label (moduleName identifier))).exec files s).2 =
      starting identifier module [] s := by
  rw [exec_note, starting, List.append_nil]

/-- A module is run in the session to which its start was added. -/
theorem exec_execute_of_ok {module : Module} {exports : List (Text × Value)}
    (hrun : (run reenter (module.body (moduleName identifier))).exec files
      (starting identifier module [] s) = (.ok exports, t)) :
    (execute reenter identifier p module).exec files s =
      (firstExport reenter module (Table.ofList exports) exportNames).exec files t := by
  have hdone := exec_attempt_of_ok (congrArg Prod.fst hrun)
  rw [execute, exec_bind_of_ok rfl, session_note_executed,
    exec_bind_of_ok (congrArg Prod.fst hdone), hdone, hrun]

theorem exec_execute_of_error {module : Module} {cause : Fault}
    (hrun : (run reenter (module.body (moduleName identifier))).exec files
      (starting identifier module [] s) = (.error cause, t)) :
    (execute reenter identifier p module).exec files s =
      (.error (if cause.stops then cause else cause.inProducer identifier (some p.text)), t) := by
  rw [execute, exec_bind_of_ok rfl, session_note_executed]
  by_cases hstops : cause.stops
  · have hstopped := exec_attempt_of_stop (congrArg Prod.fst hrun) hstops
    rw [exec_bind_of_error (congrArg Prod.fst hstopped), hstopped, hrun, if_pos hstops]
  · have hfailed := exec_attempt_of_error (congrArg Prod.fst hrun) (by simpa using hstops)
    rw [exec_bind_of_ok (congrArg Prod.fst hfailed), hfailed, hrun, if_neg hstops]
    rfl

theorem exec_loadProducer {result : Except Fault Value}
    (h : Produces f reenter files identifier p s result t) :
    (f.loadProducer reenter identifier p).exec files s = (result, t) := by
  have hload : Looks files (Loading.ofFile .direct f.runtime p)
      (.ok (Loading.loaded files f.runtime p)) := Loading.looks_ofFile p
  have hready {module : Module} {kept : KeptFiles}
      (h : Loading.loaded files f.runtime p = .ready module kept) :
      (f.loadProducer reenter identifier p).exec files s =
        (execute reenter identifier p module).exec files
          { s with bytecode := s.bytecode ++ kept } := by
    unfold loadProducer loadProducerVia
    rw [exec_bind, hload s, h]
    rfl
  cases h with
  | unknown h | unlinked h | broken h =>
      unfold loadProducer loadProducerVia
      rw [exec_bind, hload s, h]
      rfl
  | failed h hrun =>
      rw [hready h]
      refine exec_execute_of_error (Eq.trans ?_ hrun)
      simp only [starting, List.append_nil]
  | exported h hrun hexport =>
      rw [hready h]
      refine (exec_execute_of_ok (Eq.trans ?_ hrun)).trans hexport
      simp only [starting, List.append_nil]

theorem exists_produces (f : Folders) (reenter : Reentry) (files : SiteTree) (identifier : Text)
    (p : Path) (s : Session) :
    ∃ result t, Produces f reenter files identifier p s result t := by
  cases hload : Loading.loaded files f.runtime p with
  | unknown => exact ⟨_, _, .unknown hload⟩
  | unlinked fault => exact ⟨_, _, .unlinked hload⟩
  | broken cause => exact ⟨_, _, .broken hload⟩
  | ready module kept =>
      cases hrun : (run reenter (module.body (moduleName identifier))).exec files
          (starting identifier module kept s) with
      | mk result t =>
          cases result with
          | ok exports => exact ⟨_, _, .exported hload hrun rfl⟩
          | error cause => exact ⟨_, _, .failed hload hrun⟩

theorem exec_resolveAt_of_unread (hmarkup : Unread f files (f.markupPath base identifier) s t)
    {found : Option Content} (h : probe files (f.producerPath base identifier) = .ok found) :
    (f.resolveAt reenter identifier base).exec files s =
      ((if found.isSome then do
          let value ← f.loadProducer reenter identifier (f.producerPath base identifier)
          return if value.isNone then none else some ⟨identifier, none, value,
            some (f.producerPath base identifier).text⟩
        else return none) : Engine (Option Source)).exec files t := by
  have hread := exec_readMarkup_of_unread hmarkup
  have hfile : Looks files (Access.direct.isFile (f.producerPath base identifier))
      (.ok found.isSome) := looks_isFile_of_probe h
  unfold readMarkup at hread
  unfold resolveAt resolveAtVia
  rw [exec_bind, hread]
  simp only
  rw [exec_bind, hfile t]
  rfl

theorem Verdict.outcome_ofResult_error (identifier : Text) (p : Path) (fault : Fault) :
    (ofResult identifier p (.error fault)).outcome = .error fault := by
  cases fault <;> rfl

/-- The code does in each base what it is judged to do. -/
theorem exec_resolveAt_of_judged {verdict : Verdict}
    (h : Judged f reenter files identifier base s verdict t) :
    (f.resolveAt reenter identifier base).exec files s = (verdict.outcome, t) := by
  cases h with
  | markup h htext =>
      have hread := exec_readMarkup (f := f) h s
      rw [htext] at hread
      unfold readMarkup at hread
      unfold resolveAt resolveAtVia
      rw [exec_bind, hread]
      rfl
  | codec h htext hfault =>
      have hread := exec_readMarkup (f := f) h s
      rw [htext] at hread
      simp only [hfault] at hread
      unfold readMarkup at hread
      unfold resolveAt resolveAtVia
      rw [exec_bind, hread]
      rfl
  | absent hmarkup h =>
      rw [exec_resolveAt_of_unread hmarkup h]
      rfl
  | @produced _ _ _ result hmarkup h hproduces =>
      rw [exec_resolveAt_of_unread hmarkup h, Option.isSome_some, if_pos rfl, exec_bind,
        exec_loadProducer hproduces]
      cases result with
      | ok value => cases hnone : value.isNone <;> simp [Verdict.ofResult, Verdict.outcome, hnone]
      | error fault => rw [Verdict.outcome_ofResult_error]

theorem exists_judged (hmarkup : Admits files (f.markupPath base identifier))
    (hproducer : Admits files (f.producerPath base identifier)) (reenter : Reentry)
    (s : Session) : ∃ verdict t, Judged f reenter files identifier base s verdict t := by
  obtain ⟨found, hfound⟩ := exists_probe hmarkup
  obtain ⟨other, hother⟩ := exists_probe hproducer
  have hrest : ∀ t, Unread f files (f.markupPath base identifier) s t →
      ∃ verdict u, Judged f reenter files identifier base s verdict u := by
    intro t hunread
    cases other with
    | none => exact ⟨_, _, .absent hunread hother⟩
    | some content =>
        obtain ⟨result, u, hproduces⟩ := exists_produces f reenter files identifier
          (f.producerPath base identifier) t
        exact ⟨_, _, .produced hunread hother hproduces⟩
  cases found with
  | none => exact hrest s (.absent hfound)
  | some content =>
      cases htext : textOf files f.encoding (f.markupPath base identifier) with
      | ok markup => exact ⟨_, _, .markup hfound htext⟩
      | error fault =>
          cases hfault : fault.isFileFault with
          | true => exact hrest _ (.unreadable hfound htext hfault)
          | false => exact ⟨_, _, .codec hfound htext hfault⟩

/-- A fault that stops a search ends it as it is. -/
theorem Judged.noticed_stop {fault : Fault}
    (h : Judged f reenter files identifier base s (.stop fault) t) :
    noticed (.error fault) = .error fault := by
  generalize hverdict : Verdict.stop fault = verdict at h
  cases h with
  | codec h htext hfault =>
      cases hverdict
      have hbreaks := (textOf_eq_error htext).2
      cases fault <;> first | rfl | cases hbreaks
  | @produced _ _ _ result hmarkup h hproduces =>
      cases result with
      | ok value => cases hnone : value.isNone <;> simp [Verdict.ofResult, hnone] at hverdict
      | error other => cases other <;> cases hverdict <;> rfl
  | _ => cases hverdict

/-! ## The search goes through the bases -/

theorem exec_search_of_passed {first : Option ProducerFailure}
    (h : Passed f reenter files identifier bases s first t) :
    (f.search reenter identifier bases).exec files s = (.ok (.missed first), t) := by
  induction h with
  | nil => rfl
  | pass h _ ih =>
      rw [search_cons, orThen, exec_bind, exec_visit, exec_resolveAt_of_judged h]
      simp only [Verdict.outcome, noticed, goOn, exec_bind, ih]
      rfl
  | failed h _ ih =>
      rw [search_cons, orThen, exec_bind, exec_visit, exec_resolveAt_of_judged h]
      simp only [Verdict.outcome, ProducerFailure.fault, noticed, goOn, exec_bind, ih]
      rfl

/-- After bases in vain, the search ends in the first base that is not passed, and the bases after
it are not looked at. -/
theorem exec_search_append {before : List Path} (after : List Path)
    {first : Option ProducerFailure} (hbefore : Passed f reenter files identifier before s first t)
    {verdict : Verdict} (h : Judged f reenter files identifier base t verdict u)
    {outcome : Except Fault Finding} (houtcome : noticed verdict.outcome = outcome)
    (hends : ∀ held, outcome ≠ .ok (.missed held)) :
    (f.search reenter identifier (before ++ base :: after)).exec files s = (outcome, u) := by
  rw [search_append, orThen, exec_bind, exec_search_of_passed hbefore]
  simp only [goOn]
  rw [exec_bind, search_cons, orThen, exec_bind, exec_visit, exec_resolveAt_of_judged h]
  subst houtcome
  cases hfinding : noticed verdict.outcome with
  | error fault => rfl
  | ok finding =>
      cases finding with
      | found source => rfl
      | missed held => exact absurd hfinding (hends held)

/-- Unless a path cannot be looked at, the bases are all passed, or one that has the component or
stops the search comes after bases that are passed. -/
theorem exists_course (reenter : Reentry)
    (h : ∀ base ∈ bases, Admits files (f.markupPath base identifier) ∧
      Admits files (f.producerPath base identifier)) (s : Session) :
    (∃ first t, Passed f reenter files identifier bases s first t) ∨
      ∃ before base after first t u, bases = before ++ base :: after ∧
        Passed f reenter files identifier before s first t ∧
        ((∃ source, Judged f reenter files identifier base t (.hit source) u) ∨
          ∃ fault, Judged f reenter files identifier base t (.stop fault) u) := by
  induction bases generalizing s with
  | nil => exact .inl ⟨none, s, .nil⟩
  | cons base bases ih =>
      obtain ⟨hmarkup, hproducer⟩ := h base List.mem_cons_self
      have hrest := ih fun b hb => h b (List.mem_cons_of_mem base hb)
      obtain ⟨verdict, t, hjudged⟩ := exists_judged hmarkup hproducer reenter s
      cases verdict with
      | hit source => exact .inr ⟨[], base, bases, none, s, t, rfl, .nil, .inl ⟨source, hjudged⟩⟩
      | stop fault => exact .inr ⟨[], base, bases, none, s, t, rfl, .nil, .inr ⟨fault, hjudged⟩⟩
      | pass =>
          rcases hrest t with ⟨first, u, hpassed⟩ |
            ⟨before, b, after, first, u, v, rfl, hpassed, hend⟩
          · exact .inl ⟨first, u, .pass hjudged hpassed⟩
          · exact .inr ⟨base :: before, b, after, first, u, v, rfl, .pass hjudged hpassed, hend⟩
      | failed failure =>
          rcases hrest t with ⟨first, u, hpassed⟩ |
            ⟨before, b, after, first, u, v, rfl, hpassed, hend⟩
          · exact .inl ⟨some failure, u, .failed hjudged hpassed⟩
          · exact .inr ⟨base :: before, b, after, _, u, v, rfl, .failed hjudged hpassed, hend⟩

end Runs

/-! ## Trees with the same candidates -/

section Trees

variable (f : Folders) (reenter : Reentry) (files other : SiteTree) (identifier : Text)

/-- Two trees have the same two files in which a base can have the component, loading the producer
comes to the same, and a module among them runs in the same way over both. -/
structure SameCandidates (base : Path) : Prop where
  markup : probe other (f.markupPath base identifier) = probe files (f.markupPath base identifier)
  text : textOf other f.encoding (f.markupPath base identifier) =
    textOf files f.encoding (f.markupPath base identifier)
  producer : probe other (f.producerPath base identifier) =
    probe files (f.producerPath base identifier)
  loaded : Loading.loaded other f.runtime (f.producerPath base identifier) =
    Loading.loaded files f.runtime (f.producerPath base identifier)
  runs : ∀ module kept,
    Loading.loaded files f.runtime (f.producerPath base identifier) = .ready module kept → ∀ s,
      (run reenter (module.body (moduleName identifier))).exec other s =
        (run reenter (module.body (moduleName identifier))).exec files s
  asks : ∀ module kept,
    Loading.loaded files f.runtime (f.producerPath base identifier) = .ready module kept →
      ∀ name s, (run reenter (module.missing name)).exec other s =
        (run reenter (module.missing name)).exec files s

variable {f reenter files other identifier} {base : Path} {bases : List Path} {s t : Session}

theorem exec_firstExport_congr {module : Module}
    (hasks : ∀ name s, (run reenter (module.missing name)).exec other s =
      (run reenter (module.missing name)).exec files s) (exports : Table Value)
    (names : List Text) (s : Session) :
    (firstExport reenter module exports names).exec other s =
      (firstExport reenter module exports names).exec files s := by
  induction names generalizing s with
  | nil => rfl
  | cons name names ih =>
      unfold firstExport
      cases exports.get? name with
      | some value => rfl
      | none =>
          have hasked : (attempt (run reenter (module.missing name))).exec other s =
              (attempt (run reenter (module.missing name))).exec files s := by
            rw [exec_attempt, exec_attempt, hasks name]
          simp only
          rw [exec_bind, exec_bind, hasked]
          cases (attempt (run reenter (module.missing name))).exec files s with
          | mk result t =>
              cases result with
              | error fault => rfl
              | ok outcome =>
                  cases outcome with
                  | ok value => exact hasks name t
                  | error fault =>
                      simp only
                      split
                      · exact ih t
                      · rfl

theorem Judged.transfer (hsame : SameCandidates f reenter files other identifier base)
    {verdict : Verdict} (h : Judged f reenter files identifier base s verdict t) :
    Judged f reenter other identifier base s verdict t := by
  have hunread {s t : Session} (h : Unread f files (f.markupPath base identifier) s t) :
      Unread f other (f.markupPath base identifier) s t := by
    cases h with
    | absent h => exact .absent (hsame.markup.trans h)
    | unreadable h htext hfault =>
        exact .unreadable (hsame.markup.trans h) (hsame.text.trans htext) hfault
  have hproduces {s t : Session} {result : Except Fault Value}
      (h : Produces f reenter files identifier (f.producerPath base identifier) s result t) :
      Produces f reenter other identifier (f.producerPath base identifier) s result t := by
    cases h with
    | unknown h => exact .unknown (hsame.loaded.trans h)
    | unlinked h => exact .unlinked (hsame.loaded.trans h)
    | broken h => exact .broken (hsame.loaded.trans h)
    | failed h hrun => exact .failed (hsame.loaded.trans h) ((hsame.runs _ _ h _).trans hrun)
    | exported h hrun hexport =>
        exact .exported (hsame.loaded.trans h) ((hsame.runs _ _ h _).trans hrun)
          ((exec_firstExport_congr (hsame.asks _ _ h) _ _ _).trans hexport)
  cases h with
  | markup h htext => exact .markup (hsame.markup.trans h) (hsame.text.trans htext)
  | codec h htext hfault => exact .codec (hsame.markup.trans h) (hsame.text.trans htext) hfault
  | absent hmarkup h => exact .absent (hunread hmarkup) (hsame.producer.trans h)
  | produced hmarkup h hresult =>
      exact .produced (hunread hmarkup) (hsame.producer.trans h) (hproduces hresult)

theorem Passed.transfer {first : Option ProducerFailure}
    (hsame : ∀ base ∈ bases, SameCandidates f reenter files other identifier base)
    (h : Passed f reenter files identifier bases s first t) :
    Passed f reenter other identifier bases s first t := by
  induction h with
  | nil => exact .nil
  | pass h _ ih =>
      refine .pass (h.transfer (hsame _ List.mem_cons_self)) (ih fun b hb => ?_)
      exact hsame b (List.mem_cons_of_mem _ hb)
  | failed h _ ih =>
      refine .failed (h.transfer (hsame _ List.mem_cons_self)) (ih fun b hb => ?_)
      exact hsame b (List.mem_cons_of_mem _ hb)

end Trees

theorem ofPath?_producerPath {f : Folders} (h : f.producerSuffix = Loader.source.suffix)
    (base : Path) (identifier : Text) :
    Loader.ofPath? (f.producerPath base identifier) = some .source := by
  obtain ⟨lead, hlead⟩ := base.exists_text_child_append (t := Loader.source.suffix) (by decide)
    (normalize identifier)
  rw [Loader.ofPath?_eq_some_iff, producerPath, h, hlead]
  exact Text.endsWith_append lead _

end Folders

/-! ## What folders find -/

/-- The source of the first base that has the component, whatever lies in the bases after it or
elsewhere; or the first failure; or that there is no component. A fault that does not say so ends
the look-up. With the suffix of sources every producer file is known, and none is linked. -/
theorem Folders.resolve_in_order (f : Folders) (reenter : Reentry) (files : SiteTree)
    (identifier : Text) (s : Session) :
    (∀ before base after first t source u, f.paths = before ++ base :: after →
      Passed f reenter files identifier before s first t →
      Judged f reenter files identifier base t (.hit source) u →
        (f.resolve reenter identifier).exec files s = (.ok source, u) ∧
        ∀ other, (∀ b ∈ before ++ [base], SameCandidates f reenter files other identifier b) →
          (f.resolve reenter identifier).exec other s = (.ok source, u)) ∧
    (∀ failure t, Passed f reenter files identifier f.paths s (some failure) t →
      (f.resolve reenter identifier).exec files s = (.error failure.fault, t)) ∧
    (∀ t ids, Passed f reenter files identifier f.paths s none t → Looks files f.list (.ok ids) →
      (f.resolve reenter identifier).exec files s =
        (.error (.componentNotFound identifier (f.paths.map Path.text) ids), t)) ∧
    (∀ before base after first t fault u, f.paths = before ++ base :: after →
      Passed f reenter files identifier before s first t →
      Judged f reenter files identifier base t (.stop fault) u →
        (f.resolve reenter identifier).exec files s = (.error fault, u)) ∧
    ((∀ base ∈ f.paths, Admits files (f.markupPath base identifier) ∧
        Admits files (f.producerPath base identifier)) →
      (∃ first t, Passed f reenter files identifier f.paths s first t) ∨
        ∃ before base after first t u, f.paths = before ++ base :: after ∧
          Passed f reenter files identifier before s first t ∧
          ((∃ source, Judged f reenter files identifier base t (.hit source) u) ∨
            ∃ fault, Judged f reenter files identifier base t (.stop fault) u)) ∧
    (f.producerSuffix = Loader.source.suffix → ∀ base,
      Loading.loaded files f.runtime (f.producerPath base identifier) ≠ .unknown ∧
        ∀ fault, Loading.loaded files f.runtime (f.producerPath base identifier) ≠
          .unlinked fault) := by
  have hhit {tree : SiteTree} {before after : List Path} {base : Path}
      {first : Option ProducerFailure} {t u : Session} {source : Source}
      (hpaths : f.paths = before ++ base :: after)
      (hpassed : Passed f reenter tree identifier before s first t)
      (hjudged : Judged f reenter tree identifier base t (.hit source) u) :
      (f.resolve reenter identifier).exec tree s = (.ok source, u) := by
    have hsearch := exec_search_append after hpassed hjudged rfl (by rintro _ ⟨⟩)
    rw [resolve_eq, exec_bind, hpaths, hsearch]
    rfl
  refine ⟨?_, ?_, ?_, ?_, fun hprobes => exists_course reenter hprobes s, fun hsuffix base =>
    Loading.loaded_of_source (ofPath?_producerPath hsuffix base identifier)⟩
  · intro before base after first t source u hpaths hpassed hjudged
    refine ⟨hhit hpaths hpassed hjudged, fun other hsame => ?_⟩
    have hbefore := hpassed.transfer fun b hb => hsame b (List.mem_append_left [base] hb)
    have hbase := hjudged.transfer (hsame base (List.mem_append_right before List.mem_cons_self))
    exact hhit hpaths hbefore hbase
  · intro failure t hpassed
    rw [resolve_eq, exec_bind, exec_search_of_passed hpassed]
    rfl
  · intro t ids hpassed hlist
    have habsent : Looks files (listVia .direct f) (.ok ids) := hlist
    rw [resolve_eq, exec_bind, exec_search_of_passed hpassed]
    simp only [conclude, absent, absentVia, exec_bind, habsent t]
    rfl
  · intro before base after first t fault u hpaths hpassed hjudged
    have hsearch := exec_search_append after hpassed hjudged hjudged.noticed_stop
      (by rintro _ ⟨⟩)
    rw [resolve_eq, exec_bind, hpaths, hsearch]

/-! ### Cards in three folders -/

def cardModule (body : Script (List (Text × Value))) : Module where
  label := "a/Card.py"
  body _ := body

/-- A tree with a module in one folder and with texts as markup in others. -/
def moduleFiles (module : Module) (markups : List (Text × List UInt8)) : SiteTree :=
  ⟨.folder (("a".toList, .folder [("Card.py", .file (.code module))]) ::
    markups.map fun e => (e.1, .folder [("Card.html", .file (.bytes e.2))])), []⟩

def cardFiles (body : Script (List (Text × Value))) (markups : List (Text × List UInt8)) :
    SiteTree :=
  moduleFiles (cardModule body) markups

def cardFolders : Folders := Folders.ofPaths [Path.ofText "a", Path.ofText "b", Path.ofText "c"]

/-- Without nested compiles. -/
def noReentry : Reentry := fun _ _ => throw .nestedTooDeep

def cardSource : Source := ⟨"Card", some "B", .none, some "b/Card.html"⟩

/-- The second folder's card is found after the first one's module has failed, and what lies in the
third folder makes no difference. -/
theorem resolve_in_order_card :
    cardFolders.producerSuffix = Loader.source.suffix ∧
      ∃ u, (cardFolders.resolve noReentry "Card").exec
          (cardFiles (.fail (.raised "ValueError" "bad")) [("b", [66]), ("c", [67])]) .start =
            (.ok cardSource, u) ∧
        (cardFolders.resolve noReentry "Card").exec
          (cardFiles (.fail (.raised "ValueError" "bad")) [("b", [66])]) .start =
            (.ok cardSource, u) := by
  have horder := (Folders.resolve_in_order cardFolders noReentry
    (cardFiles (.fail (.raised "ValueError" "bad")) [("b", [66]), ("c", [67])]) "Card" .start).1
  have hproduces : Folders.Produces cardFolders noReentry
      (cardFiles (.fail (.raised "ValueError" "bad")) [("b", [66]), ("c", [67])]) "Card"
      (cardFolders.producerPath (Path.ofText "a") "Card") .start (.error _) _ := .failed rfl rfl
  have hpassed : Folders.Passed cardFolders noReentry
      (cardFiles (.fail (.raised "ValueError" "bad")) [("b", [66]), ("c", [67])]) "Card"
      [Path.ofText "a"] .start _ _ :=
    .failed (.produced (.absent rfl) rfl hproduces) .nil
  obtain ⟨hfound, hsame⟩ := horder [Path.ofText "a"] (Path.ofText "b") [Path.ofText "c"] _ _ _ _
    rfl hpassed (.markup rfl rfl)
  refine ⟨rfl, _, hfound, hsame _ fun b hb => ?_⟩
  have hb : b = Path.ofText "a" ∨ b = Path.ofText "b" := by simpa using hb
  rcases hb with rfl | rfl
  · refine ⟨rfl, rfl, rfl, rfl, fun module kept h s => ?_, fun module kept h name s => ?_⟩
    · cases h
      rfl
    · cases h
      rfl
  · refine ⟨rfl, rfl, rfl, rfl, fun module kept h => ?_, fun module kept h => ?_⟩
    · cases h
    · cases h

/-- A module that has another component compiled when it runs. -/
def citingBody : Script (List (Text × Value)) :=
  .compile "<Component src=\"Logo\" />" none fun out => .done [("default", .text out)]

def citingFiles (logo : List UInt8) : SiteTree :=
  ⟨.folder [("a", .folder [("Card.py", .file (.code (cardModule citingBody))),
    ("Logo.html", .file (.bytes logo))])], []⟩

def citingCompiler : Compiler := ⟨.folders (Folders.ofPaths [Path.ofText "a"]), 50⟩

/-- The text that the component of the module with another one compiled is written as. -/
def citedText (logo : List UInt8) : Option Text :=
  (((Folders.ofPaths [Path.ofText "a"]).resolve (citingCompiler.compileNested 1) "Card").exec
    (citingFiles logo) .start).1.toOption.map fun source => source.producer.written

def starredFolder : Folders := { Folders.ofPaths [Path.ofText "a"] with markupSuffix := "**" }

/-- A folder with markup first, in an encoding that nobody knows. -/
def codecFolders : Folders :=
  { Folders.ofPaths [Path.ofText "b", Path.ofText "a"] with
    encoding := .other fun _ => .error (.broken "LookupError" "unknown encoding: x") }

/-- A module that fails when it is asked for a name that it does not export. -/
def touchyModule : Module where
  label := "a/Card.py"
  body _ := .done []
  missing _ := .fail (.raised "ValueError" "who asks?")

/-- Folders of which all sources count as made to one bytecode file, which is taken as the text that
the module exports. -/
def reusingFolders : Folders :=
  { Folders.ofPaths [Path.ofText "a"] with
    runtime := { Runtime.plain with
      cache := fun _ => some (Path.ofText "/Card.pyc")
      reuse := fun _ _ bytes => some (.ok (cardModule (.done
        [("default", .text (bytes.map fun b => Char.ofNat b.toNat))]))) } }

def reusingFiles (bytecode : List UInt8) : SiteTree :=
  ⟨.folder [("Card.pyc", .file (.bytes bytecode)),
    ("a", .folder [("Card.py", .file (.code (cardModule (.done []))))])], []⟩

def reusedText (bytecode : List UInt8) : Option Text :=
  ((reusingFolders.resolve noReentry "Card").exec (reusingFiles bytecode)
    .start).1.toOption.map fun source => source.producer.written

/-- In five ways a search does not come to the first base with the component: a module before it
stops the program, or fails with a fault that cannot be worded, or fails when it is asked for its
exports; a codec fails as such; nothing is there, and listing what is there instead fails. In two
ways the trees' same two files give two sources: a module compiles another component, and bytecode
counts for a source. -/
theorem search_order_fails :
    (∀ module fault, (module, fault) ∈
        [(cardModule (.fail (.stopped "SystemExit" "bye")), Fault.stopped "SystemExit" "bye"),
          (cardModule (.fail (.unworded "ValueError" (.raised "RuntimeError" "mute"))),
            .raised "RuntimeError" "mute"),
          (touchyModule, .raised "ValueError" "who asks?")] →
      ((cardFolders.resolve noReentry "Card").exec (moduleFiles module [("b", [66])]) .start).1 =
          .error fault ∧
        ∀ s, ∃ source, Folders.Judged cardFolders noReentry (moduleFiles module [("b", [66])])
          "Card" (Path.ofText "b") s (.hit source) s) ∧
    (((codecFolders.resolve noReentry "Card").exec
        (cardFiles (.done [("default", .text "x")]) [("b", [66])]) .start).1 =
          .error (.raised "LookupError" "unknown encoding: x") ∧
      ∀ s, ∃ source t, Folders.Judged codecFolders noReentry
        (cardFiles (.done [("default", .text "x")]) [("b", [66])]) "Card" (Path.ofText "a") s
          (.hit source) t) ∧
    (((starredFolder.resolve noReentry "Logo").exec (citingFiles [120]) .start).1 =
        .error .badPattern ∧
      Folders.Passed starredFolder noReentry (citingFiles [120]) "Logo" starredFolder.paths .start
        none .start) ∧
    (citedText [120] = some "x" ∧ citedText [121] = some "y" ∧
      ∀ suffix : Text, suffix = ".html" ∨ suffix = ".py" →
        probe (citingFiles [121]) ((Path.ofText "a").child ("Card".toList ++ suffix)) =
          probe (citingFiles [120]) ((Path.ofText "a").child ("Card".toList ++ suffix))) ∧
    (reusedText [120] = some "x" ∧ reusedText [121] = some "y" ∧
      ∀ suffix : Text, suffix = ".html" ∨ suffix = ".py" →
        probe (reusingFiles [121]) ((Path.ofText "a").child ("Card".toList ++ suffix)) =
          probe (reusingFiles [120]) ((Path.ofText "a").child ("Card".toList ++ suffix))) := by
  have hproduces (s : Session) : Folders.Produces codecFolders noReentry
      (cardFiles (.done [("default", .text "x")]) [("b", [66])]) "Card"
      (codecFolders.producerPath (Path.ofText "a") "Card") s (.ok (.text "x")) _ :=
    .exported rfl rfl rfl
  refine ⟨?_, ⟨rfl, fun s => ⟨_, _, .produced (.absent rfl) rfl (hproduces s)⟩⟩,
    ⟨rfl, .pass (.absent (.absent rfl) rfl) .nil⟩, ?_, ?_⟩
  · intro module fault h
    rcases List.mem_cons.mp h with heq | h
    · cases heq
      exact ⟨rfl, fun s => ⟨_, .markup rfl rfl⟩⟩
    rcases List.mem_cons.mp h with heq | h
    · cases heq
      exact ⟨rfl, fun s => ⟨_, .markup rfl rfl⟩⟩
    · cases List.mem_singleton.mp h
      exact ⟨rfl, fun s => ⟨_, .markup rfl rfl⟩⟩
  · refine ⟨by decide +kernel, by decide +kernel, ?_⟩
    rintro suffix (rfl | rfl) <;> rfl
  · refine ⟨rfl, rfl, ?_⟩
    rintro suffix (rfl | rfl) <;> rfl

end StaticSite
