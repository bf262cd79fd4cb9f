import StaticSite.Component.Script

/-!
# The engine

What a compile does besides giving a text: it reads files, keeps the current context, writes log
records, and notes what the site's own code was asked. An `Engine` action sees the file tree and
cannot change it. What it has done stays done when it fails.
-/

namespace StaticSite

open Markup

inductive Level
  | debug
  | info
  | warning
  | error
  deriving DecidableEq, Repr

def Level.name : Level → Text
  | debug => "DEBUG"
  | info => "INFO"
  | warning => "WARNING"
  | error => "ERROR"

inductive Logger
  | compiler
  | providers
  | assets
  | pages
  | build
  deriving DecidableEq, Repr

def Logger.name : Logger → Text
  | compiler => "html_component_engine.compiler"
  | providers => "html_component_engine.environment.providers"
  | assets => "html_component_engine.assets"
  | pages => "html_component_engine.pages"
  | build => "html_component_engine.build"

structure LogRecord where
  level : Level
  logger : Logger
  message : Text
  deriving DecidableEq, Repr

/-- What happened at the border between the engine and a site. -/
inductive Event
  /-- A provider that asks no other was asked for a component. -/
  | asked (identifier : Text)
  /-- A site's function was called to look a component up. -/
  | lookedUp (identifier : Text)
  | called (props : Props)
  | executed (label moduleName : Text)

structure Session where
  context : Option Context
  log : List LogRecord
  /-- What happened, each event with the context that was current. -/
  trace : List (Option Context × Event)
  counters : List Nat
  /-- The bytecode files that running modules has left, in order. -/
  bytecode : List (Path × List UInt8)

def Session.start : Session := ⟨none, [], [], [], []⟩

abbrev Engine := ReaderT SiteTree (ExceptT Fault (StateM Session))

namespace Engine

/-- The result or fault of an action, with the session after it. -/
def exec {α : Type} (act : Engine α) (files : SiteTree) (s : Session) : Except Fault α × Session :=
  act files s

def record (level : Level) (logger : Logger) (message : Text) : Engine Unit :=
  modify fun s => { s with log := s.log ++ [⟨level, logger, message⟩] }

def note (event : Event) : Engine Unit :=
  modify fun s => { s with trace := s.trace ++ [(s.context, event)] }

/-- Leaves bytecode files behind. -/
def keep (files : List (Path × List UInt8)) : Engine Unit :=
  modify fun s => { s with bytecode := s.bytecode ++ files }

def currentContext : Engine (Option Context) := return (← get).context

/-- Runs an action in a context. Whether it ends well or not, the context that was current before
is current again. -/
def within {α : Type} (c : Context) (act : Engine α) : Engine α := fun files s =>
  match act files { s with context := some c } with
  | (result, after) => (result, { after with context := s.context })

/-- Runs an action and gives its fault as a value, unless the fault is a request to stop. -/
def attempt {α : Type} (act : Engine α) : Engine (Except Fault α) := fun files s =>
  match act files s with
  | (.ok a, after) => (.ok (.ok a), after)
  | (.error fault, after) =>
      if fault.stops then (.error fault, after) else (.ok (.error fault), after)

def ofExcept {α : Type} : Except Fault α → Engine α
  | .ok a => pure a
  | .error fault => throw fault

/-- A compile of a text as a page of its own, for the use of a site's code. -/
abbrev Reentry := Text → Option Text → Engine Text

def run {α : Type} (reenter : Reentry) : Script α → Engine α
  | .done a => pure a
  | .fail fault => throw fault
  | .context next => do run reenter (next (← currentContext))
  | .compile html page next => do run reenter (next (← reenter html page))
  | .newCounter next => do
      let counter := (← get).counters.length
      modify fun s => { s with counters := s.counters ++ [0] }
      run reenter (next counter)
  | .count counter next => do
      let reached := (← get).counters.getD counter 0 + 1
      modify fun s => { s with counters := s.counters.set counter reached }
      run reenter (next reached)

/-- What a path leads to, where a path that leads nowhere is no fault. -/
def find? (p : Path) : Engine (Option (Node Content)) := do
  if p.text.contains '\x00' then return none
  match (← read).look p with
  | .ok n => return some n
  | .error .missing => return none
  | .error .notFolder => return none
  | .error cause => throw (.file cause p)

def isFile (p : Path) : Engine Bool := return ((← find? p).map fun n => !n.isFolder).getD false

def isFolder (p : Path) : Engine Bool := return ((← find? p).map Node.isFolder).getD false

/-- What a path leads to, opened for reading, where a path that leads nowhere is a fault. -/
def openNode (p : Path) : Engine (Node Content) := do
  if p.text.contains '\x00' then throw .nullInPath
  match (← read).read p with
  | .ok n => return n
  | .error cause => throw (.file cause p)

/-- The entries of a folder. -/
def openFolder (p : Path) : Engine (List (Text × Node Content)) := do
  if p.text.contains '\x00' then throw .nullInPath
  match (← read).list p with
  | .ok entries => return entries
  | .error cause => throw (.file cause p)

/-- The content of a file. -/
def readContent (p : Path) : Engine Content := do
  match ← openNode p with
  | .folder _ => throw (.file .isFolder p)
  | .file content => return content

/-- The text that a content holds, with its line ends unified. -/
def decode (encoding : Text.Encoding) (content : Content) : Engine Text :=
  match encoding.decode content.toBytes with
  | .ok s => pure (Text.unifyLineEnds s)
  | .error fault => throw (.ofCodec fault)

/-- The text of a file. -/
def readText (encoding : Text.Encoding) (p : Path) : Engine Text := do
  decode encoding (← readContent p)

section Exec

variable {α β : Type} (files : SiteTree) (s : Session)

@[simp] theorem exec_pure (a : α) : (pure a : Engine α).exec files s = (.ok a, s) := rfl

@[simp] theorem exec_throw (fault : Fault) :
    (throw fault : Engine α).exec files s = (.error fault, s) := rfl

@[simp] theorem exec_bind (act : Engine α) (next : α → Engine β) :
    (act >>= next).exec files s =
      match act.exec files s with
      | (.ok a, after) => (next a).exec files after
      | (.error fault, after) => (.error fault, after) := by
  simp only [exec, bind, ReaderT.bind, ExceptT.bind, ExceptT.mk, StateT.bind]
  match act files s with
  | (.ok _, _) => rfl
  | (.error _, _) => rfl

theorem exec_bind_of_ok {files : SiteTree} {s : Session} {act : Engine α} {a : α}
    (h : (act.exec files s).1 = .ok a) (next : α → Engine β) :
    (act >>= next).exec files s = (next a).exec files (act.exec files s).2 := by
  rw [exec_bind]
  cases hact : act.exec files s with
  | mk result after =>
      rw [hact] at h
      cases h
      rfl

theorem exec_bind_of_error {files : SiteTree} {s : Session} {act : Engine α} {fault : Fault}
    (h : (act.exec files s).1 = .error fault) (next : α → Engine β) :
    (act >>= next).exec files s = (.error fault, (act.exec files s).2) := by
  rw [exec_bind]
  cases hact : act.exec files s with
  | mk result after =>
      rw [hact] at h
      cases h
      rfl

@[simp] theorem exec_record (level : Level) (logger : Logger) (message : Text) :
    (record level logger message).exec files s =
      (.ok (), { s with log := s.log ++ [⟨level, logger, message⟩] }) := rfl

@[simp] theorem exec_note (event : Event) :
    (note event).exec files s =
      (.ok (), { s with trace := s.trace ++ [(s.context, event)] }) := rfl

@[simp] theorem exec_keep (kept : List (Path × List UInt8)) :
    (keep kept).exec files s = (.ok (), { s with bytecode := s.bytecode ++ kept }) := rfl

@[simp] theorem exec_read : (read : Engine SiteTree).exec files s = (.ok files, s) := rfl

theorem exec_within (c : Context) (act : Engine α) :
    (within c act).exec files s =
      ((act.exec files { s with context := some c }).1,
        { (act.exec files { s with context := some c }).2 with context := s.context }) := rfl

/-- However an action in a context ends, the context is as before. -/
theorem context_exec_within (c : Context) (act : Engine α) :
    ((within c act).exec files s).2.context = s.context := rfl

theorem exec_attempt (act : Engine α) :
    (attempt act).exec files s =
      match act.exec files s with
      | (.ok a, after) => (.ok (.ok a), after)
      | (.error fault, after) =>
          if fault.stops then (.error fault, after) else (.ok (.error fault), after) := rfl

theorem exec_attempt_of_ok {files : SiteTree} {s : Session} {act : Engine α} {a : α}
    (h : (act.exec files s).1 = .ok a) :
    (attempt act).exec files s = (.ok (.ok a), (act.exec files s).2) := by
  rw [exec_attempt]
  cases hact : act.exec files s with
  | mk result after =>
      rw [hact] at h
      cases h
      rfl

theorem exec_attempt_of_error {files : SiteTree} {s : Session} {act : Engine α} {fault : Fault}
    (h : (act.exec files s).1 = .error fault) (hstops : fault.stops = false) :
    (attempt act).exec files s = (.ok (.error fault), (act.exec files s).2) := by
  rw [exec_attempt]
  cases hact : act.exec files s with
  | mk result after =>
      rw [hact] at h
      cases h
      simp [hstops]

theorem exec_attempt_of_stop {files : SiteTree} {s : Session} {act : Engine α} {fault : Fault}
    (h : (act.exec files s).1 = .error fault) (hstops : fault.stops) :
    (attempt act).exec files s = (.error fault, (act.exec files s).2) := by
  rw [exec_attempt]
  cases hact : act.exec files s with
  | mk result after =>
      rw [hact] at h
      cases h
      simp [hstops]

/-! ### Site code -/

variable (reenter : Reentry)

@[simp] theorem exec_run_done (a : α) :
    (run reenter (.done a)).exec files s = (.ok a, s) := rfl

@[simp] theorem exec_run_fail (fault : Fault) :
    (run reenter (.fail fault : Script α)).exec files s = (.error fault, s) := rfl

theorem exec_run_context (next : Option Context → Script α) :
    (run reenter (.context next)).exec files s =
      (run reenter (next s.context)).exec files s := rfl

theorem exec_run_compile (html : Text) (page : Option Text) (next : Text → Script α) :
    (run reenter (.compile html page next)).exec files s =
      (reenter html page >>= fun out => run reenter (next out)).exec files s := rfl

theorem exec_run_newCounter (next : Nat → Script α) :
    (run reenter (.newCounter next)).exec files s =
      (run reenter (next s.counters.length)).exec files
        { s with counters := s.counters ++ [0] } := rfl

theorem exec_run_count (counter : Nat) (next : Nat → Script α) :
    (run reenter (.count counter next)).exec files s =
      (run reenter (next (s.counters.getD counter 0 + 1))).exec files
        { s with counters := s.counters.set counter (s.counters.getD counter 0 + 1) } := rfl

end Exec

end Engine

end StaticSite
