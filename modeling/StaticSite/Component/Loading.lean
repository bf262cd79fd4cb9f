import StaticSite.Engine
import StaticSite.Files.Pattern

/-!
# Loading modules

From the file of a producer to the module that is run. Whether there is a module in a file is for
the end of its name to say and for the runtime: a source is compiled, unless bytecode beside it
counts for it; bytecode is taken as it is; a native module is linked. What the runtime makes of the
bytes of a file is a parameter.
-/

namespace StaticSite

/-- What folders ask of a file system. -/
structure Access where
  find? : Path → Engine (Option (Node Content))
  readContent : Path → Engine Content
  /-- The identifiers of the files below a base that have a suffix. -/
  listSuffix : Path → Text → Engine (List Text)

namespace Access

variable (a : Access)

def isFile (p : Path) : Engine Bool := return ((← a.find? p).map fun n => !n.isFolder).getD false

def isFolder (p : Path) : Engine Bool := return ((← a.find? p).map Node.isFolder).getD false

def readText (encoding : Text.Encoding) (p : Path) : Engine Text := do
  Engine.decode encoding (← a.readContent p)

end Access

/-- The kind and the message of a fault of the runtime. -/
structure Complaint where
  kind : Text
  message : Text

def Complaint.fault (c : Complaint) : Fault := .raised c.kind c.message

/-- What a runtime makes of the files of modules. -/
structure Runtime where
  /-- The module that a source is compiled to. -/
  compile : List UInt8 → Except Complaint Module
  /-- The module that bytecode holds. -/
  decode : List UInt8 → Except Complaint Module
  /-- The module that a native file is linked to, given its bytes or why it cannot be read. -/
  link : Except Fault (List UInt8) → Except Complaint Module
  /-- Where the bytecode of a source is looked for and left, if anywhere. -/
  cache : Path → Option Path
  /-- The module that bytecode holds, provided that it counts as made from the source at a path. -/
  reuse : Path → Content → List UInt8 → Option (Except Complaint Module)
  /-- The bytecode that is left of a source that was compiled, if any. -/
  keep : Path → Content → Option (List UInt8)

namespace Runtime

/-- A runtime that knows no language and leaves nothing behind. -/
def plain : Runtime where
  compile _ := .error ⟨"SyntaxError", "invalid syntax"⟩
  decode _ := .error ⟨"ImportError", "bad magic number"⟩
  link _ := .error ⟨"ImportError", "invalid ELF header"⟩
  cache _ := none
  reuse _ _ _ := none
  keep _ _ := none

def moduleOf (r : Runtime) : Content → Except Complaint Module
  | .code module => .ok module
  | .bytes data => r.compile data

/-- The file that a runtime with a tag usually leaves beside a source. -/
def cacheBeside (tag : Text) (source : Path) : Path :=
  let (stem, extension) := Path.splitSuffix source.name
  source.parent.below ["__pycache__".toList,
    (if extension.isEmpty then source.name.drop 1 else stem) ++ "." ++ tag ++ ".pyc"]

end Runtime

/-- How a file is loaded. -/
inductive Loader
  | native
  | source
  | bytecode
  deriving DecidableEq

/-- The ends of names by which files are loaded. -/
def Loader.suffix : Loader → Text
  | native => ".so"
  | source => ".py"
  | bytecode => ".pyc"

/-- The loader for a file, by its name. -/
def Loader.ofPath? (p : Path) : Option Loader :=
  [native, source, bytecode].find? fun loader => Text.endsWith loader.suffix p.text

/-- What loading a file comes to. -/
inductive Loading
  /-- There is no loader for the file. -/
  | unknown
  /-- The file cannot be linked, a fault that nothing holds up. -/
  | unlinked (fault : Fault)
  /-- There is no module to be had from the file. -/
  | broken (fault : Fault)
  /-- A module to be run, and the bytecode that is left of it. -/
  | ready (module : Module) (kept : List (Path × List UInt8))

namespace Loading

def ofResult : Except Complaint Module → Loading
  | .ok module => ready module []
  | .error complaint => broken complaint.fault

variable (a : Access) (r : Runtime)

/-- What the bytecode of a source counts for, if it counts. -/
def reuse (source : Path) : Engine (Option (Except Complaint Module)) := do
  match r.cache source, ← Engine.attempt (a.find? source) with
  | some cache, .ok (some (.file content)) =>
      match ← Engine.attempt (a.readContent cache) with
      | .ok bytecode => return r.reuse source content bytecode.toBytes
      | .error _ => return none
  | _, _ => return none

def ofSource (source : Path) : Engine Loading := do
  match ← reuse a r source with
  | some result => return ofResult result
  | none =>
      match ← Engine.attempt (a.readContent source) with
      | .error fault => return broken fault
      | .ok content =>
          match r.moduleOf content with
          | .error complaint => return broken complaint.fault
          | .ok module =>
              let kept := (r.cache source).bind fun cache => (r.keep source content).map (cache, ·)
              return ready module kept.toList

def ofBytecode (file : Path) : Engine Loading := do
  match ← Engine.attempt (a.readContent file) with
  | .error fault => return broken fault
  | .ok content => return ofResult (r.decode content.toBytes)

def ofNative (file : Path) : Engine Loading := do
  match r.link ((← Engine.attempt (a.readContent file)).map Content.toBytes) with
  | .ok module => return ready module []
  | .error complaint => return unlinked complaint.fault

/-- Loads a file, which is always found by its path from the root. -/
def ofFile (path : Path) : Engine Loading := do
  let file := (← read).absolute path
  match Loader.ofPath? path with
  | some .source => ofSource a r file
  | some .bytecode => ofBytecode a r file
  | some .native => ofNative a r file
  | none => return unknown

end Loading

end StaticSite
