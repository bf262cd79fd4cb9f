import StaticSite.Command.Grammar
import StaticSite.Site.Starter
import StaticSite.Terminal.Diagnostic

/-!
# The command line program

Three commands: `build` writes a whole site, `render` writes one page to the output, `init` writes
a new site. A run gives its exit code and what it writes to its two outputs.
-/

namespace StaticSite.Command

def programName : Text := "html-component-engine"

def textOption (word : Text) : OptionSpec := ⟨none, word, .text⟩

def flagOption (word : Text) : OptionSpec := ⟨none, word, .flag⟩

def helpOption : OptionSpec := ⟨some 'h', "help", .help⟩

/-- The options that say where a site lies. -/
def projectOptions : List OptionSpec :=
  [textOption "project", textOption "src", textOption "components-dir", textOption "assets-dir",
    ⟨none, "max-depth", .integer⟩]

def mainGrammar : Grammar :=
  ⟨programName, [helpOption, ⟨some 'v', "verbose", .flag⟩], .remainder "command"⟩

def buildGrammar : Grammar :=
  ⟨programName ++ " build",
    helpOption :: projectOptions ++
      [textOption "out", flagOption "no-inline-styles", flagOption "no-inline-scripts"],
    .none⟩

def renderGrammar : Grammar :=
  ⟨programName ++ " render", helpOption :: projectOptions, .one "page"⟩

def initGrammar : Grammar :=
  ⟨programName ++ " init", [helpOption, flagOption "force"], .one "name"⟩

inductive Action
  | build
  | render
  | init

namespace Action

def all : List Action := [build, render, init]

def name : Action → Text
  | build => "build"
  | render => "render"
  | init => "init"

def grammar : Action → Grammar
  | build => buildGrammar
  | render => renderGrammar
  | init => initGrammar

end Action

structure Request where
  verbose : Bool
  action : Action
  reading : Reading

/-- Reads a command line: options of the program, a command, and what the command takes. -/
def Request.read (words : List Text) : Except Stop Request := do
  let outer ← mainGrammar.read words
  match outer.positional with
  | some (name :: words) =>
      match Action.all.find? (·.name = name) with
      | none =>
          mainGrammar.argumentMisuse "command"
            ("invalid choice: " ++ Text.quoted name ++ " (choose from " ++
              Text.join ", " (Action.all.map fun action => Text.quoted action.name) ++ ")")
      | some action =>
          let reading ← action.grammar.read words
          let extras := outer.extras ++ reading.extras
          if !extras.isEmpty then
            mainGrammar.misuse ("unrecognized arguments: " ++ Text.join " " extras)
          else return ⟨outer.has "verbose", action, reading⟩
  | _ => mainGrammar.misuse "the following arguments are required: command"

namespace Request

def option (r : Request) (name default : Text) : Text := (r.reading.value? name).getD default

def argument (r : Request) : Text := (r.reading.positional.bind List.head?).getD []

/-- The absolute path that a path means. A path that cannot be one is refused. -/
def resolve (p : Path) : Builder Path := do
  if p.text.contains '\x00' then throw .nullInPath
  return (← get).tree.resolve p

def environment (r : Request) : Builder Environment := do
  let project ← resolve (Path.ofText (r.option "project" "."))
  let base := Environment.ofRoot (project.child (r.option "src" "src")) (some project)
  return { base.withComponentsDir (r.option "components-dir" Environment.defaultComponentsDir) with
    assetsDir := r.option "assets-dir" Asset.defaultAssetsDir
    maxDepth := ((r.reading.value? "max-depth").bind Text.integer?).getD Context.defaultMaxDepth
    inlineCss := !r.reading.has "no-inline-styles"
    inlineJs := !r.reading.has "no-inline-scripts" }

end Request

/-- What a run has written so far, and its exit code. -/
structure Output where
  exit : Nat
  stdout : Text
  stderr : Text

/-- A run of the program: what it writes is kept when it fails. -/
abbrev Run := ExceptT Fault (StateM (World × Output))

namespace Run

def perform {α : Type} (act : Builder α) : Run α := fun s =>
  match act s.1 with
  | (result, world) => (result, (world, s.2))

def printLine (line : Text) : Run Unit :=
  modify fun s => (s.1, { s.2 with stdout := s.2.stdout ++ line ++ ['\n'] })

def print (s : Text) : Run Unit :=
  modify fun w => (w.1, { w.2 with stdout := w.2.stdout ++ s })

def complain (line : Text) : Run Unit :=
  modify fun s => (s.1, { s.2 with stderr := s.2.stderr ++ line ++ ['\n'] })

def exit (code : Nat) : Run Unit := modify fun s => (s.1, { s.2 with exit := code })

end Run

def writtenLine (styling : Bool) (file : Text) : Text :=
  "  " ++ Terminal.Role.success.apply styling "✓" ++ " " ++ file

def printWritten (styling : Bool) : List Text → Run Unit
  | [] => pure ()
  | file :: files => do
      Run.printLine (writtenLine styling file)
      printWritten styling files

def runBuild (styling : Bool) (r : Request) : Run Unit := do
  let e ← Run.perform r.environment
  let out := e.projectRoot ++ Path.ofText (r.option "out" "dist")
  Run.printLine (Terminal.colorize styling [.cyan, .bold] "HTML Component Engine - Build Started")
  let report ← Run.perform (buildSite e out)
  printWritten styling report.pages
  Run.printLine (Terminal.Role.success.apply styling
    ("Build complete: " ++ Text.ofNat report.pages.length ++ " page(s), " ++
      Text.ofNat report.assets.length ++ " asset(s) → " ++ out.text))

def runRender (r : Request) : Run Unit := do
  let e ← Run.perform r.environment
  Run.print (← Run.perform (Builder.observe (e.renderPage r.argument)))

/-- Writes a new site. A folder with something in it is refused unless it is the current one or
writing is forced. -/
def runInit (styling : Bool) (r : Request) : Run Unit := do
  let name := r.argument
  let isHere := name == ['.']
  let target ← Run.perform (Request.resolve (Path.ofText name))
  let refused ←
    if isHere || r.reading.has "force" then pure false
    else pure !(← Run.perform (Builder.observe (Starter.isEmptyFolder target)))
  if refused then
    Run.complain (Terminal.Role.failure.apply styling
      ("Directory \"" ++ name ++ "\" is not empty. Use --force to continue."))
    Run.exit 1
  else
    Run.printLine (Terminal.Role.dim.apply styling ("Creating project in " ++ target.text ++ "..."))
    printWritten styling (← Run.perform (Starter.create target target.name))
    Run.printLine []
    Run.printLine (Terminal.Role.success.apply styling "Project created successfully!")
    Run.printLine (Terminal.colorize styling [.bold] "Next steps:")
    if !isHere then Run.printLine (Terminal.colorize styling [.cyan] ("  cd " ++ name))
    Run.printLine (Terminal.colorize styling [.cyan] "  html-component-engine build")

def runAction (styling : Bool) (r : Request) : Run Unit :=
  match r.action with
  | .build => runBuild styling r
  | .render => runRender r
  | .init => runInit styling r

/-- The lines that log records make on the terminal: from `info` on, or all of them. -/
def logLines (verbose : Bool) (records : List LogRecord) : Text :=
  (records.filter fun record => verbose || record.level ≠ .debug).flatMap fun record =>
    record.level.name ++ " " ++ record.logger.name ++ ": " ++ record.message ++ ['\n']

/-- How a run of the program ends. -/
inductive Outcome
  | finished (output : Output)
  /-- The command line was not understood, or asked for help. -/
  | stopped (stop : Stop)
  /-- A fault that is not about files ended the run. -/
  | failed (fault : Fault)

/-- Runs the program. A fault about files is reported and makes the exit code 1. -/
def run (styling : Bool) (words : List Text) (w : World) : Outcome × World :=
  match Request.read words with
  | .error stop => (.stopped stop, w)
  | .ok request =>
      let earlier := w.session.log.length
      match runAction styling request (w, ⟨0, [], []⟩) with
      | (result, world, output) =>
          let records := world.session.log.drop earlier
          let lines := logLines request.verbose records
          match result with
          | .ok _ => (.finished { output with stderr := lines ++ output.stderr }, world)
          | .error fault =>
              if fault.isFileFault then
                let complaint :=
                  Terminal.Role.failure.apply styling ("Error: " ++ fault.message) ++ ['\n']
                (.finished ⟨1, output.stdout, lines ++ output.stderr ++ complaint⟩, world)
              else (.failed fault, world)

end StaticSite.Command
