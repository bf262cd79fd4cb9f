import StaticSite.Component.Loading

/-!
# Providers

A provider finds the component that an identifier names: in a table, by a function of the site, in
folders of files, or by asking other providers one after another.
-/

namespace StaticSite

open Markup

/-- A component that was found: markup, or else a producer or a value that is written out. -/
structure Source where
  identifier : Text
  markup : Option Text
  producer : Value
  origin : Option Text

/-- Folders that are searched in order. In each folder a markup file comes before a producer
file. -/
structure Folders where
  paths : List Path
  encoding : Text.Encoding
  markupSuffix : Text
  producerSuffix : Text
  runtime : Runtime

def Folders.ofPaths (paths : List Path) : Folders := ⟨paths, .utf8, ".html", ".py", .plain⟩

inductive Provider
  | table (entries : Table Value)
  | function (lookUp : Text → Script Value)
  | folders (folders : Folders)
  | choice (providers : List Provider)

/-- Backslashes and slashes separate the parts of an identifier alike. -/
def normalize (identifier : Text) : Text := Text.replaceChar '\\' '/' identifier

/-- A table of components under normalised identifiers. -/
def Provider.ofEntries (entries : List (Text × Value)) : Provider :=
  .table (Table.ofList (entries.map fun e => (normalize e.1, e.2)))

/-- Props that are for finding the component and are kept from producers. -/
def lookupNames : List Text := ["src".toList, "name".toList]

def Source.render (reenter : Engine.Reentry) (source : Source) (props : Props) : Engine Text :=
  match source.markup, source.producer with
  | some markup, _ => pure markup
  | none, .producer call => do
      let given := props.without lookupNames
      Engine.note (.called given)
      match ← Engine.attempt (Engine.run reenter (call given)) with
      | .ok value => if value.isNone then pure [] else Engine.ofExcept value.write
      | .error cause => throw (cause.inProducer source.identifier source.origin)
  | none, value => Engine.ofExcept value.write

namespace Folders

def markupPath (f : Folders) (base : Path) (identifier : Text) : Path :=
  base.child (normalize identifier ++ f.markupSuffix)

def producerPath (f : Folders) (base : Path) (identifier : Text) : Path :=
  base.child (normalize identifier ++ f.producerSuffix)

/-- The exports that can be a module's component, the first one there counting. -/
def exportNames : List Text := ["default".toList, "render".toList]

def moduleName (identifier : Text) : Text :=
  "_component_" ++ identifier.map fun c => if Text.isAlphanumeric c then c else '_'

/-- Whether a fault says that a module has no attribute of a name. -/
def isNoAttribute (fault : Fault) : Bool := fault.kind == "AttributeError".toList

/-- What a module has under the first of some names that it has anything under. A name that it does
not export is first asked for, and asked for again if there is something. -/
def firstExport (reenter : Engine.Reentry) (module : Module) (exports : Table Value) :
    List Text → Engine Value
  | [] => pure .none
  | name :: names =>
      match exports.get? name with
      | some value => pure value
      | none => do
          let asked := Engine.run reenter (module.missing name)
          match ← Engine.attempt asked with
          | .ok _ => asked
          | .error fault =>
              if isNoAttribute fault then firstExport reenter module exports names
              else throw fault

/-- Runs a module and gives its component, if it exports one. -/
def execute (reenter : Engine.Reentry) (identifier : Text) (path : Path) (module : Module) :
    Engine Value := do
  Engine.note (.executed module.label (moduleName identifier))
  match ← Engine.attempt (Engine.run reenter (module.body (moduleName identifier))) with
  | .ok exports => firstExport reenter module (Table.ofList exports) exportNames
  | .error cause => throw (cause.inProducer identifier (some path.text))

/-- Whether a place found below a search path is hidden from listings. -/
def isHidden (path : Path) : Bool :=
  path.parts.contains "__pycache__".toList || Text.startsWith "__" path.name

/-- What a search below a base sees: what is not there, or may not be looked at, is passed over. -/
def view (files : SiteTree) (base : Path) : Pattern.View Fault Content where
  look place :=
    match files.look (base.below place) with
    | .ok n => .ok (some n)
    | .error .missing => .ok none
    | .error .notFolder => .ok none
    | .error .denied => .ok none
    | .error cause => .error (.file cause (base.below place))
  shows place :=
    match files.list (base.below place) with
    | .ok _ => .ok true
    | .error .denied => .ok false
    | .error cause => .error (.file cause (base.below place))

/-- The places below a base that fit a pattern. -/
def matching (files : SiteTree) (base : Path) (pattern : List Text) :
    Except Fault (List (List Text)) :=
  match files.look base with
  | .ok n => Pattern.select (view files base) (Pattern.doubleStar :: pattern) [] n
  | .error _ => .ok []

/-- The identifiers of the files below a base that have a suffix. -/
def listSuffix (base : Path) (suffix : Text) : Engine (List Text) := do
  let pattern := Pattern.parts ('*' :: suffix)
  if !Pattern.isValid pattern then throw .badPattern
  let places ← Engine.ofExcept (matching (← read) base pattern)
  let shown := places.filter fun place => !isHidden (base.below place)
  if shown.contains [] then throw (.namelessPath ⟨.relative, []⟩)
  return shown.map fun place => Path.slashed (Path.dropSuffix place)

end Folders

/-- The files themselves. -/
def Access.direct : Access := ⟨Engine.find?, Engine.readContent, Folders.listSuffix⟩

namespace Folders

section Via

variable (a : Access) (f : Folders) (reenter : Engine.Reentry) (identifier : Text)

/-- The text of a markup file that is there and can be read. One that cannot is logged. -/
def readMarkupVia (path : Path) : Engine (Option Text) := do
  if ← a.isFile path then
    match ← Engine.attempt (a.readText f.encoding path) with
    | .ok markup => return some markup
    | .error fault =>
        if fault.isFileFault then
          Engine.record .warning .providers
            ("Could not read component file " ++ path.text ++ ": " ++ fault.message)
          return none
        else throw fault
  else return none

/-- Loads and runs a module file and gives its component, if it exports one. -/
def loadProducerVia (path : Path) : Engine Value := do
  match ← Loading.ofFile a f.runtime path with
  | .unknown => return .none
  | .unlinked fault => throw fault
  | .broken cause => throw (cause.inProducer identifier (some path.text))
  | .ready module kept => do
      Engine.keep kept
      execute reenter identifier path module

def listBaseVia (base : Path) : Engine (List Text) := do
  if ← a.isFolder base then
    return (← a.listSuffix base f.markupSuffix) ++ (← a.listSuffix base f.producerSuffix)
  else return []

/-- The identifiers of all component files, in code point order. -/
def listVia : Engine (List Text) :=
  return Text.sortedSet ((← f.paths.mapM (listBaseVia a f)).flatten)

def resolveAtVia (base : Path) : Engine (Option Source) := do
  let markupPath := f.markupPath base identifier
  match ← readMarkupVia a f markupPath with
  | some markup => return some ⟨identifier, some markup, .none, some markupPath.text⟩
  | none =>
      let producerPath := f.producerPath base identifier
      if ← a.isFile producerPath then
        let value ← loadProducerVia a f reenter identifier producerPath
        return if value.isNone then none else some ⟨identifier, none, value, some producerPath.text⟩
      else return none

/-- Searches bases in order. When none has the component, the first producer that failed decides
the fault. -/
def resolveFromVia : Option Fault → List Path → Engine Source
  | some fault, [] => throw fault
  | none, [] => do
      throw (.componentNotFound identifier (f.paths.map Path.text) (← listVia a f))
  | held, base :: bases => do
      match ← Engine.attempt (resolveAtVia a f reenter identifier base) with
      | .ok (some source) => return source
      | .ok none => resolveFromVia held bases
      | .error fault =>
          match fault with
          | .producerFailed .. => resolveFromVia (held.or (some fault)) bases
          | _ => throw fault

/-- Looks a component up over an access. -/
def resolveVia : Engine Source := resolveFromVia a f reenter identifier none f.paths

end Via

/-! ### Over the files themselves -/

def readMarkup (f : Folders) (path : Path) : Engine (Option Text) := readMarkupVia .direct f path

def loadProducer (f : Folders) (reenter : Engine.Reentry) (identifier : Text) (path : Path) :
    Engine Value :=
  loadProducerVia .direct f reenter identifier path

def listBase (f : Folders) (base : Path) : Engine (List Text) := listBaseVia .direct f base

def list (f : Folders) : Engine (List Text) := listVia .direct f

def resolveAt (f : Folders) (reenter : Engine.Reentry) (identifier : Text) (base : Path) :
    Engine (Option Source) :=
  resolveAtVia .direct f reenter identifier base

def resolveFrom (f : Folders) (reenter : Engine.Reentry) (identifier : Text)
    (held : Option Fault) (bases : List Path) : Engine Source :=
  resolveFromVia .direct f reenter identifier held bases

def resolve (f : Folders) (reenter : Engine.Reentry) (identifier : Text) : Engine Source :=
  resolveVia .direct f reenter identifier

end Folders

def tableOrigin : Text := "<dict>"

def functionOrigin : Text := "<function>"

/-- A value as a component: a text is markup, a source is taken as it is, anything else is a
producer or written out. -/
def Source.ofValue (identifier origin : Text) : Value → Source
  | .text markup => ⟨identifier, some markup, .none, some origin⟩
  | .source identifier markup producer origin => ⟨identifier, markup, producer, origin⟩
  | value => ⟨identifier, none, value, some origin⟩

namespace Provider

def resolveTable (entries : Table Value) (identifier : Text) : Engine Source :=
  match entries.get? (normalize identifier) with
  | none => throw (.componentNotFound identifier [] (Text.sortedSet entries.names))
  | some (.text markup) => pure ⟨identifier, some markup, .none, none⟩
  | some value => pure ⟨identifier, none, value, some tableOrigin⟩

def resolveFunction (reenter : Engine.Reentry) (lookUp : Text → Script Value)
    (identifier : Text) : Engine Source := do
  Engine.note (.lookedUp (normalize identifier))
  match ← Engine.attempt (Engine.run reenter (lookUp (normalize identifier))) with
  | .ok value =>
      if value.isNone then throw (.componentNotFound identifier [] [])
      else return Source.ofValue identifier functionOrigin value
  | .error cause => throw (cause.inProducer identifier (some functionOrigin))

mutual

def list : Provider → Engine (List Text)
  | .table entries => pure (Text.sortedSet entries.names)
  | .function _ => pure []
  | .folders f => f.list
  | .choice providers => return Text.sortedSet (← listAll providers)

def listAll : List Provider → Engine (List Text)
  | [] => pure []
  | p :: ps => return (← p.list) ++ (← listAll ps)

end

mutual

def resolve (reenter : Engine.Reentry) (identifier : Text) : Provider → Engine Source
  | .table entries => do
      Engine.note (.asked identifier)
      resolveTable entries identifier
  | .function lookUp => do
      Engine.note (.asked identifier)
      resolveFunction reenter lookUp identifier
  | .folders f => do
      Engine.note (.asked identifier)
      f.resolve reenter identifier
  | .choice providers => do
      match ← resolveFirst reenter identifier none providers with
      | some source => return source
      | none => throw (.componentNotFound identifier [] (Text.sortedSet (← listAll providers)))

/-- Asks providers in order. When none has the component, the first producer that failed decides
the fault; without one there is no source. -/
def resolveFirst (reenter : Engine.Reentry) (identifier : Text) :
    Option Fault → List Provider → Engine (Option Source)
  | some fault, [] => throw fault
  | none, [] => pure none
  | held, p :: ps => do
      match ← Engine.attempt (p.resolve reenter identifier) with
      | .ok source => return some source
      | .error fault =>
          match fault with
          | .producerFailed .. => resolveFirst reenter identifier (held.or (some fault)) ps
          | .componentNotFound .. => resolveFirst reenter identifier held ps
          | _ => throw fault

end

end Provider

end StaticSite
