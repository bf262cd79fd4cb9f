import StaticSite.Site.Pages

/-!
# Building a site

A build writes every page, compiled, and then every asset, unchanged, into an output folder.
`Builder` actions change the file tree by the operations of this module only.
-/

namespace StaticSite

/-- The folders above a path, from the outermost on. -/
def Path.above (p : Path) : List Path :=
  (List.range p.parts.length).map fun n => ⟨p.anchor, p.parts.take n⟩

/-- Leaves a file at a path, with the folders above it. What cannot be made is not made. -/
def Tree.leave {α : Type} (t : Tree α) (p : Path) (content : α) : Tree α :=
  let made := p.above.foldl (fun t folder => (t.makeFolder folder).toOption.getD t) t
  (made.writeFile p content).toOption.getD made

structure World where
  tree : SiteTree
  session : Session

/-- All files there are in the end: the tree, and the bytecode that running modules has left. The
bytecode is kept apart until then. A module that is run again is compiled again, to the same module,
and bytecode that a build has left among the assets itself is not copied with them. -/
def World.disk (w : World) : SiteTree :=
  w.session.bytecode.foldl (fun t file => t.leave file.1 (.bytes file.2)) w.tree

abbrev Builder := ExceptT Fault (StateM World)

namespace Builder

/-- Does what an engine does, which leaves the tree as it is. -/
def observe {α : Type} (act : Engine α) : Builder α := fun w =>
  match act w.tree w.session with
  | (result, session) => (result, { w with session })

@[simp] theorem tree_observe {α : Type} (act : Engine α) (w : World) :
    (observe act w).2.tree = w.tree := rfl

def info (message : Text) : Builder Unit := observe (Engine.record .info .build message)

/-- Changes the tree by an operation at a path. -/
def change (p : Path) (operation : SiteTree → Except FileCause SiteTree) : Builder Unit := do
  if p.text.contains '\x00' then throw .nullInPath
  match operation (← get).tree with
  | .ok tree => modify fun w => { w with tree }
  | .error cause => throw (.file cause p)

def makeFolder (p : Path) : Builder Unit := change p fun t => t.makeFolder p

/-- Refuses a folder that could not be made, unless it is there already. -/
def unlessFolder (p : Path) (fault : Fault) : Builder Unit := do
  if fault.isFileFault && (← observe (Engine.isFolder p)) then pure () else throw fault

/-- Makes a folder and, where they are missing, the folders above it: the last `above` of them. -/
def makeFoldersAbove : Nat → Path → Builder Unit
  | above, p => do
      try makeFolder p
      catch fault =>
        match fault, above with
        | .file .missing _, above + 1 => do
            makeFoldersAbove above p.parent
            try makeFolder p
            catch fault =>
              match fault with
              | .file .missing _ => throw fault
              | _ => unlessFolder p fault
        | .file .missing _, 0 => throw fault
        | _, _ => unlessFolder p fault

/-- Makes a folder with all folders above it. One that is there already is fine. -/
def makeFolders (p : Path) : Builder Unit := makeFoldersAbove p.parts.length p

def writeText (p : Path) (s : Text) : Builder Unit :=
  change p fun t => t.writeFile p (.bytes (Text.encodeUtf8 s))

/-- Copies a file. A target that is a folder is written into, under the file's name. -/
def copyFile (source target : Path) : Builder Unit := do
  let intoFolder ← observe (Engine.isFolder target)
  let target := if intoFolder then target.below [source.name] else target
  if (← get).tree.samePlace source target then throw (.sameFile source target intoFolder)
  match ← observe (Engine.openNode source) with
  | .file content => change target fun t => t.writeFile target content
  | .folder _ => throw (.file .isFolder source)

end Builder

structure Report where
  outDir : Path
  /-- The pages, relative to the output folder. -/
  pages : List Text
  /-- The assets, relative to the output folder. -/
  assets : List Text

def insertPlace (place : List Text) : List (List Text) → List (List Text)
  | [] => [place]
  | p :: ps => if Path.partsLe place p then place :: p :: ps else p :: insertPlace place ps

def sortPlaces (places : List (List Text)) : List (List Text) := places.foldr insertPlace []

/-- Those of some places below a folder at which there are files. -/
def filesAmong (root : Path) : List (List Text) → Engine (List (List Text))
  | [] => pure []
  | place :: places => do
      let there ← Engine.isFile (root.below place)
      let files ← filesAmong root places
      return if there then place :: files else files

/-- The places of all files below a folder. -/
def filesBelow (root : Path) : Engine (List (List Text)) := do
  let places ← Engine.ofExcept (Folders.matching (← read) root (Pattern.parts "*"))
  return sortPlaces (← filesAmong root places)

def copyEach (assetsRoot : Path) (assetsDir : Text) (out : Path) :
    List (List Text) → Builder (List Text)
  | [] => pure []
  | place :: places => do
      let relative := ((Path.ofText assetsDir).below place).text
      let target := out.child relative
      Builder.makeFolders target.parent
      Builder.copyFile (assetsRoot.below place) target
      return relative :: (← copyEach assetsRoot assetsDir out places)

def copyAssets (e : Environment) (out : Path) : Builder (List Text) := do
  if ← Builder.observe (Engine.isFolder e.assetsRoot) then
    let places ← Builder.observe (filesBelow e.assetsRoot)
    Builder.info ("Copying " ++ Text.ofNat places.length ++ " asset file(s)")
    copyEach e.assetsRoot e.assetsDir out places
  else
    Builder.info "No assets directory found, skipping asset copy"
    return []

def buildEach (e : Environment) (out : Path) : List Text → Builder Unit
  | [] => pure ()
  | page :: pages => do
      let html ← Builder.observe (e.buildPage page)
      let target := out.child page
      Builder.makeFolders target.parent
      Builder.writeText target html
      Builder.info ("Compiled: " ++ page)
      buildEach e out pages

def Environment.defaultOut (e : Environment) : Path := e.projectRoot.child "dist"

def buildSite (e : Environment) (out : Path) : Builder Report := do
  Builder.info ("Source: " ++ e.root.text)
  Builder.info ("Components: " ++ e.componentsRoot.text)
  Builder.info ("Assets: " ++ e.assetsRoot.text)
  let pages ← Builder.observe (discoverPages e.root e.componentsDir)
  Builder.info ("Found " ++ Text.ofNat pages.length ++ " HTML file(s)")
  buildEach e out pages
  let assets ← copyAssets e out
  return ⟨out, pages, assets⟩

end StaticSite
