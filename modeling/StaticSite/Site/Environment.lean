import StaticSite.Asset.Inline
import StaticSite.Compile.Expansion

/-!
# Environments

An environment says where a site's pages, components and assets lie and how its pages are built.
From it a page is compiled, rendered for development, or built for publication.
-/

namespace StaticSite

open Markup

structure Environment where
  root : Path
  projectRoot : Path
  componentsDir : Text
  assetsDir : Text
  provider : Provider
  maxDepth : Int
  inlineCss : Bool
  inlineJs : Bool
  /-- What marks the scripts of a development server. -/
  markers : List Text

namespace Environment

def defaultComponentsDir : Text := "components"

/-- Where components are searched for: in the pages root, in the pages folder of the project, and
in the project. -/
def searchPaths (root projectRoot : Path) (componentsDir : Text) : List Path :=
  [root.child componentsDir, (projectRoot.child "src").child componentsDir,
    projectRoot.child componentsDir]

/-- The environment of a pages root with everything else as usual. -/
def ofRoot (root : Path) (projectRoot : Option Path) : Environment :=
  let project := projectRoot.getD root.parent
  { root
    projectRoot := project
    componentsDir := defaultComponentsDir
    assetsDir := Asset.defaultAssetsDir
    provider := .folders (.ofPaths (searchPaths root project defaultComponentsDir))
    maxDepth := Context.defaultMaxDepth
    inlineCss := true
    inlineJs := true
    markers := Asset.defaultMarkers }

/-- Names the components folder, which is then also searched for components. -/
def withComponentsDir (e : Environment) (componentsDir : Text) : Environment :=
  { e with
    componentsDir
    provider := .folders (.ofPaths (searchPaths e.root e.projectRoot componentsDir)) }

def componentsRoot (e : Environment) : Path := e.root.child e.componentsDir

def assetsRoot (e : Environment) : Path := e.root.child e.assetsDir

def assetRoots (e : Environment) : Asset.Roots := ⟨e.root, e.projectRoot, e.assetsDir⟩

def compiler (e : Environment) : Compiler := ⟨e.provider, e.maxDepth⟩

def compile (e : Environment) (html : Text) (page : Option Text) : Engine Text :=
  e.compiler.compile html page

def inlineStylesheets (e : Environment) (html : Text) : Engine Text :=
  Asset.inlineStylesheets e.assetRoots html

def inlineScripts (e : Environment) (html : Text) : Engine Text :=
  Asset.inlineScripts e.assetRoots e.markers html

def pagePath (e : Environment) (page : Text) : Path := e.root.child page

/-- A page for development: components expanded, holes left over emptied. -/
def renderPage (e : Environment) (page : Text) : Engine Text := do
  let html ← Engine.readText .utf8 (e.pagePath page)
  return clearHoles (← e.compile html (some page))

/-- A page for publication: also with its stylesheets and scripts inlined, as far as wanted, and
without the scripts of a development server. -/
def buildPage (e : Environment) (page : Text) : Engine Text := do
  let html ← Engine.readText .utf8 (e.pagePath page)
  let html ← e.compile html (some page)
  let html ← if e.inlineCss then e.inlineStylesheets html else pure html
  let html ← if e.inlineJs then e.inlineScripts html else pure html
  return Asset.stripDevScripts e.markers (clearHoles html)

end Environment

end StaticSite
