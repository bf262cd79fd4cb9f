import StaticSite.Engine

/-!
# Asset lookup

Where the file of a stylesheet or script is looked for. A reference from the root of the site is
tried in a few places below the pages root and the project root; any other is taken from the pages
root.
-/

namespace StaticSite.Asset

/-- The folders that references are resolved against. -/
structure Roots where
  root : Path
  projectRoot : Path
  assetsDir : Text

def defaultAssetsDir : Text := "assets"

/-- Roots of which the project root is the folder above the pages root, unless given. -/
def Roots.of (root : Path) (projectRoot : Option Path) (assetsDir : Text) : Roots :=
  ⟨root, projectRoot.getD root.parent, assetsDir⟩

/-- References to other hosts are left alone. -/
def isExternal (reference : Text) : Bool :=
  Text.startsWith "http://" reference || Text.startsWith "https://" reference

namespace Roots

def inAssets (r : Roots) (reference : Text) : Path := (r.root.child r.assetsDir).child reference

def inRoot (r : Roots) (reference : Text) : Path := r.root.child reference

def inProjectAssets (r : Roots) (reference : Text) : Path :=
  ((r.projectRoot.child "src").child r.assetsDir).child reference

def stylesheetCandidates (r : Roots) : Text → List Path
  | '/' :: reference => [r.inAssets reference, r.inRoot reference, r.inProjectAssets reference]
  | reference => [r.inRoot reference]

def scriptCandidates (r : Roots) : Text → List Path
  | '/' :: reference => [r.inProjectAssets reference, r.inAssets reference, r.inRoot reference]
  | reference => [r.inRoot reference]

end Roots

def firstFile? : List Path → Engine (Option Path)
  | [] => pure none
  | p :: ps => do if ← Engine.isFile p then return some p else firstFile? ps

def locate (reference : Text) (candidates : List Path) : Engine Path := do
  match ← firstFile? candidates with
  | some path => return path
  | none => throw (.assetNotFound reference (candidates.map Path.text))

/-- The text of an asset. One that cannot be found or read is logged. -/
def read? (reference : Text) (candidates : List Path) : Engine (Option Text) := do
  match ← Engine.attempt (do Engine.readText .utf8 (← locate reference candidates)) with
  | .ok s => return some s
  | .error (.assetNotFound missing tried) =>
      Engine.record .warning .assets (Fault.message (.assetNotFound missing tried))
      return none
  | .error fault =>
      if fault.isFileFault then
        Engine.record .warning .assets ("Could not inline " ++ reference ++ ": " ++ fault.message)
        return none
      else throw fault

end StaticSite.Asset
