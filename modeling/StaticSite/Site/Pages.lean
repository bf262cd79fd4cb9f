import StaticSite.Site.Environment

/-!
# Pages

The pages of a site are the `.html` files below its root, those in components folders aside.
-/

namespace StaticSite

def pageSuffix : Text := ".html"

/-- The entries of a folder. One that cannot be listed is logged. -/
def listFolder? (p : Path) : Engine (Option (List (Text × Node Content))) := do
  match ← Engine.attempt (Engine.openFolder p) with
  | .ok entries => return some entries
  | .error fault =>
      if fault.isFileFault then
        Engine.record .warning .pages
          ("Could not read directory " ++ p.text ++ ": " ++ fault.message)
        return none
      else throw fault

section Discovery

variable (root : Path) (componentsDir : Text)

mutual

/-- The places of the pages in a node below the root, given its own place. The node is looked at by
its path, and a folder is listed before it is walked through. -/
def pagesIn (place : List Text) : Node Content → Engine (List (List Text))
  | .file _ => do
      let _ ← Engine.isFolder (root.below place)
      return if Path.suffix (place.getLast?.getD []) = pageSuffix then [place] else []
  | .folder entries => do
      let _ ← Engine.isFolder (root.below place)
      if place.getLast? = some componentsDir then return []
      match ← listFolder? (root.below place) with
      | some _ => pagesAmong place entries
      | none => return []

/-- The places of the pages in the entries of a folder. -/
def pagesAmong (place : List Text) : List (Text × Node Content) → Engine (List (List Text))
  | [] => pure []
  | (name, n) :: es => do
      let pages ← pagesIn (place ++ [name]) n
      return pages ++ (← pagesAmong place es)

end

/-- The pages below a root, in code point order. A root that cannot be listed has none. -/
def discoverPages : Engine (List Text) := do
  match ← listFolder? root with
  | some entries =>
      return Text.sortedSet ((← pagesAmong root componentsDir [] entries).map Path.slashed)
  | none => return []

end Discovery

def assetSuffixes : List Text :=
  [".css".toList, ".js".toList, ".png".toList, ".jpg".toList, ".jpeg".toList, ".gif".toList,
    ".svg".toList, ".ico".toList, ".woff".toList, ".woff2".toList, ".ttf".toList, ".eot".toList,
    ".json".toList]

/-- Whether a text ends, in any letter case, in one of the suffixes. -/
def hasAssetSuffix (s : Text) : Bool :=
  assetSuffixes.any fun suffix =>
    Text.afterFolded? suffix (s.drop (s.length - suffix.length)) == some []

/-- Whether a request is for an asset by its suffix, where a line feed at the end does not
count. -/
def isAssetRequest (path : Text) : Bool :=
  hasAssetSuffix path || (path.getLast? == some '\n' && hasAssetSuffix path.dropLast)

def indexUrls : List Text := ["/".toList, "/index".toList, "/index.html".toList]

def urlPath (url : Text) : Text := url.takeWhile fun c => c != '?' && c != '#'

/-- The page that a request is for, or nothing when it is for something else. -/
def resolveRequest (e : Environment) (url : Text) : Engine (Option Text) := do
  let path := urlPath url
  let relative := path.dropWhile (· == '/')
  if Text.startsWith "/@" path || Text.startsWith "/__" path || isAssetRequest path then
    return none
  else if indexUrls.contains path then return some "index.html".toList
  else if Text.endsWith pageSuffix path then return some relative
  else
    let page := relative ++ pageSuffix
    return if ← Engine.isFile (e.pagePath page) then some page else none

end StaticSite
