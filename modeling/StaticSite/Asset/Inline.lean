import StaticSite.Asset.Lookup
import StaticSite.Text.Folding
import StaticSite.Text.Search

/-!
# Inlining

Links to stylesheets and scripts are replaced by the text of the file they name, so that a built
page needs no further request. What cannot be inlined stays as it is written. The scripts that a
development server injects are known by markers and taken out at the end.
-/

namespace StaticSite.Asset

open Text

def isQuote (c : Char) : Bool := c == '"' || c == '\x27'

/-- Reads a non-empty text between quotes of either kind. -/
def readQuotedValue : Recogniser Text
  | [] => none
  | q :: s =>
      let value := s.takeWhile (!isQuote ·)
      if !isQuote q || value.isEmpty then none
      else match s.dropWhile (!isQuote ·) with
        | [] => none
        | _ :: rest => some (value, rest)

/-- What stands at or after some place of a text, the last place first. -/
def tailsFrom (count : Nat) (s : Text) : List Text :=
  (List.range (count + 1)).reverse.map fun k => s.drop k

/-- Whether a text begins with the attribute that makes a link a stylesheet. -/
def startsStylesheet (s : Text) : Bool :=
  match afterFolded? "rel=" s with
  | some (q :: s) =>
      isQuote q &&
        match afterFolded? "stylesheet" s with
        | some (q :: _) => isQuote q
        | _ => false
  | _ => false

/-- Whether some end of a text satisfies `p`. -/
def anyTail (p : Text → Bool) : Text → Bool
  | [] => p []
  | c :: s => p (c :: s) || anyTail p s

def readStylesheetLink : Recogniser Unit := fun s => do
  let opened ← afterFolded? "<link" s
  let (body, rest) ← cut? '>' opened
  if anyTail startsStylesheet (body.drop 1) then return ((), rest) else none

def readHref : Recogniser Text := fun s => do readQuotedValue (← after? "href=" s)

def href? (tag : Text) : Option Text := (readFirst? readHref tag).map (·.1)

/-- Reads, from an attribute that names a script, to the end of an element without content. -/
def readScriptEnd : Recogniser Text := fun s => do
  let (reference, after) ← readQuotedValue (← afterFolded? "src=" s)
  let (_, closed) ← cut? '>' after
  let rest ← afterFolded? "</script>" closed
  return (reference, rest)

/-- Reads a script element that names a file and has no content. Of several names the last one in
the opening tag with which the element can be read counts. -/
def readScript : Recogniser Text := fun s => do
  let opened ← afterFolded? "<script" s
  let body := opened.takeWhile (· != '>')
  ((tailsFrom body.length opened).dropLast).findSome? readScriptEnd

/-- A text with the matches replaced by actions, from left to right. -/
def replaceM {α : Type} (read : Recogniser α) (write : α → Text → Engine Text) (s : Text) :
    Engine Text := do
  let pieces ← (split read s).mapM fun
    | .gap c => pure [c]
    | .hit a source => write a source
  return pieces.flatten

def styleElement (css : Text) : Text := "<style>\n" ++ css ++ "\n</style>"

def scriptElement (js : Text) : Text := "<script>\n" ++ js ++ "\n</script>"

def inlineLink (roots : Roots) (tag : Text) : Engine Text :=
  match href? tag with
  | none => pure tag
  | some reference =>
      if isExternal reference then pure tag
      else return ((← read? reference (roots.stylesheetCandidates reference)).map
        styleElement).getD tag

def inlineStylesheets (roots : Roots) (html : Text) : Engine Text :=
  replaceM readStylesheetLink (fun _ tag => inlineLink roots tag) html

/-- What marks the scripts of a development server. -/
def defaultMarkers : List Text := ["@vite".toList]

def inlineScript (roots : Roots) (markers : List Text) (reference tag : Text) : Engine Text :=
  if isExternal reference || markers.any (Text.hasPart · reference) then pure tag
  else return ((← read? reference (roots.scriptCandidates reference)).map scriptElement).getD tag

def inlineScripts (roots : Roots) (markers : List Text) (html : Text) : Engine Text :=
  replaceM readScript (inlineScript roots markers) html

/-- Reads, from a marker, to the first end of a script element after the opening tag. -/
def readMarkedEnd (marker : Text) : Recogniser Unit := fun s => do
  let (_, content) ← cut? '>' (← afterFolded? marker s)
  readFirst? (fun s => (afterFolded? "</script>" s).map fun rest => ((), rest)) content

def readMarkedScript (marker : Text) : Recogniser Unit := fun s => do
  let opened ← afterFolded? "<script" s
  let body := opened.takeWhile (· != '>')
  (tailsFrom body.length opened).findSome? (readMarkedEnd marker)

/-- A page without the scripts that have one of the markers. -/
def stripDevScripts (markers : List Text) (html : Text) : Text :=
  markers.foldl (fun html marker => replaceAll (readMarkedScript marker) (fun _ _ => []) html) html

end StaticSite.Asset
