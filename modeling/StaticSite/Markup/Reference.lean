import StaticSite.Markup.Attribute

/-!
# References to components

A page refers to components by tags of two forms: `<Component src="Button" />`, and
`<Component name="Card">…</Component>` around children. All closing tags look alike, so a closing
tag belongs to the opening tag at which the count of open tags comes back to zero.
-/

namespace StaticSite.Markup

open Text

/-- A component tag; an opening or self-closing one with the text between its word and its `>`. -/
inductive Tag
  | opening (body : Text)
  | selfClosing (body : Text)
  | closing
  deriving DecidableEq

def readTag : Recogniser Tag := fun s =>
  match after? "</Component" s with
  | some r =>
      match dropBlanks r with
      | '>' :: rest => some (.closing, rest)
      | _ => none
  | none => do
      let opened ← after? "<Component" s
      if (opened.head?.map isWord).getD false then none
      let (body, rest) ← cut? '>' opened
      return (if body.getLast? = some '/' then .selfClosing body else .opening body, rest)

/-- The component that an opening tag names first of all, with the rest of the tag. -/
def namedComponent? (body : Text) : Option (Text × Text) := do
  if (blanks body).isEmpty then none
  let opened ← after? "name=\"" (dropBlanks body)
  let (identifier, region) ← cut? '"' opened
  if identifier.isEmpty then none
  return (identifier, region)

/-- The closing tag at which the count of open tags falls to zero, starting from `depth`. -/
def closingTag? : Nat → List (Span Tag) → Option (Span Tag)
  | _, [] => none
  | depth, tag :: tags =>
      match tag.value with
      | .opening _ => closingTag? (depth + 1) tags
      | .selfClosing _ => closingTag? depth tags
      | .closing => if depth ≤ 1 then some tag else closingTag? (depth - 1) tags

inductive Form
  | selfClosing
  /-- With the trimmed text between the two tags. -/
  | around (children : Text)
  deriving DecidableEq

/-- A reference to a component: the text `source` at the places from `start` to `stop`. -/
structure Reference where
  form : Form
  identifier : Text
  props : Props
  start : Nat
  stop : Nat
  source : Text

def Reference.children (r : Reference) : Text :=
  match r.form with
  | .selfClosing => []
  | .around children => children

def slice (s : Text) (start stop : Nat) : Text := (s.drop start).take (stop - start)

/-- References with children among tags, of which those before `consumed` lie inside a reference
already found. An opening tag that names no component or is never closed is passed over. -/
def childReferencesAmong (html : Text) : Nat → List (Span Tag) → List Reference
  | _, [] => []
  | consumed, tag :: tags =>
      if tag.start < consumed then childReferencesAmong html consumed tags
      else match tag.value with
        | .opening body =>
            match namedComponent? body, closingTag? 1 tags with
            | some (identifier, region), some close =>
                { form := .around (trim (slice html tag.stop close.start))
                  identifier
                  props := attributes .plain region
                  start := tag.start
                  stop := close.stop
                  source := slice html tag.start close.stop } ::
                  childReferencesAmong html close.stop tags
            | _, _ => childReferencesAmong html consumed tags
        | _ => childReferencesAmong html consumed tags

/-- The outermost references with children, in the order of the text. -/
def childReferences (html : Text) : List Reference :=
  childReferencesAmong html 0 (spans readTag html)

/-- Reads anything of self-closing shape: the word, at least one more character, and a slash
before the first `>`. -/
def readSelfClosing : Recogniser Unit := fun s => do
  let opened ← after? "<Component" s
  let (body, rest) ← cut? '>' opened
  if body.length < 2 then none
  if body.getLast? ≠ some '/' then none
  return ((), rest)

/-- Everything of self-closing shape, in the order of the text. -/
def selfClosingTags (html : Text) : List (Span Unit) := spans readSelfClosing html

/-- The attribute by which a self-closing tag names its component. -/
def sourceName : Text := "src"

/-- The reference that a self-closing tag with the given attributes makes, if it names one. -/
def Reference.ofSelfClosing? (tag : Span Unit) (props : Props) : Option Reference := do
  let identifier ← props.get? sourceName
  return { form := .selfClosing, identifier, props, start := tag.start, stop := tag.stop,
           source := tag.source }

def selfClosingReference? (tag : Span Unit) : Option Reference := do
  Reference.ofSelfClosing? tag (← selfClosingAttributes? tag.source)

end StaticSite.Markup
