import StaticSite.Markup.Attribute

/-!
# Placeholders

Markup has holes such as `{{ title }}`, with any blanks inside the braces. Binding fills them with
children, props and class lists, one name after another; values are put in as they stand.
-/

namespace StaticSite.Markup

open Text

def holeStart : Text := "\x7b\x7b"

def holeEnd : Text := "\x7d\x7d"

def readHole (name : Text) : Recogniser Unit := fun s => do
  let opened ← after? holeStart s
  (List.range ((blanks opened).length + 1)).reverse.findSome? fun k => do
    let named ← after? name (opened.drop k)
    let rest ← after? holeEnd (dropBlanks named)
    return ((), rest)

def readAnyHole : Recogniser Text := fun s => do
  let opened ← after? holeStart s
  let named := dropBlanks opened
  let name := named.takeWhile isWord
  if name.isEmpty then none
  let rest ← after? holeEnd (dropBlanks (named.dropWhile isWord))
  return (name, rest)

def fill (name value content : Text) : Text :=
  replaceAll (readHole name) (fun _ _ => value) content

/-- Empties every hole that has a name of word characters. -/
def clearHoles (html : Text) : Text := replaceAll readAnyHole (fun _ _ => []) html

def childrenName : Text := "children"

def classesName : Text := "variantClasses"

/-- The attributes of a self-closing tag that choose what is put in and fill no hole. -/
def steeringNames : List Text := ["src".toList, "variant".toList]

/-- Binds a component with children: first the children, then each prop in order. -/
def bindChildren (content children : Text) (props : Props) : Text :=
  props.entries.foldl (fun content (name, value) => fill name value content)
    (fill childrenName children content)

/-- What one prop of a self-closing component does: a `variant` that names an entry fills in its
classes, and any prop that does not steer fills its own hole. -/
def bindProp (variants : Table Text) (content : Text) : Text × Text → Text
  | (name, value) =>
      match if name = "variant".toList then variants.get? value else none with
      | some classes => fill classesName classes content
      | none => if steeringNames.contains name then content else fill name value content

/-- Binds a self-closing component: each prop in order, then what is left for class lists is
emptied. -/
def bindSelfClosing (content : Text) (props : Props) (variants : Table Text) : Text :=
  fill classesName [] (props.entries.foldl (bindProp variants) content)

end StaticSite.Markup
