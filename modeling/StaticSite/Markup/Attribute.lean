import StaticSite.Table
import StaticSite.Text.Blank
import StaticSite.Text.Search
import StaticSite.Text.Word

/-!
# Attributes of component tags

Attributes are read from the raw text of a tag: a name, an equals sign, and a value between double
quotes that is taken as it stands. What is no attribute is passed over. A repeated name keeps its
first place and takes its last value.
-/

namespace StaticSite.Markup

open Text

/-- The attributes of a component tag, or the props they give to the component. -/
abbrev Props := Table Text

/-- Reads `name="value"` where the name is a longest run of characters in `inName`. -/
def readAttribute (inName : Char → Bool) : Recogniser (Text × Text) := fun s => do
  let name := s.takeWhile inName
  if name.isEmpty then none
  let opened ← after? "=\"" (s.dropWhile inName)
  let (value, rest) ← cut? '"' opened
  return ((name, value), rest)

/-- Which names count: those of word characters alone, or also hyphenated ones. -/
inductive NameStyle
  | plain
  | hyphenated

def NameStyle.inName : NameStyle → Char → Bool
  | plain => isWord
  | hyphenated => isHyphenWord

def attributes (style : NameStyle) (s : Text) : Props :=
  Table.ofList (readAll (readAttribute style.inName) s)

/-- Reads a self-closing component tag and gives its attribute region: blanks, the region, and a
slash before the first `>`. An empty region needs two blanks. -/
def readAttributeRegion : Recogniser Text := fun s => do
  let opened ← after? "<Component" s
  let (body, rest) ← cut? '>' opened
  if body.getLast? ≠ some '/' then none
  let inner := body.dropLast
  let region := dropBlanks inner
  let needed := if region.isEmpty then 2 else 1
  if (blanks inner).length < needed then none
  return (region, rest)

/-- The attributes of the first self-closing component tag in a text, if there is one. -/
def selfClosingAttributes? (tag : Text) : Option Props :=
  (readFirst? readAttributeRegion tag).map fun (region, _) => attributes .hyphenated region

end StaticSite.Markup
