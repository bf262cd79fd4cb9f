import StaticSite.Table
import StaticSite.Text.Blank
import StaticSite.Text.Search

/-!
# Variants

A component may name class lists in a comment such as
`<!-- variants: primary=btn btn-primary, ghost=btn-ghost -->`. The first such comment counts.
-/

namespace StaticSite.Markup

open Text

/-- The shortest non-empty beginning of a line after which, blanks aside, the comment ends. -/
def readListing : Recogniser Text
  | [] => none
  | c :: s =>
      if c = '\n' then none
      else match after? "-->" (dropBlanks s) with
        | some rest => some ([c], rest)
        | none => (readListing s).map fun (listing, rest) => (c :: listing, rest)

/-- Reads a directive and gives its listing. Blanks before the listing are left out as far as a
listing remains. -/
def readDirective : Recogniser Text := fun s => do
  let opened ← after? "<!--" s
  let listed ← after? "variants:" (dropBlanks opened)
  (List.range ((blanks listed).length + 1)).reverse.findSome? fun k => readListing (listed.drop k)

/-- The entry `name=classes`, unless one of the two is empty; the classes may hold `=`. -/
def variantEntry? (entry : Text) : Option (Text × Text) :=
  let (name, classes) := cut '=' entry
  if (trim name).isEmpty || (trim classes).isEmpty then none else some (trim name, trim classes)

def variants (markup : Text) : Table Text :=
  match readFirst? readDirective markup with
  | none => Table.empty
  | some (listing, _) => Table.ofList ((fields ',' listing).filterMap variantEntry?)

end StaticSite.Markup
