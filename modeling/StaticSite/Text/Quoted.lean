import StaticSite.Text.Numeral
import StaticSite.Text.Printable

/-!
# Quoted text

A text on one line between quotes, for messages: what cannot be seen is written by its number.
-/

namespace StaticSite.Text

/-- The quote that needs no escape if there is one, the single quote if both do or none does. -/
def quoteFor (s : Text) : Char :=
  if s.any (· == '\x27') && !s.any (· == '"') then '"' else '\x27'

def escape (quote c : Char) : Text :=
  if c == quote || c == '\\' then ['\\', c]
  else if c == '\t' then "\\t".toList
  else if c == '\n' then "\\n".toList
  else if c == '\r' then "\\r".toList
  else if isPrintable c then [c]
  else if c.toNat < 0x100 then "\\x".toList ++ hex 2 c.toNat
  else if c.toNat < 0x10000 then "\\u".toList ++ hex 4 c.toNat
  else "\\U".toList ++ hex 8 c.toNat

def quoted (s : Text) : Text :=
  quoteFor s :: s.flatMap (escape (quoteFor s)) ++ [quoteFor s]

end StaticSite.Text
