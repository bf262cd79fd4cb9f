import StaticSite.Text.Basic

/-!
# Blank characters

White space in the sense of Unicode, together with the four information separators.
-/

namespace StaticSite.Text

def blankRanges : List (Nat × Nat) :=
  [(0x9, 0xD), (0x1C, 0x20), (0x85, 0x85), (0xA0, 0xA0), (0x1680, 0x1680), (0x2000, 0x200A),
   (0x2028, 0x2029), (0x202F, 0x202F), (0x205F, 0x205F), (0x3000, 0x3000)]

def isBlank (c : Char) : Bool := inRanges blankRanges c

def blanks (s : Text) : Text := s.takeWhile isBlank

def dropBlanks (s : Text) : Text := s.dropWhile isBlank

def trim (s : Text) : Text := (dropBlanks (dropBlanks s).reverse).reverse

@[simp] theorem blanks_append_dropBlanks (s : Text) : blanks s ++ dropBlanks s = s :=
  List.takeWhile_append_dropWhile

end StaticSite.Text
