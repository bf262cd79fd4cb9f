import StaticSite.Text.Basic

/-!
# Paths

A path is an anchor and a list of parts. Empty parts and `.` are never kept; `..` is, because what
it means depends on the tree. Joining an anchored path replaces what stands before it.
-/

namespace StaticSite

/-- Where a path starts: at the current folder, at the root, or at the root written with exactly
two slashes. -/
inductive Anchor
  | relative
  | root
  | doubleRoot
  deriving DecidableEq, Repr

def Anchor.text : Anchor → Text
  | .relative => []
  | .root => "/"
  | .doubleRoot => "//"

structure Path where
  anchor : Anchor
  parts : List Text
  deriving DecidableEq, Repr

namespace Path

open Text

def anchorOf (s : Text) : Anchor :=
  match (s.takeWhile (· == '/')).length with
  | 0 => .relative
  | 2 => .doubleRoot
  | _ => .root

/-- The parts between slashes that say anything. -/
def partsOf (s : Text) : List Text :=
  (fields '/' s).filter fun part => !part.isEmpty && part != ['.']

def ofText (s : Text) : Path := ⟨anchorOf s, partsOf s⟩

/-- The path as written: a path without anchor and parts is `.`. -/
def text (p : Path) : Text :=
  if p.anchor = .relative ∧ p.parts = [] then ['.']
  else p.anchor.text ++ join ['/'] p.parts

def slashed (parts : List Text) : Text := if parts.isEmpty then ['.'] else join ['/'] parts

def isAbsolute (p : Path) : Bool := p.anchor ≠ .relative

def append (p q : Path) : Path :=
  if q.isAbsolute then q else ⟨p.anchor, p.parts ++ q.parts⟩

instance : Append Path := ⟨append⟩

def child (p : Path) (s : Text) : Path := p ++ ofText s

def below (p : Path) (parts : List Text) : Path := ⟨p.anchor, p.parts ++ parts⟩

/-- The path without its last part; a path without parts is its own parent. -/
def parent (p : Path) : Path := ⟨p.anchor, p.parts.dropLast⟩

def name (p : Path) : Text := p.parts.getLast?.getD []

/-- A name cut before its last point, provided something stands on both sides of the point. -/
def splitSuffix (name : Text) : Text × Text :=
  let extension := (name.reverse.takeWhile (· != '.')).reverse
  let stem := name.take (name.length - extension.length - 1)
  if extension.isEmpty || stem.isEmpty then (name, []) else (stem, '.' :: extension)

def suffix (name : Text) : Text := (splitSuffix name).2

/-- Parts of which the last has lost its suffix. -/
def dropSuffix (parts : List Text) : List Text :=
  parts.dropLast ++ parts.getLast?.toList.map fun name => (splitSuffix name).1

/-- The parts left when each `..` takes away the part before it. -/
def collapse (parts : List Text) : List Text :=
  (parts.foldl (fun done part => if part = "..".toList then done.drop 1 else part :: done) []).reverse

/-- Order by parts, a list of parts after each of its beginnings. -/
def partsLe : List Text → List Text → Bool
  | [], _ => true
  | _ :: _, [] => false
  | a :: p, b :: q => if a = b then partsLe p q else le a b

@[simp] theorem parts_below (p : Path) (parts : List Text) :
    (p.below parts).parts = p.parts ++ parts := rfl

theorem below_below (p : Path) (parts more : List Text) :
    (p.below parts).below more = p.below (parts ++ more) := by
  simp [below, List.append_assoc]

end Path

end StaticSite
