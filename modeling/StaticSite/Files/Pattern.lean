import StaticSite.Files.Tree

/-!
# Patterns of file names

In a pattern a star stands for any characters, a question mark for one, and a bracketed set for
one of its members. A pattern of several parts goes down folder by folder, and a part `**` stands
for the folder itself and every folder below it.
-/

namespace StaticSite.Pattern

/-- The members of a set: single characters and ranges. A hyphen at an end stands for itself. -/
def ranges : Text → List (Char × Char)
  | a :: '-' :: b :: s => (a, b) :: ranges s
  | a :: s => (a, a) :: ranges s
  | [] => []

def inSet (set : Text) (c : Char) : Bool :=
  let isIn (set : Text) : Bool := (ranges set).any fun r => r.1 ≤ c && c ≤ r.2
  match set with
  | '!' :: set => !isIn set
  | set => isIn set

inductive Symbol
  | star
  | anyChar
  | member (set : Text)
  | char (c : Char)

/-- The set that a bracket opens, with what follows it; a closing bracket that comes first of all
is a member. -/
def set? (s : Text) : Option (Text × Text) :=
  let lead := s.takeWhile (· == '!') |>.take 1
  let body := s.drop lead.length
  let first := body.takeWhile (· == ']') |>.take 1
  (Text.cut? ']' (body.drop first.length)).map fun (members, rest) =>
    (lead ++ first ++ members, rest)

/-- The symbols of a pattern; `skip` characters belong to a set already read. -/
def symbols : Nat → Text → List Symbol
  | _, [] => []
  | skip + 1, _ :: s => symbols skip s
  | 0, '*' :: s => .star :: symbols 0 s
  | 0, '?' :: s => .anyChar :: symbols 0 s
  | 0, '[' :: s =>
      match set? s with
      | some (set, rest) => .member set :: symbols (s.length - rest.length) s
      | none => .char '[' :: symbols 0 s
  | 0, c :: s => .char c :: symbols 0 s

def Symbol.matches : Symbol → Char → Bool
  | star, _ => true
  | anyChar, _ => true
  | member set, c => inSet set c
  | char a, c => a == c

/-- Whether a star before `fits` fits a name: `fits` holds of one of the name's ends. -/
def anyEnd (fits : Text → Bool) : Text → Bool
  | [] => fits []
  | c :: s => fits (c :: s) || anyEnd fits s

def fits : List Symbol → Text → Bool
  | [], s => s.isEmpty
  | .star :: symbols, s => anyEnd (fits symbols) s
  | _ :: _, [] => false
  | symbol :: symbols, c :: s => symbol.matches c && fits symbols s

def matchesName (pattern name : Text) : Bool := fits (symbols 0 pattern) name

def isWild (pattern : Text) : Bool := pattern.any fun c => c == '*' || c == '?' || c == '['

def doubleStar : Text := "**"

/-- Two stars may only stand alone. -/
def isValid (parts : List Text) : Bool :=
  parts.all fun part => part == doubleStar || !Text.hasPart doubleStar part

/-- The parts of a pattern; a slash at its end asks for folders. -/
def parts (pattern : Text) : List Text :=
  Path.partsOf pattern ++ if pattern.getLast? = some '/' then [[]] else []

/-- What a search sees of the tree, by the places below where it starts. -/
structure View (ε α : Type) where
  /-- The node at a place, if there is one to be seen. -/
  look : List Text → Except ε (Option (Node α))
  /-- Whether the folder at a place shows what it holds. One that fails to breaks the search off. -/
  shows : List Text → Except ε Bool

variable {ε α : Type} (view : View ε α)

mutual

/-- What `visit` finds in a node at a place and in all folders below it, each folder before those
that it shows. -/
def inFolders (visit : List Text → Node α → Except ε (List (List Text))) (place : List Text) :
    Node α → Except ε (List (List Text))
  | .file content => visit place (.file content)
  | .folder entries => do
      let here ← visit place (.folder entries)
      if ← view.shows place then return here ++ (← amongFolders visit place entries)
      else return here

def amongFolders (visit : List Text → Node α → Except ε (List (List Text))) (place : List Text) :
    List (Text × Node α) → Except ε (List (List Text))
  | [] => pure []
  | (name, .folder entries) :: es => do
      let below ← inFolders visit (place ++ [name]) (.folder entries)
      return below ++ (← amongFolders visit place es)
  | (_, .file _) :: es => amongFolders visit place es

end

/-- The places below a node that fit a pattern, written from `place` on. -/
def select : List Text → List Text → Node α → Except ε (List (List Text))
  | [], place, _ => pure [place]
  | pattern :: patterns, place, n =>
      if pattern.isEmpty then pure [place]
      else if pattern = doubleStar then inFolders view (select patterns) place n
      else if isWild pattern then
        match n with
        | .file _ => pure []
        | .folder entries => do
            if ← view.shows place then
              let fitting := entries.filter fun e =>
                (patterns.isEmpty || e.2.isFolder) && matchesName pattern e.1
              return (← fitting.mapM fun e => select patterns (place ++ [e.1]) e.2).flatten
            else return []
      else do
        match ← view.look (place ++ [pattern]) with
        | some m =>
            if patterns.isEmpty || m.isFolder then select patterns (place ++ [pattern]) m
            else return []
        | none => return []

end StaticSite.Pattern
