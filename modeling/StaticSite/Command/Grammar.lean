import StaticSite.Text.Integer
import StaticSite.Text.Quoted

/-!
# Command line grammars

A command line is options and at most one positional argument in any order. Long options may be
shortened as long as they stay unambiguous and may have their value behind an equals sign;
one-letter options may be written together. After `--` everything is an argument.
-/

namespace StaticSite.Command

inductive OptionKind
  | flag
  | text
  | integer
  /-- Asks for help and ends the reading. -/
  | help
  deriving DecidableEq

structure OptionSpec where
  letter : Option Char
  word : Text
  kind : OptionKind

inductive Positional
  | none
  | one (name : Text)
  /-- An argument with everything that follows it. -/
  | remainder (name : Text)

structure Grammar where
  /-- What error messages begin with. -/
  program : Text
  options : List OptionSpec
  positional : Positional

/-- Why reading a command line ends without a result. -/
inductive Stop
  | help
  | misuse (program message : Text)

def Stop.usage : Stop → Text
  | help => []
  | misuse program message => program ++ ": error: " ++ message

/-- An option that was given, with its value. -/
structure Setting where
  option : Text
  value : Text

structure Reading where
  settings : List Setting
  positional : Option (List Text)
  /-- What the grammar has no place for. -/
  extras : List Text

namespace OptionSpec

def long (o : OptionSpec) : Text := "--" ++ o.word

def short? (o : OptionSpec) : Option Text := o.letter.map fun c => ['-', c]

/-- All spellings, the short one first. -/
def spellings (o : OptionSpec) : List Text := o.short?.toList ++ [o.long]

def title (o : OptionSpec) : Text := Text.join "/" o.spellings

def takesValue (o : OptionSpec) : Bool := o.kind = .text || o.kind = .integer

end OptionSpec

/-- An option as it stands in a command line: which one it is, if it is known, and what is written
behind it in the same word; `marked` when that follows an equals sign. -/
structure Occurrence where
  option : Option OptionSpec
  isShort : Bool
  attached : Option Text
  marked : Bool

/-- What a word of a command line is taken for. -/
inductive Mark
  | argument
  | dashes
  | option (o : Occurrence)

namespace Grammar

variable (g : Grammar)

def misuse {α : Type} (message : Text) : Except Stop α := .error (.misuse g.program message)

def argumentMisuse {α : Type} (title message : Text) : Except Stop α :=
  g.misuse ("argument " ++ title ++ ": " ++ message)

def spelled? (word : Text) : Option OptionSpec := g.options.find? (·.spellings.contains word)

/-- A minus sign with digits, perhaps with a point among them. A line feed at the end does not
count. -/
def isNegativeNumber : Text → Bool
  | '-' :: s =>
      let s := if s.getLast? = some '\n' then s.dropLast else s
      match s.dropWhile Text.isDecimalDigit with
      | [] => !s.isEmpty
      | '.' :: fraction => !fraction.isEmpty && fraction.all Text.isDecimalDigit
      | _ => false
  | _ => false

/-- The options a long word may be short for, with what is attached to it. -/
def longMatches (word : Text) : List (OptionSpec × Text × Occurrence) :=
  let (start, attached) := match Text.cut? '=' word with
    | some (start, value) => (start, some value)
    | none => (word, none)
  (g.options.filter fun o => Text.startsWith start o.long).map fun o =>
    (o, o.long, ⟨some o, false, attached, attached.isSome⟩)

/-- The option that the first letter of a short word is, the rest being attached to it. -/
def shortMatches (word : Text) : List (OptionSpec × Text × Occurrence) :=
  g.options.filterMap fun o =>
    match o.short? with
    | some short => if short = word.take 2 then
        some (o, short, ⟨some o, true, some (word.drop 2), false⟩) else none
    | none => none

def mark (word : Text) : Except Stop Mark :=
  match word with
  | '-' :: c :: _ =>
      match g.spelled? word with
      | some o => .ok (.option ⟨some o, o.long != word, none, false⟩)
      | none =>
          let whole := (Text.cut? '=' word).bind fun (start, value) =>
            (g.spelled? start).map fun o => (start, value, o)
          match whole with
          | some (start, value, o) => .ok (.option ⟨some o, o.long != start, some value, true⟩)
          | none =>
              match if c = '-' then g.longMatches word else g.shortMatches word with
              | [(_, _, found)] => .ok (.option found)
              | first :: second :: more =>
                  g.misuse ("ambiguous option: " ++ word ++ " could match " ++
                    Text.join ", " ((first :: second :: more).map fun m => m.2.1))
              | [] =>
                  if isNegativeNumber word || word.contains ' ' then .ok .argument
                  else .ok (.option ⟨none, c != '-', none, false⟩)
  | _ => .ok .argument

def dashes : Text := "--"

def marks : List Text → Except Stop (List (Text × Mark))
  | [] => .ok []
  | word :: words =>
      if word = dashes then
        .ok ((word, .dashes) :: words.map fun word => (word, .argument))
      else do
        let m ← g.mark word
        return (word, m) :: (← marks words)

def take (o : OptionSpec) (value : Text) : Except Stop (List Setting) :=
  match o.kind with
  | .help => .error .help
  | .integer =>
      if (Text.integer? value).isSome then .ok [⟨o.word, value⟩]
      else g.argumentMisuse o.title ("invalid int value: " ++ Text.quoted value)
  | _ => .ok [⟨o.word, value⟩]

/-- Options of one letter written together: `o` with `attached` behind it. Gives the options found
and what is left over, if the letters do not all name options. -/
def cluster (o : OptionSpec) (marked : Bool) (attached : Text) :
    Except Stop (List OptionSpec × Option Text) :=
  match attached with
  | [] => g.argumentMisuse o.title ("ignored explicit argument " ++ Text.quoted attached)
  | c :: rest =>
      if marked || c = '-' then
        g.argumentMisuse o.title ("ignored explicit argument " ++ Text.quoted attached)
      else match g.spelled? ['-', c] with
        | none => .ok ([o], some ('-' :: attached))
        | some next =>
            match rest with
            | [] => .ok ([o, next], none)
            | '=' :: value =>
                g.argumentMisuse next.title ("ignored explicit argument " ++ Text.quoted value)
            | d :: more => do
                let (found, left) ← cluster next false (d :: more)
                return (o :: found, left)
termination_by attached.length

def takeAll : List OptionSpec → Except Stop (List Setting)
  | [] => .ok []
  | o :: os => do return (← g.take o []) ++ (← takeAll os)

/-- Reads an option of the command line whose word is `word`: the settings it makes, what is left
over of it, and the words after it. -/
def readOption (word : Text) (occurrence : Occurrence) (rest : List (Text × Mark)) :
    Except Stop (List Setting × List Text × List (Text × Mark)) :=
  match occurrence.option with
  | none => .ok ([], [word], rest)
  | some o =>
      match occurrence.attached with
      | some attached =>
          if o.takesValue then do return (← g.take o attached, [], rest)
          else if occurrence.isShort && !attached.isEmpty then do
            let (found, left) ← g.cluster o occurrence.marked attached
            return (← g.takeAll found, left.toList, rest)
          else g.argumentMisuse o.title ("ignored explicit argument " ++ Text.quoted attached)
      | none =>
          if o.takesValue then
            match rest with
            | (value, .argument) :: rest => do return (← g.take o value, [], rest)
            | _ => g.argumentMisuse o.title "expected one argument"
          else do return (← g.take o [], [], rest)

def isDashes : Text × Mark → Bool
  | (_, .dashes) => true
  | _ => false

def isOption : Text × Mark → Bool
  | (_, .option _) => true
  | _ => false

/-- Reads the positional argument where it can begin: its words, and the words after it. -/
def readPositional (words : List (Text × Mark)) : Option (List Text × List (Text × Mark)) :=
  let lead := words.takeWhile isDashes
  match g.positional, words.dropWhile isDashes with
  | .one _, (value, .argument) :: rest => some ([value], rest.dropWhile isDashes)
  | .remainder _, (value, .argument) :: rest =>
      some (lead.map (·.1) ++ value :: rest.map (·.1), [])
  | _, _ => none

/-- Reads marked words; `fuel` is at least their number. -/
def readMarked : Nat → Option (List Text) → List (Text × Mark) → Except Stop Reading
  | 0, positional, _ => .ok ⟨[], positional, []⟩
  | _, positional, [] => .ok ⟨[], positional, []⟩
  | fuel + 1, positional, (word, .option occurrence) :: rest => do
      let (settings, left, rest) ← g.readOption word occurrence rest
      let reading ← readMarked fuel positional rest
      return { reading with
        settings := settings ++ reading.settings
        extras := left ++ reading.extras }
  | fuel + 1, positional, words =>
      match if positional.isNone then g.readPositional words else none with
      | some (values, rest) => readMarked fuel (some values) rest
      | none => do
          let reading ← readMarked fuel positional (words.dropWhile (!isOption ·))
          return { reading with
            extras := (words.takeWhile (!isOption ·)).map (·.1) ++ reading.extras }

def read (words : List Text) : Except Stop Reading := do
  let marked ← g.marks words
  let reading ← g.readMarked (marked.length + 1) none marked
  match g.positional, reading.positional with
  | .one name, none => g.misuse ("the following arguments are required: " ++ name)
  | .remainder name, none => g.misuse ("the following arguments are required: " ++ name)
  | _, _ => return reading

end Grammar

namespace Reading

/-- The last value given for an option. -/
def value? (r : Reading) (option : Text) : Option Text :=
  (r.settings.reverse.find? (·.option = option)).map (·.value)

def has (r : Reading) (option : Text) : Bool := (r.value? option).isSome

end Reading

end StaticSite.Command
