import StaticSite.Text.Search

/-!
# Terminal styles

Styles are switched on by escape sequences in front of a text and off by one behind it. Stripping
takes away every escape sequence of a terminal, whatever it does.
-/

namespace StaticSite.Terminal

inductive Style
  | reset
  | bold
  | dim
  | red
  | green
  | yellow
  | cyan
  | brightRed
  | brightGreen
  | brightBlue
  deriving DecidableEq, Repr

namespace Style

def all : List Style :=
  [reset, bold, dim, red, green, yellow, cyan, brightRed, brightGreen, brightBlue]

def name : Style → Text
  | reset => "reset"
  | bold => "bold"
  | dim => "dim"
  | red => "red"
  | green => "green"
  | yellow => "yellow"
  | cyan => "cyan"
  | brightRed => "bright_red"
  | brightGreen => "bright_green"
  | brightBlue => "bright_blue"

def parameter : Style → Text
  | reset => "0"
  | bold => "1"
  | dim => "2"
  | red => "31"
  | green => "32"
  | yellow => "33"
  | cyan => "36"
  | brightRed => "91"
  | brightGreen => "92"
  | brightBlue => "94"

def ofName? (name : Text) : Option Style := all.find? (·.name = name)

def sequence (style : Style) : Text := '\x1b' :: '[' :: style.parameter ++ ['m']

end Style

/-- A text in the given styles; as it is when styling is off or there are none. -/
def colorize (styling : Bool) (styles : List Style) (s : Text) : Text :=
  if styling && !styles.isEmpty then styles.flatMap Style.sequence ++ s ++ Style.reset.sequence
  else s

/-- A one-letter escape: from `@` to `_`, the bracket aside. -/
def isEscapeLetter (c : Char) : Bool := '@' ≤ c && c ≤ '_' && c != '['

def isParameter (c : Char) : Bool := '0' ≤ c && c ≤ '?'

def isIntermediate (c : Char) : Bool := ' ' ≤ c && c ≤ '/'

def isFinal (c : Char) : Bool := '@' ≤ c && c ≤ '~'

/-- Reads an escape sequence: a one-letter escape, or a bracket with parameters, intermediates and
a final character. -/
def readSequence : Text.Recogniser Unit
  | '\x1b' :: '[' :: s =>
      match (s.dropWhile isParameter).dropWhile isIntermediate with
      | c :: rest => if isFinal c then some ((), rest) else none
      | [] => none
  | '\x1b' :: c :: rest => if isEscapeLetter c then some ((), rest) else none
  | _ => none

def stripColors (s : Text) : Text := Text.replaceAll readSequence (fun _ _ => []) s

/-- What a piece of a diagnostic is, which decides how it looks. -/
inductive Role
  | errorCode
  | location
  | hint
  | suggestion
  | dim
  | docsUrl
  | success
  | failure
  deriving DecidableEq, Repr

def Role.styles : Role → List Style
  | errorCode => [.brightRed, .bold]
  | location => [.cyan]
  | hint => [.green]
  | suggestion => [.brightGreen, .bold]
  | dim => [.dim]
  | docsUrl => [.brightBlue]
  | success => [.green]
  | failure => [.red]

def Role.apply (styling : Bool) (role : Role) (s : Text) : Text :=
  colorize styling role.styles s

/-- Whether to style: forced on first, then forced off, else only on a terminal. An empty setting
forces nothing. -/
def stylingWanted (forceOn forceOff : Option Text) (onTerminal : Bool) : Bool :=
  let given (setting : Option Text) : Bool := (setting.map fun s => !s.isEmpty).getD false
  given forceOn || (!given forceOff && onTerminal)

end StaticSite.Terminal
