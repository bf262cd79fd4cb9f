import StaticSite.Compile.Context
import StaticSite.Markup.Attribute
import StaticSite.Text.Decimal

/-!
# Code of a site

A site brings code of its own: functions that look components up, producers that write their
markup, and modules that export producers. Such code is a `Script`: it ends in a result or a
fault, and on the way it may only ask what `Script` offers. So it can neither leave a changed
context behind nor touch a file.
-/

namespace StaticSite

open Markup

inductive Script (α : Type) : Type
  | done (result : α)
  | fail (fault : Fault)
  /-- Asks in which context it runs, if in any. -/
  | context (next : Option Context → Script α)
  /-- Has a text compiled as a page of its own. -/
  | compile (html : Text) (page : Option Text) (next : Text → Script α)
  /-- Makes a counter that starts at zero. -/
  | newCounter (next : Nat → Script α)
  /-- Counts one up and asks how far the counter is. -/
  | count (counter : Nat) (next : Nat → Script α)

namespace Script

variable {α β : Type}

def bind : Script α → (α → Script β) → Script β
  | done a, f => f a
  | fail fault, _ => fail fault
  | context next, f => context fun c => (next c).bind f
  | compile html page next, f => compile html page fun s => (next s).bind f
  | newCounter next, f => newCounter fun n => (next n).bind f
  | count counter next, f => count counter fun n => (next n).bind f

instance : Monad Script where
  pure := done
  bind := bind

end Script

/-- What a site's code may hand over as a component or as the result of a producer. -/
inductive Value
  | none
  | text (s : Text)
  | whole (n : Int)
  | real (x : Float)
  | truth (b : Bool)
  /-- A producer: given props, it writes a component. -/
  | producer (run : Props → Script Value)
  /-- A component that brings its own identifier and origin. -/
  | source (identifier : Text) (markup : Option Text) (producer : Value) (origin : Option Text)
  /-- Any other object, by what it is shown as within another value and what it is written as. -/
  | object (shown written : Except Fault Text)

namespace Value

def isNone : Value → Bool
  | none => true
  | _ => false

def isProducer : Value → Bool
  | producer _ => true
  | _ => false

def optionText (show_ : Text → Text) : Option Text → Text
  | some s => show_ s
  | Option.none => "None"

/-- Whole numbers have at most so many digits when they are written. -/
def digitLimit : Nat := 4300

def shownWhole (n : Int) : Except Fault Text :=
  if Nat.pow 10 digitLimit ≤ n.natAbs then
    .error (.raised "ValueError" ("Exceeds the limit (" ++ Text.ofNat digitLimit ++
      " digits) for integer string conversion; use sys.set_int_max_str_digits() to increase the " ++
      "limit"))
  else .ok (Text.ofInt n)

/-- What a value is shown as within another one. -/
def shown : Value → Except Fault Text
  | none => .ok "None"
  | text s => .ok (Text.quoted s)
  | whole n => shownWhole n
  | real x => .ok (Text.ofFloat x)
  | truth b => .ok (if b then "True" else "False")
  | producer _ => .ok "<function>"
  | source identifier markup inner origin => do
      let producer ← inner.shown
      return "ComponentSource(identifier=" ++ Text.quoted identifier ++ ", markup=" ++
        optionText Text.quoted markup ++ ", producer=" ++ producer ++ ", filename=" ++
        optionText Text.quoted origin ++ ")"
  | object shown _ => shown

/-- What a value is written out as. -/
def write : Value → Except Fault Text
  | text s => .ok s
  | object _ written => written
  | v => v.shown

/-- The text that a value is written out as, if it can be written out. -/
def written (v : Value) : Text := v.write.toOption.getD []

end Value

/-- A module of a site: run under a name, it exports values by name. -/
structure Module where
  /-- What the module is called where its runs are recorded. -/
  label : Text
  body : Text → Script (List (Text × Value))
  /-- What the module gives when it is asked for a name that it does not export: usually there is no
  such attribute. -/
  missing : Text → Script Value := fun name =>
    .fail (.raised "AttributeError" ("module has no attribute " ++ Text.quoted name))
  /-- The text that the module was written as. -/
  source : List UInt8 := []

/-- The content of a file: bytes, or bytes of which it is known what module they make. -/
inductive Content
  | bytes (data : List UInt8)
  | code (module : Module)

def Content.toBytes : Content → List UInt8
  | bytes data => data
  | code module => module.source

abbrev SiteTree := Tree Content

end StaticSite
