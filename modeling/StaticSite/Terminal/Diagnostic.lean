import StaticSite.Fault
import StaticSite.Terminal.Style

/-!
# Diagnostics

A fault as it is shown on a terminal: its code, its message, and where to read more.
-/

namespace StaticSite.Terminal

/-- A message headed by a code, if there is one. -/
def errorHeader (styling : Bool) (code : Option Text) (message : Text) : Text :=
  match code with
  | none => message
  | some code =>
      if code.isEmpty then message else Role.errorCode.apply styling code ++ ": " ++ message

/-- A fault on a line or a few. The code is left out where the message already has it. -/
def compact (styling : Bool) (fault : Fault) : Text :=
  match fault.code? with
  | none => fault.message
  | some code =>
      let header :=
        if Text.hasPart code.value fault.message then fault.message
        else errorHeader styling (some code.value) fault.message
      header ++ "\n  " ++ Role.dim.apply styling "Docs:" ++ " " ++
        Role.docsUrl.apply styling code.docsUrl

end StaticSite.Terminal
