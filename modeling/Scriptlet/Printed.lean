/-
This file holds what a program prints: text on the output stream and text on the error
stream. Clearing the screen, the trace behind an error and the room for calls depend on
where the program runs, so the terminal provides them; whether the trace is shown is a
setting that the surroundings start with and a command can change.
-/

import Scriptlet.Text.Blank
import Scriptlet.Tree.Watched
import Scriptlet.Value.Inspect

namespace Scriptlet

/-- Text for the output stream and text for the error stream. -/
structure Printed where
  out : String
  err : String
  deriving DecidableEq

namespace Printed

/-- Nothing. -/
def nothing : Printed := ⟨"", ""⟩

/-- A line on the output stream. -/
def line (text : String) : Printed := ⟨text ++ "\n", ""⟩

/-- A line on the error stream. -/
def errorLine (text : String) : Printed := ⟨"", text ++ "\n"⟩

instance : Append Printed where
  append first second := ⟨first.out ++ second.out, first.err ++ second.err⟩

/-- A line on the output stream for each text. -/
def lines (texts : List String) : Printed :=
  ⟨String.join (texts.map fun text => text ++ "\n"), ""⟩

end Printed

/-- What depends on where the program runs. -/
structure Terminal where
  /-- What clears the screen. -/
  clearScreen : String
  /-- The lines that show a failure and the nodes that it has passed, which are looked for only
  when they are shown. -/
  trace : (Unit → List Node) → ErrorReport → String
  /-- The frames of the stack that are in use when a text is read, with those that are held back
  for small calls. -/
  framesInUse : Nat
  /-- The most digits of a literal that is converted, when there is such a number. -/
  digits : Option Nat

namespace Terminal

/-- The room for calls, under a limit on all frames. -/
def room (terminal : Terminal) (limit : Nat) : Room :=
  .frames (limit - terminal.framesInUse)

/-- What a parse has to keep within. -/
def limits (terminal : Terminal) (limit : Nat) : Limits :=
  ⟨terminal.room limit, terminal.digits⟩

end Terminal

/-- The raw setting of the error trace; there may be none. -/
abbrev TraceSetting : Type := Option String

/-- The trace is shown when the setting, up to case and surrounding white space, is one of
four words. -/
def TraceSetting.isOn (setting : TraceSetting) : Bool :=
  ["1", "true", "yes", "on"].contains (Text.strip (setting.getD "")).toLower

namespace Printed

/-- The trace behind an error value that has a cause, when the setting asks for it. -/
def trace (terminal : Terminal) (setting : TraceSetting) (trail : Unit → List Node)
    (report : ErrorReport) : Printed :=
  if TraceSetting.isOn setting && report.hasCause then
    errorLine "\nPython traceback:" ++ ⟨"", terminal.trace trail report⟩
  else
    nothing

/-- The list of syntax errors, one to a line. -/
def syntaxErrors (errors : List SyntaxError) : Printed :=
  errorLine ("\n".intercalate ("parser errors:" :: errors.map fun error => "\t" ++ error.message))

end Printed

end Scriptlet
