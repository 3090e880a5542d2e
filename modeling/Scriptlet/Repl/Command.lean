/-
This file holds the commands of an interactive session. A command is a line that starts
with a slash, apart from white space around it; its first word names it and the rest is
its argument.

The commands are also offered as completions of what was typed so far.
-/

import Scriptlet.Printed
import Scriptlet.Store

namespace Scriptlet

/-- The state of an interactive session: the store, the scope that entries run in, the
setting of the error trace, and the limit on all frames, which belongs to the process. -/
structure Repl where
  store : Store
  scope : Nat
  setting : TraceSetting
  limit : Nat

namespace Repl

/-- A session with an empty scope, in which these characters stand for lone surrogates. -/
def fresh (lone : Char → Bool) (setting : TraceSetting) (limit : Nat) : Repl :=
  let (scope, store) := { Store.empty with lone }.openScope none
  ⟨store, scope, setting, limit⟩

/-- The commands. -/
inductive Command where
  | clear
  | trace
  | reset
  deriving DecidableEq

namespace Command

/-- The name of a command. -/
def name : Command → String
  | clear => "/clear"
  | trace => "/py-traceback"
  | reset => "/reset"

/-- What a command does, in a few words. -/
def description : Command → String
  | clear => "Clear the terminal screen"
  | trace => "Toggle Python traceback on errors"
  | reset => "Reset the REPL environment"

/-- Every command, in the order in which they are offered. -/
def all : List Command :=
  [clear, trace, reset]

/-- The command with a given name. -/
def ofName? (text : String) : Option Command :=
  all.find? fun command => command.name == text

end Command

/-- The setting that an argument of the trace command asks for, when it has a meaning. No
argument turns the setting over. -/
def traceSetting? (argument : String) (setting : TraceSetting) : Option TraceSetting :=
  let word := argument.toLower
  if ["on", "1", "true", "yes"].contains word then some (some "1")
  else if ["off", "0", "false", "no"].contains word then some none
  else if argument.isEmpty then some (if TraceSetting.isOn setting then none else some "1")
  else none

/-- Carries out a command. A reset goes on in a new scope; what was bound before stays in the
store, out of reach. It leaves the setting and the limit as they are. -/
def perform (terminal : Terminal) (repl : Repl) (argument : String) : Command → Repl × Printed
  | .clear => (repl, ⟨terminal.clearScreen, ""⟩)
  | .trace =>
    match traceSetting? argument repl.setting with
    | none => (repl, .errorLine "Usage: /py-traceback [on|off]")
    | some setting =>
      let state := if TraceSetting.isOn setting then "on" else "off"
      ({ repl with setting }, .line ("Python traceback: " ++ state))
  | .reset =>
    let (scope, store) := repl.store.openScope none
    ({ repl with store, scope }, .line "Environment reset.")

/-- Carries out a line that is a command; any other line is left alone. -/
def command? (terminal : Terminal) (repl : Repl) (line : String) : Option (Repl × Printed) :=
  let stripped := Text.strip line
  if stripped.startsWith "/" then
    let (name, argument) := Text.firstWord stripped
    match Command.ofName? name with
    | some command => some (repl.perform terminal argument command)
    | none => some (repl, .errorLine ("Unknown command: " ++ name))
  else
    none

/-- The commands that complete what was typed. A line that does not start with a slash
has none. -/
def completions (typed : String) : List Command :=
  if typed.startsWith "/" then
    Command.all.filter fun command => command.name.startsWith typed
  else
    []

end Repl

end Scriptlet
