/-
This file says what ends the program from outside. The machine has room for so many calls
inside each other and converts so many digits, and a text with a lone surrogate has no
bytes. What goes beyond this is no error of the language: nothing answers it, and the
program ends where it happens.
-/

import Scriptlet.Stage

namespace Scriptlet

/-- What ends the program from outside. -/
inductive Crash where
  /-- A text could not be read to its end. -/
  | refused (refusal : Refusal)
  /-- What was to be shown could not be printed. -/
  | unprinted (error : PrintError)
  /-- A run ended without an answer. -/
  | escaped (cause : Fault)
  deriving DecidableEq

namespace Crash

/-- Reads a text and goes on with its program, unless that has syntax errors, which are
answered. -/
def reading? (terminal : Terminal) (limit : Nat) (text : String)
    (onward : Node → Option Crash) : Option Crash :=
  match readWithin (terminal.limits limit) text with
  | .error refusal => some (.refused refusal)
  | .ok reading => if reading.errors.isEmpty then onward reading.program else none

/-- Prints something for an answer. -/
def printing? (room : Room) (printer : Printer String) : Option Crash :=
  match printer room with
  | .error error => some (.unprinted error)
  | .ok _ => none

/-- Takes the outcome of a run, which is shown or not. -/
def outcome? (room : Room) (shown : Bool) (outcome : Outcome) : Option Crash :=
  match outcome.escape? with
  | some cause => some (.escaped cause)
  | none => if shown then printing? room outcome.value.printer else none

end Crash

/-- The limit on all frames from the first run on. A run raises it and does not take it back. -/
def raisedLimit (limit : Nat) : Nat :=
  max limit frameLimit

/-- What printing a stage of a text comes to, when that is a crash. -/
def emitCrash? (terminal : Terminal) (limit : Nat) (stage : Stage) (text : String) (scope : Nat)
    (store : Store) : Option Crash :=
  match stage with
  | .tokens => none
  | .canonical => Crash.reading? terminal limit text fun program =>
    Crash.printing? (terminal.room limit) program.printer
  | .value => Crash.reading? terminal limit text fun program =>
    Crash.outcome? (terminal.room (raisedLimit limit)) true
      (Session.runProgram frameLimit scope program store).1

end Scriptlet
