/-
This file holds the interactive session as a state machine. Each entry is a line, an
interrupt, or the end of the input. `Repl.step` says what an entry does to the session
and what is printed for it; `Repl.transcript` follows a list of entries. The end of the
input ends a session, and so does a crash.

A line is read before anything is run for it, under the limit on all frames that the lines
before it have left.
-/

import Scriptlet.Crash
import Scriptlet.Repl.Command

namespace Scriptlet.Repl

/-- What the user gives at the prompt. -/
inductive Entry where
  | line (text : String)
  | interrupt
  | endOfInput
  deriving DecidableEq

/-- The greeting of a session. -/
def banner : String := "shifu repl - Ctrl-D to exit, / for commands"

/-- The text before every entry. -/
def prompt : String := ">> "

/-- Characters that a terminal does not show: the zero-width ones, the byte-order mark, the
no-break space and the carriage return. -/
def isInvisible (c : Char) : Bool :=
  let code := c.toNat
  code == 0x200b || code == 0x200c || code == 0x200d || code == 0xfeff || code == 0xa0 ||
    code == 0x0d

/-- A line without the characters that a terminal does not show. -/
def normalize (text : String) : String :=
  String.ofList (text.toList.filter fun c => !isInvisible c)

/-- What a line shows of its outcome. The value of a `let` is not echoed; a failure is. -/
def echoes (outcome : Outcome) : Bool :=
  outcome.value.isError || !outcome.isLet

/-- Runs a line in the session, which raises the limit on all frames. -/
def evaluate (terminal : Terminal) (repl : Repl) (text : String) : Repl × Printed :=
  let limit := raisedLimit repl.limit
  match Session.runText limit repl.scope text repl.store with
  | .error errors => (repl, .syntaxErrors errors)
  | .ok (outcome, store) =>
    let echoed :=
      match outcome.value with
      | .error _ report =>
        let trail := fun _ => Session.trail limit repl.scope (readSource text).program repl.store
        .line outcome.value.inspect ++ .trace terminal repl.setting trail report
      | value => if outcome.isLet then .nothing else .line value.inspect
    ({ repl with store, limit }, echoed)

/-- What running a line comes to, when that is a crash. -/
def evaluateCrash? (terminal : Terminal) (repl : Repl) (text : String) : Option Crash :=
  Crash.reading? terminal repl.limit text fun program =>
    let limit := raisedLimit repl.limit
    let outcome := (Session.runProgram limit repl.scope program repl.store).1
    Crash.outcome? (terminal.room limit) (echoes outcome) outcome

/-- What a line does. Stages before the value keep nothing from line to line. -/
def line (terminal : Terminal) (stage : Stage) (repl : Repl) (text : String) : Repl × Printed :=
  let text := normalize text
  if (Text.strip text).isEmpty then
    (repl, .nothing)
  else
    match repl.command? terminal text with
    | some result => result
    | none =>
      match stage with
      | .value => repl.evaluate terminal text
      | stage => (repl, (emitAlone terminal repl.setting stage text).printed)

/-- What a line comes to, when that is a crash. A blank line and a command are none. -/
def crash? (terminal : Terminal) (stage : Stage) (repl : Repl) (text : String) : Option Crash :=
  let text := normalize text
  if (Text.strip text).isEmpty || (repl.command? terminal text).isSome then
    none
  else
    match stage with
    | .value => repl.evaluateCrash? terminal text
    | stage => emitCrash? terminal repl.limit stage text repl.scope repl.store

/-- How it goes on behind an entry. -/
inductive Next where
  | goesOn (repl : Repl)
  /-- The input has ended. -/
  | ended
  | crashed (crash : Crash)

/-- What an entry does: how it goes on, and what is printed. Nothing is printed before a
crash. -/
def step (terminal : Terminal) (stage : Stage) (repl : Repl) : Entry → Next × Printed
  | .endOfInput => (.ended, .line "")
  | .interrupt => (.goesOn repl, .line "KeyboardInterrupt")
  | .line text =>
    match repl.crash? terminal stage text with
    | some crash => (.crashed crash, .nothing)
    | none =>
      let (after, printed) := repl.line terminal stage text
      (.goesOn after, printed)

/-- What is printed in a session, entry by entry, and the crash that ended it, if any. -/
structure Transcript where
  answers : List Printed
  crash : Option Crash

/-- The transcript with some answers in front of it. -/
def Transcript.after (transcript : Transcript) (answers : List Printed) : Transcript :=
  { transcript with answers := answers ++ transcript.answers }

/-- What is printed for each entry up to the end of the input, which also closes a list of
entries that does not have one, or up to a crash. -/
def transcript (terminal : Terminal) (stage : Stage) (repl : Repl) : List Entry → Transcript
  | [] => ⟨[(repl.step terminal stage .endOfInput).2], none⟩
  | entry :: rest =>
    match repl.step terminal stage entry with
    | (.ended, printed) => ⟨[printed], none⟩
    | (.crashed crash, _) => ⟨[], some crash⟩
    | (.goesOn after, printed) => (after.transcript terminal stage rest).after [printed]

end Scriptlet.Repl
