/-
This file is the program: it reads the command line, the standard input and files, and
prints. What it prints and how it ends is decided by the modules it calls.
-/

import Scriptlet.CommandLine

namespace Scriptlet.Main

/-- The terminal that the program runs in: it is cleared by an escape sequence, and the
program keeps no trace of its own calls. Digits are converted without a limit. -/
def terminal : Terminal := ⟨"\x1b[2J\x1b[H", fun _ _ => "", 0, none⟩

/-- The environment variable that sets the error trace. -/
def settingVariable : String := "SHIFU_DEBUG_PY_TRACE"

/-- What is printed for a crash. -/
def crashNotice : String := "the program has ended for want of room"

/-- Prints on both streams. -/
def put (printed : Printed) : IO Unit := do
  IO.print printed.out
  (← IO.getStdout).flush
  IO.eprint printed.err

/-- Asks for entries and answers them until the input ends. -/
partial def converse (stage : Stage) (repl : Repl) : IO Unit := do
  IO.print Repl.prompt
  (← IO.getStdout).flush
  let typed ← (← IO.getStdin).getLine
  let entry :=
    if typed.isEmpty then Repl.Entry.endOfInput
    else .line (String.ofList (typed.toList.filter (· != '\n')))
  let (next, printed) := repl.step terminal stage entry
  put printed
  match next with
  | .goesOn repl => converse stage repl
  | .ended => return
  | .crashed _ => IO.eprintln crashNotice

/-- The contents of the file with a given name, if there is one. -/
def readFile? (name : String) : IO (Option ByteArray) := do
  try
    return some (← IO.FS.readBinFile name)
  catch _ =>
    return none

/-- Carries out what the command line asks for and gives the exit code. -/
def perform (arguments : List String) : IO UInt32 := do
  let setting ← IO.getEnv settingVariable
  match CommandLine.ofArguments arguments with
  | .error error =>
    IO.eprintln error.message
    return 1
  | .ok ⟨stage, none⟩ =>
    put (.line Repl.banner)
    converse stage (.fresh (fun _ => false) setting frameLimit)
    return 0
  | .ok ⟨stage, some argument⟩ =>
    let fromInput := argument = CommandLine.standardInputMark
    let input ← if fromInput then (← IO.getStdin).readToEnd else pure ""
    let file ← if fromInput then pure none else readFile? argument
    match CommandLine.load argument input file with
    | .error (.usage error) =>
      IO.eprintln error.message
      return 1
    | .error .notText =>
      IO.eprintln (argument ++ " is not UTF-8 text")
      return 1
    | .ok text =>
      let (scope, store) := Store.empty.openScope none
      if (emitCrash? terminal frameLimit stage text scope store).isSome then
        IO.eprintln crashNotice
        return 1
      let (emission, _) := emit terminal setting stage text scope store
      put emission.printed
      return emission.code.toUInt32

end Scriptlet.Main

/-- The entry point of the program. -/
def main (arguments : List String) : IO UInt32 :=
  Scriptlet.Main.perform arguments
