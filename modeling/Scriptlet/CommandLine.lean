/-
This file reads the command line. An option chooses the stage to print; one further
argument is the program: a dash stands for the standard input, the name of a file for
its contents, and anything else is the program text itself. Without it the program is
typed in an interactive session.
-/

import Scriptlet.Repl
import Scriptlet.Text.Newline

namespace Scriptlet.CommandLine

/-- The ways in which a command line can be refused. -/
inductive UsageError where
  | unknownStage (text : String)
  | missingStage
  | unexpectedArgument (text : String)
  | emptyInput
  deriving DecidableEq

/-- The wording of a usage error. -/
def UsageError.message : UsageError → String
  | unknownStage text =>
    "--output must be one of " ++ ", ".intercalate (Stage.all.map Stage.name) ++ "; got " ++
      Text.quoted text
  | missingStage => "--output flag requires a value"
  | unexpectedArgument text => "Unexpected argument: " ++ text
  | emptyInput => "No input provided on stdin"

/-- What a command line asks for. -/
structure Request where
  stage : Stage
  program : Option String
  deriving DecidableEq

/-- The stage that an option names. -/
def stageOf (text : String) : Except UsageError Stage :=
  match Stage.ofName? text with
  | some stage => .ok stage
  | none => .error (.unknownStage text)

/-- The option that chooses the stage. -/
def stageOption : String := "--output"

/-- Reads the arguments from left to right; a later option overrides an earlier one. -/
def read (request : Request) : List String → Except UsageError Request
  | [] => .ok request
  | argument :: rest =>
    if argument.startsWith (stageOption ++ "=") then
      match stageOf (String.ofList (argument.toList.drop (stageOption.length + 1))) with
      | .ok stage => read { request with stage } rest
      | .error error => .error error
    else if argument = stageOption then
      match rest with
      | [] => .error .missingStage
      | name :: rest =>
        match stageOf name with
        | .ok stage => read { request with stage } rest
        | .error error => .error error
    else
      match request.program with
      | none => read { request with program := some argument } rest
      | some _ => .error (.unexpectedArgument argument)

/-- Reads a command line. Without an option the value is printed. -/
def ofArguments (arguments : List String) : Except UsageError Request :=
  read ⟨.value, none⟩ arguments

/-- The argument that stands for the standard input. -/
def standardInputMark : String := "-"

/-- The ways in which a program can fail to be loaded. -/
inductive LoadError where
  | usage (error : UsageError)
  /-- The file is not UTF-8 text. -/
  | notText
  deriving DecidableEq

/-- The text of a stored file, with its line ends unified. -/
def fileText (bytes : ByteArray) : Except LoadError String :=
  match String.fromUTF8? bytes with
  | some text => .ok (String.ofList (Text.unifyNewlines text.toList))
  | none => .error .notText

/-- The program text that an argument stands for, given the standard input and the
contents of the file of that name, if there is one. -/
def load (argument : String) (standardInput : String) (file : Option ByteArray) :
    Except LoadError String :=
  if argument = standardInputMark then
    if standardInput.isEmpty then .error (.usage .emptyInput) else .ok standardInput
  else
    match file with
    | some bytes => fileText bytes
    | none => .ok argument

end Scriptlet.CommandLine
