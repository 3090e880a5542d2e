/-
This file prints one stage of a program: its tokens, its canonical text, or its value.
Syntax errors and failed evaluations go to the error stream as well and give the exit
code 1.
-/

import Scriptlet.Printed
import Scriptlet.Session

namespace Scriptlet

/-- The stages that can be printed. -/
inductive Stage where
  | tokens
  | canonical
  | value
  deriving DecidableEq

namespace Stage

/-- The name of a stage on the command line. -/
def name : Stage → String
  | tokens => "lexer"
  | canonical => "parser"
  | value => "lang"

/-- Every stage. -/
def all : List Stage :=
  [tokens, canonical, value]

/-- The stage with a given name. -/
def ofName? (text : String) : Option Stage :=
  all.find? fun stage => stage.name == text

end Stage

/-- The exit code of a printed stage and what was printed. -/
structure Emission where
  code : Nat
  printed : Printed

namespace Emission

/-- Prints a value; an error value also reports its place and its trace. -/
def ofValue (terminal : Terminal) (setting : TraceSetting) (trail : Unit → List Node)
    (value : Value) : Emission :=
  match value with
  | .error _ report =>
    let located :=
      if report.text = report.message then Printed.nothing
      else .errorLine ("Error: " ++ report.text)
    ⟨1, .line value.inspect ++ located ++ .trace terminal setting trail report⟩
  | _ => ⟨0, .line value.inspect⟩

end Emission

/-- Prints a stage of a text, which is run in a scope of a store when its value is asked
for. -/
def emit (terminal : Terminal) (setting : TraceSetting) (stage : Stage) (text : String)
    (scope : Nat) (store : Store) : Emission × Store :=
  match stage with
  | .tokens => (⟨0, .lines (tokenListing text)⟩, store)
  | .canonical =>
    match parse text with
    | .error errors => (⟨1, .syntaxErrors errors⟩, store)
    | .ok program => (⟨0, .line program.render⟩, store)
  | .value =>
    match Session.runText frameLimit scope text store with
    | .error errors => (⟨1, .syntaxErrors errors⟩, store)
    | .ok (outcome, after) =>
      let trail := fun _ => Session.trail frameLimit scope (readSource text).program store
      (.ofValue terminal setting trail outcome.value, after)

/-- Prints a stage of a text that is run on its own. -/
def emitAlone (terminal : Terminal) (setting : TraceSetting) (stage : Stage) (text : String) :
    Emission :=
  let (scope, store) := Store.empty.openScope none
  (emit terminal setting stage text scope store).1

end Scriptlet
