/-
This file runs programs. A run starts in a scope of a store and always ends: with the
value of the last statement, with the value of a `return`, or with an error value that
reports why the evaluation failed. The outcome also says which statement the value
comes from, because an interactive session does not echo a `let`.

Several texts may be run one after the other on one store; what they bind stays.
-/

import Scriptlet.Evaluator.Trail
import Scriptlet.Tree.Parser

namespace Scriptlet

/-- The depth limit of ordinary runs, in frames. -/
def frameLimit : Nat := 60000

/-- How a run ended. -/
structure Outcome where
  value : Value
  /-- The label of the statement behind the value: `returnStatement` when a `return` ended
  the run, and none after a failure. -/
  label : Option Label

/-- Whether the value comes from a `let`. -/
def Outcome.isLet (outcome : Outcome) : Bool :=
  outcome.label = some .letStatement

/-- The fault that left a run without an answer. -/
def Outcome.escape? (outcome : Outcome) : Option Fault :=
  match outcome.value with
  | .error _ (.fault cause _) => if cause.escapes then some cause else none
  | _ => none

namespace Session

/-- Runs top-level statements and keeps the label of the last one. -/
def statements (meaning : Evaluator.Meaning) (scope : Nat) (last : Outcome) :
    List Node → Eval Outcome
  | [] => return last
  | statement :: rest => do
    let value ← meaning scope statement
    statements meaning scope ⟨value, statement.label?⟩ rest

/-- An error value with its own identity. -/
def failed (report : ErrorReport) (store : Store) : Outcome × Store :=
  let (tag, after) := store.freshTag
  (⟨.error tag report, none⟩, after)

/-- Runs the children of a node as top-level statements. -/
def runProgram (limit scope : Nat) (program : Node) (store : Store) : Outcome × Store :=
  match statements (Evaluator.eval limit) scope ⟨.null, none⟩ program.children store with
  | .ok outcome after => (outcome, after)
  | .error (.returned value) after => (⟨value, some .returnStatement⟩, after)
  | .error (.fault cause place) after => failed (.fault cause place) after
  | .error .depthExceeded after => failed .depthExceeded after

/-- The nodes that the failure of a run has passed on its way out. -/
def trail (limit scope : Nat) (program : Node) (store : Store) : List Node :=
  match Evaluator.cutAmong? (Evaluator.eval limit) .inner scope program.children store with
  | some nested => Evaluator.trail limit nested.scope nested.node nested.store
  | none => []

/-- Reads a text and runs it, unless it has syntax errors. -/
def runText (limit scope : Nat) (text : String) (store : Store) :
    Except (List SyntaxError) (Outcome × Store) := do
  let program ← parse text
  return runProgram limit scope program store

end Session

end Scriptlet
