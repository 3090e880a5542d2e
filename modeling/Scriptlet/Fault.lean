/-
This file holds the causes that end an evaluation, their wording, and the category
each belongs to. A fault raised inside a node is given the place of the first leaf
of that node, so a report can point into the source.

The faults from `unknownNode` on cannot arise from a program that was read without
syntax errors; they are what a tree put together by hand can run into. A text without a
UTF-8 form is a fault too, but of the machine underneath: no report names it, and a run that
meets one has no answer.
-/

import Scriptlet.Tree
import Scriptlet.Value.Kind

namespace Scriptlet

/-- The categories of fault. -/
inductive Category where
  | runtime
  | type
  | arity
  | index
  | name
  deriving DecidableEq

/-- The causes that end an evaluation. -/
inductive Fault where
  /-- A name is bound in no scope of the chain and is no built-in function. -/
  | unboundName (name : String)
  /-- A binary operator was given operands of two kinds. -/
  | typeMismatch (left : Kind) (operator : String) (right : Kind)
  /-- A binary operator does not apply to two operands of one kind. -/
  | unknownBinary (left : Kind) (operator : String) (right : Kind)
  /-- A unary operator does not apply to its operand. -/
  | unknownUnary (operator : String) (operand : Kind)
  | divisionByZero
  | notCallable (kind : Kind)
  | wrongArgumentCount (given expected : Nat)
  | unhashable (kind : Kind)
  | notIndexable (kind : Kind)
  /-- A built-in function has no meaning for this kind of argument. -/
  | unsupportedArgument (builtin : Builtin) (kind : Kind)
  /-- The first argument of a built-in function has to be an array. -/
  | arrayExpected (builtin : Builtin) (kind : Kind)
  /-- The second argument of a built-in function has to be an integer. -/
  | integerExpected (builtin : Builtin) (kind : Kind)
  | emptyArray
  | outOfBounds (index : Int)
  /-- A text with a lone surrogate in it was to be encoded. -/
  | unencodable (text : String)
  /-- A tree whose label has no meaning. -/
  | unknownNode (label : Label)
  /-- A leaf whose kind has no value. -/
  | unhandledLeaf (kind : LeafKind) (text : String)
  /-- A node that has to be a name is none. -/
  | notIdentifier (role : String)
  /-- An integer leaf whose text is no decimal integer. -/
  | notInteger (text : String)
  /-- A hole was evaluated. -/
  | missingNode
  /-- A tree has the wrong number of children for its label. -/
  | malformedTree (label : Label)
  deriving DecidableEq

namespace Fault

/-- The wording of a fault. -/
def message : Fault → String
  | unboundName name => "identifier not found: " ++ name
  | typeMismatch left operator right =>
    "type mismatch: " ++ left.name ++ " " ++ operator ++ " " ++ right.name
  | unknownBinary left operator right =>
    "unknown operator: " ++ left.name ++ " " ++ operator ++ " " ++ right.name
  | unknownUnary operator operand => "unknown operator: " ++ operator ++ operand.name
  | divisionByZero => "division by zero"
  | notCallable kind => "not a function: " ++ kind.name
  | wrongArgumentCount given expected =>
    "wrong number of arguments. got=" ++ toString given ++ ", expected=" ++ toString expected
  | unhashable kind => "unusable as hash key: " ++ kind.name
  | notIndexable kind => "index operator not supported: " ++ kind.name
  | unsupportedArgument builtin kind =>
    "argument to '" ++ builtin.name ++ "' not supported, got " ++ kind.name
  | arrayExpected builtin kind =>
    "argument to '" ++ builtin.name ++ "' must be an ARRAY, got " ++ kind.name
  | integerExpected builtin kind =>
    "second argument to '" ++ builtin.name ++ "' must be an INTEGER, got " ++ kind.name
  | emptyArray => "an array has no elements!"
  | outOfBounds index => "index to pop from is out of bounds: " ++ toString index
  | unencodable _ => "surrogates not allowed"
  | unknownNode label => "Unknown node: " ++ label.name
  | unhandledLeaf kind text => "Unhandled token " ++ kind.name ++ ":" ++ text
  | notIdentifier role => role ++ " must be an identifier"
  | notInteger text => "not an integer: " ++ text
  | missingNode => "missing node"
  | malformedTree label => "malformed node: " ++ label.name

/-- The faults that no report names. They are those of the machine underneath, and a run that
meets one of them has no answer. -/
def escapes : Fault → Bool
  | unencodable _ | notInteger _ | missingNode | malformedTree _ => true
  | _ => false

/-- The category of a fault. -/
def category : Fault → Category
  | unboundName _ => .name
  | typeMismatch _ _ _ | notCallable _ | unhashable _ | notIndexable _ | unsupportedArgument _ _
  | arrayExpected _ _ | integerExpected _ _ => .type
  | wrongArgumentCount _ _ => .arity
  | outOfBounds _ => .index
  | _ => .runtime

end Fault

/-- The wording of a place behind a message, empty when there is none. -/
def Place.wording : Option Place → String
  | none => ""
  | some ⟨line, none⟩ => " (line " ++ toString line ++ ")"
  | some ⟨line, some column⟩ => " (line " ++ toString line ++ ", col " ++ toString column ++ ")"

/-- The account of a failed evaluation that an error value carries. -/
inductive ErrorReport where
  /-- A message without a cause behind it. -/
  | plain (message : String)
  /-- A fault and the place it was raised at. -/
  | fault (cause : Fault) (place : Option Place)
  /-- The nesting of evaluations reached the depth limit. -/
  | depthExceeded
  deriving DecidableEq

namespace ErrorReport

/-- The message of a report, without its place. -/
def message : ErrorReport → String
  | plain message => message
  | fault cause _ => cause.message
  | depthExceeded => "maximum recursion depth exceeded"

/-- The message of a report with its place. -/
def text : ErrorReport → String
  | fault cause place => cause.message ++ Place.wording place
  | report => report.message

/-- A report has a cause unless it is a plain message. -/
def hasCause : ErrorReport → Bool
  | plain _ => false
  | _ => true

end ErrorReport

end Scriptlet
