/-
This file gives the operators their meaning on values. An operator is known by its
text; a text that names none is kept, because a fault repeats it.

Two integers are taken by arithmetic and comparison alone. On other operands equality
and the connectives always apply, and a sum of two strings joins them. The connectives
look at both sides and count only the boolean `true`.
-/

import Scriptlet.Value.HashTable
import Scriptlet.Value.Integer

namespace Scriptlet

/-- The binary operators. -/
inductive BinaryOperator where
  | add
  | subtract
  | multiply
  | divide
  | less
  | greater
  | equal
  | notEqual
  | and
  | or
  | foreign (text : String)
  deriving DecidableEq

namespace BinaryOperator

/-- The text of an operator. -/
def text : BinaryOperator → String
  | add => "+"
  | subtract => "-"
  | multiply => "*"
  | divide => "/"
  | less => "<"
  | greater => ">"
  | equal => "=="
  | notEqual => "!="
  | and => "&&"
  | or => "||"
  | foreign text => text

/-- The operators of the language. -/
def all : List BinaryOperator :=
  [add, subtract, multiply, divide, less, greater, equal, notEqual, and, or]

/-- The operator with a given text, foreign when the language has none. -/
def ofText (text : String) : BinaryOperator :=
  (all.find? fun operator => operator.text == text).getD (foreign text)

/-- The meaning of an operator on two integers. -/
def applyIntegers (operator : BinaryOperator) (left right : Int) : Except Fault Value :=
  match operator with
  | add => .ok (.integer (Integer.wrap (left + right)))
  | subtract => .ok (.integer (Integer.wrap (left - right)))
  | multiply => .ok (.integer (Integer.wrap (left * right)))
  | divide =>
    match Integer.quotient? left right with
    | some quotient => .ok (.integer (Integer.wrap quotient))
    | none => .error .divisionByZero
  | less => .ok (.boolean (left < right))
  | greater => .ok (.boolean (left > right))
  | equal => .ok (.boolean (left = right))
  | notEqual => .ok (.boolean (left ≠ right))
  | and | or | foreign _ => .error (.unknownBinary .integer operator.text .integer)

/-- The meaning of an operator on two values that are not both integers. -/
def applyOthers (operator : BinaryOperator) (left right : Value) : Except Fault Value :=
  match operator, left, right with
  | add, .string first, .string second => .ok (.string (first ++ second))
  | equal, _, _ => .ok (.boolean (left.equals right))
  | notEqual, _, _ => .ok (.boolean (!left.equals right))
  | and, _, _ => .ok (.boolean (left.isTrue && right.isTrue))
  | or, _, _ => .ok (.boolean (left.isTrue || right.isTrue))
  | _, _, _ =>
    if left.kind = right.kind then
      .error (.unknownBinary left.kind operator.text right.kind)
    else
      .error (.typeMismatch left.kind operator.text right.kind)

/-- The meaning of an operator on two values. -/
def apply (operator : BinaryOperator) (left right : Value) : Except Fault Value :=
  match left, right with
  | .integer first, .integer second => operator.applyIntegers first second
  | _, _ => operator.applyOthers left right

end BinaryOperator

/-- The unary operators. -/
inductive UnaryOperator where
  | not
  | negate
  | foreign (text : String)
  deriving DecidableEq

namespace UnaryOperator

/-- The text of an operator. -/
def text : UnaryOperator → String
  | not => "!"
  | negate => "-"
  | foreign text => text

/-- The operator with a given text, foreign when the language has none. -/
def ofText (text : String) : UnaryOperator :=
  if text = "!" then not else if text = "-" then negate else foreign text

/-- The meaning of an operator on a value. -/
def apply (operator : UnaryOperator) (operand : Value) : Except Fault Value :=
  match operator, operand with
  | not, _ => .ok (.boolean (!operand.isTruthy))
  | negate, .integer value => .ok (.integer (Integer.wrap (-value)))
  | _, _ => .error (.unknownUnary operator.text operand.kind)

end UnaryOperator

/-- The element of an array at a place, or the value of a hash at a key; `null` where
there is none. -/
def Value.elementAt (container index : Value) : Except Fault Value :=
  match container, index with
  | .array _ elements, .integer place =>
    .ok (if place < 0 then .null else (elements[place.toNat]?).getD .null)
  | .hash _ entries, _ =>
    match index.atom? with
    | some key => .ok ((HashTable.find? entries key).getD .null)
    | none => .error (.unhashable index.kind)
  | _, _ => .error (.notIndexable container.kind)

end Scriptlet
