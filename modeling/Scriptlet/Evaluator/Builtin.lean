/-
This file gives the built-in functions their meaning. None of them changes its
arguments: `push` and `pop` make new arrays.
-/

import Scriptlet.Evaluator.Eval

namespace Scriptlet

/-- The elements of an argument that has to be an array. -/
def Builtin.elements (builtin : Builtin) : Value → Except Fault (List Value)
  | .array _ elements => .ok elements
  | argument => .error (.arrayExpected builtin argument.kind)

/-- The size of a string in UTF-8 bytes, or the number of elements of an array. -/
def Value.length : Value → Except Fault Value
  | .string text => .ok (.integer text.utf8ByteSize)
  | .array _ elements => .ok (.integer elements.length)
  | argument => .error (.unsupportedArgument .len argument.kind)

/-- The elements without the one at a place. -/
def removeAt (elements : List Value) (place : Value) : Except Fault (List Value) :=
  match place with
  | .integer index =>
    if 0 ≤ index ∧ index < elements.length then
      .ok (elements.eraseIdx index.toNat)
    else
      .error (.outOfBounds index)
  | _ => .error (.integerExpected .pop place.kind)

/-- An element that has to be there. -/
def presentElement : Option Value → Except Fault Value
  | some element => .ok element
  | none => .error .emptyArray

/-- The result of a built-in function on arguments of the right number. -/
def Builtin.apply (builtin : Builtin) (arguments : List Value) : Eval Value :=
  match builtin, arguments with
  | .len, [value] => do
    .encode value
    .ofExcept value.length
  | .first, [array] => do
    let elements ← .ofExcept (builtin.elements array)
    .ofExcept (presentElement elements.head?)
  | .last, [array] => do
    let elements ← .ofExcept (builtin.elements array)
    .ofExcept (presentElement elements.getLast?)
  | .push, [array, value] => do
    let elements ← .ofExcept (builtin.elements array)
    .newArray (elements ++ [value])
  | .pop, [array, place] => do
    let elements ← .ofExcept (builtin.elements array)
    let remaining ← .ofExcept (removeAt elements place)
    .newArray remaining
  | _, _ => .fail (.wrongArgumentCount arguments.length builtin.arity)

end Scriptlet
