/-
This file holds the computations of the evaluator: they change the store and end with a
result or with an interrupt. An interrupt is a `return` on its way to the call or the
program around it, a fault, or the depth limit. The store keeps what was done before an
interrupt.
-/

import Scriptlet.Store

namespace Scriptlet

/-- What cuts an evaluation short. -/
inductive Interrupt where
  | returned (value : Value)
  | fault (cause : Fault) (place : Option Place)
  | depthExceeded

/-- A computation on the store. -/
abbrev Eval : Type → Type := EStateM Interrupt Store

/-- The text of a value that has no UTF-8 form, when these characters stand for lone surrogates.
Values other than texts need none. -/
def Value.unencodable? (lone : Char → Bool) : Value → Option String
  | .string text => if text.toList.any lone then some text else none
  | _ => none

theorem Value.unencodable?_eq_some_iff {lone : Char → Bool} {value : Value} {text : String} :
    value.unencodable? lone = some text ↔ value = .string text ∧ text.toList.any lone = true := by
  constructor
  · intro found
    unfold unencodable? at found
    split at found
    · split at found
      · next held =>
        cases found
        exact ⟨rfl, held⟩
      · cases found
    · cases found
  · rintro ⟨rfl, held⟩
    exact if_pos held

namespace Eval

/-- Of two computations in a row the second one starts where the first one has ended, unless
that was cut short. -/
theorem bind_run {α β : Type} (first : Eval α) (continuation : α → Eval β) (store : Store) :
    (first >>= continuation) store =
      match first store with
      | .ok result after => continuation result after
      | .error interrupt after => .error interrupt after := by
  show EStateM.bind first continuation store = _
  rw [EStateM.bind]
  cases first store <;> rfl

/-- Ends with a fault whose place is still open. -/
def fail {α : Type} (cause : Fault) : Eval α :=
  throw (.fault cause none)

/-- The result of a rule that has one, or its fault. -/
def ofExcept {α : Type} : Except Fault α → Eval α
  | .ok result => pure result
  | .error cause => fail cause

/-- Takes a text to its UTF-8 bytes, which it has unless it holds a lone surrogate. Other values
have nothing to encode. -/
def encode (value : Value) : Eval Unit := do
  match value.unencodable? (← get).lone with
  | some text => fail (.unencodable text)
  | none => return ()

theorem encode_run (value : Value) (store : Store) :
    encode value store =
      match value.unencodable? store.lone with
      | some text => .error (.fault (.unencodable text) none) store
      | none => .ok () store := by
  show (match value.unencodable? store.lone with
    | some text => fail (.unencodable text)
    | none => pure () : Eval Unit) store = _
  cases value.unencodable? store.lone <;> rfl

theorem encode_eq_ok_iff {value : Value} {store after : Store} {result : Unit} :
    encode value store = .ok result after ↔
      value.unencodable? store.lone = none ∧ after = store := by
  rw [encode_run]
  cases value.unencodable? store.lone <;> simp [eq_comm]

/-- Hands out a tag. -/
def freshTag : Eval Nat :=
  modifyGet Store.freshTag

/-- A new array. -/
def newArray (elements : List Value) : Eval Value := do
  return .array (← freshTag) elements

/-- Gives a fault that has no place yet the place of a node. A place once given stays. -/
@[inline] def locating {α : Type} (node : Node) (action : Eval α) : Eval α := fun store =>
  match action store with
  | .error (.fault cause none) after => .error (.fault cause node.place?) after
  | ended => ended

/-- Ends a call or a program: a `return` becomes its value. -/
@[inline] def catchReturn (action : Eval Value) : Eval Value := fun store =>
  match action store with
  | .error (.returned value) after => .ok value after
  | ended => ended

end Eval

end Scriptlet
