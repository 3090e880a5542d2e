/-
This file follows a failure back to where it was raised. An evaluation that fails has been
cut short by a failure nested in it, or has raised the failure itself. The trail of
the failure has the nodes on the way, the outermost first.

The nested evaluations of a node are those that its meaning starts, one after the other
as long as each ends with a value. A `return` also cuts an evaluation short, but it is no
failure and leaves no trail.
-/

import Scriptlet.Evaluator

namespace Scriptlet

/-- The store in which the body of a function starts: a new scope inside the one that the
function was created in, with the parameters bound. -/
def Store.entered (store : Store) (closure : Nat) (parameters : List String)
    (arguments : List Value) : Store :=
  (parameters.zip arguments).foldl
    (fun later (name, value) => later.set store.scopes.size name value)
    (store.openScope (some closure)).2

namespace Evaluator

/-- The nodes that a node evaluates one after the other, whatever their values are. -/
def premises : Node → List Node
  | .tree .program statements => statements
  | .tree .expressionStatement (expression :: _) => [expression]
  | .tree .block children => children.tail
  | .tree .letStatement [_, name, value] => if name.identifier?.isSome then [value] else []
  | .tree .returnStatement [_, value] => [value]
  | .tree .conditional (_ :: condition :: _ :: _) => [condition]
  | .tree .unary [_, operand] => [operand]
  | .tree .binary [_, left, right] => [left, right]
  | .tree .call (_ :: callee :: arguments) => callee :: arguments
  | .tree .array children => children.tail
  | .tree .index [_, container, index] => [container, index]
  | _ => []

/-- How a nested evaluation is started: for a node inside the node at hand, or for a statement
of a function that it calls. -/
inductive Entry where
  | inner
  | body

/-- The frames that are left for a nested evaluation when the node at hand has five more. -/
def Entry.frames (frames : Nat) (node : Node) : Entry → Nat
  | inner => frames + spare node
  | body => frames

theorem Entry.frames_lt (frames : Nat) (node : Node) (entry : Entry) :
    entry.frames frames node < frames + 5 := by
  have left := spare_le node
  cases entry <;> simp only [Entry.frames] <;> omega

/-- A nested evaluation. -/
structure Nested where
  entry : Entry
  scope : Nat
  node : Node
  store : Store

/-- The nested evaluation, when what has cut it short is a failure. -/
def Nested.cutBy? (nested : Nested) : Interrupt → Option Nested
  | .returned _ => none
  | .fault _ _ => some nested
  | .depthExceeded => some nested

variable (meaning called : Meaning)

/-- The first of some nodes in a row that fails. -/
def cutAmong? (entry : Entry) (scope : Nat) : List Node → Store → Option Nested
  | [], _ => none
  | node :: rest, store =>
    match meaning scope node store with
    | .ok _ after => cutAmong? entry scope rest after
    | .error interrupt _ => Nested.cutBy? ⟨entry, scope, node, store⟩ interrupt

/-- The first key or value of some pairs that fails. That no hash takes a key is no failure of
the key. -/
def cutPairs? (scope : Nat) : List Node → Store → Option Nested
  | [], _ => none
  | pair :: rest, store =>
    match pair.operands with
    | [key, value] =>
      match meaning scope key store with
      | .error interrupt _ => Nested.cutBy? ⟨.inner, scope, key, store⟩ interrupt
      | .ok found middle =>
        if found.atom?.isNone then
          none
        else
          match meaning scope value middle with
          | .error interrupt _ => Nested.cutBy? ⟨.inner, scope, value, middle⟩ interrupt
          | .ok _ after =>
            if (found.unencodable? after.lone).isSome then none else cutPairs? scope rest after
    | _ => none

/-- The first statement of a called function that fails. -/
def cutBody? (callee : Value) (arguments : List Value) (store : Store) : Option Nested :=
  match callee with
  | .function _ parameters body closure =>
    if arguments.length = parameters.length then
      cutAmong? called .body store.scopes.size body.operands
        (store.entered closure parameters arguments)
    else
      none
  | _ => none

/-- The nested evaluation that fails behind the premises of a node: in the branch that a condition
selects, in the pairs of a hash, or in a called function. -/
def cutBehind? (scope : Nat) (node : Node) (store : Store) : Option Nested :=
  match node with
  | .tree .conditional (_ :: condition :: consequence :: alternative) =>
    match meaning scope condition store with
    | .ok decided after =>
      let branch := if decided.isTruthy then some consequence else alternative.head?
      cutAmong? meaning .inner scope branch.toList after
    | .error _ _ => none
  | .tree .call (_ :: nodes) =>
    match values meaning scope nodes store with
    | .ok (callee :: arguments) after => cutBody? called callee arguments after
    | _ => none
  | .tree .hash children => cutPairs? meaning scope children.tail store
  | _ => none

/-- The nested evaluation that makes the evaluation of a node fail, unless the node fails by
itself. -/
def cut? (scope : Nat) (node : Node) (store : Store) : Option Nested :=
  match cutAmong? meaning .inner scope (premises node) store with
  | some nested => some nested
  | none => cutBehind? meaning called scope node store

/-- The nodes from a node to the one that raised the failure of its evaluation. -/
def trail : Nat → Nat → Node → Store → List Node
  | frames + 5, scope, node, store =>
    node ::
      match cut? (eval (frames + spare node)) (eval frames) scope node store with
      | none => []
      | some ⟨.inner, scope, inner, store⟩ =>
        if runsStatements node then trail (frames + 2) scope inner store
        else trail (frames + 3) scope inner store
      | some ⟨.body, scope, inner, store⟩ => trail frames scope inner store
  | _, _, node, _ => [node]

theorem trail_add_five (frames scope : Nat) (node : Node) (store : Store) :
    trail (frames + 5) scope node store =
      node :: (cut? (eval (frames + spare node)) (eval frames) scope node store).elim []
        fun nested => trail (nested.entry.frames frames node) nested.scope nested.node
          nested.store := by
  rw [trail]
  split
  · next found => rw [found, Option.elim_none]
  · next found =>
    rw [found, Option.elim_some, Entry.frames, spare]
    split <;> rfl
  · next found => rw [found, Option.elim_some, Entry.frames]

end Evaluator

end Scriptlet
