/-
This file evaluates program trees. The meaning of a node is given once, by
`Evaluator.step`, in terms of the meaning of the evaluations nested in it;
`Evaluator.eval` ties the knot, with a bound on how deep evaluations may be nested. The
depth is counted in frames: a node takes two, statements that run one after the other
take one more, and a called function takes two besides that for its body. Going through
the items of a list takes none. An evaluation that has too few frames left ends with
`depthExceeded`, which nothing catches.

Statements run in the scope they stand in, and a block opens no scope of its own. A
call opens a scope inside the one in which the function was created, binds the
parameters there, and runs the body. The body's `return` ends the call.
-/

import Scriptlet.Evaluator.Builtin
import Scriptlet.Text.Decimal
import Scriptlet.Value.Operator

namespace Scriptlet.Evaluator

/-- Evaluation of a node in a scope. -/
abbrev Meaning : Type := Nat → Node → Eval Value

/-- The value of a name: its nearest binding, or the built-in function of that name. -/
def resolve (scope : Nat) (name : String) : Eval Value := do
  match (← get).get? scope name with
  | some value => return value
  | none =>
    match Builtin.ofName? name with
    | some builtin => return .builtin builtin
    | none => .fail (.unboundName name)

/-- The value of a leaf. -/
def leafValue (scope : Nat) (leaf : Leaf) : Eval Value :=
  match leaf.kind with
  | .own .int =>
    match Text.integer? leaf.text with
    | some value => return .integer value
    | none => .fail (.notInteger leaf.text)
  | .own .string => return .string leaf.text
  | .own .trueWord => return .boolean true
  | .own .falseWord => return .boolean false
  | .own .ident => resolve scope leaf.text
  | kind => .fail (.unhandledLeaf kind leaf.text)

/-- Binds a name in a scope. -/
def bindName (scope : Nat) (name : String) (value : Value) : Eval Unit :=
  modify fun store => store.set scope name value

/-- Binds names to values, one after the other. -/
def bindAll (scope : Nat) (names : List String) (values : List Value) : Eval Unit :=
  modify fun store =>
    (names.zip values).foldl (fun store (name, value) => store.set scope name value) store

/-- Refuses a wrong number of arguments. -/
def checkCount (expected : Nat) (arguments : List Value) : Eval Unit :=
  if arguments.length = expected then
    return ()
  else
    .fail (.wrongArgumentCount arguments.length expected)

/-- The element of a container at an index. A hash looks up the digest of the index, which
has to be encoded for it. -/
def element (container index : Value) : Eval Value := do
  if container.kind = .hash then
    .encode index
  .ofExcept (container.elementAt index)

variable (meaning : Meaning)

/-- Runs statements one after the other. The result is that of the last one, or the
given value when there is none. -/
@[specialize] def sequence (scope : Nat) (last : Value) : List Node → Eval Value
  | [] => return last
  | statement :: rest => do
    let value ← meaning scope statement
    sequence scope value rest

/-- The values of some nodes, from left to right. -/
@[specialize] def values (scope : Nat) : List Node → Eval (List Value)
  | [] => return []
  | node :: rest => do
    let value ← meaning scope node
    let others ← values scope rest
    return value :: others

/-- The entries of a hash literal. The key of a pair is evaluated and checked before its
value and encoded behind it, and a key that comes again overwrites. -/
@[specialize] def hashEntries (scope : Nat) (entries : List (HashEntry Value)) :
    List Node → Eval (List (HashEntry Value))
  | [] => return entries
  | pair :: rest =>
    match pair.operands with
    | [keyNode, valueNode] => do
      let key ← meaning scope keyNode
      match key.atom? with
      | none => .fail (.unhashable key.kind)
      | some atom =>
        let value ← meaning scope valueNode
        .encode key
        hashEntries scope (HashTable.insert entries atom value) rest
    | _ => .fail (.malformedTree .pair)

/-- The result of calling a value with arguments, given the meaning of the statements of a
function body. -/
@[specialize] def call (callee : Value) (arguments : List Value) : Eval Value :=
  match callee with
  | .function _ parameters body closure => do
    checkCount parameters.length arguments
    let scope ← modifyGet fun store => store.openScope (some closure)
    bindAll scope parameters arguments
    .catchReturn (sequence meaning scope .null body.operands)
  | .builtin builtin => do
    checkCount builtin.arity arguments
    builtin.apply arguments
  | _ => .fail (.notCallable callee.kind)

/-- The result of a tree, given the meaning of the nodes nested in it and of the statements
of a function body. -/
@[specialize] def treeValue (called : Meaning) (scope : Nat) (label : Label)
    (children : List Node) : Eval Value :=
  match label, children with
  | .program, statements => .catchReturn (sequence meaning scope .null statements)
  | .expressionStatement, expression :: _ => meaning scope expression
  | .block, children => sequence meaning scope .null children.tail
  | .letStatement, [_, name, valueNode] =>
    match name.identifier? with
    | none => .fail (.notIdentifier "Let target")
    | some name => do
      let value ← meaning scope valueNode
      bindName scope name value
      return .null
  | .returnStatement, [_, valueNode] => do
    let value ← meaning scope valueNode
    throw (.returned value)
  | .conditional, _ :: condition :: consequence :: alternative => do
    let decided ← meaning scope condition
    if decided.isTruthy then
      meaning scope consequence
    else
      match alternative with
      | [] => return .null
      | alternative :: _ => meaning scope alternative
  | .unary, [operator, operandNode] => do
    let operand ← meaning scope operandNode
    .ofExcept ((UnaryOperator.ofText operator.leafText).apply operand)
  | .binary, [operator, leftNode, rightNode] => do
    let left ← meaning scope leftNode
    let right ← meaning scope rightNode
    .ofExcept ((BinaryOperator.ofText operator.leafText).apply left right)
  | .function, [_, parameters, body] => do
    return .function (← Eval.freshTag) (parameters.operands.map Node.leafText) body scope
  | .call, _ :: calleeNode :: argumentNodes => do
    let callee ← meaning scope calleeNode
    let arguments ← values meaning scope argumentNodes
    call called callee arguments
  | .array, children => do
    let elements ← values meaning scope children.tail
    .newArray elements
  | .index, [_, containerNode, indexNode] => do
    let container ← meaning scope containerNode
    let index ← meaning scope indexNode
    element container index
  | .hash, children => do
    let entries ← hashEntries meaning scope [] children.tail
    return .hash (← Eval.freshTag) entries
  | .parameters, _ => .fail (.unknownNode .parameters)
  | .pair, _ => .fail (.unknownNode .pair)
  | .foreign name, _ => .fail (.unknownNode (.foreign name))
  | label, _ => .fail (.malformedTree label)

/-- The meaning of a node, given the meaning of the nodes nested in it and of the statements
of a function body. A fault raised while the node is evaluated points to the node unless
a nested one has already given it a place. -/
@[specialize] def step (called : Meaning) (scope : Nat) (node : Node) : Eval Value :=
  .locating node <|
    match node with
    | .hole => .fail .missingNode
    | .leaf leaf => leafValue scope leaf
    | .tree label children => treeValue meaning called scope label children

/-- The node runs statements one after the other. -/
def runsStatements : Node → Bool
  | .tree .program _ => true
  | .tree .block _ => true
  | _ => false

/-- The meaning of a node when so many frames are left. The nodes nested in it have two
frames less, or three when they are statements, and the statements of a function that it
calls have five less. -/
def eval : Nat → Meaning
  | frames + 5, scope, node =>
    step (if runsStatements node then eval (frames + 2) else eval (frames + 3)) (eval frames)
      scope node
  | _, _, _ => throw .depthExceeded

/-- The frames that a node leaves of five to the nodes nested in it. -/
def spare (node : Node) : Nat :=
  if runsStatements node then 2 else 3

theorem spare_le (node : Node) : spare node ≤ 3 := by
  unfold spare
  split <;> decide

theorem eval_add_five (frames scope : Nat) (node : Node) :
    eval (frames + 5) scope node = step (eval (frames + spare node)) (eval frames) scope node := by
  rw [eval, spare]
  split <;> rfl

/-- A property of meanings that is told node by node, that holds when no frames are left and
that a step keeps is one of evaluation. -/
theorem eval_induction {P : Meaning → Prop}
    (tell : ∀ family : Node → Meaning, (∀ node, P (family node)) →
      P fun scope node => family node scope node)
    (stop : P fun _ _ => throw .depthExceeded)
    (keep : ∀ {meaning called : Meaning}, P meaning → P called → P (step meaning called))
    (frames : Nat) : P (eval frames) := by
  induction frames using Nat.strongRecOn with
  | ind frames inductionHypothesis =>
    match frames with
    | frames + 5 =>
      have steps : eval (frames + 5) =
          fun scope node => step (eval (frames + spare node)) (eval frames) scope node := by
        funext scope node
        exact eval_add_five frames scope node
      rw [steps]
      refine tell (fun node => step (eval (frames + spare node)) (eval frames)) fun node => ?_
      have left := spare_le node
      exact keep (inductionHypothesis (frames + spare node) (by omega))
        (inductionHypothesis frames (by omega))
    | 0 | 1 | 2 | 3 | 4 => exact stop

end Scriptlet.Evaluator
