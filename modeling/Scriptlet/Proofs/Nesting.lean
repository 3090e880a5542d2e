/-
This file names the evaluations that an evaluation consists of. `Evaluator.Enters` lists what
one step of the evaluator starts: the operands of a node, one after the other as long as each
ends with a value; the branch that a condition selects; the keys and values of a hash; and the
statements of a function that the node calls, in the scope that the call has opened.
`Evaluator.Visits` goes on from there to any depth, and `Session.Visits` starts from the
statements of a run.

What holds at every point of a run is stated of the points that it visits.
-/

import Scriptlet.Session

namespace Scriptlet

theorem Node.mem_children_of_mem_operands {node inner : Node} (member : inner ∈ node.operands) :
    inner ∈ node.children := by
  unfold operands at member
  split at member
  · split at member
    · exact List.mem_of_mem_tail member
    · exact member
  · cases member

namespace Evaluator

theorem mem_children_of_mem_premises {node inner : Node} (member : inner ∈ premises node) :
    inner ∈ node.children := by
  unfold premises at member
  split at member
  · exact member
  · rw [List.mem_singleton.mp member]
    exact List.mem_cons_self
  · exact List.mem_of_mem_tail member
  · next word name value =>
    split at member
    · exact List.mem_cons_of_mem word (List.mem_cons_of_mem name member)
    · cases member
  · exact List.mem_cons_of_mem _ member
  · rw [List.mem_singleton.mp member]
    exact List.mem_cons_of_mem _ List.mem_cons_self
  · exact List.mem_cons_of_mem _ member
  · exact List.mem_cons_of_mem _ member
  · exact List.mem_cons_of_mem _ member
  · exact List.mem_of_mem_tail member
  · exact List.mem_cons_of_mem _ member
  · cases member

/-! ### Runs of nodes one after the other -/

section

variable {meaning : Meaning} {scope : Nat} {node : Node} {nodes : List Node} {value : Value}
  {results : List Value} {store middle after : Store}

theorem values_cons (first : meaning scope node store = .ok value middle)
    (rest : values meaning scope nodes middle = .ok results after) :
    values meaning scope (node :: nodes) store = .ok (value :: results) after := by
  rw [values, Eval.bind_run, first]
  simp only [Eval.bind_run, rest]
  rfl

/-- When some nodes have values, the first one has, and so have the others behind it. -/
theorem exists_of_values_cons
    (ran : values meaning scope (node :: nodes) store = .ok results after) :
    ∃ value between others, meaning scope node store = .ok value between ∧
      values meaning scope nodes between = .ok others after ∧ results = value :: others := by
  rw [values, Eval.bind_run] at ran
  split at ran
  · next value between ranFirst =>
    rw [Eval.bind_run] at ran
    split at ran
    · next others last ranRest =>
      cases ran
      exact ⟨value, between, others, ranFirst, ranRest, rfl⟩
    · cases ran
  · cases ran

/-- What the pairs of a hash leave behind when the first of them is taken in. -/
theorem hashEntries_cons {first keyNode valueNode : Node} {rest : List Node}
    {entries found : List (HashEntry Value)} {key value : Value} {atom : Atom}
    {middle later after : Store} (parts : first.operands = [keyNode, valueNode])
    (ranKey : meaning scope keyNode store = .ok key middle) (hashable : key.atom? = some atom)
    (ranValue : meaning scope valueNode middle = .ok value later)
    (encoded : key.unencodable? later.lone = none)
    (ran : hashEntries meaning scope (HashTable.insert entries atom value) rest later =
      .ok found after) :
    hashEntries meaning scope entries (first :: rest) store = .ok found after := by
  rw [hashEntries]
  simp only [parts]
  simp only [Eval.bind_run, ranKey, hashable, ranValue, Eval.encode_run, encoded, ran]

/-- When some pairs of a hash are taken in, the first one is, and so are the others behind it. -/
theorem exists_of_hashEntries_cons {first : Node} {rest : List Node}
    {entries found : List (HashEntry Value)}
    (ran : hashEntries meaning scope entries (first :: rest) store = .ok found after) :
    ∃ keyNode valueNode key atom value middle later, first.operands = [keyNode, valueNode] ∧
      meaning scope keyNode store = .ok key middle ∧ key.atom? = some atom ∧
      meaning scope valueNode middle = .ok value later ∧ key.unencodable? later.lone = none ∧
      hashEntries meaning scope (HashTable.insert entries atom value) rest later =
        .ok found after := by
  rw [hashEntries] at ran
  generalize first.operands = parts at ran ⊢
  rcases parts with _ | ⟨keyNode, _ | ⟨valueNode, _ | ⟨_, _⟩⟩⟩
  case cons.cons.nil =>
    dsimp only at ran
    rw [Eval.bind_run] at ran
    split at ran
    · next key middle ranKey =>
      cases hashable : key.atom? with
      | none =>
        rw [hashable] at ran
        cases ran
      | some atom =>
        simp only [hashable, Eval.bind_run] at ran
        split at ran
        · next value later ranValue =>
          split at ran
          · next ranEncode =>
            obtain ⟨encoded, rfl⟩ := Eval.encode_eq_ok_iff.mp ranEncode
            exact ⟨_, _, _, _, _, _, _, rfl, ranKey, hashable, ranValue, encoded, ran⟩
          · cases ran
        · cases ran
    · cases ran
  all_goals cases ran

/-- Of two runs of pairs the second one goes on with the entries of the first. -/
theorem hashEntries_append (entries : List (HashEntry Value)) (front back : List Node) :
    hashEntries meaning scope entries (front ++ back) =
      hashEntries meaning scope entries front >>= fun found =>
        hashEntries meaning scope found back := by
  induction front generalizing entries with
  | nil => rfl
  | cons first rest inductionHypothesis =>
    rw [List.cons_append, hashEntries, hashEntries]
    generalize first.operands = parts
    rcases parts with _ | ⟨keyNode, _ | ⟨valueNode, _ | ⟨_, _⟩⟩⟩
    case cons.cons.cons.nil =>
      dsimp only
      rw [bind_assoc]
      refine congrArg (meaning scope keyNode >>= ·) (funext fun key => ?_)
      cases key.atom? with
      | none => rfl
      | some atom => simp only [inductionHypothesis, bind_assoc]
    all_goals rfl

/-- Running statements is running them for their values and keeping the last one. -/
theorem sequence_eq_values (meaning : Meaning) (scope : Nat) (last : Value) (nodes : List Node) :
    sequence meaning scope last nodes =
      values meaning scope nodes >>= fun results => pure (results.getLastD last) := by
  induction nodes generalizing last with
  | nil => rfl
  | cons first rest inductionHypothesis =>
    simp only [sequence, values, inductionHypothesis, bind_assoc, pure_bind, List.getLastD_cons]

/-- A called function runs its statements in its own scope, when it was given as many
arguments as it has parameters. -/
theorem call_function {tag closure : Nat} {parameters : List String} {body : Node}
    {arguments : List Value} (counted : arguments.length = parameters.length) :
    call meaning (.function tag parameters body closure) arguments store =
      Eval.catchReturn (sequence meaning store.scopes.size .null body.operands)
        (store.entered closure parameters arguments) := by
  simp only [call, checkCount, if_pos counted]
  rfl

end

/-! ### The evaluations inside an evaluation -/

/-- The meaning that a nested node has. -/
def Entry.meaning (meaning called : Meaning) : Entry → Meaning
  | inner => meaning
  | body => called

/-- The node is a call, and this is what it calls, with these arguments and in this store. -/
def Calls (meaning : Meaning) (scope : Nat) (node : Node) (store : Store) (callee : Value)
    (arguments : List Value) (after : Store) : Prop :=
  ∃ opening nodes, node = .tree .call (opening :: nodes) ∧
    values meaning scope nodes store = .ok (callee :: arguments) after

/-- The evaluations that one step starts, each with its scope, its node and the store that it
finds. -/
inductive Enters (meaning called : Meaning) (scope : Nat) (node : Node) (store : Store) :
    Entry → Nat → Node → Store → Prop where
  | premise {front back : List Node} {inner : Node} {results : List Value} {middle : Store}
      (listed : premises node = front ++ inner :: back)
      (ran : values meaning scope front store = .ok results middle) :
      Enters meaning called scope node store .inner scope inner middle
  | branch {word condition consequence inner : Node} {alternative : List Node} {decided : Value}
      {middle : Store}
      (form : node = .tree .conditional (word :: condition :: consequence :: alternative))
      (ran : meaning scope condition store = .ok decided middle)
      (chosen : (if decided.isTruthy then some consequence else alternative.head?) = some inner) :
      Enters meaning called scope node store .inner scope inner middle
  | key {children front back : List Node} {pair key value : Node}
      {entries : List (HashEntry Value)} {middle : Store} (form : node = .tree .hash children)
      (listed : children.tail = front ++ pair :: back) (parts : pair.operands = [key, value])
      (ran : hashEntries meaning scope [] front store = .ok entries middle) :
      Enters meaning called scope node store .inner scope key middle
  | value {children front back : List Node} {pair key value : Node}
      {entries : List (HashEntry Value)} {found : Value} {atom : Atom} {middle later : Store}
      (form : node = .tree .hash children) (listed : children.tail = front ++ pair :: back)
      (parts : pair.operands = [key, value])
      (ran : hashEntries meaning scope [] front store = .ok entries middle)
      (ranKey : meaning scope key middle = .ok found later) (hashable : found.atom? = some atom) :
      Enters meaning called scope node store .inner scope value later
  | statement {body inner : Node} {front back : List Node} {tag closure : Nat}
      {parameters : List String} {arguments results : List Value} {middle later : Store}
      (calls : Calls meaning scope node store (.function tag parameters body closure) arguments
        middle)
      (counted : arguments.length = parameters.length)
      (listed : body.operands = front ++ inner :: back)
      (ranBody : values called middle.scopes.size front
        (middle.entered closure parameters arguments) = .ok results later) :
      Enters meaning called scope node store .body middle.scopes.size inner later

/-- A node that is entered for its value is a child or, in a hash, a child of a child. -/
theorem Enters.mem {meaning called : Meaning} {scope innerScope : Nat} {node inner : Node}
    {store innerStore : Store}
    (enters : Enters meaning called scope node store .inner innerScope inner innerStore) :
    inner ∈ node.children ∨ ∃ pair ∈ node.children, inner ∈ pair.children := by
  cases enters with
  | premise listed ran =>
    exact .inl (mem_children_of_mem_premises (List.mem_iff_append.mpr ⟨_, _, listed⟩))
  | branch form ran chosen =>
    subst form
    rw [Node.children]
    split at chosen
    · cases chosen
      simp
    · simp [List.mem_of_mem_head? chosen]
  | key form listed parts | value form listed parts =>
    subst form
    have member := List.mem_iff_append.mpr ⟨_, _, listed⟩
    refine .inr ⟨_, List.mem_of_mem_tail member, Node.mem_children_of_mem_operands ?_⟩
    rw [parts]
    simp

/-- The start of an evaluation: what is evaluated, in which scope, with how many frames left,
and the store that it finds. -/
structure Point where
  frames : Nat
  scope : Nat
  node : Node
  store : Store

/-- How the evaluation that starts at a point ends. -/
def Point.result (point : Point) : EStateM.Result Interrupt Store Value :=
  eval point.frames point.scope point.node point.store

/-- The points that an evaluation goes through, itself included. -/
inductive Visits : Point → Point → Prop where
  | self (point : Point) : Visits point point
  | within {frames scope innerScope : Nat} {node innerNode : Node} {store innerStore : Store}
      {entry : Entry} {target : Point}
      (enters : Enters (eval (frames + spare node)) (eval frames) scope node store entry innerScope
        innerNode innerStore)
      (onward : Visits ⟨entry.frames frames node, innerScope, innerNode, innerStore⟩ target) :
      Visits ⟨frames + 5, scope, node, store⟩ target

theorem eval_entry (entry : Entry) (frames : Nat) (node : Node) :
    eval (entry.frames frames node) =
      entry.meaning (eval (frames + spare node)) (eval frames) := by
  cases entry <;> rfl

end Evaluator

namespace Session

open Evaluator

/-- The value of a run is that of its last statement. -/
theorem map_value_statements (meaning : Meaning) (scope : Nat) (last : Outcome)
    (nodes : List Node) :
    Outcome.value <$> statements meaning scope last nodes =
      sequence meaning scope last.value nodes := by
  induction nodes generalizing last with
  | nil => rfl
  | cons first rest inductionHypothesis =>
    simp only [statements, Evaluator.sequence, map_bind, inductionHypothesis]

/-- The points that a run of a program goes through. -/
def Visits (limit scope : Nat) (program : Node) (store : Store) (target : Point) : Prop :=
  ∃ front statement back results middle, program.children = front ++ statement :: back ∧
    values (eval limit) scope front store = .ok results middle ∧
    Evaluator.Visits ⟨limit, scope, statement, middle⟩ target

end Session

end Scriptlet
