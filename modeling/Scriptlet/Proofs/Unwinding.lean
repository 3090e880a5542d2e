/-
This file follows an interrupt on its way out of nested evaluations. A fault that has a place and
the depth limit are caught by nothing: a node is cut short by one of these exactly when an
evaluation that it enters is, and what comes out is the same interrupt, with the store as the inner
evaluation has left it. So a point of a run that is cut short in this way cuts short everything
around it.

A fault without a place is raised by the node itself. It takes the place of the node, and from
there on it is one that passes.
-/

import Scriptlet.Proofs.Nesting

namespace Scriptlet

/-- The interrupts that go all the way out: the depth limit, and a fault that has its place. -/
inductive Interrupt.Passes : Interrupt → Prop where
  | fault (cause : Fault) (place : Place) : Passes (.fault cause (some place))
  | depthExceeded : Passes .depthExceeded

namespace Eval

variable {α β : Type} {interrupt : Interrupt} {store after : Store}

/-- The computation is cut short by this interrupt and leaves this store. -/
def Breaks (interrupt : Interrupt) (action : Eval α) (store after : Store) : Prop :=
  action store = .error interrupt after

theorem breaks_bind {action : Eval α} {continuation : α → Eval β} :
    (action >>= continuation).Breaks interrupt store after ↔
      action.Breaks interrupt store after ∨ ∃ result middle, action store = .ok result middle ∧
        (continuation result).Breaks interrupt middle after := by
  unfold Breaks
  rw [bind_run]
  cases action store with
  | ok result middle =>
    simp only [reduceCtorEq, false_or]
    refine ⟨fun breaks => ⟨result, middle, rfl, breaks⟩, ?_⟩
    rintro ⟨_, _, ⟨⟩, breaks⟩
    exact breaks
  | error other middle => simp

theorem breaks_locating (passes : interrupt.Passes) (node : Node) {action : Eval α}
    (breaks : action.Breaks interrupt store after) :
    (locating node action).Breaks interrupt store after := by
  unfold Breaks locating
  rw [breaks]
  cases passes <;> rfl

theorem breaks_catchReturn (passes : interrupt.Passes) {action : Eval Value} :
    (catchReturn action).Breaks interrupt store after ↔ action.Breaks interrupt store after := by
  unfold Breaks catchReturn
  cases action store with
  | ok value middle => rfl
  | error other middle =>
    cases other with
    | returned value =>
      simp only [EStateM.Result.error.injEq, reduceCtorEq, false_iff, not_and]
      rintro rfl
      cases passes
    | fault | depthExceeded => rfl

/-- The computation raises none of the interrupts that pass. -/
def Quiet (action : Eval α) : Prop :=
  ∀ interrupt store after, interrupt.Passes → ¬ action.Breaks interrupt store after

theorem quiet_pure (result : α) : Quiet (pure result) := by
  rintro interrupt store after - ⟨⟩

theorem quiet_fail (cause : Fault) : Quiet (fail cause : Eval α) := by
  rintro interrupt store after passes ⟨⟩
  cases passes

theorem quiet_ofExcept (rule : Except Fault α) : Quiet (ofExcept rule) := by
  cases rule with
  | ok result => exact quiet_pure result
  | error cause => exact quiet_fail cause

theorem quiet_encode (value : Value) : Quiet (encode value) := by
  intro interrupt store after passes breaks
  rw [Breaks, encode_run] at breaks
  split at breaks
  · cases breaks
    cases passes
  · cases breaks

theorem Quiet.bind {action : Eval α} {continuation : α → Eval β} (first : Quiet action)
    (second : ∀ result, Quiet (continuation result)) : Quiet (action >>= continuation) := by
  intro interrupt store after passes breaks
  rcases breaks_bind.mp breaks with breaks | ⟨result, middle, -, breaks⟩
  · exact first _ _ _ passes breaks
  · exact second result _ _ _ passes breaks

theorem quiet_modifyGet (change : Store → α × Store) : Quiet (modifyGet change : Eval α) := by
  rintro interrupt store after - ⟨⟩

theorem quiet_get : Quiet (get : Eval Store) := by
  rintro interrupt store after - ⟨⟩

theorem quiet_newArray (elements : List Value) : Quiet (newArray elements) :=
  (quiet_modifyGet _).bind fun _ => quiet_pure _

/-- In front of a quiet computation the interrupt is raised, if at all. -/
theorem breaks_bind_quiet (passes : interrupt.Passes) {action : Eval α} {continuation : α → Eval β}
    (quiet : ∀ result, Quiet (continuation result)) :
    (action >>= continuation).Breaks interrupt store after ↔
      action.Breaks interrupt store after := by
  rw [breaks_bind]
  refine or_iff_left ?_
  rintro ⟨result, middle, -, breaks⟩
  exact quiet result _ _ _ passes breaks

end Eval

namespace Evaluator

open Eval

variable {meaning called : Meaning} {scope innerScope : Nat} {node inner : Node}
  {nodes : List Node} {interrupt : Interrupt} {store innerStore after : Store}

/-! ### Runs of nodes that are cut short -/

/-- Some nodes are cut short where one of them is, behind others that have values. -/
theorem breaks_values : (values meaning scope nodes).Breaks interrupt store after ↔
    ∃ front inner back results middle, nodes = front ++ inner :: back ∧
      values meaning scope front store = .ok results middle ∧
      (meaning scope inner).Breaks interrupt middle after := by
  constructor
  · intro breaks
    induction nodes generalizing store with
    | nil => cases breaks
    | cons first rest inductionHypothesis =>
      rcases breaks_bind.mp breaks with breaks | ⟨value, between, ran, breaks⟩
      · exact ⟨[], first, rest, [], store, rfl, rfl, breaks⟩
      · rcases breaks_bind.mp breaks with breaks | ⟨others, last, -, breaks⟩
        · obtain ⟨front, inner, back, results, middle, rfl, ranFront, breaks⟩ :=
            inductionHypothesis breaks
          exact ⟨first :: front, inner, back, _, middle, rfl, values_cons ran ranFront, breaks⟩
        · cases breaks
  · rintro ⟨front, inner, back, results, middle, rfl, ran, breaks⟩
    induction front generalizing store results with
    | nil =>
      cases ran
      exact breaks_bind.mpr (.inl breaks)
    | cons first rest inductionHypothesis =>
      obtain ⟨value, between, others, ranFirst, ranRest, -⟩ := exists_of_values_cons ran
      exact breaks_bind.mpr
        (.inr ⟨value, between, ranFirst, breaks_bind.mpr (.inl (inductionHypothesis _ ranRest))⟩)

theorem breaks_values_singleton : (values meaning scope [node]).Breaks interrupt store after ↔
    (meaning scope node).Breaks interrupt store after := by
  rw [values, breaks_bind]
  refine or_iff_left ?_
  rintro ⟨_, _, _, breaks⟩
  cases breaks

theorem breaks_sequence (last : Value) :
    (sequence meaning scope last nodes).Breaks interrupt store after ↔
      (values meaning scope nodes).Breaks interrupt store after := by
  rw [sequence_eq_values, breaks_bind]
  refine or_iff_left ?_
  rintro ⟨_, _, _, breaks⟩
  cases breaks

theorem breaks_values_cons : (values meaning scope (node :: nodes)).Breaks interrupt store after ↔
    (meaning scope node >>= fun _ => values meaning scope nodes).Breaks interrupt store after := by
  rw [values, breaks_bind, breaks_bind]
  refine or_congr_right (exists_congr fun value => exists_congr fun middle => and_congr_right' ?_)
  rw [breaks_bind]
  refine or_iff_left ?_
  rintro ⟨_, _, _, breaks⟩
  cases breaks

/-! ### Nodes that are cut short -/

/-- The meaning of a node before a fault is given its place. -/
def bareStep (meaning called : Meaning) (scope : Nat) (node : Node) : Eval Value :=
  match node with
  | .hole => .fail .missingNode
  | .leaf leaf => leafValue scope leaf
  | .tree label children => treeValue meaning called scope label children

theorem step_eq_locating (meaning called : Meaning) (scope : Nat) (node : Node) :
    step meaning called scope node = locating node (bareStep meaning called scope node) := by
  cases node <;> rfl

/-- Two operands and a rule for their values. -/
theorem breaks_operands (passes : interrupt.Passes) {left right : Node}
    {rule : Value → Value → Eval Value} (quiet : ∀ first second, Quiet (rule first second)) :
    (meaning scope left >>= fun first => meaning scope right >>= fun second =>
      rule first second).Breaks interrupt store after ↔
    (values meaning scope [left, right]).Breaks interrupt store after := by
  rw [breaks_values_cons, breaks_bind, breaks_bind]
  simp only [breaks_bind_quiet passes (quiet _), breaks_values_singleton]

theorem quiet_leafValue (scope : Nat) (leaf : Leaf) : Quiet (leafValue scope leaf) := by
  have quietResolve (name : String) : Quiet (resolve scope name) := by
    refine quiet_get.bind fun store => ?_
    split
    · exact quiet_pure _
    · split
      · exact quiet_pure _
      · exact quiet_fail _
  unfold leafValue
  split
  · split
    · exact quiet_pure _
    · exact quiet_fail _
  · exact quiet_pure _
  · exact quiet_pure _
  · exact quiet_pure _
  · exact quietResolve _
  · exact quiet_fail _

theorem quiet_checkCount (expected : Nat) (arguments : List Value) :
    Quiet (checkCount expected arguments) := by
  unfold checkCount
  split
  · exact quiet_pure _
  · exact quiet_fail _

theorem quiet_element (container index : Value) : Quiet (element container index) := by
  unfold element
  split
  · exact (quiet_encode _).bind fun _ => quiet_ofExcept _
  · exact quiet_ofExcept _

theorem quiet_apply (builtin : Builtin) (arguments : List Value) :
    Quiet (builtin.apply arguments) := by
  unfold Builtin.apply
  split
  · exact (quiet_encode _).bind fun _ => quiet_ofExcept _
  · exact (quiet_ofExcept _).bind fun _ => quiet_ofExcept _
  · exact (quiet_ofExcept _).bind fun _ => quiet_ofExcept _
  · exact (quiet_ofExcept _).bind fun _ => quiet_newArray _
  · exact (quiet_ofExcept _).bind fun _ => (quiet_ofExcept _).bind fun _ => quiet_newArray _
  · exact quiet_fail _

/-- Trees whose operands are evaluated in any case are cut short where the operands are. -/
theorem breaks_treeValue (passes : interrupt.Passes) {label : Label}
    (direct : label ≠ .conditional ∧ label ≠ .call ∧ label ≠ .hash) (children : List Node) :
    (treeValue meaning called scope label children).Breaks interrupt store after ↔
      (values meaning scope (premises (.tree label children))).Breaks interrupt store after := by
  have nothing {action : Eval Value} (quiet : Quiet action) :
      action.Breaks interrupt store after ↔
        (values meaning scope []).Breaks interrupt store after :=
    iff_of_false (quiet _ _ _ passes) nofun
  cases label with
  | conditional | call | hash => simp at direct
  | program => exact (breaks_catchReturn passes).trans (breaks_sequence _)
  | expressionStatement =>
    cases children with
    | nil => exact nothing (quiet_fail _)
    | cons expression => exact breaks_values_singleton.symm
  | block => exact breaks_sequence _
  | letStatement =>
    rcases children with _ | ⟨word, _ | ⟨name, _ | ⟨value, _ | ⟨_, _⟩⟩⟩⟩
    case cons.cons.cons.nil =>
      unfold treeValue premises
      dsimp only
      cases name.identifier? with
      | none => exact nothing (quiet_fail _)
      | some target =>
        refine Iff.trans (breaks_bind_quiet passes fun found => ?_) breaks_values_singleton.symm
        exact (quiet_modifyGet _).bind fun _ => quiet_pure _
    all_goals exact nothing (quiet_fail _)
  | returnStatement =>
    rcases children with _ | ⟨word, _ | ⟨value, _ | ⟨_, _⟩⟩⟩
    case cons.cons.nil =>
      refine Iff.trans (breaks_bind_quiet passes fun found => ?_) breaks_values_singleton.symm
      rintro interrupt store after passes ⟨⟩
      cases passes
    all_goals exact nothing (quiet_fail _)
  | unary =>
    rcases children with _ | ⟨operator, _ | ⟨operand, _ | ⟨_, _⟩⟩⟩
    case cons.cons.nil =>
      exact Iff.trans (breaks_bind_quiet passes fun value => quiet_ofExcept _)
        breaks_values_singleton.symm
    all_goals exact nothing (quiet_fail _)
  | binary =>
    rcases children with _ | ⟨operator, _ | ⟨left, _ | ⟨right, _ | ⟨_, _⟩⟩⟩⟩
    case cons.cons.cons.nil => exact breaks_operands passes fun _ _ => quiet_ofExcept _
    all_goals exact nothing (quiet_fail _)
  | function =>
    rcases children with _ | ⟨word, _ | ⟨parameters, _ | ⟨body, _ | ⟨_, _⟩⟩⟩⟩
    case cons.cons.cons.nil => exact nothing ((quiet_modifyGet _).bind fun _ => quiet_pure _)
    all_goals exact nothing (quiet_fail _)
  | array => exact breaks_bind_quiet passes fun elements => quiet_newArray elements
  | index =>
    rcases children with _ | ⟨opening, _ | ⟨container, _ | ⟨index, _ | ⟨_, _⟩⟩⟩⟩
    case cons.cons.cons.nil => exact breaks_operands passes quiet_element
    all_goals exact nothing (quiet_fail _)
  | parameters | pair | foreign => exact nothing (quiet_fail _)

theorem breaks_conditional {word condition consequence : Node} {alternative : List Node} :
    (treeValue meaning called scope .conditional
      (word :: condition :: consequence :: alternative)).Breaks interrupt store after ↔
    (meaning scope condition).Breaks interrupt store after ∨ ∃ decided middle,
      meaning scope condition store = .ok decided middle ∧ ∃ inner,
      (if decided.isTruthy then some consequence else alternative.head?) = some inner ∧
      (meaning scope inner).Breaks interrupt middle after := by
  show (meaning scope condition >>= _).Breaks interrupt store after ↔ _
  rw [breaks_bind]
  refine or_congr_right (exists_congr fun decided => exists_congr fun middle => and_congr_right' ?_)
  by_cases truthy : decided.isTruthy = true
  · simp [truthy]
  · cases alternative with
    | nil =>
      simp only [truthy, if_false, List.head?_nil, reduceCtorEq, false_and, exists_false, iff_false]
      nofun
    | cons block others => simp [truthy]

/-- The pairs of a hash are cut short where a key or a value is. -/
theorem breaks_hashEntries (passes : interrupt.Passes) {entries : List (HashEntry Value)} :
    (hashEntries meaning scope entries nodes).Breaks interrupt store after ↔
      ∃ front pair back key value found middle, nodes = front ++ pair :: back ∧
        pair.operands = [key, value] ∧
        hashEntries meaning scope entries front store = .ok found middle ∧
        ((meaning scope key).Breaks interrupt middle after ∨ ∃ result atom later,
          meaning scope key middle = .ok result later ∧ result.atom? = some atom ∧
          (meaning scope value).Breaks interrupt later after) := by
  constructor
  · intro breaks
    induction nodes generalizing entries store with
    | nil => cases breaks
    | cons pair rest inductionHypothesis =>
      rw [hashEntries] at breaks
      split at breaks
      · next key value parts =>
        rcases breaks_bind.mp breaks with breaks | ⟨result, middle, ranKey, breaks⟩
        · exact ⟨[], pair, rest, key, value, entries, store, rfl, parts, rfl, .inl breaks⟩
        · split at breaks
          · exact absurd breaks (quiet_fail _ _ _ _ passes)
          · next atom hashable =>
            rcases breaks_bind.mp breaks with breaks | ⟨held, later, ranValue, breaks⟩
            · exact ⟨[], pair, rest, key, value, entries, store, rfl, parts, rfl,
                .inr ⟨result, atom, middle, ranKey, hashable, breaks⟩⟩
            · obtain ⟨_, _, ranEncode, onward⟩ :=
                (breaks_bind.mp breaks).resolve_left (quiet_encode _ _ _ _ passes)
              obtain ⟨encoded, rfl⟩ := encode_eq_ok_iff.mp ranEncode
              obtain ⟨front, other, back, key', value', found, last, rfl, parts', ran, breaks⟩ :=
                inductionHypothesis onward
              exact ⟨pair :: front, other, back, key', value', found, last, rfl, parts',
                hashEntries_cons parts ranKey hashable ranValue encoded ran, breaks⟩
      · exact absurd breaks (quiet_fail _ _ _ _ passes)
  · rintro ⟨front, pair, back, key, value, found, middle, rfl, parts, ran, breaks⟩
    rw [hashEntries_append]
    refine breaks_bind.mpr (.inr ⟨found, middle, ran, ?_⟩)
    rw [hashEntries, parts]
    refine breaks_bind.mpr (breaks.imp_right ?_)
    rintro ⟨result, atom, later, ranKey, hashable, breaks⟩
    refine ⟨result, later, ranKey, ?_⟩
    rw [hashable]
    exact breaks_bind.mpr (.inl breaks)

/-- A call is cut short where a statement of the called function is. -/
theorem breaks_call (passes : interrupt.Passes) {callee : Value} {arguments : List Value} :
    (call called callee arguments).Breaks interrupt store after ↔
      ∃ tag parameters body closure, callee = .function tag parameters body closure ∧
        arguments.length = parameters.length ∧
        (values called store.scopes.size body.operands).Breaks interrupt
          (store.entered closure parameters arguments) after := by
  constructor
  · intro breaks
    cases callee with
    | function tag parameters body closure =>
      by_cases counted : arguments.length = parameters.length
      · rw [Breaks, call_function counted] at breaks
        exact ⟨tag, parameters, body, closure, rfl, counted,
          (breaks_sequence _).mp ((breaks_catchReturn passes).mp breaks)⟩
      · rw [call, checkCount, if_neg counted] at breaks
        rcases breaks_bind.mp breaks with breaks | ⟨_, _, ⟨⟩, _⟩
        exact absurd breaks (quiet_fail _ _ _ _ passes)
    | builtin which =>
      have quiet := (quiet_checkCount which.arity arguments).bind fun _ =>
        quiet_apply which arguments
      exact absurd breaks (quiet _ _ _ passes)
    | atom | null | array | hash | error => exact absurd breaks (quiet_fail _ _ _ _ passes)
  · rintro ⟨tag, parameters, body, closure, rfl, counted, breaks⟩
    rw [Breaks, call_function counted]
    exact (breaks_catchReturn passes).mpr ((breaks_sequence _).mpr breaks)

theorem breaks_callTree {opening calleeNode : Node} {argumentNodes : List Node} :
    (treeValue meaning called scope .call (opening :: calleeNode :: argumentNodes)).Breaks interrupt
      store after ↔
    (values meaning scope (calleeNode :: argumentNodes)).Breaks interrupt store after ∨
      ∃ callee arguments middle,
        values meaning scope (calleeNode :: argumentNodes) store =
          .ok (callee :: arguments) middle ∧
        (call called callee arguments).Breaks interrupt middle after := by
  show (meaning scope calleeNode >>= fun callee => values meaning scope argumentNodes >>=
    fun arguments => call called callee arguments).Breaks interrupt store after ↔ _
  rw [breaks_values_cons]
  simp only [breaks_bind]
  constructor
  · rintro (breaks | ⟨callee, between, ran, breaks | ⟨arguments, middle, ranOthers, breaks⟩⟩)
    · exact .inl (.inl breaks)
    · exact .inl (.inr ⟨callee, between, ran, breaks⟩)
    · exact .inr ⟨callee, arguments, middle, values_cons ran ranOthers, breaks⟩
  · rintro ((breaks | ⟨callee, between, ran, breaks⟩) | ⟨callee, arguments, middle, ran, breaks⟩)
    · exact .inl breaks
    · exact .inr ⟨callee, between, ran, .inl breaks⟩
    · obtain ⟨_, between, _, ranCallee, ranOthers, same⟩ := exists_of_values_cons ran
      cases same
      exact .inr ⟨callee, between, ranCallee, .inr ⟨arguments, middle, ranOthers, breaks⟩⟩

theorem breaks_hashTree (passes : interrupt.Passes) {children : List Node} :
    (treeValue meaning called scope .hash children).Breaks interrupt store after ↔
      (hashEntries meaning scope [] children.tail).Breaks interrupt store after :=
  breaks_bind_quiet passes fun _ => (quiet_modifyGet _).bind fun _ => quiet_pure _

theorem breaks_of_premises (passes : interrupt.Passes)
    (breaks : (values meaning scope (premises node)).Breaks interrupt store after) :
    (bareStep meaning called scope node).Breaks interrupt store after := by
  cases node with
  | hole | leaf => cases breaks
  | tree label children =>
    cases label with
    | conditional =>
      rcases children with _ | ⟨word, _ | ⟨condition, _ | ⟨consequence, alternative⟩⟩⟩
      case cons.cons.cons =>
        rw [bareStep, breaks_conditional]
        exact .inl (breaks_values_singleton.mp breaks)
      all_goals cases breaks
    | call =>
      rcases children with _ | ⟨opening, _ | ⟨callee, arguments⟩⟩
      case cons.cons =>
        rw [bareStep, breaks_callTree]
        exact .inl breaks
      all_goals cases breaks
    | hash => cases breaks
    | _ =>
      rw [bareStep, breaks_treeValue passes (by simp)]
      exact breaks

/-- A node is cut short by an interrupt that passes when an evaluation that it enters is. -/
theorem Enters.breaks_bareStep {entry : Entry} (passes : interrupt.Passes)
    (enters : Enters meaning called scope node store entry innerScope inner innerStore)
    (breaks : (entry.meaning meaning called innerScope inner).Breaks interrupt innerStore after) :
    (bareStep meaning called scope node).Breaks interrupt store after := by
  cases enters with
  | premise listed ran =>
    exact breaks_of_premises passes (breaks_values.mpr ⟨_, _, _, _, _, listed, ran, breaks⟩)
  | branch form ran chosen =>
    subst form
    rw [bareStep, breaks_conditional]
    exact .inr ⟨_, _, ran, _, chosen, breaks⟩
  | key form listed parts ran =>
    subst form
    rw [bareStep, breaks_hashTree passes, breaks_hashEntries passes]
    exact ⟨_, _, _, _, _, _, _, listed, parts, ran, .inl breaks⟩
  | value form listed parts ran ranKey hashable =>
    subst form
    rw [bareStep, breaks_hashTree passes, breaks_hashEntries passes]
    exact ⟨_, _, _, _, _, _, _, listed, parts, ran, .inr ⟨_, _, _, ranKey, hashable, breaks⟩⟩
  | statement calls counted listed ranBody =>
    obtain ⟨opening, nodes, rfl, ran⟩ := calls
    cases nodes with
    | nil => cases ran
    | cons calleeNode argumentNodes =>
      rw [bareStep, breaks_callTree]
      refine .inr ⟨_, _, _, ran, (breaks_call passes).mpr ?_⟩
      exact ⟨_, _, _, _, rfl, counted, breaks_values.mpr ⟨_, _, _, _, _, listed, ranBody, breaks⟩⟩

/-- A node that is cut short by an interrupt that passes enters an evaluation that is. -/
theorem exists_enters_of_breaks (passes : interrupt.Passes)
    (breaks : (bareStep meaning called scope node).Breaks interrupt store after) :
    ∃ entry innerScope inner innerStore,
      Enters meaning called scope node store entry innerScope inner innerStore ∧
      (entry.meaning meaning called innerScope inner).Breaks interrupt innerStore after := by
  have fromPremises (breaks : (values meaning scope (premises node)).Breaks interrupt store after) :
      ∃ entry innerScope inner innerStore,
        Enters meaning called scope node store entry innerScope inner innerStore ∧
        (entry.meaning meaning called innerScope inner).Breaks interrupt innerStore after := by
    obtain ⟨front, inner, back, results, middle, listed, ran, breaks⟩ := breaks_values.mp breaks
    exact ⟨.inner, scope, inner, middle, .premise listed ran, breaks⟩
  have malformed {label : Label} (breaks : (fail (.malformedTree label) : Eval Value).Breaks
      interrupt store after) : False :=
    quiet_fail _ _ _ _ passes breaks
  cases node with
  | hole => exact absurd breaks (quiet_fail _ _ _ _ passes)
  | leaf leaf => exact absurd breaks (quiet_leafValue scope leaf _ _ _ passes)
  | tree label children =>
    cases label with
    | conditional =>
      rcases children with _ | ⟨word, _ | ⟨condition, _ | ⟨consequence, alternative⟩⟩⟩
      case cons.cons.cons =>
        rw [bareStep, breaks_conditional] at breaks
        rcases breaks with breaks | ⟨decided, middle, ran, inner, chosen, breaks⟩
        · exact fromPremises (breaks_values_singleton.mpr breaks)
        · exact ⟨.inner, scope, inner, middle, .branch rfl ran chosen, breaks⟩
      all_goals exact (malformed breaks).elim
    | call =>
      rcases children with _ | ⟨opening, _ | ⟨calleeNode, argumentNodes⟩⟩
      case cons.cons =>
        rw [bareStep, breaks_callTree] at breaks
        rcases breaks with breaks | ⟨callee, arguments, middle, ran, breaks⟩
        · exact fromPremises breaks
        · obtain ⟨tag, parameters, body, closure, rfl, counted, breaks⟩ :=
            (breaks_call passes).mp breaks
          obtain ⟨front, inner, back, results, later, listed, ranBody, breaks⟩ :=
            breaks_values.mp breaks
          exact ⟨.body, middle.scopes.size, inner, later,
            .statement ⟨opening, _, rfl, ran⟩ counted listed ranBody, breaks⟩
      all_goals exact (malformed breaks).elim
    | hash =>
      rw [bareStep, breaks_hashTree passes, breaks_hashEntries passes] at breaks
      obtain ⟨front, pair, back, key, value, found, middle, listed, parts, ran, breaks⟩ := breaks
      rcases breaks with breaks | ⟨result, atom, later, ranKey, hashable, breaks⟩
      · exact ⟨.inner, scope, key, middle, .key rfl listed parts ran, breaks⟩
      · exact ⟨.inner, scope, value, later, .value rfl listed parts ran ranKey hashable, breaks⟩
    | _ =>
      rw [bareStep, breaks_treeValue passes (by simp)] at breaks
      exact fromPremises breaks

/-! ### Points of a run -/

/-- What cuts short an evaluation inside another one cuts that short as well. -/
theorem Visits.breaks {point target : Point} (passes : interrupt.Passes)
    (visits : Visits point target) (breaks : target.result = .error interrupt after) :
    point.result = .error interrupt after := by
  induction visits with
  | self => exact breaks
  | @within frames scope _ node _ store _ _ _ enters _ inductionHypothesis =>
    have inner := inductionHypothesis breaks
    rw [Point.result, eval_entry] at inner
    show eval (frames + 5) scope node store = _
    rw [eval_add_five, step_eq_locating]
    exact breaks_locating passes node (enters.breaks_bareStep passes inner)

end Evaluator

namespace Session

open Eval Evaluator

variable {interrupt : Interrupt} {limit scope : Nat} {program : Node} {store after : Store}

/-- The statements of a run are cut short where one of them is. -/
theorem breaks_statements {meaning : Meaning} {nodes : List Node} (last : Outcome) :
    (statements meaning scope last nodes).Breaks interrupt store after ↔
      (values meaning scope nodes).Breaks interrupt store after := by
  induction nodes generalizing last store with
  | nil => exact iff_of_false nofun nofun
  | cons first rest inductionHypothesis =>
    rw [breaks_values_cons, statements, breaks_bind, breaks_bind]
    simp only [inductionHypothesis]

/-- A run is cut short where one of its points is. -/
theorem Visits.breaks {point : Point} (passes : interrupt.Passes)
    (visits : Visits limit scope program store point)
    (breaks : point.result = .error interrupt after) (last : Outcome) :
    (statements (eval limit) scope last program.children).Breaks interrupt store after := by
  obtain ⟨front, statement, back, results, middle, listed, ran, visits⟩ := visits
  rw [breaks_statements, breaks_values]
  exact ⟨front, statement, back, results, middle, listed, ran, visits.breaks passes breaks⟩

end Session

end Scriptlet
