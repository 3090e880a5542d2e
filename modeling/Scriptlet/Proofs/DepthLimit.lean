/-
This file shows that the depth limit decides whether a run ends by itself, and nothing else. A
run that does not reach its limit is exactly the same run under every larger one: the same
outcome and the same store, down to the last tag. A run that does reach it, at whatever point
and however deep inside calls, operands or keys, ends there: its outcome reports the limit, and
the store is the one of that point.

The first half compares two meanings of which the first one may stop where the second goes on.
The second half holds of every interrupt that nothing catches, and the limit is one of them.
-/

import Scriptlet.Proofs.Unwinding
import Scriptlet.Proofs.Wrapping

namespace Scriptlet

/-! ### Computations that differ in the limit only -/

namespace Eval

variable {α β : Type}

/-- The computation stops at the depth limit and leaves this store. -/
def Stops (action : Eval α) (store after : Store) : Prop :=
  action store = .error .depthExceeded after

/-- The first computation stops at the depth limit, or both end in exactly the same way. -/
def UpToLimit (first second : Eval α) : Prop :=
  ∀ store, (∃ after, first.Stops store after) ∨ first store = second store

theorem UpToLimit.refl (action : Eval α) : UpToLimit action action :=
  fun _ => .inr rfl

theorem UpToLimit.bind {first second : Eval α} {continuation continuation' : α → Eval β}
    (before : UpToLimit first second)
    (behind : ∀ result, UpToLimit (continuation result) (continuation' result)) :
    UpToLimit (first >>= continuation) (second >>= continuation') := by
  intro store
  unfold Stops
  rw [bind_run, bind_run]
  rcases before store with ⟨after, stops⟩ | same
  · rw [stops]
    exact .inl ⟨after, rfl⟩
  · rw [← same]
    cases first store with
    | ok result middle => exact behind result middle
    | error interrupt middle => exact .inr rfl

theorem UpToLimit.locating {first second : Eval α} (same : UpToLimit first second) (node : Node) :
    UpToLimit (locating node first) (locating node second) := by
  intro store
  unfold Stops Eval.locating
  rcases same store with ⟨after, stops⟩ | equal
  · rw [stops]
    exact .inl ⟨after, rfl⟩
  · rw [equal]
    exact .inr rfl

theorem UpToLimit.catchReturn {first second : Eval Value} (same : UpToLimit first second) :
    UpToLimit (catchReturn first) (catchReturn second) := by
  intro store
  unfold Stops Eval.catchReturn
  rcases same store with ⟨after, stops⟩ | equal
  · rw [stops]
    exact .inl ⟨after, rfl⟩
  · rw [equal]
    exact .inr rfl

end Eval

namespace Evaluator

open Eval

/-- Every node means the same, up to the depth limit of the first meaning. -/
def UpToLimit (meaning meaning' : Meaning) : Prop :=
  ∀ (scope : Nat) (node : Node), Eval.UpToLimit (meaning scope node) (meaning' scope node)

variable {meaning meaning' called called' : Meaning} {scope : Nat}

section

variable (same : UpToLimit meaning meaning')

include same

theorem upToLimit_sequence (last : Value) (statements : List Node) :
    Eval.UpToLimit (sequence meaning scope last statements)
      (sequence meaning' scope last statements) := by
  induction statements generalizing last with
  | nil => exact .refl _
  | cons first rest inductionHypothesis =>
    exact (same scope first).bind fun value => inductionHypothesis value

theorem upToLimit_values (nodes : List Node) :
    Eval.UpToLimit (values meaning scope nodes) (values meaning' scope nodes) := by
  induction nodes with
  | nil => exact .refl _
  | cons first rest inductionHypothesis =>
    exact (same scope first).bind fun value => inductionHypothesis.bind fun others => .refl _

theorem upToLimit_hashEntries (entries : List (HashEntry Value)) (pairs : List Node) :
    Eval.UpToLimit (hashEntries meaning scope entries pairs)
      (hashEntries meaning' scope entries pairs) := by
  induction pairs generalizing entries with
  | nil => exact .refl _
  | cons pair rest inductionHypothesis =>
    unfold hashEntries
    split
    · refine (same scope _).bind fun key => ?_
      split
      · exact .refl _
      · exact (same scope _).bind fun value =>
          (Eval.UpToLimit.refl _).bind fun _ => inductionHypothesis _
    · exact .refl _

theorem upToLimit_call (callee : Value) (arguments : List Value) :
    Eval.UpToLimit (call meaning callee arguments) (call meaning' callee arguments) := by
  cases callee with
  | function tag parameters body closure =>
    refine (Eval.UpToLimit.refl _).bind fun _ => ?_
    refine (Eval.UpToLimit.refl _).bind fun opened => ?_
    refine (Eval.UpToLimit.refl _).bind fun _ => ?_
    exact (upToLimit_sequence same .null body.operands).catchReturn
  | atom | null | array | hash | builtin | error => exact .refl _

end

theorem upToLimit_treeValue (same : UpToLimit meaning meaning')
    (sameCalled : UpToLimit called called') (label : Label) (children : List Node) :
    Eval.UpToLimit (treeValue meaning called scope label children)
      (treeValue meaning' called' scope label children) := by
  cases label with
  | program => exact (upToLimit_sequence same .null children).catchReturn
  | expressionStatement =>
    cases children with
    | nil => exact .refl _
    | cons expression => exact same scope expression
  | block => exact upToLimit_sequence same .null children.tail
  | letStatement =>
    rcases children with _ | ⟨word, _ | ⟨name, _ | ⟨value, _ | ⟨_, _⟩⟩⟩⟩
    case cons.cons.cons.nil =>
      unfold treeValue
      dsimp only
      split
      · exact .refl _
      · exact (same scope value).bind fun found => .refl _
    all_goals exact .refl _
  | returnStatement =>
    rcases children with _ | ⟨word, _ | ⟨value, _ | ⟨_, _⟩⟩⟩
    case cons.cons.nil => exact (same scope value).bind fun found => .refl _
    all_goals exact .refl _
  | conditional =>
    rcases children with _ | ⟨word, _ | ⟨condition, _ | ⟨consequence, alternative⟩⟩⟩
    case cons.cons.cons =>
      refine (same scope condition).bind fun decided => ?_
      split
      · exact same scope consequence
      · cases alternative with
        | nil => exact .refl _
        | cons block => exact same scope block
    all_goals exact .refl _
  | unary =>
    rcases children with _ | ⟨operator, _ | ⟨operand, _ | ⟨_, _⟩⟩⟩
    case cons.cons.nil => exact (same scope operand).bind fun value => .refl _
    all_goals exact .refl _
  | binary =>
    rcases children with _ | ⟨operator, _ | ⟨left, _ | ⟨right, _ | ⟨_, _⟩⟩⟩⟩
    case cons.cons.cons.nil =>
      refine (same scope left).bind fun first => ?_
      exact (same scope right).bind fun second => .refl _
    all_goals exact .refl _
  | call =>
    rcases children with _ | ⟨opening, _ | ⟨callee, arguments⟩⟩
    case cons.cons =>
      refine (same scope callee).bind fun found => ?_
      exact (upToLimit_values same arguments).bind fun results => upToLimit_call sameCalled _ _
    all_goals exact .refl _
  | array => exact (upToLimit_values same children.tail).bind fun elements => .refl _
  | index =>
    rcases children with _ | ⟨opening, _ | ⟨container, _ | ⟨index, _ | ⟨_, _⟩⟩⟩⟩
    case cons.cons.cons.nil =>
      refine (same scope container).bind fun first => ?_
      exact (same scope index).bind fun second => .refl _
    all_goals exact .refl _
  | hash => exact (upToLimit_hashEntries same [] children.tail).bind fun entries => .refl _
  | function =>
    rcases children with _ | ⟨word, _ | ⟨parameters, _ | ⟨body, _ | ⟨_, _⟩⟩⟩⟩ <;> exact .refl _
  | parameters | pair | foreign => exact .refl _

theorem upToLimit_step (same : UpToLimit meaning meaning')
    (sameCalled : UpToLimit called called') :
    UpToLimit (step meaning called) (step meaning' called') := by
  intro scope node
  refine Eval.UpToLimit.locating ?_ node
  cases node with
  | hole => exact .refl _
  | leaf leaf => exact .refl _
  | tree label children => exact upToLimit_treeValue same sameCalled label children

/-- With more frames an evaluation that does not stop is the same. -/
theorem upToLimit_eval {frames frames' : Nat} (enough : frames ≤ frames') :
    UpToLimit (eval frames) (eval frames') := by
  -- With fewer than five frames the first evaluation stops at once, whatever the second one does.
  induction frames using Nat.strongRecOn generalizing frames' with
  | ind frames inductionHypothesis =>
    match frames with
    | frames + 5 =>
      obtain ⟨frames', rfl⟩ := Nat.exists_eq_add_of_le' (Nat.le_trans (Nat.le_add_left 5 _) enough)
      intro scope node
      have left := spare_le node
      rw [eval_add_five, eval_add_five]
      exact upToLimit_step (inductionHypothesis (frames + spare node) (by omega) (by omega))
        (inductionHypothesis frames (by omega) (by omega)) scope node
    | 0 | 1 | 2 | 3 | 4 => exact fun _ _ store => .inl ⟨store, rfl⟩

end Evaluator

/-! ### Runs -/

namespace Session

open Eval Evaluator

variable {limit limit' scope : Nat} {program : Node} {store after : Store}

theorem upToLimit_statements {meaning meaning' : Meaning} (same : UpToLimit meaning meaning')
    (scope : Nat) (last : Outcome) (nodes : List Node) :
    Eval.UpToLimit (statements meaning scope last nodes)
      (statements meaning' scope last nodes) := by
  induction nodes generalizing last with
  | nil => exact .refl _
  | cons first rest inductionHypothesis =>
    exact (same scope first).bind fun value => inductionHypothesis _

/-- With a larger limit a run ends in the same way, unless it stopped at the smaller one. -/
theorem runProgram_upToLimit (enough : limit ≤ limit') (scope : Nat) (program : Node)
    (store : Store) :
    (runProgram limit scope program store).1.value.HitLimit ∨
      runProgram limit' scope program store = runProgram limit scope program store := by
  rw [runProgram_settled, runProgram_settled]
  rcases upToLimit_statements (upToLimit_eval enough) scope .nothing program.children store with
    ⟨after, stops⟩ | same
  · rw [stops]
    exact .inl ⟨_, rfl⟩
  · exact .inr (congrArg settled same.symm)

/-- Where a point of a run reaches the limit, the run ends. -/
theorem runProgram_of_visits {point : Point} (visits : Visits limit scope program store point)
    (stops : point.result = .error .depthExceeded after) :
    runProgram limit scope program store = failed .depthExceeded after := by
  rw [runProgram_settled, visits.breaks .depthExceeded stops .nothing]
  rfl

/-- Take any text without syntax errors, any scope of any store, and two depth limits. When the
run under the smaller limit does not end with the report of that limit, the run under the larger
one gives exactly the same outcome and leaves exactly the same store. And nothing in a program
notices that the limit was reached: if that happens at any point of a run, the run ends with the
report of the limit, and with the store that this point left behind. -/
theorem runText_of_limit_le (text : String) (accepted : (readSource text).errors = [])
    (scope : Nat) (store : Store) (limit limit' : Nat) (enough : limit ≤ limit') :
    (∃ ended, runText limit scope text store = .ok ended ∧
      (¬ ended.1.value.HitLimit → runText limit' scope text store = .ok ended)) ∧
    ∀ point after, Visits limit scope (readSource text).program store point →
      point.result = .error .depthExceeded after →
      runText limit scope text store = .ok (failed .depthExceeded after) := by
  simp only [runText_of_accepted accepted]
  refine ⟨⟨_, rfl, fun finished => ?_⟩, fun point after visits stops => ?_⟩
  · have same := runProgram_upToLimit enough scope (readSource text).program store
    exact congrArg _ (same.resolve_left finished)
  · exact congrArg _ (runProgram_of_visits visits stops)

theorem runText_of_limit_le_of_countdown :
    (∃ ended,
      runText 100 fresh.1
          "let f = func(n) \x7b if (n < 1) \x7b [n] \x7d else \x7b f(n - 1) \x7d \x7d; f(2)"
          fresh.2 = .ok ended ∧
      runText 60000 fresh.1
          "let f = func(n) \x7b if (n < 1) \x7b [n] \x7d else \x7b f(n - 1) \x7d \x7d; f(2)"
          fresh.2 = .ok ended) ∧
    runText 6 fresh.1 "[1]" fresh.2 = .ok (failed .depthExceeded fresh.2) := by
  constructor
  · obtain ⟨⟨ended, ran, same⟩, -⟩ := runText_of_limit_le
      "let f = func(n) \x7b if (n < 1) \x7b [n] \x7d else \x7b f(n - 1) \x7d \x7d; f(2)"
      (by decide +kernel) fresh.1 fresh.2 100 60000 (by decide)
    have finished : ((runText 100 fresh.1
        "let f = func(n) \x7b if (n < 1) \x7b [n] \x7d else \x7b f(n - 1) \x7d \x7d; f(2)"
        fresh.2).toOption.map fun ended => ended.1.value.isError) = some false := by
      decide +kernel
    refine ⟨ended, ran, same ?_⟩
    rintro ⟨tag, hit⟩
    rw [ran, Except.toOption, Option.map_some, hit] at finished
    cases finished
  · have read : (readSource "[1]").program.children = [.tree .expressionStatement [.tree .array
        [.ofToken ⟨.leftBracket, "[", ⟨1, 1⟩⟩, .ofToken ⟨.int, "1", ⟨1, 2⟩⟩]]] := by
      decide +kernel
    -- The statement has six frames, which leaves too few for the array inside it.
    have visits : Visits 6 fresh.1 (readSource "[1]").program fresh.2
        ⟨4, fresh.1, .tree .array [.ofToken ⟨.leftBracket, "[", ⟨1, 1⟩⟩,
          .ofToken ⟨.int, "1", ⟨1, 2⟩⟩], fresh.2⟩ :=
      ⟨[], _, [], [], fresh.2, read, rfl,
        .within (.premise (show premises _ = [] ++ _ :: [] from rfl) rfl) (.self _)⟩
    exact (runText_of_limit_le "[1]" (by decide +kernel) fresh.1 fresh.2 6 6 (Nat.le_refl 6)).2
      _ fresh.2 visits rfl

end Session

end Scriptlet
