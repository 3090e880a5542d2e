/-
This file compares a program with the same statements inside a function that is called on the
spot. The statements then run in the scope of the call and not in the outermost one, every
function that they create lies one scope further in, and what the program does on a `return` is
done by the call. The two runs end alike all the same, and the wrapped one leaves the outermost
scope empty.

The wrapper takes seven frames. With seven frames more than the plain run the wrapped one
therefore also reaches the depth limit exactly when the plain one does; with any other numbers
of frames the two can differ in that one of them reaches its limit.
-/

import Scriptlet.Proofs.Frame
import Scriptlet.Proofs.Lockstep
import Scriptlet.Proofs.Nesting
import Scriptlet.Proofs.Safety

namespace Scriptlet

/-! ### The wrapped program -/

namespace Node

/-- A function without parameters around some statements. -/
def thunk (word parameters brace : Token) (statements : List Node) : Node :=
  .tree .function [.ofToken word, .tree .parameters [.ofToken parameters],
    .tree .block (.ofToken brace :: statements)]

/-- The call of a function without arguments. -/
def invoked (opening : Token) (function : Node) : Node :=
  .tree .call [.ofToken opening, function]

/-- The program whose only statement calls a function around the statements of a program. -/
def wrapped (program : Node) (opening word parameters brace : Token) : Node :=
  .tree .program [.tree .expressionStatement
    [invoked opening (thunk word parameters brace program.children)]]

end Node

example : (readSource "(func() \x7b let a = 1; a \x7d)()").program.Alike
    ((readSource "let a = 1; a").program.wrapped ⟨.leftParen, "(", .first⟩
      ⟨.funcWord, "func", .first⟩ ⟨.leftParen, "(", .first⟩ ⟨.leftBrace, "\x7b", .first⟩) := by
  decide +kernel

/-- The statements of the wrapped program lie one scope further in and come one tag later. -/
def Correspondence.wrapping (mayStop : Prop) : Correspondence where
  tag := (· + 1)
  scope := (· + 1)
  root := some 0
  counts _ := True
  node := Eq
  placed := True
  firstMayStop := mayStop
  secondMayStop := mayStop
  tag_injective := Nat.succ_injective
  scope_strictMono := fun _ _ => Nat.succ_lt_succ
  root_apart number := by simp
  parallel := by
    rintro node _ rfl
    cases node with
    | hole => exact .hole
    | leaf leaf => exact .leaf rfl rfl fun _ => trivial
    | tree label children => exact .tree (List.forall₂_refl children)
  place_eq := by
    rintro - node _ rfl
    rfl

namespace Evaluator

variable {opening word parameters brace : Token} {statements : List Node} {scope : Nat}
  {store : Store}

/-- Evaluating the wrapper comes to running the statements in a new scope. -/
theorem eval_invoked_thunk (frames : Nat) :
    eval (frames + 9) scope (.tree .expressionStatement
      [.invoked opening (.thunk word parameters brace statements)]) store =
    Eval.locating (.tree .expressionStatement
      [.invoked opening (.thunk word parameters brace statements)])
      (Eval.locating (.invoked opening (.thunk word parameters brace statements))
        (Eval.catchReturn (sequence (eval (frames + 2)) store.scopes.size .null statements)))
      (store.freshTag.2.openScope (some scope)).2 := by
  rfl

end Evaluator

/-! ### Faults have a place -/

/-- The trees of the grammar have a leaf to point to. -/
theorem Node.Shaped.isSome_place? {role : Node.Role} {node : Node} (shaped : node.Shaped role) :
    node.place?.isSome = true := by
  induction shaped with
  | expressionStatement _ inductionHypothesis =>
    obtain ⟨place, found⟩ := Option.isSome_iff_exists.mp inductionHypothesis
    rw [Node.place?, Node.placeAmong?, found]
    rfl
  | _ => rfl

namespace Evaluator

theorem isSome_place_of_eval {frames scope : Nat} {node : Node} (placed : node.place?.isSome = true)
    {store after : Store} {cause : Fault} {place : Option Place}
    (failed : eval frames scope node store = .error (.fault cause place) after) :
    place.isSome = true := by
  rcases Nat.lt_or_ge frames 5 with few | enough
  · rw [eval_of_lt few] at failed
    cases failed
  · obtain ⟨frames, rfl⟩ := Nat.exists_eq_add_of_le' enough
    rw [eval_add_five] at failed
    unfold step Eval.locating at failed
    split at failed
    · cases failed
      exact placed
    · next unplaced =>
      cases place with
      | some place => rfl
      | none => exact absurd failed (unplaced cause after)

theorem isSome_place_of_sequence {frames scope : Nat} {nodes : List Node} {last : Value}
    (placed : ∀ node ∈ nodes, node.place?.isSome = true) {store after : Store} {cause : Fault}
    {place : Option Place}
    (failed : sequence (eval frames) scope last nodes store = .error (.fault cause place) after) :
    place.isSome = true := by
  induction nodes generalizing last store with
  | nil => cases failed
  | cons first rest inductionHypothesis =>
    rw [List.forall_mem_cons] at placed
    rw [sequence, Eval.bind_run] at failed
    split at failed
    · exact inductionHypothesis placed.2 failed
    · next interrupt _ run =>
      cases failed
      exact isSome_place_of_eval placed.1 run

end Evaluator

/-! ### Ends of runs -/

/-- Two runs ended alike: with values of one kind that are shown by one text, or with reports of
the same failure at the same place. -/
structure Value.EndsLike (value other : Value) : Prop where
  kind : value.kind = other.kind
  inspect : value.inspect = other.inspect
  report : ∀ tag report, value = .error tag report → ∃ tag', other = .error tag' report

/-- The run reached its depth limit. -/
def Value.HitLimit (value : Value) : Prop :=
  ∃ tag, value = .error tag .depthExceeded

theorem Value.Matches.endsLike {c : Correspondence} (placed : c.placed) {value other : Value}
    (same : value.Matches c other) : value.EndsLike other := by
  refine ⟨same.kind_eq, same.inspect_eq, ?_⟩
  rintro tag report rfl
  cases same with
  | error reports =>
    cases reports with
    | plain | depthExceeded => exact ⟨_, rfl⟩
    | fault cause places =>
      cases places placed
      exact ⟨_, rfl⟩

namespace Session

open Evaluator Eval

/-- The value and the store that a run leaves when its statements end in this way. -/
def concluded : EStateM.Result Interrupt Store Value → Value × Store
  | .ok value after => (value, after)
  | .error interrupt after =>
    ((settled (.error interrupt after)).1.value, (settled (.error interrupt after)).2)

theorem runProgram_concluded (limit scope : Nat) (program : Node) (store : Store) :
    ((runProgram limit scope program store).1.value, (runProgram limit scope program store).2) =
      concluded (sequence (eval limit) scope .null program.children store) := by
  have valued := congrFun
    (map_value_statements (eval limit) scope .nothing program.children) store
  change EStateM.map Outcome.value _ store = sequence (eval limit) scope .null _ store at valued
  rw [← valued, runProgram_settled, EStateM.map]
  cases statements (eval limit) scope .nothing program.children store <;> rfl

theorem scopes_concluded (action : Eval Value) (store : Store) :
    (concluded (action store)).2.scopes = (action.after store).scopes := by
  unfold Eval.after
  cases action store with
  | ok value after => rfl
  | error interrupt after => cases interrupt <;> rfl

/-- What the wrapper adds to the end of the statements makes no difference. -/
theorem concluded_of_agree {mayStop : Prop} {statement callNode : Node} {plain inner : Eval Value}
    {store other : Store}
    (agree : Agree (.wrapping mayStop) (Value.Matches (.wrapping mayStop)) (plain store)
      (inner other))
    (placed : ∀ cause place after, plain store = .error (.fault cause place) after →
      place.isSome = true) :
    (mayStop ∧ ((concluded (plain store)).1.HitLimit ∨
      (concluded (locating statement (locating callNode (catchReturn inner)) other)).1.HitLimit)) ∨
    (concluded (plain store)).1.EndsLike
      (concluded (locating statement (locating callNode (catchReturn inner)) other)).1 := by
  unfold Eval.locating Eval.catchReturn
  generalize plain store = ended at agree placed
  generalize inner other = ended' at agree
  cases agree with
  | ok _ same => exact .inr (same.endsLike trivial)
  | firstStops may => exact .inl ⟨may, .inl ⟨_, rfl⟩⟩
  | secondStops may => exact .inl ⟨may, .inr ⟨_, rfl⟩⟩
  | error matched related =>
    refine .inr ?_
    cases related with
    | returned same => exact same.endsLike trivial
    | depthExceeded => exact ⟨rfl, rfl, fun tag report same => ⟨_, by cases same; rfl⟩⟩
    | fault cause places =>
      cases places trivial
      obtain ⟨place, rfl⟩ := Option.isSome_iff_exists.mp (placed cause _ _ rfl)
      exact ⟨rfl, rfl, fun tag report same => ⟨_, by cases same; rfl⟩⟩

/-- The statements of the wrapper start in stores that match. -/
theorem matches_wrapping (mayStop : Prop) :
    fresh.2.Matches (.wrapping mayStop) (fresh.2.freshTag.2.openScope (some fresh.1)).2 := by
  refine ⟨rfl, fun count => ?_, fun count => ?_, fun number frame held => ?_,
    fun number isRoot => ?_⟩
  · show 0 + count + 1 = 1 + count
    omega
  · show 1 + count + 1 = 2 + count
    omega
  · cases number with
    | zero =>
      cases held
      exact ⟨_, rfl, rfl, fun _ _ => .none⟩
    | succ number => simp [fresh, Store.openScope, Store.empty] at held
  · cases isRoot
    rfl

theorem sequence_singleton (meaning : Meaning) (scope : Nat) (last : Value) (node : Node) :
    sequence meaning scope last [node] = meaning scope node :=
  bind_pure _

section

variable (opening word parameters brace : Token) {program : Node}

/-- The two runs end alike, or one of them may stop and does. -/
theorem endsLike_wrapped {mayStop : Prop} (frames frames' : Nat)
    (fewer : frames < frames' + 2 → mayStop) (more : frames' + 2 < frames → mayStop)
    (placed : ∀ statement ∈ program.children, statement.place?.isSome = true) :
    (mayStop ∧ ((runProgram frames fresh.1 program fresh.2).1.value.HitLimit ∨
      (runProgram (frames' + 9) fresh.1 (program.wrapped opening word parameters brace)
        fresh.2).1.value.HitLimit)) ∨
    (runProgram frames fresh.1 program fresh.2).1.value.EndsLike
      (runProgram (frames' + 9) fresh.1 (program.wrapped opening word parameters brace)
        fresh.2).1.value := by
  have plain := congrArg Prod.fst (runProgram_concluded frames fresh.1 program fresh.2)
  have inner := congrArg Prod.fst (runProgram_concluded (frames' + 9) fresh.1
    (program.wrapped opening word parameters brace) fresh.2)
  dsimp only at plain inner
  rw [plain, inner, Node.wrapped, Node.children, sequence_singleton, eval_invoked_thunk]
  refine concluded_of_agree ?_ fun cause place after => isSome_place_of_sequence placed
  have same : List.Forall₂ (Correspondence.wrapping mayStop).node program.children
      program.children := List.forall₂_same.mpr fun _ _ => rfl
  exact lockstep_sequence (lockstepMeaning_eval frames (frames' + 2) fewer more) .null same _ _
    (matches_wrapping mayStop)

/-- The wrapper alone needs nine frames. -/
theorem hitLimit_wrapped {limit : Nat} (few : limit < 9) :
    (runProgram limit fresh.1 (program.wrapped opening word parameters brace)
      fresh.2).1.value.HitLimit := by
  match limit with
  | 0 | 1 | 2 | 3 | 4 | 5 | 6 | 7 | 8 => exact ⟨_, rfl⟩

/-- Whatever the statements do, the wrapper binds nothing in the outermost scope. -/
theorem outermost_wrapped (limit : Nat) :
    (runProgram limit fresh.1 (program.wrapped opening word parameters brace)
      fresh.2).2.scopes[fresh.1]? = some ⟨none, []⟩ := by
  have ended := congrArg Prod.snd (runProgram_concluded limit fresh.1
    (program.wrapped opening word parameters brace) fresh.2)
  dsimp only at ended
  rw [ended, scopes_concluded, Node.wrapped, Node.children, sequence_singleton]
  obtain ⟨⟨outer, bindings⟩, held, rfl, unbound⟩ :=
    (framedMeaning_eval limit fresh.1 (.tree .expressionStatement
      [.invoked opening (.thunk word parameters brace program.children)]) fresh.2).own _ rfl
  rw [held]
  cases bindings with
  | nil => rfl
  | cons first rest =>
    have found := unbound first.1 List.not_mem_nil
    rw [Scope.get?, List.lookup_cons_self] at found
    cases found

end

/-- Take any text without syntax errors and put its statements into a function that is called
on the spot. Run in an empty environment each, the plain and the wrapped program end alike:
with values of one kind that are shown by one text, or with reports of the same failure at the
same place. That includes the depth limit when the wrapped run has seven frames more, and with
any other limits one of the two runs reaches its limit or they end alike. After the wrapped run
the outermost scope is empty. -/
theorem runProgram_wrapped (text : String) (accepted : (readSource text).errors = [])
    (opening word parameters brace : Token) :
    (∀ limit, 2 ≤ limit →
      (runProgram limit fresh.1 (readSource text).program fresh.2).1.value.EndsLike
        (runProgram (limit + 7) fresh.1
          ((readSource text).program.wrapped opening word parameters brace) fresh.2).1.value) ∧
    ∀ limit limit' plain wrapped,
      runProgram limit fresh.1 (readSource text).program fresh.2 = plain →
      runProgram limit' fresh.1 ((readSource text).program.wrapped opening word parameters brace)
        fresh.2 = wrapped →
      (plain.1.value.HitLimit ∨ wrapped.1.value.HitLimit ∨
        plain.1.value.EndsLike wrapped.1.value) ∧
      wrapped.2.scopes[fresh.1]? = some ⟨none, []⟩ := by
  have placed := fun statement member =>
    (shaped_of_accepted accepted statement member).isSome_place?
  refine ⟨fun limit enough => ?_, ?_⟩
  · obtain ⟨frames, rfl⟩ := Nat.exists_eq_add_of_le' enough
    have ended := endsLike_wrapped opening word parameters brace (frames + 2) frames
      (Nat.lt_irrefl _) (Nat.lt_irrefl _) placed
    exact ended.resolve_left fun stopped => stopped.1
  · rintro limit limit' plain wrapped rfl rfl
    refine ⟨?_, outermost_wrapped opening word parameters brace limit'⟩
    rcases Nat.lt_or_ge limit' 9 with few | enough
    · exact .inr (.inl (hitLimit_wrapped opening word parameters brace few))
    · obtain ⟨frames, rfl⟩ := Nat.exists_eq_add_of_le' enough
      rcases endsLike_wrapped opening word parameters brace limit frames (fun _ => trivial)
        (fun _ => trivial) placed with stopped | alike
      · exact stopped.2.imp_right .inl
      · exact .inr (.inr alike)

theorem runProgram_wrapped_of_returns :
    (runProgram 100 fresh.1
      (readSource "let f = func(n) \x7b if (n) \x7b return [n] \x7d \x7d; return f(2)").program
      fresh.2).1.value.EndsLike
    (runProgram 107 fresh.1
      ((readSource
        "let f = func(n) \x7b if (n) \x7b return [n] \x7d \x7d; return f(2)").program.wrapped
        ⟨.leftParen, "(", .first⟩ ⟨.funcWord, "func", .first⟩ ⟨.leftParen, "(", .first⟩
        ⟨.leftBrace, "\x7b", .first⟩) fresh.2).1.value :=
  (runProgram_wrapped
    "let f = func(n) \x7b if (n) \x7b return [n] \x7d \x7d; return f(2)"
    (by decide +kernel) _ _ _ _).1 100 (by decide)

end Session

end Scriptlet
