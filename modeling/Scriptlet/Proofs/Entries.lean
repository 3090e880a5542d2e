/-
This file compares a text that is run as a whole with the same text entered in pieces, one
after the other on one store. The pieces are entered until one of them fails or returns, and
entries without statements change nothing. Both ways give the same result, from the same kind
of statement, and leave the same bindings; only positions differ, in reports of faults and in
the bodies of functions.

The statements of the whole text are those of the pieces, so what has to be shown is that
cutting a list of statements makes no difference. A cut hides whether the statements before it
ended by themselves: what the outcome of an entry tells about that is `Outcome.halts`, and for
statements that were read it tells the truth.
-/

import Scriptlet.Proofs.Joined
import Scriptlet.Proofs.Lockstep
import Scriptlet.Proofs.Safety

namespace Scriptlet

/-! ### The same text at other positions -/

theorem Node.Alike.parallel {first second : Node} (same : first.Alike second) :
    Node.Parallel Node.Alike (fun _ => True) first second := by
  cases first with
  | hole =>
    cases second with
    | hole => exact .hole
    | leaf | tree => cases same
  | leaf leaf =>
    cases second with
    | leaf other =>
      have leaves : leaf.unplaced = other.unplaced := Node.leaf.inj same
      have kind : leaf.unplaced.kind = other.unplaced.kind := congrArg Leaf.kind leaves
      have text : leaf.unplaced.text = other.unplaced.text := congrArg Leaf.text leaves
      exact .leaf kind text fun _ => trivial
    | hole | tree => cases same
  | tree label children =>
    cases second with
    | tree other others =>
      obtain ⟨rfl, inner⟩ := Node.tree.inj same
      rw [Node.unplacedAll_eq_map, Node.unplacedAll_eq_map] at inner
      exact .tree (Parser.allAlike_iff.mpr inner)
    | hole | leaf => cases same

/-- Only positions differ. -/
def Correspondence.relocated : Correspondence where
  tag := id
  scope := id
  root := none
  counts _ := True
  node := Node.Alike
  placed := False
  firstMayStop := False
  secondMayStop := False
  tag_injective := Function.injective_id
  scope_strictMono := strictMono_id
  root_apart := nofun
  parallel := Node.Alike.parallel
  place_eq := False.elim

open Correspondence (relocated)

theorem Value.matches_self (value : Value) : value.Matches relocated value := by
  induction value using Value.induction with
  | atom content => exact .atom content
  | null => exact .null
  | array tag elements inductionHypothesis =>
    exact Matches.ofElements (List.forall₂_same.mpr inductionHypothesis)
  | hash tag entries inductionHypothesis =>
    exact Matches.ofEntries
      (List.forall₂_same.mpr fun entry member => ⟨rfl, rfl, inductionHypothesis entry member⟩)
  | function tag parameters body scope => exact Matches.function rfl
  | builtin which => exact .builtin which
  | error tag report => exact Matches.error report.matches_self

theorem Store.matches_self (store : Store) : store.Matches relocated store := by
  refine ⟨rfl, fun _ => rfl, fun _ => rfl, fun number frame held => ⟨frame, held, ?_⟩, nofun⟩
  refine ⟨?_, fun name _ => ?_⟩
  · cases frame.outer <;> rfl
  · cases frame.get? name with
    | none => exact .none
    | some value => exact .some value.matches_self

/-! ### Outcomes -/

namespace Outcome

/-- Whether a failure or a `return` ended the run. A failure gives an error that no statement
stands behind. -/
def halts (outcome : Outcome) : Bool :=
  outcome.label = some .returnStatement || (outcome.label = none && outcome.value.isError)

theorem Matches.isLet_eq {c : Correspondence} {outcome other : Outcome}
    (same : outcome.Matches c other) : outcome.isLet = other.isLet := by
  rw [isLet, isLet, same.label]

end Outcome

namespace Session

open Evaluator Eval

theorem halts_settled_error (interrupt : Interrupt) (store : Store) :
    (settled (.error interrupt store)).1.halts = true := by
  cases interrupt <;> rfl

/-! ### Cutting a list of statements -/

theorem statements_append (meaning : Meaning) (scope : Nat) (last : Outcome)
    (front rest : List Node) (store : Store) :
    statements meaning scope last (front ++ rest) store =
      match statements meaning scope last front store with
      | .ok outcome after => statements meaning scope outcome rest after
      | .error interrupt after => .error interrupt after := by
  induction front generalizing last store with
  | nil => rfl
  | cons first others inductionHypothesis =>
    rw [List.cons_append, statements, statements, bind_run, bind_run]
    cases meaning scope first store with
    | ok value after => exact inductionHypothesis _ after
    | error interrupt after => rfl

/-- A `return` does not end by itself. -/
theorem eval_returnStatement_ne_ok {frames scope : Nat} {word value : Node} {store after : Store}
    {result : Value} :
    eval frames scope (.tree .returnStatement [word, value]) store ≠ .ok result after := by
  intro run
  rcases Nat.lt_or_ge frames 5 with few | enough
  · rw [eval_of_lt few] at run
    cases run
  · obtain ⟨frames, rfl⟩ := Nat.exists_eq_add_of_le' enough
    rw [eval_add_five] at run
    unfold step Eval.locating at run
    split at run
    · cases run
    · simp only [treeValue, bind_run] at run
      split at run <;> cases run

/-- A statement that ends by itself leaves an outcome that does not halt. -/
theorem not_halts_of_eval {frames scope : Nat} {statement : Node}
    (shaped : statement.Shaped .statement) {store after : Store} {value : Value}
    (run : eval frames scope statement store = .ok value after) :
    Outcome.halts ⟨value, statement.label?⟩ = false := by
  cases shaped with
  | letStatement | expressionStatement => rfl
  | returnStatement => exact absurd run eval_returnStatement_ne_ok

theorem not_halts_of_statements {limit scope : Nat} {nodes : List Node}
    (shaped : ∀ node ∈ nodes, node.Shaped .statement) {last outcome : Outcome}
    {store after : Store} (goesOn : last.halts = false)
    (run : statements (eval limit) scope last nodes store = .ok outcome after) :
    outcome.halts = false := by
  induction nodes generalizing last store with
  | nil =>
    cases run
    exact goesOn
  | cons first rest inductionHypothesis =>
    rw [List.forall_mem_cons] at shaped
    rw [statements, bind_run] at run
    split at run
    · next value between ran =>
      exact inductionHypothesis shaped.2 (not_halts_of_eval shaped.1 ran) run
    · cases run

/-- When statements end in a failure or a `return`, nothing that stands behind them has any
effect. -/
theorem runProgram_of_halts {limit scope : Nat} {front rest : List Node} {store : Store}
    (shaped : ∀ node ∈ front, node.Shaped .statement)
    (halted : (runProgram limit scope (.tree .program front) store).1.halts = true) :
    runProgram limit scope (.tree .program (front ++ rest)) store =
      runProgram limit scope (.tree .program front) store := by
  rw [runProgram_settled] at halted
  rw [runProgram_settled, runProgram_settled, Node.children, Node.children, statements_append]
  rw [Node.children] at halted
  cases run : statements (eval limit) scope .nothing front store with
  | ok outcome after =>
    rw [run] at halted
    have goesOn := not_halts_of_statements shaped rfl run
    exact absurd (halted.symm.trans goesOn) (by decide)
  | error interrupt after => rfl

/-! ### Entries -/

/-- Runs texts one after the other on one store, up to the first one that fails or returns. The
outcome is that of the last text with a statement. -/
def runEntries (limit scope : Nat) (last : Outcome) :
    List String → Store → Except (List SyntaxError) (Outcome × Store)
  | [], store => return (last, store)
  | text :: rest, store => do
    let (outcome, after) ← runText limit scope text store
    if outcome.halts then
      return (outcome, after)
    else
      let latest := if (readSource text).program.children.isEmpty then last else outcome
      runEntries limit scope latest rest after

theorem runEntries_cons {limit scope : Nat} {last : Outcome} {text : String} {rest : List String}
    {store : Store} (accepted : (readSource text).errors = []) {outcome : Outcome} {after : Store}
    (run : runProgram limit scope (readSource text).program store = (outcome, after)) :
    runEntries limit scope last (text :: rest) store =
      if outcome.halts then .ok (outcome, after)
      else runEntries limit scope
        (if (readSource text).program.children.isEmpty then last else outcome) rest after := by
  rw [runEntries, runText_of_accepted accepted, run]
  rfl

/-- Statements do not look at the outcome before them. -/
theorem statements_of_ne_nil {meaning : Meaning} {scope : Nat} {nodes : List Node}
    (some : nodes ≠ []) (last last' : Outcome) :
    statements meaning scope last nodes = statements meaning scope last' nodes := by
  cases nodes with
  | nil => exact absurd rfl some
  | cons first rest => rfl

/-- From matching stores the entries and the statements of all of them in a row end alike. -/
theorem matches_runEntries (limit scope : Nat) {texts : List String}
    (accepted : ∀ text ∈ texts, (readSource text).errors = []) {nodes : List Node}
    (same : Parser.AllAlike (texts.flatMap fun text => (readSource text).program.children) nodes)
    {last last' : Outcome} (lastSame : last.Matches relocated last') {store other : Store}
    (stores : store.Matches relocated other) :
    ∃ outcome after, runEntries limit scope last texts store = .ok (outcome, after) ∧
      outcome.Matches relocated
        (settled (statements (eval limit) scope last' nodes other)).1 ∧
      after.Matches relocated
        (settled (statements (eval limit) scope last' nodes other)).2 := by
  induction texts generalizing nodes last last' store other with
  | nil =>
    cases same
    exact ⟨last, store, rfl, lastSame, stores⟩
  | cons text rest inductionHypothesis =>
    rw [List.forall_mem_cons] at accepted
    rw [List.flatMap_cons, Parser.allAlike_iff, List.map_append] at same
    obtain ⟨front, back, rfl, sameFront, sameBack⟩ := List.map_eq_append_iff.mp same.symm
    have frontAlike := Parser.allAlike_iff.mpr sameFront.symm
    have backAlike := Parser.allAlike_iff.mpr sameBack.symm
    rw [statements_append]
    cases children : (readSource text).program.children with
    | nil =>
      rw [children] at frontAlike
      cases frontAlike
      have run : runProgram limit scope (readSource text).program store =
          (.nothing, store) := by
        rw [runProgram_settled, children]
        rfl
      rw [runEntries_cons accepted.1 run, children]
      exact inductionHypothesis accepted.2 backAlike lastSame stores
    | cons first others =>
      have some : front ≠ [] := by
        rintro rfl
        rw [children] at frontAlike
        cases frontAlike
      have shaped := shaped_of_accepted accepted.1
      have steps : LockstepMeaning relocated (eval limit) (eval limit) :=
        lockstepMeaning_eval limit limit (Nat.lt_irrefl limit) (Nat.lt_irrefl limit)
      have agree := @lockstep_statements _ _ _ scope steps _ _ (Outcome.matches_nothing _) _ _
        frontAlike _ _ stores
      have settles := runProgram_settled limit scope (readSource text).program store
      rw [statements_of_ne_nil some last' .nothing]
      change Agree _ _ _ (statements (eval limit) scope .nothing front other) at agree
      generalize ran : statements (eval limit) scope .nothing _ store = ended at agree settles
      generalize statements (eval limit) scope .nothing front other = ended' at agree
      cases agree with
      | ok after related =>
        have goesOn := not_halts_of_statements shaped rfl ran
        rw [runEntries_cons accepted.1 settles, goesOn, children]
        exact inductionHypothesis accepted.2 backAlike related after
      | error after related =>
        rw [runEntries_cons accepted.1 settles]
        exact ⟨_, _, if_pos (halts_settled_error _ _), matches_settled_error related after⟩
      | firstStops may | secondStops may => exact may.elim

/-- Take texts without syntax errors of which each one but the last has no NUL, and has no
tokens or ends in a semicolon. Joined by line feeds they have no syntax errors, and the program
consists of their statements, up to positions. From any store, in any scope and with any limit,
running the joined text and entering the texts one by one give matching values, which come from
a `let` both or neither, and leave matching stores. When the first statements of the joined
text end in a failure or a `return`, the others have no effect at all. -/
theorem runText_joined (texts : List String)
    (accepted : ∀ text ∈ texts, (readSource text).errors = [])
    (noNul : ∀ text ∈ texts.dropLast, '\x00' ∉ text.toList)
    (closed : ∀ text ∈ texts.dropLast, ∀ token ∈ (sourceTokens text).getLast?,
      token.kind = .semicolon) :
    (readSource ("\n".intercalate texts)).errors = [] ∧
    (readSource ("\n".intercalate texts)).program.Alike
      (.tree .program (texts.flatMap fun text => (readSource text).program.children)) ∧
    ∀ limit scope store, ∃ entered joined,
      runEntries limit scope .nothing texts store = .ok entered ∧
      runText limit scope ("\n".intercalate texts) store = .ok joined ∧
      entered.1.value.Matches relocated joined.1.value ∧ entered.1.isLet = joined.1.isLet ∧
      entered.2.Matches relocated joined.2 ∧
      ∀ front rest, (readSource ("\n".intercalate texts)).program.children = front ++ rest →
        (runProgram limit scope (.tree .program front) store).1.halts = true →
        runProgram limit scope (.tree .program front) store = joined := by
  obtain ⟨acceptedAll, same⟩ := readSource_intercalate accepted noNul closed
  refine ⟨acceptedAll, ?_, fun limit scope store => ?_⟩
  · obtain ⟨statements, tree, -⟩ := program_of_readSource acceptedAll
    rw [tree] at same ⊢
    exact (Parser.alike_tree same).symm
  · obtain ⟨outcome, after, entered, outcomeSame, storesSame⟩ :=
      matches_runEntries limit scope accepted same (Outcome.matches_nothing _) store.matches_self
    refine ⟨_, _, entered, runText_of_accepted acceptedAll limit scope store, outcomeSame.value,
      outcomeSame.isLet_eq, storesSame, fun front rest split halted => ?_⟩
    have shaped : ∀ node ∈ front, node.Shaped .statement := fun node member =>
      shaped_of_accepted acceptedAll node (split ▸ List.mem_append_left rest member)
    rw [← runProgram_of_halts shaped halted, ← split]
    rfl

theorem runText_joined_of_return :
    ∃ entered joined,
      runEntries 60 fresh.1 .nothing
        ["let f = func(n) \x7b n + 1 \x7d;", "", "return f(1);", "let f = 2"] fresh.2 =
          .ok entered ∧
      runText 60 fresh.1 "let f = func(n) \x7b n + 1 \x7d;\n\nreturn f(1);\nlet f = 2" fresh.2 =
        .ok joined ∧
      entered.1.value.Matches relocated joined.1.value ∧ entered.1.isLet = joined.1.isLet ∧
      entered.2.Matches relocated joined.2 := by
  obtain ⟨entered, joined, runs, runsJoined, value, isLet, stores, -⟩ :=
    (runText_joined ["let f = func(n) \x7b n + 1 \x7d;", "", "return f(1);", "let f = 2"]
      (by decide +kernel) (by decide) (by decide +kernel)).2.2 60 fresh.1 fresh.2
  exact ⟨entered, joined, runs, runsJoined, value, isLet, stores⟩

end Session

end Scriptlet
