/-
This file shows that a fault points to the right token. A fault is raised at one point of a run,
by a node whose evaluations inside have all ended without one. It takes the place of that node,
which is the place of the first token in it, and goes out unchanged through every node and call
around it, up to the outcome of the run. The trail that is shown for it ends at that node. The token
belongs to the text that is run, or to the body of a function that an earlier text of the session
has left in the store.

Main statement: `Session.runText_blames` says this of every run of a session, and of the line that
is printed for it.
-/

import Scriptlet.Proofs.Orderly
import Scriptlet.Proofs.Origin
import Scriptlet.Proofs.TokenUse
import Scriptlet.Proofs.Trail
import Scriptlet.Proofs.Wrapping
import Scriptlet.Stage

namespace Scriptlet

open Grammar

/-! ### The first token of a node -/

namespace Node

theorem placeAmong?_eq_findSome? {nodes : List Node}
    (inner : ∀ node ∈ nodes, node.place? = node.leaves.findSome? Leaf.place?) :
    placeAmong? nodes = (leavesAll nodes).findSome? Leaf.place? := by
  induction nodes with
  | nil => rfl
  | cons first rest inductionHypothesis =>
    rw [List.forall_mem_cons] at inner
    rw [placeAmong?, leavesAll, List.findSome?_append, ← inner.1, inductionHypothesis inner.2]
    cases first.place? <;> rfl

/-- A node points to the first of its leaves that has a place. -/
theorem place?_eq_findSome? (node : Node) : node.place? = node.leaves.findSome? Leaf.place? := by
  induction node using induction with
  | hole => rfl
  | leaf leaf =>
    show leaf.place? = [leaf].findSome? Leaf.place?
    rw [List.findSome?_singleton]
  | tree label children inductionHypothesis => exact placeAmong?_eq_findSome? inductionHypothesis

theorem place?_of_head? {node : Node} {token : Token}
    (first : node.leaves.head? = some (.ofToken token)) :
    node.place? = some ⟨token.position.line, some token.position.column⟩ := by
  obtain ⟨rest, listed⟩ := List.head?_eq_some_iff.mp first
  rw [place?_eq_findSome?, listed, List.findSome?_cons]
  rfl

/-- The trees of the grammar start with a token. -/
theorem Shaped.exists_head? {role : Role} {node : Node} (shaped : node.Shaped role) :
    ∃ token, node.leaves.head? = some (.ofToken token) := by
  induction shaped with
  | expressionStatement _ inductionHypothesis =>
    obtain ⟨token, first⟩ := inductionHypothesis
    refine ⟨token, ?_⟩
    rw [leaves, leavesAll, List.head?_append, first]
    rfl
  | _ => exact ⟨_, rfl⟩

theorem leaves_subset_leavesAll {node : Node} {nodes : List Node} (member : node ∈ nodes) :
    node.leaves ⊆ leavesAll nodes := by
  induction nodes with
  | nil => cases member
  | cons first rest inductionHypothesis =>
    rcases List.mem_cons.mp member with rfl | later
    · exact List.subset_append_left _ _
    · exact List.Subset.trans (inductionHypothesis later) (List.subset_append_right _ _)

theorem Within.leaves_subset {node outer : Node} (inside : node.Within outer) :
    node.leaves ⊆ outer.leaves := by
  induction inside with
  | self => exact List.Subset.refl _
  | child listed _ inductionHypothesis =>
    exact List.Subset.trans inductionHypothesis (leaves_subset_leavesAll listed)

end Node

theorem Leaf.ofToken_injective {token other : Token} (same : ofToken token = ofToken other) :
    token = other := by
  obtain ⟨kind, text, line, column⟩ := token
  obtain ⟨kind', text', line', column'⟩ := other
  simp only [ofToken, Leaf.mk.injEq, LeafKind.own.injEq, Option.some.injEq] at same
  obtain ⟨rfl, rfl, rfl, rfl⟩ := same
  rfl

/-- The first token of a node of an accepted text is a token of that text. -/
theorem mem_sourceTokens_of_within {text : String} (accepted : (readSource text).errors = [])
    {node : Node} (inside : node.Within (readSource text).program) {token : Token}
    (first : node.leaves.head? = some (.ofToken token)) : token ∈ sourceTokens text := by
  obtain ⟨dropped, -, permuted⟩ := (program_of_readSource accepted).accounts
  have listed : Leaf.ofToken token ∈ (sourceTokens text).map Leaf.ofToken :=
    permuted.mem_iff.mpr
      (List.mem_append_left _ (inside.leaves_subset (List.mem_of_mem_head? first)))
  obtain ⟨other, member, same⟩ := List.mem_map.mp listed
  exact Leaf.ofToken_injective same ▸ member

/-! ### The point that raises a fault -/

namespace Evaluator

open Eval

/-- The evaluation at a point starts the one at another point. -/
def Point.Enters (point inner : Point) : Prop :=
  ∃ frames entry, point.frames = frames + 5 ∧ inner.frames = entry.frames frames point.node ∧
    Evaluator.Enters (eval (frames + spare point.node)) (eval frames) point.scope point.node
      point.store entry inner.scope inner.node inner.store

/-- The evaluation at a point ends with a fault, and no evaluation that it starts does. So this
is the innermost evaluation that was going on when the fault was raised. -/
structure Point.Raises (point : Point) (cause : Fault) (place : Option Place) (after : Store) :
    Prop where
  fails : point.result = .error (.fault cause place) after
  innermost : ∀ inner, point.Enters inner → ∀ cause place after,
    inner.result ≠ .error (.fault cause place) after

variable {point inner target : Point} {cause : Fault} {place : Option Place} {after : Store}

theorem Point.Enters.visits (enters : point.Enters inner) : Visits point inner := by
  obtain ⟨_, scope, node, store⟩ := point
  obtain ⟨_, innerScope, innerNode, innerStore⟩ := inner
  obtain ⟨frames, entry, rfl, rfl, enters⟩ := enters
  exact .within enters (.self _)

theorem Point.Enters.frames_lt (enters : point.Enters inner) : inner.frames < point.frames := by
  obtain ⟨frames, entry, enough, left, -⟩ := enters
  rw [enough, left]
  exact entry.frames_lt frames point.node

/-- What is known where an evaluation starts is known where those inside it start. -/
theorem Visits.sane (visits : Visits point target)
    (sane : Sane point.scope point.node point.store) :
    Sane target.scope target.node target.store := by
  induction visits with
  | self => exact sane
  | within enters _ inductionHypothesis =>
    exact inductionHypothesis (enters.sane (safeMeaning_eval _) (safeMeaning_eval _) sane)

/-- A fault of a node of the grammar has a place. -/
theorem Sane.isSome_place (sane : Sane point.scope point.node point.store)
    (failed : point.result = .error (.fault cause place) after) : place.isSome = true := by
  obtain ⟨role, shaped, -⟩ := sane.evaluated
  exact isSome_place_of_eval shaped.isSome_place? failed

/-- No node and no call around an evaluation changes its fault. -/
theorem Sane.result_of_visits (sane : Sane point.scope point.node point.store)
    (visits : Visits point target) (failed : target.result = .error (.fault cause place) after) :
    point.result = .error (.fault cause place) after := by
  obtain ⟨place, rfl⟩ := Option.isSome_iff_exists.mp ((visits.sane sane).isSome_place failed)
  exact visits.breaks (.fault cause place) failed

/-- A fault is given the place of the node that raises it. -/
theorem Point.Raises.place_eq (raises : point.Raises cause place after) :
    place = point.node.place? := by
  obtain ⟨frames, scope, node, store⟩ := point
  have failed := raises.fails
  rw [Point.result] at failed
  rcases Nat.lt_or_ge frames 5 with few | enough
  · rw [eval_of_lt few] at failed
    cases failed
  · obtain ⟨frames, rfl⟩ := Nat.exists_eq_add_of_le' enough
    dsimp only at failed
    rw [eval_add_five, step_eq_locating, locating] at failed
    split at failed
    · cases failed
      rfl
    · next unplaced =>
      cases place with
      | none => exact absurd failed (unplaced cause after)
      | some place =>
        -- A fault that already has a place comes from an evaluation inside.
        obtain ⟨entry, innerScope, inner, innerStore, enters, breaks⟩ :=
          exists_enters_of_breaks (.fault cause place) failed
        rw [← eval_entry] at breaks
        exact absurd breaks
          (raises.innermost ⟨entry.frames frames node, innerScope, inner, innerStore⟩
            ⟨frames, entry, rfl, rfl, enters⟩ cause (some place) after)

/-- The nodes that the failure of an evaluation has passed. -/
def Point.trail (point : Point) : List Node :=
  Evaluator.trail point.frames point.scope point.node point.store

/-- The trail goes on with the evaluation that has failed inside. -/
theorem Point.Enters.trail_eq (enters : point.Enters inner) {interrupt : Interrupt}
    (fails : interrupt.Fails) (failed : inner.result = .error interrupt after) :
    point.trail = point.node :: inner.trail := by
  obtain ⟨_, scope, node, store⟩ := point
  obtain ⟨_, innerScope, innerNode, innerStore⟩ := inner
  obtain ⟨frames, entry, rfl, rfl, enters⟩ := enters
  rw [Point.result, eval_entry] at failed
  rw [Point.trail, trail_add_five, cut?_of_enters enters fails failed]
  rfl

/-- The trail ends where the fault is raised. -/
theorem Point.Raises.trail_eq (raises : point.Raises cause place after) :
    point.trail = [point.node] := by
  obtain ⟨frames, scope, node, store⟩ := point
  rcases Nat.lt_or_ge frames 5 with few | enough
  · match frames with
    | 0 | 1 | 2 | 3 | 4 => rfl
  · obtain ⟨frames, rfl⟩ := Nat.exists_eq_add_of_le' enough
    rw [Point.trail, trail_add_five]
    cases found : cut? (eval (frames + spare node)) (eval frames) scope node store with
    | none => rfl
    | some nested =>
      obtain ⟨entered, interrupt, left, fails, breaks⟩ := cuts_of_cut? found
      let inner : Point :=
        ⟨nested.entry.frames frames node, nested.scope, nested.node, nested.store⟩
      have enters : Point.Enters ⟨frames + 5, scope, node, store⟩ inner :=
        ⟨frames, nested.entry, rfl, rfl, entered⟩
      rw [← eval_entry] at breaks
      cases fails with
      | fault => exact absurd breaks (raises.innermost inner enters _ _ _)
      | depthExceeded => cases raises.fails.symm.trans (enters.visits.breaks .depthExceeded breaks)

/-- Every fault is raised at some point, to which its trail leads. -/
theorem Sane.exists_raises (sane : Sane point.scope point.node point.store)
    (failed : point.result = .error (.fault cause place) after) :
    ∃ raiser, Visits point raiser ∧ raiser.Raises cause place after ∧
      point.trail.getLast? = some raiser.node := by
  -- The point is the one that is looked for, or one that it starts fails in the same way and has
  -- fewer frames.
  induction frames : point.frames using Nat.strongRecOn generalizing point with
  | ind _ inductionHypothesis =>
    by_cases innermost : ∀ inner, point.Enters inner → ∀ cause place after,
        inner.result ≠ .error (.fault cause place) after
    · have raises : point.Raises cause place after := ⟨failed, innermost⟩
      refine ⟨point, .self point, raises, ?_⟩
      rw [raises.trail_eq]
      rfl
    · simp only [not_forall, not_not] at innermost
      obtain ⟨inner, enters, innerCause, innerPlace, innerAfter, innerFailed⟩ := innermost
      have same := sane.result_of_visits enters.visits innerFailed
      cases failed.symm.trans same
      obtain ⟨raiser, visits, raises, last⟩ := inductionHypothesis inner.frames
        (frames ▸ enters.frames_lt) (enters.visits.sane sane) innerFailed rfl
      refine ⟨raiser, enters.visits.trans visits, raises, ?_⟩
      rw [enters.trail_eq (.fault _ _) innerFailed, List.getLast?_cons, last]
      rfl

end Evaluator

/-! ### The printed line -/

theorem Printed.err_append (first second : Printed) :
    (first ++ second).err = first.err ++ second.err :=
  rfl

/-- A report with a place tells it behind its message. -/
theorem ErrorReport.text_ne_message (cause : Fault) (line column : Nat) :
    (fault cause (some ⟨line, some column⟩)).text ≠
      (fault cause (some ⟨line, some column⟩)).message := by
  intro same
  have wording := String.append_eq_left_iff.mp same
  have chars := congrArg String.toList wording
  simp [Place.wording] at chars

/-- A fault with a line and a column is printed with both. -/
theorem Emission.err_ofValue (terminal : Terminal) (setting : TraceSetting)
    (trail : Unit → List Node) (tag : Nat) (cause : Fault) (line column : Nat) :
    (ofValue terminal setting trail
        (.error tag (.fault cause (some ⟨line, some column⟩)))).printed.err =
      "Error: " ++ cause.message ++ " (line " ++ toString line ++ ", col " ++ toString column ++
        ")\n" ++
        (Printed.trace terminal setting trail (.fault cause (some ⟨line, some column⟩))).err := by
  rw [ofValue, if_neg (ErrorReport.text_ne_message cause line column)]
  simp only [Printed.err_append, Printed.line, Printed.errorLine, ErrorReport.text, Place.wording]
  apply String.toList_inj.mp
  simp

/-! ### Runs -/

namespace Session

open Eval Evaluator

section

variable {limit scope : Nat} {program : Node} {store : Store} (sound : store.Sound)
  (present : scope < store.scopes.size)
  (shaped : ∀ statement ∈ program.children, statement.Shaped .statement)

include sound present shaped

theorem Visits.sane {point : Point} (visits : Visits limit scope program store point) :
    Sane point.scope point.node point.store := by
  obtain ⟨front, statement, back, results, middle, listed, ran, visits⟩ := visits
  exact visits.sane (sane_of_statement sound present shaped listed ran)

/-- A fault that ends a run is raised at one of its points, to which its trail leads. -/
theorem exists_raises_of_runProgram {tag : Nat} {cause : Fault} {place : Option Place}
    (failed : (runProgram limit scope program store).1.value = .error tag (.fault cause place)) :
    ∃ point after, Visits limit scope program store point ∧ point.Raises cause place after ∧
      (trail limit scope program store).getLast? = some point.node := by
  have ended := safe_statements (safeMeaning_eval limit) present
    (show Outcome.nothing.value.Sound store.scopes.size from .null) shaped store sound
    (Nat.le_refl _)
  rw [runProgram_settled] at failed
  generalize run : statements (eval limit) scope .nothing program.children store = result
    at ended failed
  cases result with
  | ok outcome after =>
    have noError := ended.2.2.isError_eq
    rw [show outcome.value = _ from failed] at noError
    cases noError
  | error interrupt after =>
    cases interrupt with
    | returned value =>
      have noError := Value.Sound.isError_eq ended.2.2
      rw [show value = _ from failed] at noError
      cases noError
    | depthExceeded => cases failed
    | fault cause place =>
      cases failed
      obtain ⟨front, statement, back, results, middle, listed, ran, breaks⟩ :=
        breaks_values.mp ((breaks_statements _).mp run)
      have sane := sane_of_statement sound present shaped listed ran
      obtain ⟨raiser, visits, raises, last⟩ :=
        @Sane.exists_raises ⟨limit, scope, statement, middle⟩ _ _ _ sane breaks
      refine ⟨raiser, after, ⟨front, statement, back, results, middle, listed, ran, visits⟩, raises,
        ?_⟩
      rw [trail, listed, cutAmong?_of_breaks ran (.fault cause place) breaks]
      exact last

/-- A fault at any point of a run ends the run as it is. -/
theorem runProgram_of_fault {point : Point} (visits : Visits limit scope program store point)
    {cause : Fault} {place : Option Place} {after : Store}
    (failed : point.result = .error (.fault cause place) after) :
    runProgram limit scope program store = Session.failed (.fault cause place) after := by
  obtain ⟨place, rfl⟩ := Option.isSome_iff_exists.mp
    ((visits.sane sound present shaped).isSome_place failed)
  rw [runProgram_settled, visits.breaks (.fault cause place) failed .nothing]
  rfl

end

/-- Where a token of a node comes from: the text that is run, or an earlier text of the session
that has left a function with the node in its body. -/
inductive Origin (texts : List String) (store : Store) (text : String) (node : Node)
    (token : Token) : Prop where
  | own (inside : node.Within (readSource text).program) (listed : token ∈ sourceTokens text)
  | earlier {source : String} {body : Node} (run : source ∈ texts) (held : store.HoldsBody body)
      (stands : body.Within (readSource source).program) (inside : node.Within body)
      (listed : token ∈ sourceTokens source)

theorem ReachedBy.origin {texts : List String} {store : Store} (reached : ReachedBy texts store)
    {text : String} (accepted : (readSource text).errors = []) {node : Node}
    (supplied : Supplied (readSource text).program store node) {token : Token}
    (first : node.leaves.head? = some (.ofToken token)) : Origin texts store text node token := by
  rcases supplied with inside | ⟨body, held, inside⟩
  · exact .own inside (mem_sourceTokens_of_within accepted inside first)
  · obtain ⟨source, run, stands⟩ := reached.exists_text held
    exact .earlier run held stands inside
      (mem_sourceTokens_of_within (reached.accepted source run) (inside.trans stands) first)

/-- The token that a fault of a run points to, and the point that has raised the fault. The trail
of the fault ends with the node of that point. -/
structure Blamed (texts : List String) (store : Store) (limit : Nat) (text : String)
    (cause : Fault) (place : Option Place) (point : Point) (token : Token) : Prop where
  visited : Visits limit fresh.1 (readSource text).program store point
  raised : ∃ after, point.Raises cause place after
  trailed : (trail limit fresh.1 (readSource text).program store).getLast? = some point.node
  first : point.node.leaves.head? = some (.ofToken token)
  placed : place = some ⟨token.position.line, some token.position.column⟩
  origin : Origin texts store text point.node token

theorem ReachedBy.exists_blamed {texts : List String} {store : Store}
    (reached : ReachedBy texts store) {limit : Nat} {text : String}
    (accepted : (readSource text).errors = []) {tag : Nat} {cause : Fault} {place : Option Place}
    (failed : (runProgram limit fresh.1 (readSource text).program store).1.value =
      .error tag (.fault cause place)) :
    ∃ point token, Blamed texts store limit text cause place point token := by
  obtain ⟨sound, present⟩ := reached.reached.sound
  have shaped := shaped_of_accepted accepted
  obtain ⟨point, after, visits, raises, last⟩ :=
    exists_raises_of_runProgram sound present shaped failed
  obtain ⟨role, pointShaped, -⟩ := (visits.sane sound present shaped).evaluated
  obtain ⟨token, first⟩ := pointShaped.exists_head?
  exact ⟨point, token, visits, ⟨after, raises⟩, last, first,
    raises.place_eq.trans (Node.place?_of_head? first),
    reached.origin accepted visits.supplied first⟩

/-- Take any session that started from an empty environment and ran texts without syntax errors,
and any further such text. When its run ends with a fault, the fault has a place: the line and the
column of the first token of the node that raised it, and this is a token of the text or of a
function that an earlier text has left in the store. The trail of the fault leads to that node. A
fault at any point of the run is also the fault of every node and every call around that point, and
of the run, with the same place. So what is printed for the value of the text has a line with the
message, the line and the column. -/
theorem runText_blames (texts : List String) (store : Store) (reached : ReachedBy texts store)
    (limit : Nat) (text : String) (accepted : (readSource text).errors = []) :
    (∃ outcome after, runText limit fresh.1 text store = .ok (outcome, after) ∧
      ∀ tag cause place, outcome.value = .error tag (.fault cause place) →
        ∃ point token, Blamed texts store limit text cause place point token) ∧
    (∀ outer inner cause place left,
      Visits limit fresh.1 (readSource text).program store outer → Evaluator.Visits outer inner →
      inner.result = .error (.fault cause place) left →
      outer.result = .error (.fault cause place) left ∧
        runText limit fresh.1 text store = .ok (failed (.fault cause place) left)) ∧
    ∀ terminal setting outcome after tag cause place,
      runText frameLimit fresh.1 text store = .ok (outcome, after) →
      outcome.value = .error tag (.fault cause place) →
      ∃ line column, place = some ⟨line, some column⟩ ∧
        (emit terminal setting .value text fresh.1 store).1.printed.err =
          "Error: " ++ cause.message ++ " (line " ++ toString line ++ ", col " ++
            toString column ++ ")\n" ++
            (Printed.trace terminal setting
              (fun _ => trail frameLimit fresh.1 (readSource text).program store)
              (.fault cause place)).err := by
  obtain ⟨sound, present⟩ := reached.reached.sound
  have shaped := shaped_of_accepted accepted
  simp only [runText_of_accepted accepted]
  refine ⟨⟨_, _, rfl, fun _ _ _ => reached.exists_blamed accepted⟩, ?_, ?_⟩
  · intro outer inner cause place left visits onward failed
    have same := (visits.sane sound present shaped).result_of_visits onward failed
    exact ⟨same, congrArg _ (runProgram_of_fault sound present shaped visits same)⟩
  · intro terminal setting outcome after tag cause place ran failed
    have ended := Except.ok.inj ran
    obtain ⟨point, token, blamed⟩ := @ReachedBy.exists_blamed _ _ reached frameLimit _ accepted tag
      cause place (by rw [ended, failed])
    obtain rfl := blamed.placed
    refine ⟨_, _, rfl, ?_⟩
    rw [emit, runText_of_accepted accepted, ended]
    dsimp only
    rw [failed, Emission.err_ofValue]

theorem runText_blames_of_earlier_text :
    ∃ store, ReachedBy ["let f = func(a) \x7b\n  -a \x7d;"] store ∧
      (∃ point token, Blamed ["let f = func(a) \x7b\n  -a \x7d;"] store frameLimit "[f][0](true)"
        (.unknownUnary "-" .boolean) (some ⟨2, some 3⟩) point token) ∧
      ∀ terminal, (emit terminal none .value "[f][0](true)" fresh.1 store).1.printed.err =
        "Error: unknown operator: -BOOLEAN (line 2, col 3)\n" := by
  have first : (readSource "let f = func(a) \x7b\n  -a \x7d;").errors = [] := by decide +kernel
  have second : (readSource "[f][0](true)").errors = [] := by decide +kernel
  have reached : ReachedBy ["let f = func(a) \x7b\n  -a \x7d;"]
      (runProgram 100 fresh.1 (readSource "let f = func(a) \x7b\n  -a \x7d;").program fresh.2).2 :=
    .run .start (runText_of_accepted first 100 fresh.1 fresh.2)
  obtain ⟨⟨outcome, after, ran, blames⟩, -, prints⟩ :=
    runText_blames _ _ reached frameLimit "[f][0](true)" second
  have report : ((runText frameLimit fresh.1 "[f][0](true)" (runProgram 100 fresh.1
      (readSource "let f = func(a) \x7b\n  -a \x7d;").program fresh.2).2).toOption.bind
      fun ended => Value.casesOn ended.1.value (fun _ => none) none (fun _ _ => none)
        (fun _ _ => none) (fun _ _ _ _ => none) (fun _ => none) fun _ report => some report) =
      some (.fault (.unknownUnary "-" .boolean) (some ⟨2, some 3⟩)) := by
    decide +kernel
  rw [ran, Except.toOption, Option.bind_some] at report
  cases failed : outcome.value with
  | error tag found =>
    rw [failed] at report
    cases report
    refine ⟨_, reached, blames tag _ _ failed, fun terminal => ?_⟩
    obtain ⟨line, column, place, printed⟩ := prints terminal none outcome after tag _ _ ran failed
    cases place
    have untraced : TraceSetting.isOn none = false := by decide +kernel
    rw [printed, Printed.trace, untraced, Bool.false_and, if_neg Bool.false_ne_true]
    decide +kernel
  | atom | null | array | hash | function | builtin =>
    rw [failed] at report
    cases report

end Session

end Scriptlet
