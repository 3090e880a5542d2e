/-
This file proves the invariant of sessions. Take any texts without syntax errors, run one after
the other from an empty environment. At every point of every run, where the evaluation of a
node starts and where it ends, all bindings of all scopes are orderly, and so are the values of
nodes, the values on their way out of a call, and the arguments that functions get.

An orderly value has integers of 64 bits, hashes whose entries are filed under their own keys
with no key twice, and functions with names for parameters, a well-shaped body and a scope that
exists; and nowhere in it is the account of a failed run.

One assumption is made of the machine: no string or array whose length a run asks for has 2^63
or more bytes or elements.
-/

import Scriptlet.Proofs.Upkeep

namespace Scriptlet

/-! ### The invariant -/

/-- A value of a run when so many scopes exist. -/
structure Value.Orderly (scopes : Nat) (value : Value) : Prop where
  sound : value.Sound scopes
  tidy : value.Tidy

/-- The scopes of a run, with all they bind. -/
structure Store.Orderly (store : Store) : Prop where
  sound : store.Sound
  tidy : store.Tidy

/-- A `return` carries an orderly value. -/
def Interrupt.Orderly (scopes : Nat) : Interrupt → Prop
  | returned value => value.Orderly scopes
  | fault _ _ | depthExceeded => True

/-- The body of a function starts in a sound store with one more scope. -/
theorem Store.Sound.entered {store : Store} (sound : store.Sound) {closure : Nat}
    (present : closure < store.scopes.size) (parameters : List String) {arguments : List Value}
    (argumentsSound : AllSound store.scopes.size arguments) :
    (store.entered closure parameters arguments).Sound ∧
      (store.entered closure parameters arguments).scopes.size = store.scopes.size + 1 := by
  have size : (store.openScope (some closure)).2.scopes.size = store.scopes.size + 1 :=
    Array.size_push _
  have opened : (store.openScope (some closure)).2.Sound :=
    sound.openScope fun outer same => Option.some.inj same ▸ present
  refine And.imp_right (fun kept => kept.trans size) (opened.setAll fun binding member => ?_)
  rw [size]
  exact (argumentsSound binding.2 (List.of_mem_zip member).2).mono (Nat.le_succ _)

/-! ### What is known where an evaluation starts -/

theorem Eval.Safe.of_ok {α : Type} {action : Eval α} {post : Nat → α → Prop} {store after : Store}
    {result : α} (safe : Eval.Safe store.scopes.size action post) (sound : store.Sound)
    (ran : action store = .ok result after) :
    after.Sound ∧ store.scopes.size ≤ after.scopes.size ∧ post after.scopes.size result := by
  have ended := safe store sound (Nat.le_refl _)
  rwa [ran] at ended

namespace Evaluator

open Eval

variable {meaning called : Meaning} {scope innerScope : Nat} {node inner : Node}
  {store innerStore : Store} {entry : Entry}

/-- The node can be evaluated, the scope is there, and all scopes are sound. -/
structure Sane (scope : Nat) (node : Node) (store : Store) : Prop where
  evaluated : node.Evaluated
  sound : store.Sound
  present : scope < store.scopes.size

/-- What is evaluated is made of what is evaluated. -/
theorem evaluated_of_mem_premises (evaluated : node.Evaluated) :
    ∀ inner ∈ premises node, inner.Evaluated := by
  obtain ⟨role, shaped, among⟩ := evaluated
  cases shaped with
  | leaf | integer | name | hash | function | parameters | pair => exact nofun
  | unary _ operand => exact List.forall_mem_singleton.mpr operand.evaluated_expression
  | binary _ left right =>
    exact List.forall_mem_cons.mpr
      ⟨left.evaluated_expression, List.forall_mem_singleton.mpr right.evaluated_expression⟩
  | call callee arguments =>
    exact List.forall_mem_cons.mpr ⟨callee.evaluated_expression,
      fun argument member => (arguments argument member).evaluated_expression⟩
  | index left inside =>
    exact List.forall_mem_cons.mpr
      ⟨left.evaluated_expression, List.forall_mem_singleton.mpr inside.evaluated_expression⟩
  | array elements => exact fun element member => (elements element member).evaluated_expression
  | conditional condition =>
    exact List.forall_mem_singleton.mpr condition.evaluated_expression
  | block statements =>
    exact fun statement member => (statements statement member).evaluated_statement
  | letStatement nameKind value =>
    intro inner member
    rw [premises] at member
    split at member
    · rw [List.mem_singleton.mp member]
      exact value.evaluated_expression
    · cases member
  | returnStatement value => exact List.forall_mem_singleton.mpr value.evaluated_expression
  | expressionStatement value => exact List.forall_mem_singleton.mpr value.evaluated_expression

/-- The pairs of a hash are taken in one after the other. -/
theorem Sane.pair {children front back : List Node} {pair : Node}
    {entries : List (HashEntry Value)} {middle : Store}
    (sane : Sane scope (.tree .hash children) store) (safe : SafeMeaning meaning)
    (listed : children.tail = front ++ pair :: back)
    (ran : hashEntries meaning scope [] front store = .ok entries middle) :
    pair.Shaped .pair ∧ middle.Sound ∧ scope < middle.scopes.size := by
  obtain ⟨⟨role, shaped, among⟩, storeSound, present⟩ := sane
  cases shaped with
  | hash pairs =>
    rw [List.tail_cons] at listed
    simp only [listed, List.forall_mem_append, List.forall_mem_cons] at pairs
    have noEntries : ∀ entry ∈ ([] : List (HashEntry Value)),
        entry.value.Sound store.scopes.size := nofun
    obtain ⟨sound, grown, -⟩ :=
      (safe_hashEntries safe present noEntries pairs.1).of_ok storeSound ran
    exact ⟨pairs.2.1, sound, Nat.lt_of_lt_of_le present grown⟩

/-- A called function is sound, and so are its arguments. -/
theorem Sane.calls (sane : Sane scope node store) (safe : SafeMeaning meaning) {callee : Value}
    {arguments : List Value} {after : Store}
    (calls : Calls meaning scope node store callee arguments after) :
    after.Sound ∧ AllSound after.scopes.size (callee :: arguments) := by
  obtain ⟨opening, nodes, rfl, ran⟩ := calls
  obtain ⟨role, shaped, among⟩ := sane.evaluated
  cases shaped with
  | call callee arguments =>
    have evaluated := evaluated_of_mem_premises sane.evaluated
    obtain ⟨sound, -, results⟩ := (safe_values safe sane.present evaluated).of_ok sane.sound ran
    exact ⟨sound, results⟩

/-- What is known of a node is known of every node that it enters. -/
theorem Enters.sane (enters : Enters meaning called scope node store entry innerScope inner
    innerStore) (safe : SafeMeaning meaning) (safeCalled : SafeMeaning called)
    (sane : Sane scope node store) : Sane innerScope inner innerStore := by
  cases enters with
  | premise listed ran =>
    have evaluated := evaluated_of_mem_premises sane.evaluated
    simp only [listed, List.forall_mem_append, List.forall_mem_cons] at evaluated
    obtain ⟨sound, grown, -⟩ :=
      (safe_values safe sane.present evaluated.1).of_ok sane.sound ran
    exact ⟨evaluated.2.1, sound, Nat.lt_of_lt_of_le sane.present grown⟩
  | branch form ran chosen =>
    subst form
    obtain ⟨role, shaped, among⟩ := sane.evaluated
    cases shaped with
    | conditional conditionShaped blockShaped otherShaped =>
      obtain ⟨sound, grown, -⟩ :=
        (safe.expression sane.present conditionShaped).of_ok sane.sound ran
      refine ⟨?_, sound, Nat.lt_of_lt_of_le sane.present grown⟩
      split at chosen
      · cases chosen
        exact blockShaped.evaluated_block
      · exact (otherShaped inner (List.mem_of_mem_head? chosen)).evaluated_block
  | key form listed parts ran =>
    subst form
    obtain ⟨shaped, sound, present⟩ := sane.pair safe listed ran
    refine ⟨?_, sound, present⟩
    cases shaped with
    | pair keyShaped =>
      cases parts
      exact keyShaped.evaluated_expression
  | value form listed parts ran ranKey hashable =>
    subst form
    obtain ⟨shaped, sound, present⟩ := sane.pair safe listed ran
    cases shaped with
    | pair keyShaped valueShaped =>
      cases parts
      obtain ⟨later, further, -⟩ := (safe.expression present keyShaped).of_ok sound ranKey
      exact ⟨valueShaped.evaluated_expression, later, Nat.lt_of_lt_of_le present further⟩
  | statement calls counted listed ranBody =>
    obtain ⟨sound, results⟩ := sane.calls safe calls
    obtain ⟨calleeSound, argumentsSound⟩ := List.forall_mem_cons.mp results
    cases calleeSound with
    | function shaped present =>
      obtain ⟨entered, size⟩ := sound.entered present _ argumentsSound
      have statements := fun statement member =>
        (shaped.operands_of_block statement member).evaluated_statement
      simp only [listed, List.forall_mem_append, List.forall_mem_cons] at statements
      have opened := Nat.lt_of_lt_of_eq (Nat.lt_succ_self _) size.symm
      obtain ⟨later, further, -⟩ :=
        (safe_values safeCalled opened statements.1).of_ok entered ranBody
      exact ⟨statements.2.1, later, Nat.lt_of_lt_of_le opened further⟩

/-- What a called function is called with is tidy. -/
theorem tidy_of_calls (nodeTidy : node.Tidy) (tidy : store.Tidy)
    (well : EntersWell meaning called scope node store) {callee : Value} {arguments : List Value}
    {after : Store} (calls : Calls meaning scope node store callee arguments after) :
    after.Tidy ∧ AllTidy (callee :: arguments) := by
  obtain ⟨opening, nodes, rfl, ran⟩ := calls
  cases nodes with
  | nil => cases ran
  | cons first others =>
    exact (endsWell_premises nodeTidy well (List.append_nil _).symm tidy).of_ok ran

/-- When everything that a node enters ends well, it enters only tidy nodes, each in a tidy
store. -/
theorem Enters.tidy (enters : Enters meaning called scope node store entry innerScope inner
    innerStore) (nodeTidy : node.Tidy) (tidy : store.Tidy)
    (well : EntersWell meaning called scope node store) : inner.Tidy ∧ innerStore.Tidy := by
  have nodes : entry = .inner → inner.Tidy := by
    rintro rfl
    rcases enters.mem with child | ⟨pair, child, grandchild⟩
    · exact nodeTidy.children inner child
    · exact (nodeTidy.children pair child).children inner grandchild
  cases enters with
  | premise listed ran =>
    exact ⟨nodes rfl, ((endsWell_premises nodeTidy well listed tidy).of_ok ran).1⟩
  | branch form ran chosen =>
    subst form
    exact ⟨nodes rfl, ((endsWell_first nodeTidy well rfl tidy).of_ok ran).1⟩
  | key form listed parts ran =>
    subst form
    exact ⟨nodes rfl, ((endsWell_pairs nodeTidy tidy well listed).of_ok ran).1⟩
  | value form listed parts ran ranKey hashable =>
    subst form
    have middleTidy := ((endsWell_pairs nodeTidy tidy well listed).of_ok ran).1
    have ended := well .inner scope _ _ (.key rfl listed parts ran) (nodeTidy.pair listed parts).1
      middleTidy
    exact ⟨nodes rfl, (ended.of_ok ranKey).1⟩
  | statement calls counted listed ranBody =>
    obtain ⟨middleTidy, results⟩ := tidy_of_calls nodeTidy tidy well calls
    obtain ⟨calleeTidy, argumentsTidy⟩ := List.forall_mem_cons.mp results
    have ended := endsWell_body well calls middleTidy calleeTidy argumentsTidy counted listed
    refine ⟨?_, (ended.of_ok ranBody).1⟩
    cases calleeTidy with
    | function _ bodyTidy =>
      exact bodyTidy.operands inner (List.mem_iff_append.mpr ⟨_, _, listed⟩)

/-! ### Every point of an evaluation -/

/-- An evaluation at a point calls a value with arguments. -/
def Point.Calls (point : Point) (callee : Value) (arguments : List Value) (after : Store) : Prop :=
  ∃ frames, point.frames = frames + 5 ∧
    Evaluator.Calls (eval (frames + spare point.node)) point.scope point.node point.store callee
      arguments after

/-- An evaluation at a point asks for the length of a value. -/
def Point.Asks (point : Point) (argument : Value) : Prop :=
  ∃ after, point.Calls (.builtin .len) [argument] after

/-- All is well where the evaluation starts and where it ends, and in between with the arguments
that the node itself passes on. -/
structure Point.Orderly (point : Point) : Prop where
  start : point.store.Orderly
  result : match point.result with
    | .ok value after => after.Orderly ∧ value.Orderly after.scopes.size
    | .error interrupt after => after.Orderly ∧ interrupt.Orderly after.scopes.size
  arguments : ∀ callee arguments after, point.Calls callee arguments after →
    after.Orderly ∧ ∀ value ∈ callee :: arguments, value.Orderly after.scopes.size

/-- What is known where an evaluation starts. -/
structure Point.Started (point : Point) : Prop where
  sane : Sane point.scope point.node point.store
  nodeTidy : point.node.Tidy
  tidy : point.store.Tidy

/-- The evaluation at a point ends in a tidy store. -/
def Point.EndsWell (point : Point) : Prop :=
  Eval.EndsWell point.store (eval point.frames point.scope point.node) Value.Tidy

/-- No length that is asked for, from a point on, is out of bounds. -/
def Point.AsksSized (point : Point) : Prop :=
  ∀ visited, Visits point visited → ∀ argument, visited.Asks argument → argument.Sized

theorem Visits.trans {first second third : Point} (before : Visits first second)
    (onward : Visits second third) : Visits first third := by
  induction before with
  | self => exact onward
  | within enters _ inductionHypothesis => exact .within enters (inductionHypothesis onward)

theorem Point.AsksSized.visited {point visited : Point} (sized : point.AsksSized)
    (visits : Visits point visited) : visited.AsksSized :=
  fun further onward => sized further (visits.trans onward)

/-- What is entered from a point ends well, when shorter evaluations do. -/
theorem entersWell_of_started {frames scope : Nat} {node : Node} {store : Store}
    (started : Point.Started ⟨frames + 5, scope, node, store⟩)
    (sized : Point.AsksSized ⟨frames + 5, scope, node, store⟩)
    (shorter : ∀ point : Point, point.frames < frames + 5 → point.Started → point.AsksSized →
      point.EndsWell) :
    EntersWell (eval (frames + spare node)) (eval frames) scope node store := by
  intro entry innerScope innerNode innerStore enters innerTidy innerStoreTidy
  have sane := enters.sane (safeMeaning_eval _) (safeMeaning_eval _) started.sane
  have ended := shorter ⟨entry.frames frames node, innerScope, innerNode, innerStore⟩
    (entry.frames_lt frames node) ⟨sane, innerTidy, innerStoreTidy⟩
    (sized.visited (.within enters (.self _)))
  rwa [Point.EndsWell, eval_entry] at ended

/-- Evaluation ends well wherever it starts well, as long as the lengths it asks for are
bounded. -/
theorem Point.Started.endsWell {point : Point} (started : point.Started)
    (sized : point.AsksSized) : point.EndsWell := by
  obtain ⟨frames, scope, node, store⟩ := point
  induction frames using Nat.strongRecOn generalizing scope node store with
  | ind frames inductionHypothesis =>
    match frames with
    | frames + 5 =>
      have well := entersWell_of_started started sized fun point fewer =>
        inductionHypothesis point.frames fewer point.scope point.node point.store
      rw [Point.EndsWell, eval_add_five]
      refine endsWell_step started.nodeTidy started.tidy well fun argument asks => ?_
      obtain ⟨after, calls⟩ := asks
      exact sized _ (.self _) argument ⟨after, frames, rfl, calls⟩
    | 0 | 1 | 2 | 3 | 4 => exact ⟨started.tidy, trivial⟩

theorem Point.Started.entersWell {frames scope : Nat} {node : Node} {store : Store}
    (started : Point.Started ⟨frames + 5, scope, node, store⟩)
    (sized : Point.AsksSized ⟨frames + 5, scope, node, store⟩) :
    EntersWell (eval (frames + spare node)) (eval frames) scope node store :=
  entersWell_of_started started sized fun _ _ => Point.Started.endsWell

/-- Every evaluation inside an evaluation starts as well as that one. -/
theorem Point.Started.visited {point visited : Point} (started : point.Started)
    (sized : point.AsksSized) (visits : Visits point visited) : visited.Started := by
  induction visits with
  | self => exact started
  | within enters _ inductionHypothesis =>
    have sane := enters.sane (safeMeaning_eval _) (safeMeaning_eval _) started.sane
    obtain ⟨innerTidy, innerStoreTidy⟩ :=
      enters.tidy started.nodeTidy started.tidy (started.entersWell sized)
    exact inductionHypothesis ⟨sane, innerTidy, innerStoreTidy⟩
      (sized.visited (.within enters (.self _)))

/-- A point that starts well is orderly. -/
theorem Point.Started.orderly {point : Point} (started : point.Started)
    (sized : point.AsksSized) : point.Orderly := by
  refine ⟨⟨started.sane.sound, started.tidy⟩, ?_, ?_⟩
  · have ended := started.endsWell sized
    have safe := (safeMeaning_eval point.frames).evaluated started.sane.present
      started.sane.evaluated point.store started.sane.sound (Nat.le_refl _)
    rw [Point.EndsWell, Eval.EndsWell] at ended
    rw [Point.result]
    cases run : eval point.frames point.scope point.node point.store with
    | ok value after =>
      rw [run] at ended safe
      exact ⟨⟨safe.1, ended.1⟩, safe.2.2, ended.2⟩
    | error interrupt after =>
      rw [run] at ended safe
      refine ⟨⟨safe.1, ended.1⟩, ?_⟩
      cases interrupt with
      | returned value => exact ⟨safe.2.2, ended.2⟩
      | fault | depthExceeded => trivial
  · rintro callee arguments after ⟨frames, enough, calls⟩
    obtain ⟨_, scope, node, store⟩ := point
    cases enough
    obtain ⟨sound, resultsSound⟩ := started.sane.calls (safeMeaning_eval _) calls
    obtain ⟨tidy, resultsTidy⟩ :=
      tidy_of_calls started.nodeTidy started.tidy (started.entersWell sized) calls
    exact ⟨⟨sound, tidy⟩, fun value member => ⟨resultsSound value member, resultsTidy value member⟩⟩

end Evaluator

/-! ### Trees without calls -/

namespace Node

mutual

/-- There is no call in the tree. -/
def callFree : Node → Bool
  | tree label children => label != .call && allCallFree children
  | _ => true

/-- There is no call in the trees. -/
def allCallFree : List Node → Bool
  | [] => true
  | node :: rest => callFree node && allCallFree rest

end

theorem allCallFree_eq_all (nodes : List Node) : allCallFree nodes = nodes.all callFree := by
  induction nodes with
  | nil => rfl
  | cons first rest inductionHypothesis => rw [allCallFree, inductionHypothesis, List.all_cons]

theorem callFree_of_mem {node child : Node} (free : node.callFree = true)
    (member : child ∈ node.children) : child.callFree = true := by
  cases node with
  | hole | leaf => cases member
  | tree label children =>
    rw [callFree, Bool.and_eq_true, allCallFree_eq_all, List.all_eq_true] at free
    exact free.2 child member

end Node

namespace Evaluator

section

variable {meaning called : Meaning} {scope innerScope : Nat} {node inner : Node}
  {store innerStore : Store} {entry : Entry}

theorem not_calls_of_callFree (free : node.callFree = true) {callee : Value}
    {arguments : List Value} {after : Store} :
    ¬ Calls meaning scope node store callee arguments after := by
  rintro ⟨opening, nodes, rfl, -⟩
  simp [Node.callFree] at free

theorem Enters.callFree (enters : Enters meaning called scope node store entry innerScope inner
    innerStore) (free : node.callFree = true) : inner.callFree = true := by
  cases entry with
  | inner =>
    rcases enters.mem with child | ⟨pair, child, grandchild⟩
    · exact Node.callFree_of_mem free child
    · exact Node.callFree_of_mem (Node.callFree_of_mem free child) grandchild
  | body =>
    cases enters with
    | statement calls => exact absurd calls (not_calls_of_callFree free)

end

theorem Visits.callFree {point visited : Point} (visits : Visits point visited)
    (free : point.node.callFree = true) : visited.node.callFree = true := by
  induction visits with
  | self => exact free
  | within enters _ inductionHypothesis => exact inductionHypothesis (enters.callFree free)

end Evaluator

/-! ### Sessions -/

namespace Session

open Eval Evaluator

/-- No length that a run asks for is out of bounds. -/
def AsksSized (limit scope : Nat) (program : Node) (store : Store) : Prop :=
  ∀ point, Visits limit scope program store point → ∀ argument, point.Asks argument →
    argument.Sized

/-- The stores that a session can reach when it never asks for a length out of bounds. -/
inductive ReachedInMemory : Store → Prop where
  | start : ReachedInMemory fresh.2
  | run {limit : Nat} {text : String} {store after : Store} {outcome : Outcome}
      (before : ReachedInMemory store)
      (sized : AsksSized limit fresh.1 (readSource text).program store)
      (ran : runText limit fresh.1 text store = .ok (outcome, after)) : ReachedInMemory after

theorem ReachedInMemory.reached {store : Store} (reached : ReachedInMemory store) :
    Reached store := by
  induction reached with
  | start => exact .start _
  | run _ _ ran inductionHypothesis => exact .run inductionHypothesis ran

theorem tidy_of_accepted {text : String} (accepted : (readSource text).errors = []) :
    ∀ statement ∈ (readSource text).program.children, statement.Tidy := by
  obtain ⟨statements, tree, derived⟩ := program_of_readSource accepted
  rw [tree]
  exact derived.tidy (Cursor.spelled_of_mem_scan _)

/-- Every statement of a run starts with a scope that is there and in a sound store. -/
theorem sane_of_statement {limit scope : Nat} {program : Node} {store : Store}
    (sound : store.Sound) (present : scope < store.scopes.size)
    (shaped : ∀ statement ∈ program.children, statement.Shaped .statement)
    {front back : List Node} {statement : Node} {results : List Value} {middle : Store}
    (listed : program.children = front ++ statement :: back)
    (ran : values (eval limit) scope front store = .ok results middle) :
    Sane scope statement middle := by
  have evaluated := fun node member => (shaped node member).evaluated_statement
  simp only [listed, List.forall_mem_append, List.forall_mem_cons] at evaluated
  obtain ⟨middleSound, grown, -⟩ :=
    (safe_values (safeMeaning_eval limit) present evaluated.1).of_ok sound ran
  exact ⟨evaluated.2.1, middleSound, Nat.lt_of_lt_of_le present grown⟩

section

variable {limit scope : Nat} {program : Node} {store : Store} (orderly : store.Orderly)
  (present : scope < store.scopes.size)
  (shaped : ∀ statement ∈ program.children, statement.Shaped .statement)
  (tidy : ∀ statement ∈ program.children, statement.Tidy)
  (sized : AsksSized limit scope program store)

include orderly present shaped tidy sized

/-- Every statement of a run starts well in a tidy store. -/
theorem started_of_statement {front back : List Node} {statement : Node} {results : List Value}
    {middle : Store} (listed : program.children = front ++ statement :: back)
    (ran : values (eval limit) scope front store = .ok results middle) (middleTidy : middle.Tidy) :
    Point.Started ⟨limit, scope, statement, middle⟩ ∧
      Point.AsksSized ⟨limit, scope, statement, middle⟩ := by
  have sane := sane_of_statement orderly.sound present shaped listed ran
  simp only [listed, List.forall_mem_append, List.forall_mem_cons] at tidy
  refine ⟨⟨sane, tidy.2.1, middleTidy⟩, fun point visits => ?_⟩
  exact sized point ⟨front, statement, back, results, middle, listed, ran, visits⟩

/-- The first statements of a run, however many, have tidy values. -/
theorem endsWell_statements {front back : List Node} (listed : program.children = front ++ back) :
    EndsWell store (values (eval limit) scope front) AllTidy := by
  refine endsWell_values orderly.tidy ?_
  rintro before statement others results middle rfl ran middleTidy
  rw [List.append_assoc] at listed
  obtain ⟨started, statementSized⟩ :=
    started_of_statement orderly present shaped tidy sized listed ran middleTidy
  exact started.endsWell statementSized

/-- Every point that a run visits is orderly. -/
theorem orderly_of_visits {point : Point} (visits : Visits limit scope program store point) :
    point.Orderly := by
  obtain ⟨front, statement, back, results, middle, listed, ran, visits⟩ := visits
  have middleTidy :=
    ((endsWell_statements orderly present shaped tidy sized listed).of_ok ran).1
  obtain ⟨started, statementSized⟩ :=
    started_of_statement orderly present shaped tidy sized listed ran middleTidy
  exact (started.visited statementSized visits).orderly (statementSized.visited visits)

/-- A run ends in an orderly store, with an orderly value unless it fails. -/
theorem runProgram_orderly :
    (runProgram limit scope program store).2.Orderly ∧
      ((runProgram limit scope program store).1.value.isError = false →
        (runProgram limit scope program store).1.value.Orderly
          (runProgram limit scope program store).2.scopes.size) := by
  obtain ⟨sound, -, documented⟩ := runProgram_documented orderly.sound present limit shaped
  have ended : EndsWell store (statements (eval limit) scope ⟨.null, none⟩ program.children)
      fun outcome => outcome.value.Tidy := by
    refine EndsWell.of_map ?_
    rw [map_value_statements]
    exact endsWell_sequence
      (endsWell_statements orderly present shaped tidy sized (List.append_nil _).symm)
  rw [EndsWell] at ended
  have valueSound : (runProgram limit scope program store).1.value.isError = false →
      (runProgram limit scope program store).1.value.Sound
        (runProgram limit scope program store).2.scopes.size := by
    intro noError
    rcases documented with (⟨_, valueSound⟩ | ⟨tag, report, failed, -⟩) | escaped
    · exact valueSound
    · rw [failed] at noError
      cases noError
    · rw [escaped.isError_eq] at noError
      cases noError
  revert sound valueSound
  rw [runProgram]
  cases run : statements (eval limit) scope ⟨.null, none⟩ program.children store with
  | ok outcome after =>
    rw [run] at ended
    exact fun sound valueSound =>
      ⟨⟨sound, ended.1⟩, fun noError => ⟨valueSound noError, ended.2⟩⟩
  | error interrupt after =>
    rw [run] at ended
    cases interrupt with
    | returned value =>
      exact fun sound valueSound =>
        ⟨⟨sound, ended.1⟩, fun noError => ⟨valueSound noError, ended.2⟩⟩
    | fault | depthExceeded =>
      exact fun sound _ => ⟨⟨sound, ended.1⟩, fun noError => Bool.noConfusion noError⟩

end

theorem ReachedInMemory.orderly {store : Store} (reached : ReachedInMemory store) :
    store.Orderly := by
  induction reached with
  | start => exact ⟨Store.sound_empty.openScope nofun, Store.tidy_empty.openScope none⟩
  | @run limit text store after outcome before sized ran inductionHypothesis =>
    have accepted := accepted_of_runText ran
    have kept := runProgram_orderly inductionHypothesis before.reached.sound.2
      (shaped_of_accepted accepted) (tidy_of_accepted accepted) sized
    rw [runText_of_accepted accepted] at ran
    rw [Except.ok.inj ran] at kept
    exact kept.1

/-- A program without calls asks for no length. -/
theorem asksSized_of_callFree {program : Node} (free : program.callFree = true)
    (limit scope : Nat) (store : Store) : AsksSized limit scope program store := by
  rintro point ⟨front, statement, back, results, middle, listed, -, visits⟩ argument
    ⟨after, frames, -, calls⟩
  have member := List.mem_iff_append.mpr ⟨_, _, listed⟩
  exact absurd calls (not_calls_of_callFree (visits.callFree (Node.callFree_of_mem free member)))

/-- Take any session that started from an empty environment and ran texts without syntax
errors, and any further such text, on a machine where every length that is asked for fits. The
store is orderly before and after the run and at every point that the run visits. So is the
value of every node, what a `return` carries, what every call passes on, and the value of the
run unless it reports a failure. -/
theorem runText_orderly (store : Store) (reached : ReachedInMemory store) (limit : Nat)
    (text : String) (accepted : (readSource text).errors = [])
    (sized : AsksSized limit fresh.1 (readSource text).program store) :
    store.Orderly ∧
    (∀ point, Visits limit fresh.1 (readSource text).program store point → point.Orderly) ∧
    ∃ outcome after, runText limit fresh.1 text store = .ok (outcome, after) ∧ after.Orderly ∧
      (outcome.value.isError = false → outcome.value.Orderly after.scopes.size) := by
  have orderly := reached.orderly
  have present := reached.reached.sound.2
  have shaped := shaped_of_accepted accepted
  have tidy := tidy_of_accepted accepted
  refine ⟨orderly, fun point => orderly_of_visits orderly present shaped tidy sized, ?_⟩
  exact ⟨_, _, runText_of_accepted accepted limit _ store,
    runProgram_orderly orderly present shaped tidy sized⟩

theorem runText_orderly_of_wrapped_sum :
    ∃ outcome after,
      runText 100 fresh.1
          "let f = func(x) \x7b x \x7d; \x7b1: -9223372036854775807 - 2, true: f\x7d" fresh.2 =
        .ok (outcome, after) ∧ after.Orderly ∧
        (outcome.value.isError = false → outcome.value.Orderly after.scopes.size) := by
  refine (runText_orderly fresh.2 .start 100
    "let f = func(x) \x7b x \x7d; \x7b1: -9223372036854775807 - 2, true: f\x7d" ?_ ?_).2.2
  · decide +kernel
  · refine asksSized_of_callFree ?_ 100 _ _
    decide +kernel

end Session

end Scriptlet
