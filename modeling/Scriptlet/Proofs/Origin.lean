/-
This file says where the nodes of a run come from. A run evaluates nodes of its own program, and
nodes of the functions that the store already held when it started. The functions that it leaves
behind have bodies out of these two as well. So in a session every function that is bound
anywhere has a body out of one of the texts that were run.

A collection of nodes that has the children of its members is kept by evaluation. This is the
case of two runs in step in which the second run is the first one over again: a run from a store
whose functions are in the collection matches itself, and that it matches itself says that its
functions still are.
-/

import Scriptlet.Proofs.FunctionText
import Scriptlet.Proofs.Nesting
import Scriptlet.Proofs.Renaming
import Scriptlet.Proofs.Safety

namespace Scriptlet

/-! ### Nodes inside nodes -/

theorem Node.Within.trans {node middle outer : Node} (inside : node.Within middle)
    (further : middle.Within outer) : node.Within outer := by
  induction further with
  | self => exact inside
  | child listed _ inductionHypothesis => exact .child listed inductionHypothesis

theorem Node.Within.of_mem_children {node outer child : Node} (inside : node.Within outer)
    (member : child ∈ node.children) : child.Within outer := by
  refine Within.trans ?_ inside
  cases node with
  | hole | leaf => cases member
  | tree label children => exact .child member .self

/-! ### Functions in stores -/

/-- Some function that is bound in the store, or that is in a value bound there, has this body. -/
def Store.HoldsBody (store : Store) (body : Node) : Prop :=
  ∃ (number : Nat) (frame : Scope) (name : String) (value : Value) (scope : Nat),
    store.scopes[number]? = some frame ∧ frame.get? name = some value ∧ value.Holds body scope

/-- A run over again, where all nodes are in a collection. -/
def Correspondence.among (known : Node → Prop)
    (inward : ∀ {node child : Node}, known node → child ∈ node.children → known child) :
    Correspondence where
  tag number := number
  scope number := number
  root := none
  counts _ := True
  node first second := first = second ∧ known first
  placed := True
  firstMayStop := False
  secondMayStop := False
  tag_injective := Function.injective_id
  scope_strictMono := fun _ _ less => less
  root_apart := nofun
  parallel := by
    rintro node _ ⟨rfl, isKnown⟩
    cases node with
    | hole => exact .hole
    | leaf leaf => exact .leaf rfl rfl fun _ => trivial
    | tree label children =>
      exact .tree (List.forall₂_same.mpr fun child member => ⟨rfl, inward isKnown member⟩)
  place_eq := by
    rintro - node _ ⟨rfl, -⟩
    rfl

open Correspondence (among)

section

variable {known : Node → Prop}
  {inward : ∀ {node child : Node}, known node → child ∈ node.children → known child}

/-- The nodes of a list that are in the collection stand for themselves. -/
theorem forall₂_among {nodes : List Node} (all : ∀ node ∈ nodes, known node) :
    List.Forall₂ (among known inward).node nodes nodes :=
  List.forall₂_same.mpr fun node member => ⟨rfl, all node member⟩

/-- A value matches itself when the bodies of its functions are in the collection. -/
theorem Value.matches_among {value : Value} :
    value.Matches (among known inward) value ↔
      ∀ body scope, value.Holds body scope → known body := by
  constructor
  · intro same body scope holds
    induction holds with
    | function tag parameters =>
      cases same with
      | function bodies => exact bodies.2
    | element member _ inductionHypothesis =>
      exact inductionHypothesis (List.forall₂_same.mp same.elements _ member)
    | entry member _ inductionHypothesis =>
      exact inductionHypothesis (List.forall₂_same.mp same.entries _ member).value
  · intro bodies
    induction value using Value.induction with
    | atom content => exact .atom content
    | null => exact .null
    | array tag elements inductionHypothesis =>
      exact .ofElements (List.forall₂_same.mpr fun element member =>
        inductionHypothesis element member fun body scope holds =>
          bodies body scope (.element member holds))
    | hash tag entries inductionHypothesis =>
      exact .ofEntries (List.forall₂_same.mpr fun entry member =>
        ⟨rfl, rfl, inductionHypothesis entry member fun body scope holds =>
          bodies body scope (.entry member holds)⟩)
    | function tag parameters body scope =>
      exact .function ⟨rfl, bodies body scope (.function tag parameters)⟩
    | builtin which => exact .builtin which
    | error tag report => exact .error report.matches_self

theorem Store.matches_among {store : Store} :
    store.Matches (among known inward) store ↔ ∀ body, store.HoldsBody body → known body := by
  constructor
  · rintro same body ⟨number, frame, name, value, scope, held, bound, holds⟩
    obtain ⟨counterpart, found, matched⟩ := same.scopes number frame held
    cases held.symm.trans found
    have values := matched.bindings name trivial
    rw [bound] at values
    cases values with
    | some same => exact Value.matches_among.mp same body scope holds
  · intro bodies
    refine ⟨rfl, fun _ => rfl, fun _ => rfl, fun number frame held => ⟨frame, held, ?_, ?_⟩, nofun⟩
    · cases frame.outer <;> rfl
    · intro name _
      cases bound : frame.get? name with
      | none => exact .none
      | some value =>
        exact .some (Value.matches_among.mpr fun body scope holds =>
          bodies body ⟨number, frame, name, value, scope, held, bound, holds⟩)

/-! ### The nodes that an evaluation visits -/

/-- What is in step with itself and ends with a result matches itself there. -/
theorem Eval.Lockstep.of_ok {c : Correspondence} {α : Type} {action : Eval α}
    {post : α → α → Prop} (steps : Lockstep c action action post) {store after : Store}
    (same : store.Matches c store) {result : α} (ran : action store = .ok result after) :
    after.Matches c after ∧ post result result := by
  have agree := steps store store same
  rw [ran] at agree
  cases agree with
  | ok same related => exact ⟨same, related⟩

theorem Store.Matches.entered_among {store : Store}
    (same : store.Matches (among known inward) store) {arguments : List Value}
    (inner : AllMatch (among known inward) arguments arguments) (closure : Nat)
    (parameters : List String) :
    (store.entered closure parameters arguments).Matches (among known inward)
      (store.entered closure parameters arguments) :=
  ((Evaluator.lockstep_bindAll store.scopes.size parameters inner).of_ok
    (same.openScope (some closure)).1 rfl).1

namespace Evaluator

/-- From nodes of the collection only nodes of the collection are entered, and their stores hold
no other functions. -/
theorem Enters.among {meaning called : Meaning} {scope innerScope : Nat} {node inner : Node}
    {store innerStore : Store} {entry : Entry}
    (enters : Enters meaning called scope node store entry innerScope inner innerStore)
    (steps : LockstepMeaning (among known inward) meaning meaning)
    (stepsCalled : LockstepMeaning (among known inward) called called) (isKnown : known node)
    (same : store.Matches (among known inward) store) :
    known inner ∧ innerStore.Matches (among known inward) innerStore := by
  have nested : entry = .inner → known inner := by
    rintro rfl
    rcases enters.mem with child | ⟨pair, child, grandchild⟩
    · exact inward isKnown child
    · exact inward (inward isKnown child) grandchild
  have operandsKnown {outer : Node} (outerKnown : known outer) :
      ∀ operand ∈ outer.operands, known operand :=
    fun _ member => inward outerKnown (Node.mem_children_of_mem_operands member)
  cases enters with
  | premise listed ran =>
    have front := fun first member => inward isKnown (mem_children_of_mem_premises
      (listed ▸ List.mem_append_left _ member : first ∈ premises node))
    exact ⟨nested rfl, ((lockstep_values steps (forall₂_among front)).of_ok same ran).1⟩
  | branch form ran chosen =>
    subst form
    have condition : known _ := inward isKnown (List.mem_cons_of_mem _ List.mem_cons_self)
    exact ⟨nested rfl, ((steps scope _ _ ⟨rfl, condition⟩).of_ok same ran).1⟩
  | key form listed parts ran =>
    subst form
    have front := fun pair member => inward isKnown (List.mem_of_mem_tail
      (listed ▸ List.mem_append_left _ member : pair ∈ List.tail _))
    exact ⟨nested rfl, ((lockstep_hashEntries steps .nil (forall₂_among front)).of_ok same ran).1⟩
  | @value children _ _ _ key _ _ _ _ _ _ form listed parts ran ranKey =>
    subst form
    have pairs := fun pair member => inward isKnown (List.mem_of_mem_tail
      (member : pair ∈ List.tail children))
    simp only [listed, List.forall_mem_append, List.forall_mem_cons] at pairs
    have keyKnown := operandsKnown pairs.2.1 key (by simp [parts])
    have middleSame := ((lockstep_hashEntries steps .nil (forall₂_among pairs.1)).of_ok same ran).1
    exact ⟨nested rfl, ((steps scope _ _ ⟨rfl, keyKnown⟩).of_ok middleSame ranKey).1⟩
  | statement calls counted listed ranBody =>
    obtain ⟨opening, nodes, rfl, ran⟩ := calls
    have operands : ∀ node ∈ nodes, known node :=
      fun _ member => inward isKnown (List.mem_cons_of_mem opening member)
    obtain ⟨middleSame, results⟩ := (lockstep_values steps (forall₂_among operands)).of_ok same ran
    cases results with
    | cons callee arguments =>
      cases callee with
      | function bodies =>
        have statements := operandsKnown bodies.2
        simp only [listed, List.forall_mem_append, List.forall_mem_cons] at statements
        exact ⟨statements.2.1, ((lockstep_values stepsCalled (forall₂_among statements.1)).of_ok
          (middleSame.entered_among arguments _ _) ranBody).1⟩

theorem Visits.among {point target : Point} (visits : Visits point target)
    (isKnown : known point.node) (same : point.store.Matches (among known inward) point.store) :
    known target.node := by
  induction visits with
  | self => exact isKnown
  | within enters _ inductionHypothesis =>
    obtain ⟨innerKnown, innerSame⟩ :=
      enters.among (lockstepMeaning_eval_self _) (lockstepMeaning_eval_self _) isKnown same
    exact inductionHypothesis innerKnown innerSame

end Evaluator

end

/-! ### Runs -/

namespace Session

open Evaluator

/-- The nodes that a run has at hand: those of its program, and those of the functions that the
store holds. -/
def Supplied (program : Node) (store : Store) (node : Node) : Prop :=
  node.Within program ∨ ∃ body, store.HoldsBody body ∧ node.Within body

variable {limit scope : Nat} {program : Node} {store : Store}

theorem Supplied.inward {node child : Node} (supplied : Supplied program store node)
    (member : child ∈ node.children) : Supplied program store child :=
  supplied.imp (·.of_mem_children member) fun ⟨body, held, inside⟩ =>
    ⟨body, held, inside.of_mem_children member⟩

theorem supplied_children : ∀ node ∈ program.children, Supplied program store node :=
  fun _ member => .inl (Node.Within.self.of_mem_children member)

theorem matches_supplied (program : Node) (store : Store) :
    store.Matches (among (Supplied program store) Supplied.inward) store :=
  Store.matches_among.mpr fun body held => .inr ⟨body, held, .self⟩

/-- A run visits only nodes that it has at hand. -/
theorem Visits.supplied {point : Point} (visits : Visits limit scope program store point) :
    Supplied program store point.node := by
  obtain ⟨front, statement, back, results, middle, listed, ran, visits⟩ := visits
  have children := @supplied_children program store
  simp only [listed, List.forall_mem_append, List.forall_mem_cons] at children
  have middleSame := ((lockstep_values (lockstepMeaning_eval_self limit)
    (forall₂_among children.1)).of_ok (matches_supplied program store) ran).1
  exact visits.among children.2.1 middleSame

/-- The functions that a run leaves behind have bodies that it had at hand. -/
theorem supplied_of_runProgram {body : Node}
    (held : (runProgram limit scope program store).2.HoldsBody body) :
    Supplied program store body := by
  have same := (matches_runProgram id id limit scope (forall₂_among supplied_children)
    (matches_supplied program store)).2
  exact Store.matches_among.mp same body held

/-- The stores that a session can reach, with the texts that it has run on the way: it starts from
an empty environment and runs texts without syntax errors, each with any depth limit. -/
inductive ReachedBy : List String → Store → Prop where
  | start : ReachedBy [] fresh.2
  | run {limit : Nat} {texts : List String} {text : String} {store after : Store}
      {outcome : Outcome} (before : ReachedBy texts store)
      (ran : runText limit fresh.1 text store = .ok (outcome, after)) :
      ReachedBy (texts ++ [text]) after

variable {texts : List String}

theorem ReachedBy.reached (reached : ReachedBy texts store) : Reached store := by
  induction reached with
  | start => exact .start _
  | run _ ran inductionHypothesis => exact .run inductionHypothesis ran

theorem ReachedBy.accepted (reached : ReachedBy texts store) :
    ∀ text ∈ texts, (readSource text).errors = [] := by
  induction reached with
  | start => exact nofun
  | run _ ran inductionHypothesis =>
    rw [List.forall_mem_append, List.forall_mem_singleton]
    exact ⟨inductionHypothesis, accepted_of_runText ran⟩

/-- Every function that a session has bound has its body in one of the texts of the session. -/
theorem ReachedBy.exists_text (reached : ReachedBy texts store) {body : Node}
    (held : store.HoldsBody body) : ∃ text ∈ texts, body.Within (readSource text).program := by
  induction reached generalizing body with
  | start =>
    obtain ⟨number, frame, name, value, scope, there, bound, -⟩ := held
    cases number with
    | zero =>
      cases there
      cases bound
    | succ number => simp [fresh, Store.openScope, Store.empty] at there
  | @run limit texts text store after outcome before ran inductionHypothesis =>
    rw [runText_of_accepted (accepted_of_runText ran)] at ran
    have left := congrArg Prod.snd (Except.ok.inj ran)
    rw [← show _ = after from left] at held
    rcases supplied_of_runProgram held with inside | ⟨outer, outerHeld, inside⟩
    · exact ⟨text, List.mem_append_right _ List.mem_cons_self, inside⟩
    · obtain ⟨earlier, member, stands⟩ := inductionHypothesis outerHeld
      exact ⟨earlier, List.mem_append_left _ member, inside.trans stands⟩

end Session

end Scriptlet
