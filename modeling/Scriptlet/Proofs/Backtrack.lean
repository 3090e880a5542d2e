/-
This file compares the trails of failures. Two runs that stay in step are cut short by evaluations
that correspond to each other, so a failure has passed the same nodes in both of them. What is shown
of a failure therefore does not depend on the numbers of scopes and on tags.
-/

import Scriptlet.Proofs.Lockstep

namespace Scriptlet

open Eval

variable {c : Correspondence}

/-- A function is entered alike from matching stores. -/
theorem Store.Matches.entered {store other : Store} (matched : store.Matches c other)
    (closure : Nat) (parameters : List String) {arguments others : List Value}
    (inner : AllMatch c arguments others) :
    (store.entered closure parameters arguments).Matches c
      (other.entered (c.scope closure) parameters others) := by
  obtain ⟨opened, number⟩ := matched.openScope (some closure)
  have bound := Evaluator.lockstep_bindAll store.scopes.size parameters inner _ _ opened
  rw [← show other.scopes.size = c.scope store.scopes.size from number] at bound
  cases bound with
  | ok same => exact same

namespace Evaluator

/-- Evaluations that correspond to each other. -/
inductive Nested.Matches (c : Correspondence) : Nested → Nested → Prop where
  | mk (entry : Entry) (scope : Nat) {node other : Node} {store store' : Store}
      (same : c.node node other) (matched : store.Matches c store') :
      Matches c ⟨entry, scope, node, store⟩ ⟨entry, c.scope scope, other, store'⟩

/-- What cuts both runs short is a failure on both sides, or on none. -/
theorem rel_cutBy? {nested other : Nested} (same : nested.Matches c other)
    {interrupt interrupt' : Interrupt} (ended : interrupt.Matches c interrupt') :
    Option.Rel (Nested.Matches c) (nested.cutBy? interrupt) (other.cutBy? interrupt') := by
  cases ended with
  | returned => exact .none
  | fault | depthExceeded => exact .some same

/-- Nodes of one form have premises of one form. -/
theorem forall₂_premises {node other : Node} (same : c.node node other) :
    List.Forall₂ c.node (premises node) (premises other) := by
  cases c.parallel same with
  | hole | leaf => exact .nil
  | @tree label children others inner =>
    have operands : List.Forall₂ c.node children.tail others.tail := by
      rw [← List.drop_one, ← List.drop_one]
      exact List.forall₂_drop 1 inner
    cases label with
    | program => exact inner
    | block | array => exact operands
    | expressionStatement =>
      cases inner with
      | nil => exact .nil
      | cons expression => exact .cons expression .nil
    | letStatement =>
      rcases inner with _ | ⟨word, _ | ⟨name, _ | ⟨value, _ | ⟨_, _⟩⟩⟩⟩
      case cons.cons.cons.nil =>
        simp only [premises, Correspondence.identifier?_eq name]
        split
        · exact .cons value .nil
        · exact .nil
      all_goals exact .nil
    | returnStatement | unary =>
      rcases inner with _ | ⟨first, _ | ⟨second, _ | ⟨_, _⟩⟩⟩
      case cons.cons.nil => exact .cons second .nil
      all_goals exact .nil
    | binary | index =>
      rcases inner with _ | ⟨first, _ | ⟨second, _ | ⟨third, _ | ⟨_, _⟩⟩⟩⟩
      case cons.cons.cons.nil => exact .cons second (.cons third .nil)
      all_goals exact .nil
    | conditional =>
      rcases inner with _ | ⟨word, _ | ⟨condition, _ | ⟨consequence, alternative⟩⟩⟩
      case cons.cons.cons => exact .cons condition .nil
      all_goals exact .nil
    | call =>
      rcases inner with _ | ⟨opening, _ | ⟨callee, arguments⟩⟩
      case cons.cons => exact .cons callee arguments
      all_goals exact .nil
    | function | parameters | hash | pair | foreign => exact .nil

section

variable {meaning meaning' called called' : Meaning} {store store' : Store}
  (firstGoesOn : ¬ c.firstMayStop) (secondGoesOn : ¬ c.secondMayStop) (scope : Nat)

include firstGoesOn secondGoesOn

section

variable (steps : LockstepMeaning c meaning meaning')

include steps

theorem rel_cutAmong? (entry : Entry) {nodes others : List Node}
    (inner : List.Forall₂ c.node nodes others) (matched : store.Matches c store') :
    Option.Rel (Nested.Matches c) (cutAmong? meaning entry scope nodes store)
      (cutAmong? meaning' entry (c.scope scope) others store') := by
  induction inner generalizing store store' with
  | nil => exact .none
  | cons same _ inductionHypothesis =>
    have ended := steps scope _ _ same _ _ matched
    unfold cutAmong?
    generalize meaning scope _ store = run at ended
    generalize meaning' (c.scope scope) _ store' = run' at ended
    cases ended with
    | ok matched => exact inductionHypothesis matched
    | error _ related => exact rel_cutBy? (.mk entry scope same matched) related
    | firstStops may => exact absurd may firstGoesOn
    | secondStops may => exact absurd may secondGoesOn

theorem rel_cutPairs? {pairs others : List Node} (inner : List.Forall₂ c.node pairs others)
    (matched : store.Matches c store') :
    Option.Rel (Nested.Matches c) (cutPairs? meaning scope pairs store)
      (cutPairs? meaning' (c.scope scope) others store') := by
  induction inner generalizing store store' with
  | nil => exact .none
  | @cons pair pair' rest rest' first _ inductionHypothesis =>
    have operands := Correspondence.operands first
    unfold cutPairs?
    generalize pair.operands = parts at operands
    generalize pair'.operands = parts' at operands
    rcases operands with _ | ⟨key, _ | ⟨value, _ | ⟨_, _⟩⟩⟩
    case cons.cons.cons.nil =>
      have ended := steps scope _ _ key _ _ matched
      dsimp only
      generalize meaning scope _ store = run at ended
      generalize meaning' (c.scope scope) _ store' = run' at ended
      cases ended with
      | error _ related => exact rel_cutBy? (.mk .inner scope key matched) related
      | firstStops may => exact absurd may firstGoesOn
      | secondStops may => exact absurd may secondGoesOn
      | @ok found found' middle middle' matched foundSame =>
        dsimp only
        rw [foundSame.atom?_eq]
        split
        · exact .none
        · have ended := steps scope _ _ value _ _ matched
          generalize meaning scope _ middle = run at ended
          generalize meaning' (c.scope scope) _ middle' = run' at ended
          cases ended with
          | error _ related => exact rel_cutBy? (.mk .inner scope value matched) related
          | firstStops may => exact absurd may firstGoesOn
          | secondStops may => exact absurd may secondGoesOn
          | @ok _ _ after after' matched =>
            have equal : found'.unencodable? after'.lone = found.unencodable? after.lone := by
              rw [matched.lone]
              cases foundSame <;> rfl
            dsimp only
            rw [equal]
            split
            · exact .none
            · exact inductionHypothesis matched
    all_goals exact .none

theorem rel_cutBody? {callee other : Value} (same : callee.Matches c other)
    {arguments others : List Value} (inner : AllMatch c arguments others)
    (matched : store.Matches c store') :
    Option.Rel (Nested.Matches c) (cutBody? meaning callee arguments store)
      (cutBody? meaning' other others store') := by
  cases same with
  | @function tag parameters body other closure bodies =>
    have number : store'.scopes.size = c.scope store.scopes.size :=
      (matched.openScope (some closure)).2
    unfold cutBody?
    dsimp only
    rw [inner.length_eq, number]
    split
    · exact rel_cutAmong? firstGoesOn secondGoesOn _ steps .body
        (Correspondence.operands bodies) (matched.entered closure parameters inner)
    · exact .none
  | atom | null | array | hash | builtin | error => exact .none

end

section

variable (steps : LockstepMeaning c meaning meaning')
  (stepsCalled : LockstepMeaning c called called') {node other : Node} (same : c.node node other)
  (matched : store.Matches c store')

include steps stepsCalled same matched

theorem rel_cutBehind? :
    Option.Rel (Nested.Matches c) (cutBehind? meaning called scope node store)
      (cutBehind? meaning' called' (c.scope scope) other store') := by
  cases c.parallel same with
  | hole | leaf => exact .none
  | @tree label children others inner =>
    cases label with
    | conditional =>
      rcases inner with _ | ⟨word, _ | ⟨condition, _ | ⟨consequence, alternative⟩⟩⟩
      case cons.cons.cons =>
        have ended := steps scope _ _ condition _ _ matched
        unfold cutBehind?
        dsimp only
        generalize meaning scope _ store = run at ended
        generalize meaning' (c.scope scope) _ store' = run' at ended
        cases ended with
        | error => exact .none
        | firstStops may => exact absurd may firstGoesOn
        | secondStops may => exact absurd may secondGoesOn
        | ok matched decided =>
          dsimp only
          rw [decided.isTruthy_eq]
          refine rel_cutAmong? firstGoesOn secondGoesOn scope steps .inner ?_ matched
          split
          · exact .cons consequence .nil
          · cases alternative with
            | nil => exact .nil
            | cons block => exact .cons block .nil
      all_goals exact .none
    | call =>
      cases inner with
      | nil => exact .none
      | cons opening nodes =>
        have ended := @lockstep_values _ _ _ scope steps _ _ nodes _ _ matched
        unfold cutBehind?
        dsimp only
        generalize values meaning scope _ store = run at ended
        generalize values meaning' (c.scope scope) _ store' = run' at ended
        cases ended with
        | error => exact .none
        | firstStops may => exact absurd may firstGoesOn
        | secondStops may => exact absurd may secondGoesOn
        | ok matched results =>
          cases results with
          | nil => exact .none
          | cons callee arguments =>
            exact rel_cutBody? firstGoesOn secondGoesOn stepsCalled callee arguments matched
    | hash =>
      refine rel_cutPairs? firstGoesOn secondGoesOn scope steps ?_ matched
      rw [← List.drop_one, ← List.drop_one]
      exact List.forall₂_drop 1 inner
    | program | expressionStatement | letStatement | returnStatement | block | unary | binary
    | function | parameters | array | index | pair | foreign => exact .none

/-- Nodes that run in step are cut short alike. -/
theorem rel_cut? :
    Option.Rel (Nested.Matches c) (cut? meaning called scope node store)
      (cut? meaning' called' (c.scope scope) other store') := by
  have first := rel_cutAmong? firstGoesOn secondGoesOn scope steps .inner (forall₂_premises same)
    matched
  have behind := rel_cutBehind? firstGoesOn secondGoesOn scope steps stepsCalled same matched
  unfold cut?
  generalize cutAmong? meaning .inner scope (premises node) store = found at first
  generalize cutAmong? meaning' .inner (c.scope scope) (premises other) store' = found' at first
  cases first with
  | none => exact behind
  | some related => exact .some related

end

/-- Failures of runs that stay in step on the same nodes have the same trail. -/
theorem trail_eq (alike : ∀ {first second : Node}, c.node first second → first = second)
    (frames : Nat) {node other : Node} (same : c.node node other)
    (matched : store.Matches c store') :
    trail frames (c.scope scope) other store' = trail frames scope node store := by
  induction frames using Nat.strongRecOn generalizing scope node other store store' with
  | ind frames inductionHypothesis =>
    rcases Nat.lt_or_ge frames 5 with few | enough
    · obtain rfl := alike same
      match frames with
      | 0 | 1 | 2 | 3 | 4 => rfl
    · obtain ⟨frames, rfl⟩ := Nat.exists_eq_add_of_le' enough
      have cut := rel_cut? firstGoesOn secondGoesOn scope
        (lockstepMeaning_eval_self (frames + spare node)) (lockstepMeaning_eval_self frames) same
        matched
      obtain rfl := alike same
      rw [trail_add_five, trail_add_five]
      generalize cut? (eval (frames + spare node)) (eval frames) scope node store = found at cut
      generalize cut? (eval (frames + spare node)) (eval frames) (c.scope scope) node store' =
        found' at cut
      cases cut with
      | none => rfl
      | some related =>
        obtain ⟨entry, innerScope, nodes, stores⟩ := related
        exact congrArg (node :: ·)
          (inductionHypothesis _ (entry.frames_lt frames node) _ nodes stores)

end

end Evaluator

namespace Session

/-- The failures of two runs that stay in step on the same nodes have passed the same nodes. -/
theorem trail_eq (firstGoesOn : ¬ c.firstMayStop) (secondGoesOn : ¬ c.secondMayStop)
    (alike : ∀ {first second : Node}, c.node first second → first = second) (limit scope : Nat)
    {program other : Node} (inner : List.Forall₂ c.node program.children other.children)
    {store store' : Store} (matched : store.Matches c store') :
    trail limit (c.scope scope) other store' = trail limit scope program store := by
  have cut := Evaluator.rel_cutAmong? firstGoesOn secondGoesOn scope
    (Evaluator.lockstepMeaning_eval_self limit) .inner inner matched
  unfold trail
  generalize Evaluator.cutAmong? _ _ scope _ _ = found at cut
  generalize Evaluator.cutAmong? _ _ (c.scope scope) _ _ = found' at cut
  cases cut with
  | none => rfl
  | some related =>
    obtain ⟨entry, innerScope, nodes, stores⟩ := related
    exact Evaluator.trail_eq firstGoesOn secondGoesOn innerScope alike limit nodes stores

end Session

end Scriptlet
