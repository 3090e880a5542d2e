/-
This file shows that the search for a failure finds the evaluation that has failed. `cut?` goes
through the evaluations that a node starts in the order in which `Enters` lists them, and stops at
the first one that fails. An evaluation that is entered and fails is therefore the one that is
found (`cut?_of_enters`), and what is found was entered and has failed (`cuts_of_cut?`).
-/

import Scriptlet.Proofs.Unwinding

namespace Scriptlet

/-- The interrupts that are failures. -/
inductive Interrupt.Fails : Interrupt → Prop where
  | fault (cause : Fault) (place : Option Place) : Fails (.fault cause place)
  | depthExceeded : Fails .depthExceeded

namespace Evaluator

open Eval

theorem Nested.cutBy?_of_fails (nested : Nested) {interrupt : Interrupt}
    (fails : interrupt.Fails) : nested.cutBy? interrupt = some nested := by
  cases fails <;> rfl

theorem Nested.fails_of_cutBy? {nested found : Nested} {interrupt : Interrupt}
    (cut : nested.cutBy? interrupt = some found) : interrupt.Fails ∧ found = nested := by
  cases interrupt with
  | returned => cases cut
  | fault cause place =>
    cases cut
    exact ⟨.fault cause place, rfl⟩
  | depthExceeded =>
    cases cut
    exact ⟨.depthExceeded, rfl⟩

variable {meaning called : Meaning} {scope innerScope : Nat} {node inner : Node}
  {nodes front back : List Node} {results : List Value} {interrupt : Interrupt}
  {store middle innerStore after : Store} {entry : Entry} {nested : Nested}

/-! ### Nodes in a row -/

/-- Nodes that have values are passed over. -/
theorem cutAmong?_append (ran : values meaning scope front store = .ok results middle) :
    cutAmong? meaning entry scope (front ++ back) store =
      cutAmong? meaning entry scope back middle := by
  induction front generalizing store results with
  | nil =>
    cases ran
    rfl
  | cons first rest inductionHypothesis =>
    obtain ⟨value, between, others, ranFirst, ranRest, -⟩ := exists_of_values_cons ran
    rw [List.cons_append, cutAmong?, ranFirst]
    exact inductionHypothesis ranRest

theorem cutAmong?_eq_none (ran : values meaning scope nodes store = .ok results after) :
    cutAmong? meaning entry scope nodes store = none := by
  rw [← List.append_nil nodes, cutAmong?_append ran]
  rfl

theorem cutAmong?_of_breaks (ran : values meaning scope front store = .ok results middle)
    (fails : interrupt.Fails) (breaks : (meaning scope inner).Breaks interrupt middle after) :
    cutAmong? meaning entry scope (front ++ inner :: back) store =
      some ⟨entry, scope, inner, middle⟩ := by
  rw [cutAmong?_append ran, cutAmong?, breaks]
  exact Nested.cutBy?_of_fails _ fails

/-- What is found in a row stands behind nodes that have values, and has failed. -/
theorem exists_of_cutAmong? (found : cutAmong? meaning entry scope nodes store = some nested) :
    ∃ front inner back results middle interrupt after, nodes = front ++ inner :: back ∧
      values meaning scope front store = .ok results middle ∧ interrupt.Fails ∧
      (meaning scope inner).Breaks interrupt middle after ∧
      nested = ⟨entry, scope, inner, middle⟩ := by
  induction nodes generalizing store with
  | nil => cases found
  | cons first rest inductionHypothesis =>
    rw [cutAmong?] at found
    split at found
    · next value between ranFirst =>
      obtain ⟨front, inner, back, results, middle, interrupt, after, rfl, ran, fails, breaks,
        same⟩ := inductionHypothesis found
      exact ⟨first :: front, inner, back, _, middle, interrupt, after, rfl,
        values_cons ranFirst ran, fails, breaks, same⟩
    · next interrupt after breaks =>
      obtain ⟨fails, same⟩ := Nested.fails_of_cutBy? found
      exact ⟨[], first, rest, [], store, interrupt, after, rfl, rfl, fails, breaks, same⟩

theorem exists_of_cutAmong?_toList {branch : Option Node}
    (found : cutAmong? meaning entry scope branch.toList store = some nested) :
    ∃ inner interrupt after, branch = some inner ∧ interrupt.Fails ∧
      (meaning scope inner).Breaks interrupt store after ∧
      nested = ⟨entry, scope, inner, store⟩ := by
  cases branch with
  | none => cases found
  | some inner =>
    rw [Option.toList_some, cutAmong?] at found
    split at found
    · cases found
    · next interrupt after breaks =>
      obtain ⟨fails, same⟩ := Nested.fails_of_cutBy? found
      exact ⟨inner, interrupt, after, rfl, fails, breaks, same⟩

/-! ### The pairs of a hash -/

theorem cutPairs?_append {entries found : List (HashEntry Value)}
    (ran : hashEntries meaning scope entries front store = .ok found middle) :
    cutPairs? meaning scope (front ++ back) store = cutPairs? meaning scope back middle := by
  induction front generalizing store entries with
  | nil =>
    cases ran
    rfl
  | cons first rest inductionHypothesis =>
    obtain ⟨keyNode, valueNode, key, atom, value, between, later, parts, ranKey, hashable, ranValue,
      encoded, ranRest⟩ := exists_of_hashEntries_cons ran
    rw [List.cons_append, cutPairs?]
    simp only [parts, ranKey, hashable, ranValue, encoded]
    exact inductionHypothesis ranRest

/-- What is found in some pairs is a key or a value behind pairs that were taken in. -/
theorem exists_of_cutPairs? {entries : List (HashEntry Value)}
    (found : cutPairs? meaning scope nodes store = some nested) :
    ∃ front pair back key value taken middle, nodes = front ++ pair :: back ∧
      pair.operands = [key, value] ∧
      hashEntries meaning scope entries front store = .ok taken middle ∧
      ∃ interrupt after, interrupt.Fails ∧
        (((meaning scope key).Breaks interrupt middle after ∧
            nested = ⟨.inner, scope, key, middle⟩) ∨
          ∃ result atom later, meaning scope key middle = .ok result later ∧
            result.atom? = some atom ∧ (meaning scope value).Breaks interrupt later after ∧
            nested = ⟨.inner, scope, value, later⟩) := by
  induction nodes generalizing entries store with
  | nil => cases found
  | cons pair rest inductionHypothesis =>
    rw [cutPairs?] at found
    split at found
    · next key value parts =>
      split at found
      · next interrupt after breaks =>
        obtain ⟨fails, same⟩ := Nested.fails_of_cutBy? found
        exact ⟨[], pair, rest, key, value, entries, store, rfl, parts, rfl, interrupt, after, fails,
          .inl ⟨breaks, same⟩⟩
      · next result middle ranKey =>
        cases hashable : result.atom? with
        | none => simp [hashable] at found
        | some atom =>
          simp only [hashable, Option.isNone_some, Bool.false_eq_true, if_false] at found
          split at found
          · next interrupt after breaks =>
            obtain ⟨fails, same⟩ := Nested.fails_of_cutBy? found
            exact ⟨[], pair, rest, key, value, entries, store, rfl, parts, rfl, interrupt, after,
              fails, .inr ⟨result, atom, middle, ranKey, hashable, breaks, same⟩⟩
          · next held later ranValue =>
            split at found
            · cases found
            · next encoded =>
              rw [Bool.not_eq_true, Option.isSome_eq_false_iff, Option.isNone_iff_eq_none]
                at encoded
              obtain ⟨front, other, back, key', value', taken, between, rfl, parts', ran, ended⟩ :=
                @inductionHypothesis later (HashTable.insert entries atom held) found
              exact ⟨pair :: front, other, back, key', value', taken, between, rfl, parts',
                hashEntries_cons parts ranKey hashable ranValue encoded ran, ended⟩
    · cases found

/-! ### Nodes -/

/-- An evaluation that is entered and fails is found. -/
theorem cut?_of_enters
    (enters : Enters meaning called scope node store entry innerScope inner innerStore)
    (fails : interrupt.Fails)
    (breaks : (entry.meaning meaning called innerScope inner).Breaks interrupt innerStore after) :
    cut? meaning called scope node store = some ⟨entry, innerScope, inner, innerStore⟩ := by
  cases enters with
  | premise listed ran => rw [cut?, listed, cutAmong?_of_breaks ran fails breaks]
  | @branch word condition consequence _ alternative decided _ form ran chosen =>
    subst form
    have passed : cutAmong? meaning .inner scope [condition] store = none :=
      cutAmong?_eq_none (values_cons ran rfl)
    rw [cut?, premises, passed]
    simp only [cutBehind?, ran, chosen, Option.toList_some]
    exact @cutAmong?_of_breaks _ _ _ [] [] [] _ _ _ _ .inner rfl fails breaks
  | key form listed parts ran =>
    subst form
    show cutPairs? meaning scope _ store = _
    rw [listed, cutPairs?_append ran, cutPairs?]
    simp only [parts]
    rw [show meaning scope inner innerStore = _ from breaks]
    exact Nested.cutBy?_of_fails _ fails
  | value form listed parts ran ranKey hashable =>
    subst form
    show cutPairs? meaning scope _ store = _
    rw [listed, cutPairs?_append ran, cutPairs?]
    simp only [parts, ranKey, hashable]
    rw [show meaning scope inner innerStore = _ from breaks]
    exact Nested.cutBy?_of_fails _ fails
  | statement calls counted listed ranBody =>
    obtain ⟨opening, nodes, rfl, ran⟩ := calls
    have passed : cutAmong? meaning .inner scope (premises (.tree .call (opening :: nodes))) store =
        none := by
      cases nodes with
      | nil => rfl
      | cons => exact cutAmong?_eq_none ran
    rw [cut?, passed]
    simp only [cutBehind?, ran, cutBody?, counted, if_true, listed]
    exact cutAmong?_of_breaks ranBody fails breaks

/-- The evaluation was entered from the node and has failed. -/
def Nested.Cuts (meaning called : Meaning) (scope : Nat) (node : Node) (store : Store)
    (nested : Nested) : Prop :=
  Enters meaning called scope node store nested.entry nested.scope nested.node nested.store ∧
    ∃ interrupt after, interrupt.Fails ∧
      (nested.entry.meaning meaning called nested.scope nested.node).Breaks interrupt nested.store
        after

theorem cuts_of_cutBehind? (found : cutBehind? meaning called scope node store = some nested) :
    nested.Cuts meaning called scope node store := by
  unfold cutBehind? at found
  split at found
  · split at found
    · next decided middle ran =>
      obtain ⟨inner, interrupt, after, chosen, fails, breaks, rfl⟩ :=
        exists_of_cutAmong?_toList found
      exact ⟨.branch rfl ran chosen, interrupt, after, fails, breaks⟩
    · cases found
  · split at found
    · next callee arguments middle ran =>
      unfold cutBody? at found
      split at found
      · split at found
        · next counted =>
          obtain ⟨front, inner, back, results, later, interrupt, after, listed, ranBody, fails,
            breaks, rfl⟩ := exists_of_cutAmong? found
          exact ⟨.statement ⟨_, _, rfl, ran⟩ counted listed ranBody, interrupt, after, fails,
            breaks⟩
        · cases found
      · cases found
    · cases found
  · obtain ⟨front, pair, back, key, value, taken, middle, listed, parts, ran, interrupt, after,
      fails, ended⟩ := @exists_of_cutPairs? _ _ _ _ _ [] found
    rcases ended with ⟨breaks, rfl⟩ | ⟨result, atom, later, ranKey, hashable, breaks, rfl⟩
    · exact ⟨.key rfl listed parts ran, interrupt, after, fails, breaks⟩
    · exact ⟨.value rfl listed parts ran ranKey hashable, interrupt, after, fails, breaks⟩
  · cases found

/-- What is found was entered and has failed. -/
theorem cuts_of_cut? (found : cut? meaning called scope node store = some nested) :
    nested.Cuts meaning called scope node store := by
  rw [cut?] at found
  split at found
  · next premise =>
    cases found
    obtain ⟨front, inner, back, results, middle, interrupt, after, listed, ran, fails, breaks,
      rfl⟩ := exists_of_cutAmong? premise
    exact ⟨.premise listed ran, interrupt, after, fails, breaks⟩
  · exact cuts_of_cutBehind? found

end Evaluator

end Scriptlet
