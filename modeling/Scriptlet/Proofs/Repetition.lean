/-
This file shows that an evaluation that binds nothing can be repeated. Between the first time and
the second any number of other evaluations that bind nothing may take place, and any number of
calls. They add scopes and hand out tags, and the functions that are called bind names in the
scopes of their calls, but no scope that was there before gives another value to any name. So the
second evaluation starts in a store that matches the first one's, and stays in step with it.

The two evaluations make arrays, hashes, functions and scopes of their own. That is the only
difference, and it does not show: equality compares identities, and a renaming that keeps
different ones different cannot be noticed by it.
-/

import Scriptlet.Proofs.Frame
import Scriptlet.Proofs.Renaming

namespace Scriptlet

open Correspondence (renamed)
open Renaming (beyond)

/-! ### What stays -/

/-- Every scope of the first store lies in the second one where it lay, and gives to every name
what it gave. -/
structure Store.Retains (store later : Store) : Prop where
  lone : later.lone = store.lone
  grows : store.Grows later
  scopes : ∀ (number : Nat) (frame : Scope), store.scopes[number]? = some frame →
    ∃ counterpart, later.scopes[number]? = some counterpart ∧
      counterpart.outer = frame.outer ∧ ∀ name, counterpart.get? name = frame.get? name

namespace Store

variable {store later : Store}

theorem Retains.refl (store : Store) : store.Retains store :=
  ⟨rfl, .refl store, fun _ frame held => ⟨frame, held, rfl, fun _ => rfl⟩⟩

theorem Retains.trans {first second third : Store} (before : first.Retains second)
    (behind : second.Retains third) : first.Retains third := by
  refine ⟨behind.lone.trans before.lone, before.grows.trans behind.grows,
    fun number frame held => ?_⟩
  obtain ⟨middle, middleHeld, middleOuter, middleBindings⟩ := before.scopes number frame held
  obtain ⟨last, lastHeld, lastOuter, lastBindings⟩ := behind.scopes number middle middleHeld
  exact ⟨last, lastHeld, lastOuter.trans middleOuter, fun name =>
    (lastBindings name).trans (middleBindings name)⟩

/-- Where no name is bound nothing changes. -/
theorem Framed.retains {scope : Nat} (framed : store.Framed scope [] later)
    (grown : store.Grows later) : store.Retains later := by
  refine ⟨framed.lone, grown, fun number frame held => ?_⟩
  obtain ⟨counterpart, there, outer, bindings⟩ := framed.exists_later held
  exact ⟨counterpart, there, outer, fun name => bindings name List.not_mem_nil⟩

/-- A closed store matches every store that retains its scopes. -/
theorem Closed.matches_of_retains (closed : store.Closed) (retains : store.Retains later) :
    store.Matches (renamed (fun _ => True) (beyond store later)) later := by
  refine ⟨retains.lone, tag_beyond_add retains.grows, scope_beyond_add retains.grows,
    fun number frame held => ?_, nofun⟩
  obtain ⟨present, -⟩ := Array.getElem?_eq_some_iff.mp held
  obtain ⟨counterpart, there, outer, bindings⟩ := retains.scopes number frame held
  refine ⟨counterpart, ?_, ?_⟩
  · show later.scopes[(beyond store later).scope number]? = some counterpart
    rw [scope_beyond present, there]
  · exact closed.scope_matches_beyond held outer (fun name _ => bindings name)
      fun _ _ _ _ _ _ _ _ _ => trivial

end Store

/-! ### Interludes -/

namespace Eval

/-- The store behind a computation on a closed store is closed and has grown. -/
theorem Makes.closed_after {α : Type} {action : Eval α} {post : Store → α → Prop} {store : Store}
    (makes : Makes store action post) (closed : store.Closed) :
    (action.after store).Closed ∧ store.Grows (action.after store) := by
  have made := makes store closed (.refl store)
  unfold after
  cases run : action store with
  | ok result later =>
    rw [run] at made
    exact ⟨made.1, made.2.1⟩
  | error interrupt later =>
    rw [run] at made
    exact ⟨made.1, made.2.1⟩

end Eval

namespace Evaluator

open Eval Store

/-- The second store comes from the first one by evaluations of nodes that bind nothing outside
functions, each in any scope that is there and with any frames left, and by calls of any values
that are there. They may end in any way. -/
inductive Interlude (store : Store) : Store → Prop where
  | nothing : Interlude store store
  | evaluation {later : Store} (before : Interlude store later) (frames scope : Nat) (node : Node)
      (present : scope < later.scopes.size) (binds : node.targets = []) :
      Interlude store ((eval frames scope node).after later)
  | call {later : Store} (before : Interlude store later) (frames : Nat) (callee : Value)
      (arguments : List Value) (belongs : callee.Belongs later)
      (belong : AllBelong later arguments) :
      Interlude store ((Evaluator.call (eval frames) callee arguments).after later)

variable {store later : Store}

/-- An evaluation that binds nothing leaves a closed store closed and retains its scopes. -/
theorem retains_eval (closed : store.Closed) {scope : Nat} (present : scope < store.scopes.size)
    (frames : Nat) {node : Node} (binds : node.targets = []) :
    ((eval frames scope node).after store).Closed ∧
      store.Retains ((eval frames scope node).after store) := by
  obtain ⟨after, grown⟩ := (makesMeaning_eval frames store scope node present).closed_after closed
  have framed := framedMeaning_eval frames scope node store
  rw [binds] at framed
  exact ⟨after, framed.retains grown⟩

theorem Interlude.retains (interlude : Interlude store later) (closed : store.Closed) :
    later.Closed ∧ store.Retains later := by
  induction interlude with
  | nothing => exact ⟨closed, .refl store⟩
  | evaluation _ frames scope node present binds inductionHypothesis =>
    obtain ⟨after, retains⟩ := retains_eval inductionHypothesis.1 present frames binds
    exact ⟨after, inductionHypothesis.2.trans retains⟩
  | @call between _ frames callee arguments belongs belong inductionHypothesis =>
    obtain ⟨after, grown⟩ :=
      (makes_call (makesMeaning_eval frames) belongs belong).closed_after inductionHypothesis.1
    have kept := keeps_call (framedMeaning_eval frames) callee arguments between
    have framed : between.Framed 0 [] _ := kept.framed
    exact ⟨after, inductionHypothesis.2.trans (framed.retains grown)⟩

end Evaluator

/-! ### Ends of evaluations -/

/-- What can be told of the end of an evaluation without regard to identities. -/
inductive Ending where
  | value (kind : Kind) (text : String)
  | returned (kind : Kind) (text : String)
  | fault (message : String) (category : Category) (place : Option Place)
  | depthExceeded
  deriving DecidableEq

/-- How an evaluation ended. -/
def Ending.of : EStateM.Result Interrupt Store Value → Ending
  | .ok result _ => value result.kind result.inspect
  | .error (.returned result) _ => returned result.kind result.inspect
  | .error (.fault cause place) _ => fault cause.message cause.category place
  | .error .depthExceeded _ => depthExceeded

theorem Eval.Agree.ending_eq {c : Correspondence} (placed : c.placed) (first : ¬ c.firstMayStop)
    (second : ¬ c.secondMayStop) {ended ended' : EStateM.Result Interrupt Store Value}
    (agree : Agree c (Value.Matches c) ended ended') : Ending.of ended = Ending.of ended' := by
  cases agree with
  | ok _ same => simp only [Ending.of, same.kind_eq, same.inspect_eq]
  | error _ related =>
    cases related with
    | returned same => simp only [Ending.of, same.kind_eq, same.inspect_eq]
    | fault cause places =>
      cases places placed
      rfl
    | depthExceeded => rfl
  | firstStops may => exact absurd may first
  | secondStops may => exact absurd may second

/-! ### Repeated evaluations -/

namespace Evaluator

open Eval

/-- Take any closed store, as every session reaches (`Session.Reached.closed`), any scope in it,
and any node that has no `let` outside functions; it may call anything and may contain a `return`.
Evaluate the node in the scope, then evaluate other such nodes and call values, as often as you
like, and then evaluate the node in the scope again with the same number of frames. The second
time ends like the first one, up to the identities that were created since: both give matching
values, or are cut short by the same thing, and leave matching stores, where everything that was
in the store at the start stands for itself. In particular both give values or returned values of
one kind that are shown by one text, or faults with the same message and category at the same
place, or both reach the depth limit. -/
theorem eval_repeated (store : Store) (closed : store.Closed) (scope : Nat)
    (present : scope < store.scopes.size) (node : Node) (binds : node.targets = [])
    (frames : Nat) (later : Store)
    (interlude : Interlude ((eval frames scope node).after store) later) :
    Agree (renamed (fun _ => True) (beyond store later))
      (Value.Matches (renamed (fun _ => True) (beyond store later)))
      (eval frames scope node store) (eval frames scope node later) ∧
    Ending.of (eval frames scope node store) = Ending.of (eval frames scope node later) := by
  obtain ⟨afterClosed, first⟩ := retains_eval closed present frames binds
  have retains := first.trans (interlude.retains afterClosed).2
  have steps := @lockstepMeaning_eval_self (renamed (fun _ => True) (beyond store later)) frames
  have agree := steps scope node node ⟨rfl, fun _ _ => trivial⟩ store later
    (closed.matches_of_retains retains)
  rw [Correspondence.scope_renamed, scope_beyond present] at agree
  exact ⟨agree, agree.ending_eq trivial id id⟩

theorem eval_repeated_of_call :
    ∃ store later outcome, Session.runText 100 Session.fresh.1
        "let a = [1]; let f = func(n) \x7b let m = [n]; [m, m == a] \x7d" Session.fresh.2 =
          .ok (outcome, store) ∧
      Interlude ((eval 60 0 (readSource "f(2)").program).after store) later ∧
      Ending.of (eval 60 0 (readSource "f(2)").program later) = .value .array "[[2], false]" := by
  obtain ⟨⟨outcome, store⟩, ran⟩ : ∃ ended, Session.runText 100 Session.fresh.1
      "let a = [1]; let f = func(n) \x7b let m = [n]; [m, m == a] \x7d" Session.fresh.2 =
        .ok ended := ⟨_, Session.runText_of_accepted (by decide +kernel) 100 _ _⟩
  have first : ((Session.runText 100 Session.fresh.1
      "let a = [1]; let f = func(n) \x7b let m = [n]; [m, m == a] \x7d"
      Session.fresh.2).toOption.map fun ended =>
        Ending.of (eval 60 0 (readSource "f(2)").program ended.2)) =
      some (.value .array "[[2], false]") := by
    decide +kernel
  rw [ran] at first
  obtain ⟨closed, present⟩ := (Session.Reached.run (.start _) ran).closed
  obtain ⟨-, retains⟩ := @retains_eval store closed 0 present 60 (readSource "f(2)").program
    (by decide +kernel)
  have interlude : Interlude ((eval 60 0 (readSource "f(2)").program).after store) _ :=
    (Interlude.nothing.evaluation 80 0 (readSource "f(a); [f(3), f]").program
      (Nat.lt_of_lt_of_le present retains.grows.scopes) (by decide +kernel)).call 80
      (.builtin .len) [.string "m"] (.builtin _) (List.forall_mem_singleton.mpr (.atom _))
  refine ⟨store, _, outcome, ran, interlude, ?_⟩
  rw [← (eval_repeated store closed 0 present _ (by decide +kernel) 60 _ interlude).2]
  exact Option.some.inj first

end Evaluator

end Scriptlet
