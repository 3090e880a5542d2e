/-
This file says what a look-up finds, in every store that can come about. A store comes about by
opening scopes, binding names and running programs in any order, and `Store.Chronicle` keeps the
list of all that was done to its scopes on the way, inside the runs as well.

The look-up is then told from that list alone. From a scope one walks along the outer links;
they form no cycle, whatever the closures in the scopes point to, so the walk comes to an end. What
is found is the value of the most recent binding of the name in the first scope of the walk that
ever had one. Both hold after each run and at every point inside of it.

The proof reads the bindings of each scope off the history (`Deed.Done.own?_eq`), and takes from
`Store.Closed` only that a scope lies inside an older one.
-/

import Mathlib.Logic.Relation
import Scriptlet.Proofs.Belonging
import Scriptlet.Proofs.Chronicle
import Scriptlet.Proofs.Correspondence

namespace Scriptlet

/-! ### Scopes by their numbers -/

namespace Scope

variable {scopes : Array Scope}

/-- What the scope of that number itself gives to a name. -/
def own? (scopes : Array Scope) (number : Nat) (name : String) : Option Value :=
  scopes[number]?.bind fun scope => scope.get? name

/-- The scope around the scope of that number. -/
def around? (scopes : Array Scope) (number : Nat) : Option Nat :=
  scopes[number]?.bind fun scope => scope.outer

/-- Every scope lies inside an older one. -/
def Older (scopes : Array Scope) : Prop :=
  ∀ inner outer : Nat, around? scopes inner = some outer → outer < inner

theorem lt_size_of_around? {inner outer : Nat} (inside : around? scopes inner = some outer) :
    inner < scopes.size := by
  obtain ⟨frame, held, -⟩ := Option.bind_eq_some_iff.mp inside
  exact (Array.getElem?_eq_some_iff.mp held).1

theorem own?_push (scopes : Array Scope) (outer : Option Nat) (number : Nat) (name : String) :
    own? (scopes.push ⟨outer, []⟩) number name = own? scopes number name := by
  rw [own?, own?, Array.getElem?_push]
  split
  · next last =>
    rw [last, Array.getElem?_eq_none (Nat.le_refl _)]
    rfl
  · rfl

theorem own?_modify {target : Nat} (present : target < scopes.size) (bound : String)
    (value : Value) (number : Nat) (name : String) :
    own? (scopes.modify target fun scope => scope.set bound value) number name =
      if target = number ∧ bound = name then some value else own? scopes number name := by
  rw [own?, own?, Array.getElem?_modify]
  by_cases here : target = number
  · subst here
    rw [if_pos rfl, Array.getElem?_eq_getElem present]
    simp only [Option.map_some, Option.bind_some, get?_set, true_and, eq_comm]
  · rw [if_neg here, if_neg fun both => here both.1]

theorem around?_push {number : Nat} (present : number < scopes.size) (opened : Scope) :
    around? (scopes.push opened) number = around? scopes number := by
  rw [around?, around?, Array.getElem?_push, if_neg (Nat.ne_of_lt present)]

theorem around?_modify (scopes : Array Scope) (target : Nat) (bound : String) (value : Value)
    (number : Nat) :
    around? (scopes.modify target fun scope => scope.set bound value) number =
      around? scopes number := by
  rw [around?, around?, Array.getElem?_modify]
  split
  · cases scopes[number]? <;> rfl
  · rfl

end Scope

/-! ### The bindings of a scope, from its history -/

namespace Deed

open Scope

/-- The value that a deed gives to a name in a scope. -/
def value? (scope : Nat) (name : String) : Deed → Option Value
  | opened _ => none
  | bound target wanted value => if target = scope ∧ wanted = name then some value else none

/-- The value of the most recent binding of a name in a scope, if it was ever bound there. -/
def latest (deeds : List Deed) (scope : Nat) (name : String) : Option Value :=
  deeds.reverse.findSome? (value? scope name)

variable {scopes middle after : Array Scope} {deeds : List Deed}

theorem latest_append (first second : List Deed) (scope : Nat) (name : String) :
    latest (first ++ second) scope name =
      (latest second scope name).or (latest first scope name) := by
  rw [latest, List.reverse_append, List.findSome?_append]
  rfl

theorem latest_singleton (deed : Deed) (scope : Nat) (name : String) :
    latest [deed] scope name = deed.value? scope name := by
  simp [latest]

/-- A scope gives to a name what the most recent deed says, and what it gave before when there
is none. -/
theorem Done.own?_eq (done : Done scopes deeds after) (scope : Nat) (name : String) :
    own? after scope name = (latest deeds scope name).or (own? scopes scope name) := by
  induction done with
  | nothing => rfl
  | @opened _ _ outer later _ inductionHypothesis =>
    rw [inductionHypothesis, own?_push, ← List.singleton_append, latest_append, latest_singleton,
      value?, Option.or_none]
  | @bound _ _ target wanted value later present _ inductionHypothesis =>
    rw [inductionHypothesis, own?_modify present, ← List.singleton_append, latest_append,
      latest_singleton, Option.or_assoc, value?]
    split <;> rfl

/-- A scope stays where it was opened. -/
theorem Done.around?_eq (done : Done scopes deeds after) {number : Nat}
    (present : number < scopes.size) : around? after number = around? scopes number := by
  induction done with
  | nothing => rfl
  | opened _ inductionHypothesis =>
    rw [inductionHypothesis (by rw [Array.size_push]; exact Nat.lt_succ_of_lt present),
      around?_push present]
  | bound _ _ inductionHypothesis =>
    rw [inductionHypothesis (by rwa [Array.size_modify]), around?_modify]

theorem Done.older (done : Done scopes deeds after) (older : Older after) : Older scopes := by
  intro inner outer inside
  exact older inner outer (by rw [done.around?_eq (lt_size_of_around? inside), inside])

theorem Done.unique (done : Done scopes deeds middle) (again : Done scopes deeds after) :
    middle = after := by
  induction done with
  | nothing =>
    cases again
    rfl
  | opened _ inductionHypothesis =>
    cases again with
    | opened rest => exact inductionHypothesis rest
  | bound _ _ inductionHypothesis =>
    cases again with
    | bound _ rest => exact inductionHypothesis rest

end Deed

open Deed (Done latest)

/-! ### Look-ups -/

namespace Store

open Scope (own? around? Older lt_size_of_around?)

/-- The first scope lies directly inside the second. -/
def Inside (store : Store) (inner outer : Nat) : Prop :=
  around? store.scopes inner = some outer

/-- The scopes that one comes through from a scope along the outer links, itself first and the
last one inside no other. -/
inductive Chain (store : Store) : Nat → List Nat → Prop where
  | last {scope : Nat} (present : scope < store.scopes.size)
      (free : around? store.scopes scope = none) : Chain store scope [scope]
  | next {scope outer : Nat} {chain : List Nat} (inside : store.Inside scope outer)
      (rest : Chain store outer chain) : Chain store scope (scope :: chain)

/-- The scopes of the store have this history, and a look-up finds the nearest, latest binding
of it. -/
structure FindsNearest (deeds : List Deed) (store : Store) : Prop where
  history : Done #[] deeds store.scopes
  acyclic : ∀ scope, ¬ Relation.TransGen store.Inside scope scope
  ends : ∀ scope < store.scopes.size, ∃ chain, store.Chain scope chain
  nearest : ∀ {scope : Nat} {chain : List Nat}, store.Chain scope chain → ∀ name,
    store.get? scope name = chain.findSome? fun number => latest deeds number name
  sheltered : ∀ {inner outer : Nat}, Relation.TransGen store.Inside inner outer →
    ∀ name value wanted, (store.set inner name value).get? outer wanted = store.get? outer wanted
  seen : ∀ {inner outer : Nat} {front back : List Nat},
    store.Chain inner (front ++ outer :: back) → ∀ name value,
    (∀ number ∈ front, latest deeds number name = none) →
    (store.set outer name value).get? inner name = some value

variable {store : Store} {deeds : List Deed}

theorem Closed.olderScopes (closed : store.Closed) : Older store.scopes := by
  intro inner outer inside
  obtain ⟨frame, held, around⟩ := Option.bind_eq_some_iff.mp inside
  exact closed.older inner frame held outer around

/-- A look-up takes the scope's own binding, or goes on in the scope around it. -/
theorem get?_eq_or (older : Older store.scopes) (scope : Nat) (name : String) :
    store.get? scope name = (own? store.scopes scope name).or
      ((around? store.scopes scope).bind fun outer => store.get? outer name) := by
  rw [own?, around?]
  cases held : store.scopes[scope]? with
  | none =>
    rw [get?, held]
    rfl
  | some frame =>
    rw [get?_of_held held]
    simp only [Option.bind_some]
    cases frame.get? name with
    | some value => rfl
    | none =>
      cases around : frame.outer with
      | none => rfl
      | some outer =>
        have lower : outer < scope := older scope outer (by rw [around?, held]; exact around)
        simp only [if_pos lower, Option.none_or, Option.bind_some]

theorem exists_chain (older : Older store.scopes) {scope : Nat}
    (present : scope < store.scopes.size) : ∃ chain, store.Chain scope chain := by
  induction scope using Nat.strongRecOn with
  | ind scope inductionHypothesis =>
    cases around : around? store.scopes scope with
    | none => exact ⟨[scope], .last present around⟩
    | some outer =>
      have lower := older scope outer around
      obtain ⟨chain, rest⟩ := inductionHypothesis outer lower (Nat.lt_trans lower present)
      exact ⟨scope :: chain, .next around rest⟩

theorem lt_of_transGen_inside (older : Older store.scopes) {inner outer : Nat}
    (within : Relation.TransGen store.Inside inner outer) : outer < inner := by
  induction within with
  | single inside => exact older _ _ inside
  | tail _ inside inductionHypothesis => exact Nat.lt_trans (older _ _ inside) inductionHypothesis

theorem get?_eq_findSome? (older : Older store.scopes) (done : Done #[] deeds store.scopes)
    {scope : Nat} {chain : List Nat} (walk : store.Chain scope chain) (name : String) :
    store.get? scope name = chain.findSome? fun number => latest deeds number name := by
  have own (number : Nat) : own? store.scopes number name = latest deeds number name := by
    rw [done.own?_eq]
    exact Option.or_none
  induction walk with
  | last _ free =>
    rw [get?_eq_or older, own, free, List.findSome?_singleton]
    exact Option.or_none
  | next inside _ inductionHypothesis =>
    rw [get?_eq_or older, own, show around? store.scopes _ = _ from inside, Option.bind_some,
      inductionHypothesis, List.findSome?_cons]
    cases latest deeds _ name <;> rfl

theorem Chain.present {scope : Nat} {chain : List Nat} (walk : store.Chain scope chain) :
    ∀ number ∈ chain, number < store.scopes.size := by
  induction walk with
  | last present _ => exact List.forall_mem_singleton.mpr present
  | next inside _ inductionHypothesis =>
    exact List.forall_mem_cons.mpr ⟨lt_size_of_around? inside, inductionHypothesis⟩

section

variable (target : Nat) (name : String) (value : Value)

theorem around?_set (number : Nat) :
    around? (store.set target name value).scopes number = around? store.scopes number :=
  Scope.around?_modify store.scopes target name value number

theorem older_set (older : Older store.scopes) : Older (store.set target name value).scopes := by
  intro inner outer inside
  rw [around?_set] at inside
  exact older inner outer inside

theorem Chain.set {scope : Nat} {chain : List Nat} (walk : store.Chain scope chain) :
    (store.set target name value).Chain scope chain := by
  induction walk with
  | last present free =>
    exact .last (by rwa [size_scopes_set]) (by rwa [around?_set])
  | next inside _ inductionHypothesis =>
    exact .next ((around?_set ..).trans inside) inductionHypothesis

/-- A binding in a scope is out of the way of look-ups from older ones. -/
theorem get?_set_of_lt (older : Older store.scopes) (present : target < store.scopes.size)
    {scope : Nat} (lower : scope < target) (wanted : String) :
    (store.set target name value).get? scope wanted = store.get? scope wanted := by
  induction scope using Nat.strongRecOn with
  | ind scope inductionHypothesis =>
    rw [get?_eq_or (older_set target name value older), get?_eq_or older, around?_set]
    have same : own? (store.set target name value).scopes scope wanted =
        own? store.scopes scope wanted := by
      rw [Store.set, Scope.own?_modify present, if_neg fun both => Nat.ne_of_gt lower both.1]
    rw [same]
    cases around : around? store.scopes scope with
    | none => rfl
    | some outer =>
      have outerLower := older scope outer around
      rw [Option.bind_some, Option.bind_some,
        inductionHypothesis outer outerLower (Nat.lt_trans outerLower lower)]

end

/-- A binding is found from every scope that comes to it through scopes without one. -/
theorem get?_set_of_chain (older : Older store.scopes) (done : Done #[] deeds store.scopes)
    {inner outer : Nat} {front back : List Nat} (walk : store.Chain inner (front ++ outer :: back))
    (name : String) (value : Value) (unbound : ∀ number ∈ front, latest deeds number name = none) :
    (store.set outer name value).get? inner name = some value := by
  have present : outer < store.scopes.size :=
    walk.present outer (List.mem_append_right _ List.mem_cons_self)
  have both := done.append (Deed.done_set store present name value)
  rw [get?_eq_findSome? (older_set outer name value older) both (walk.set outer name value)]
  simp only [Deed.latest_append, Deed.latest_singleton, Deed.value?, and_true]
  clear walk
  induction front with
  | nil => simp
  | cons first rest inductionHypothesis =>
    rw [List.forall_mem_cons] at unbound
    rw [List.cons_append, List.findSome?_cons, unbound.1, Option.or_none]
    -- Only the scope itself could stop the walk here, and it would give the same value.
    split
    · next found given =>
      split at given <;> cases given
      rfl
    · exact inductionHypothesis unbound.2

theorem findsNearest_of_done (older : Older store.scopes) (done : Done #[] deeds store.scopes) :
    store.FindsNearest deeds where
  history := done
  acyclic _ cycle := Nat.lt_irrefl _ (lt_of_transGen_inside older cycle)
  ends _ present := exists_chain older present
  nearest walk name := get?_eq_findSome? older done walk name
  sheltered within name value wanted := by
    obtain ⟨_, inside, _⟩ := Relation.TransGen.head'_iff.mp within
    exact get?_set_of_lt _ name value older (lt_size_of_around? inside)
      (lt_of_transGen_inside older within) wanted
  seen walk name value unbound := get?_set_of_chain older done walk name value unbound

/-! ### Every store that can come about -/

/-- The stores that come about in any order of the things that can be done, each with the history
of its scopes: a scope is opened, on its own or inside another, a name is bound to a value of the
store, a tag is handed out, or a program is run with any depth limit. -/
inductive Chronicle : List Deed → Store → Prop where
  | empty : Chronicle [] empty
  | opened {deeds : List Deed} {store : Store} (before : Chronicle deeds store)
      (outer : Option Nat) (present : ∀ scope ∈ outer, scope < store.scopes.size) :
      Chronicle (deeds ++ [.opened outer]) (store.openScope outer).2
  | bound {deeds : List Deed} {store : Store} (before : Chronicle deeds store) (scope : Nat)
      (name : String) (value : Value) (present : scope < store.scopes.size)
      (belongs : value.Belongs store) :
      Chronicle (deeds ++ [.bound scope name value]) (store.set scope name value)
  | tagged {deeds : List Deed} {store : Store} (before : Chronicle deeds store) :
      Chronicle deeds store.freshTag.2
  | ran {deeds : List Deed} {store : Store} (before : Chronicle deeds store) (limit scope : Nat)
      (program : Node) (present : scope < store.scopes.size) :
      Chronicle (deeds ++ Session.deeds limit scope program store)
        (Session.runProgram limit scope program store).2

theorem Chronicle.closed (chronicle : Chronicle deeds store) : store.Closed := by
  induction chronicle with
  | empty => exact closed_of_no_scopes rfl
  | opened _ outer present closed => exact closed.openScope present
  | bound _ scope name value _ belongs closed => exact closed.set belongs
  | tagged _ closed => exact closed.freshTag
  | ran _ limit scope program present closed =>
    exact (Session.runProgram_closed closed present limit program).1

theorem Chronicle.done (chronicle : Chronicle deeds store) : Done #[] deeds store.scopes := by
  induction chronicle with
  | empty => exact .nothing _
  | opened _ outer _ inductionHypothesis =>
    exact inductionHypothesis.append (.opened (.nothing _))
  | @bound _ store _ scope name value present _ inductionHypothesis =>
    exact inductionHypothesis.append (Deed.done_set store present name value)
  | tagged _ inductionHypothesis => exact inductionHypothesis
  | ran _ limit scope program present inductionHypothesis =>
    exact inductionHypothesis.append (Session.done_deeds present limit program)

/-- Take any store that comes about by opening scopes, binding names and running programs, in any
order. Its outer links form no cycle and every walk along them ends; a look-up finds the most
recent binding of the name in the first scope of the walk that ever had one, and nothing when
none had; a binding changes nothing for the scopes around its own, and is seen from every scope
inside with no binding of the name on the way. The same holds at every point of every run that
starts from there, by what was done up to that point. -/
theorem Chronicle.lookup_nearest (chronicle : Chronicle deeds store) :
    store.FindsNearest deeds ∧
      ∀ (limit scope : Nat) (program : Node) (point : Evaluator.Point),
        scope < store.scopes.size → Session.Visits limit scope program store point →
        ∃ front, front <+: Session.deeds limit scope program store ∧
          point.store.FindsNearest (deeds ++ front) := by
  refine ⟨findsNearest_of_done chronicle.closed.olderScopes chronicle.done, ?_⟩
  intro limit scope program point present visits
  obtain ⟨front, ⟨back, listed⟩, done⟩ := visits.done present
  -- What the run does behind the point leads to its last store, where every scope is older.
  have whole := Session.done_deeds present limit program
  rw [← listed] at whole
  obtain ⟨middle, before, behind⟩ := whole.split
  rw [before.unique done] at behind
  have closed := (Session.runProgram_closed chronicle.closed present limit program).1
  exact ⟨front, ⟨back, listed⟩,
    findsNearest_of_done (behind.older closed.olderScopes) (chronicle.done.append done)⟩

theorem Chronicle.lookup_nearest_of_closures :
    ∃ (program : Node) (deeds : List Deed) (store : Store),
      program = (readSource
        "let f = func(n) \x7b let x = n; func() \x7b x \x7d \x7d; f(2)();").program ∧
      store = (Session.runProgram 60 0 program
        ((Store.empty.openScope none).2.set 0 "x" (.atom (.integer 1)))).2 ∧
      Chronicle deeds store ∧ store.Chain 2 [2, 1, 0] ∧
      ((store.get? 2 "x").map Value.inspect = some "2" ∧
        (store.get? 2 "y").map Value.inspect = none ∧
        (store.get? 0 "x").map Value.inspect = some "1") ∧
      (store.set 1 "x" .null).get? 2 "x" = some .null ∧
      (store.set 1 "x" .null).get? 0 "x" = store.get? 0 "x" := by
  obtain ⟨program, text⟩ : ∃ program, program = (readSource
      "let f = func(n) \x7b let x = n; func() \x7b x \x7d \x7d; f(2)();").program :=
    ⟨_, rfl⟩
  have chronicle := ((Chronicle.empty.opened none nofun).bound 0 "x" (.atom (.integer 1))
    (by decide) (.atom _)).ran 60 0 program (by decide)
  obtain ⟨store, ran⟩ : ∃ store, store = (Session.runProgram 60 0 program
      ((Store.empty.openScope none).2.set 0 "x" (.atom (.integer 1)))).2 := ⟨_, rfl⟩
  rw [← ran] at chronicle
  have found := chronicle.lookup_nearest.1
  have links : (0 < store.scopes.size ∧ around? store.scopes 0 = none) ∧
      around? store.scopes 1 = some 0 ∧ around? store.scopes 2 = some 1 := by
    rw [ran, text]
    decide +kernel
  have outermost : store.Chain 0 [0] := .last links.1.1 links.1.2
  have walk : store.Chain 2 [2, 1, 0] := .next links.2.2 (.next links.2.1 outermost)
  refine ⟨program, _, store, text, ran, chronicle, walk, ?_, ?_, ?_⟩
  · rw [found.nearest walk "x", found.nearest walk "y", found.nearest outermost, text]
    decide +kernel
  · refine found.seen (show store.Chain 2 ([2] ++ 1 :: [0]) from walk) "x" .null ?_
    rw [List.forall_mem_singleton, ← Option.isNone_iff_eq_none, text]
    decide +kernel
  · exact found.sheltered (.single links.2.1) "x" .null "x"

end Store

end Scriptlet
