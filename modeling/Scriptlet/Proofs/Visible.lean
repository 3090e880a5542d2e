/-
This file shows that a binding which nothing refers to cannot be noticed. A run that starts in a
scope can get hold of the scopes around it, of the functions that these bind, alone or inside
arrays and hashes, of the scopes of these functions, and so on. When neither the program nor any
of these functions has the name in it, the name may be bound to anything anywhere, and the run
ends as it would have ended.

Two stores that match as far as such scopes go may differ in all others, and there the
correspondence says nothing; what is bound there may well have the name in it. So the two runs
are not compared with each other but with a third one, which starts from the part of the first
store that can be seen (`Store.core`). Its scopes have new numbers, and under a renaming this
part matches both stores as a whole.
-/

import Mathlib.Data.Nat.Nth
import Scriptlet.Proofs.Renaming
import Scriptlet.Proofs.Wrapping

namespace Scriptlet

open Correspondence (renamed)
open Renaming (beyond)

variable {counts : String → Prop}

/-! ### One renaming after the other -/

/-- The second renaming applied to what the first one gives. -/
def Renaming.then (first second : Renaming) : Renaming where
  tag := second.tag ∘ first.tag
  scope := second.scope ∘ first.scope
  tag_injective := second.tag_injective.comp first.tag_injective
  scope_strictMono := second.scope_strictMono.comp first.scope_strictMono

theorem Renaming.scope_then (first second : Renaming) (number : Nat) :
    (first.then second).scope number = second.scope (first.scope number) :=
  rfl

section

variable {α β γ : Type} {related : α → β → Prop} {first : α → γ → Prop} {second : β → γ → Prop}

theorem forall₂_iff_of_forall₂ {list : List α} {images : List β}
    (same : List.Forall₂ (fun item image => ∀ other, first item other ↔ second image other) list
      images) (others : List γ) :
    List.Forall₂ first list others ↔ List.Forall₂ second images others := by
  induction same generalizing others with
  | nil => cases others <;> simp
  | cons head _ inductionHypothesis =>
    cases others with
    | nil => simp
    | cons => simp only [List.forall₂_cons, head, inductionHypothesis]

theorem rel_iff_of_rel
    (same : ∀ item image, related item image → ∀ other, first item other ↔ second image other)
    {found : Option α} {image : Option β} (held : Option.Rel related found image)
    (other : Option γ) : Option.Rel first found other ↔ Option.Rel second image other := by
  cases held with
  | none => cases other <;> simp
  | some held => cases other <;> simp [same _ _ held]

end

/-- Reports that agree in their positions are the same. -/
theorem ErrorReport.Matches.eq {placed : Prop} {report other : ErrorReport}
    (same : report.Matches placed other) (agree : placed) : report = other := by
  cases same with
  | plain message => rfl
  | fault cause places => rw [places agree]
  | depthExceeded => rfl

section

variable {first second : Renaming}

/-- What stands for a value under both renamings together stands, under the second one, for what
stands for the value under the first. -/
theorem Value.Matches.then_iff {origin value : Value}
    (same : origin.Matches (renamed counts first) value) (other : Value) :
    origin.Matches (renamed counts (first.then second)) other ↔
      value.Matches (renamed counts second) other := by
  induction same generalizing other with
  | atom | null | builtin =>
    constructor
    all_goals
      rintro ⟨⟩
      constructor
  | array length inner inductionHypothesis =>
    have pairs := forall₂_iff_of_forall₂ (List.forall₂_iff_zip.mpr
      ⟨length, fun member other => inductionHypothesis _ member other⟩)
    constructor
    · intro matched
      have elements := matched
      cases matched
      exact .ofElements ((pairs _).mp elements.elements)
    · intro matched
      have elements := matched
      cases matched
      exact .ofElements ((pairs _).mpr elements.elements)
  | @hash tag entries images length headings inner inductionHypothesis =>
    have headed : ∀ {entry image : HashEntry Value}, (entry, image) ∈ entries.zip images →
        ∀ other, entry.Matches (renamed counts (first.then second)) other ↔
          image.Matches (renamed counts second) other := by
      intro entry image member other
      obtain ⟨filed, key⟩ := headings _ member
      have value := inductionHypothesis _ member other.value
      exact ⟨fun matched => ⟨filed.symm.trans matched.filed, key.symm.trans matched.key,
          value.mp matched.value⟩,
        fun matched => ⟨filed.trans matched.filed, key.trans matched.key,
          value.mpr matched.value⟩⟩
    have pairs := forall₂_iff_of_forall₂ (List.forall₂_iff_zip.mpr ⟨length, headed⟩)
    constructor
    · intro matched
      have parts := matched
      cases matched
      exact .ofEntries ((pairs _).mp parts.entries)
    · intro matched
      have parts := matched
      cases matched
      exact .ofEntries ((pairs _).mpr parts.entries)
  | function bodies =>
    obtain ⟨rfl, keeps⟩ := bodies
    constructor
    all_goals
      rintro ⟨⟩
      next same =>
        obtain ⟨rfl, -⟩ := same
        exact .function ⟨rfl, keeps⟩
  | error reports =>
    cases reports.eq trivial
    constructor
    all_goals
      rintro ⟨⟩
      next same => exact .error same

theorem Scope.Matches.then_iff {origin scope : Scope}
    (same : origin.Matches (renamed counts first) scope) (other : Scope) :
    origin.Matches (renamed counts (first.then second)) other ↔
      scope.Matches (renamed counts second) other := by
  have outer : (origin.outer.map (renamed counts (first.then second)).scope).or none =
      (scope.outer.map (renamed counts second).scope).or none := by
    rw [same.outer]
    cases origin.outer <;> rfl
  have bindings : ∀ name, counts name → (Option.Rel
      (Value.Matches (renamed counts (first.then second))) (origin.get? name) (other.get? name) ↔
        Option.Rel (Value.Matches (renamed counts second)) (scope.get? name) (other.get? name)) :=
    fun name counted => rel_iff_of_rel (fun _ _ matched => matched.then_iff)
      (same.bindings name counted) _
  exact ⟨fun matched => ⟨matched.outer.trans outer, fun name counted =>
      (bindings name counted).mp (matched.bindings name counted)⟩,
    fun matched => ⟨matched.outer.trans outer.symm, fun name counted =>
      (bindings name counted).mpr (matched.bindings name counted)⟩⟩

/-! ### Stores that match in part -/

namespace Store

/-- The two stores match as far as some scopes of the first one go. -/
structure MatchesOn (seen : Nat → Prop) (c : Correspondence) (store other : Store) : Prop where
  lone : other.lone = store.lone
  tags : ∀ count, c.tag (store.nextTag + count) = other.nextTag + count
  numbers : ∀ count, c.scope (store.scopes.size + count) = other.scopes.size + count
  scopes : ∀ (number : Nat) (frame : Scope), seen number → store.scopes[number]? = some frame →
    ∃ counterpart, other.scopes[c.scope number]? = some counterpart ∧ frame.Matches c counterpart

variable {origin store other : Store}

/-- A store that stands for a part of a second one stands for a part of whatever that part
stands for. -/
theorem Matches.then (same : origin.Matches (renamed counts first) store) {seen : Nat → Prop}
    (part : store.MatchesOn seen (renamed counts second) other)
    (covered : ∀ number < origin.scopes.size, seen (first.scope number)) :
    origin.Matches (renamed counts (first.then second)) other := by
  refine ⟨part.lone.trans same.lone, fun count => ?_, fun count => ?_, fun number frame held => ?_,
    nofun⟩
  · exact (congrArg second.tag (same.tags count)).trans (part.tags count)
  · exact (congrArg second.scope (same.numbers count)).trans (part.numbers count)
  · obtain ⟨present, -⟩ := Array.getElem?_eq_some_iff.mp held
    obtain ⟨image, there, matched⟩ := same.scopes number frame held
    obtain ⟨counterpart, found, further⟩ := part.scopes _ image (covered number present) there
    exact ⟨counterpart, found, (matched.then_iff counterpart).mpr further⟩

/-- Two stores that one and the same store stands for match on the scopes that it has
counterparts of. -/
theorem Matches.matchesOn (same : origin.Matches (renamed counts first) store)
    (further : origin.Matches (renamed counts (first.then second)) other) :
    store.MatchesOn (fun number => ∃ place, first.scope place = number) (renamed counts second)
      other := by
  refine ⟨further.lone.trans same.lone.symm, fun count => ?_, fun count => ?_, ?_⟩
  · exact (congrArg second.tag (same.tags count)).symm.trans (further.tags count)
  · exact (congrArg second.scope (same.numbers count)).symm.trans (further.numbers count)
  · rintro _ image ⟨place, rfl⟩ there
    cases held : origin.scopes[place]? with
    | none =>
      have absent := same.getElem?_eq_none held
      exact absurd (there.symm.trans absent) nofun
    | some frame =>
      obtain ⟨_, found, matched⟩ := same.scopes place frame held
      cases there.symm.trans found
      obtain ⟨counterpart, last, composed⟩ := further.scopes place frame held
      exact ⟨counterpart, last, (matched.then_iff counterpart).mp composed⟩

end Store

end

/-! ### Values with other scopes -/

namespace Value

mutual

/-- The value with other scopes for its functions. -/
def moved (place : Nat → Nat) : Value → Value
  | array tag elements => array tag (movedAll place elements)
  | hash tag entries => hash tag (movedEntries place entries)
  | function tag parameters body scope => function tag parameters body (place scope)
  | value => value

/-- The values with other scopes. -/
def movedAll (place : Nat → Nat) : List Value → List Value
  | [] => []
  | value :: rest => moved place value :: movedAll place rest

/-- The entries with other scopes. -/
def movedEntries (place : Nat → Nat) : List (HashEntry Value) → List (HashEntry Value)
  | [] => []
  | ⟨filed, key, value⟩ :: rest => ⟨filed, key, moved place value⟩ :: movedEntries place rest

end

theorem forall₂_movedAll {place : Nat → Nat} {c : Correspondence} {elements : List Value}
    (inner : ∀ element ∈ elements, (element.moved place).Matches c element) :
    List.Forall₂ (Matches c) (movedAll place elements) elements := by
  induction elements with
  | nil => exact .nil
  | cons first rest inductionHypothesis =>
    rw [List.forall_mem_cons] at inner
    exact .cons inner.1 (inductionHypothesis inner.2)

theorem forall₂_movedEntries {place : Nat → Nat} {c : Correspondence}
    {entries : List (HashEntry Value)}
    (inner : ∀ entry ∈ entries, (entry.value.moved place).Matches c entry.value) :
    List.Forall₂ (HashEntry.Matches c) (movedEntries place entries) entries := by
  induction entries with
  | nil => exact .nil
  | cons first rest inductionHypothesis =>
    rw [List.forall_mem_cons] at inner
    exact .cons ⟨rfl, rfl, inner.1⟩ (inductionHypothesis inner.2)

/-- A value moved to other scopes stands for the value when the renaming undoes the move. -/
theorem moved_matches {place : Nat → Nat} {identities : Renaming}
    (tags : ∀ tag, identities.tag tag = tag) {value : Value}
    (undone : ∀ body scope, value.Holds body scope →
      identities.scope (place scope) = scope ∧ body.KeepsTo counts) :
    (value.moved place).Matches (renamed counts identities) value := by
  induction value using Value.induction with
  | atom content => exact .atom content
  | null => exact .null
  | array tag elements inductionHypothesis =>
    have same : (array tag (movedAll place elements)).Matches (renamed counts identities)
        (.array (identities.tag tag) elements) :=
      .ofElements (forall₂_movedAll fun element member =>
        inductionHypothesis element member fun body scope held =>
          undone body scope (.element member held))
    rwa [tags] at same
  | hash tag entries inductionHypothesis =>
    have same : (hash tag (movedEntries place entries)).Matches (renamed counts identities)
        (.hash (identities.tag tag) entries) :=
      .ofEntries (forall₂_movedEntries fun entry member =>
        inductionHypothesis entry member fun body scope held =>
          undone body scope (.entry member held))
    rwa [tags] at same
  | function tag parameters body scope =>
    obtain ⟨back, keeps⟩ := undone body scope (.function tag parameters)
    have same : (function tag parameters body (place scope)).Matches (renamed counts identities)
        (.function (identities.tag tag) parameters body (identities.scope (place scope))) :=
      .function ⟨rfl, keeps⟩
    rwa [tags, back] at same
  | builtin which => exact .builtin which
  | error tag report =>
    have same : (error tag report).Matches (renamed counts identities)
        (.error (identities.tag tag) report) := .error report.matches_self
    rwa [tags] at same

end Value

/-- The scope with another scope around it and other scopes for the functions that it binds. -/
def Scope.moved (place : Nat → Nat) (scope : Scope) : Scope where
  outer := scope.outer.map place
  bindings := scope.bindings.map fun binding => (binding.1, binding.2.moved place)

theorem Scope.get?_moved (place : Nat → Nat) (scope : Scope) (name : String) :
    (scope.moved place).get? name = (scope.get? name).map (Value.moved place) := by
  obtain ⟨outer, bindings⟩ := scope
  show (bindings.map fun binding => (binding.1, binding.2.moved place)).lookup name =
    (bindings.lookup name).map (Value.moved place)
  induction bindings with
  | nil => rfl
  | cons binding rest inductionHypothesis =>
    rw [List.map_cons, List.lookup_cons, List.lookup_cons]
    split
    · rfl
    · exact inductionHypothesis

/-! ### The part of a store that can be seen -/

namespace Store

open scoped Classical

variable (store : Store) (seen : Nat → Prop)

/-- From these scopes nothing else can be seen by the names that count: the scopes around them
and the scopes of the functions that they bind are among them, and the functions keep to the
names that count. -/
structure Enclosed (counts : String → Prop) : Prop where
  outer : ∀ (number : Nat) (frame : Scope), seen number → store.scopes[number]? = some frame →
    ∀ outer ∈ frame.outer, seen outer
  functions : ∀ (number : Nat) (frame : Scope), seen number →
    store.scopes[number]? = some frame → ∀ name value, frame.get? name = some value →
    counts name → ∀ body scope, value.Holds body scope → seen scope ∧ body.KeepsTo counts

/-- The scope is seen, or is still to be opened. -/
def Stays (number : Nat) : Prop :=
  seen number ∨ store.scopes.size ≤ number

theorem infinite_stays : (Set.ofPred (store.Stays seen)).Infinite :=
  Set.infinite_of_injective_forall_mem (add_right_injective store.scopes.size)
    fun count => .inr (Nat.le_add_right _ count)

/-- The scopes that stay, one after the other. -/
noncomputable def restoring : Renaming where
  tag := id
  scope := Nat.nth (store.Stays seen)
  tag_injective := Function.injective_id
  scope_strictMono := Nat.nth_strictMono (store.infinite_stays seen)

/-- How many scopes before a given one stay. -/
noncomputable def place (number : Nat) : Nat :=
  Nat.count (store.Stays seen) number

/-- The scopes that are seen and nothing else, without gaps. -/
noncomputable def core : Store where
  scopes := Array.ofFn fun number : Fin (store.place seen store.scopes.size) =>
    ((store.scopes[(store.restoring seen).scope number]?).getD ⟨none, []⟩).moved (store.place seen)
  nextTag := store.nextTag
  lone := store.lone

variable {store seen}

theorem size_core : (store.core seen).scopes.size = store.place seen store.scopes.size :=
  Array.size_ofFn

theorem restoring_place {number : Nat} (stays : store.Stays seen number) :
    (store.restoring seen).scope (store.place seen number) = number :=
  Nat.nth_count stays

theorem place_add (count : Nat) :
    store.place seen (store.scopes.size + count) =
      store.place seen store.scopes.size + count := by
  have later : Nat.count (fun number => store.Stays seen (store.scopes.size + number)) count =
      count := Nat.count_of_forall fun number _ => .inr (Nat.le_add_right _ number)
  unfold place
  rw [Nat.count_add, later]

/-- A scope of the core stands for a scope that is seen, and is that scope with other numbers. -/
theorem seen_of_core {number : Nat} {frame : Scope}
    (held : (store.core seen).scopes[number]? = some frame) :
    seen ((store.restoring seen).scope number) ∧ ∃ image,
      store.scopes[(store.restoring seen).scope number]? = some image ∧
        frame = image.moved (store.place seen) := by
  obtain ⟨present, rfl⟩ := Array.getElem?_eq_some_iff.mp held
  have less : (store.restoring seen).scope number < store.scopes.size :=
    Nat.nth_lt_of_lt_count (Nat.lt_of_lt_of_eq present size_core)
  have stays : store.Stays seen ((store.restoring seen).scope number) :=
    Nat.nth_mem_of_infinite (store.infinite_stays seen) number
  refine ⟨stays.resolve_right (Nat.not_le_of_lt less), _, Array.getElem?_eq_getElem less, ?_⟩
  simp only [core, Array.getElem_ofFn, Array.getElem?_eq_getElem less, Option.getD_some]

theorem Enclosed.core_matches (enclosed : store.Enclosed seen counts) :
    (store.core seen).Matches (renamed counts (store.restoring seen)) store := by
  refine ⟨rfl, fun _ => rfl, fun count => ?_, fun number frame held => ?_, nofun⟩
  · rw [size_core, ← place_add]
    exact restoring_place (.inr (Nat.le_add_right _ _))
  · obtain ⟨isSeen, image, there, rfl⟩ := seen_of_core held
    refine ⟨image, there, ?_, fun name counted => ?_⟩
    · show image.outer = ((image.outer.map _).map _).or none
      cases around : image.outer with
      | none => rfl
      | some outer =>
        have outerSeen := enclosed.outer _ image isSeen there outer around
        exact congrArg some (restoring_place (.inl outerSeen)).symm
    · rw [Scope.get?_moved]
      cases bound : image.get? name with
      | none => exact .none
      | some value =>
        -- The scopes of the functions are seen, and for those the move can be undone.
        refine .some (Value.moved_matches (fun _ => rfl) fun body scope holds => ?_)
        obtain ⟨scopeSeen, keeps⟩ :=
          enclosed.functions _ image isSeen there name value bound counted body scope holds
        exact ⟨restoring_place (.inl scopeSeen), keeps⟩

end Store

/-! ### Runs that see a part of a store -/

namespace Session

variable {store other : Store} {seen : Nat → Prop} {identities : Renaming}

/-- From stores that match as far as some scopes go, and in one of these scopes, a program runs
alike when nothing but these scopes can be seen from them and the program keeps to the names that
count. The stores that the runs leave match on these scopes again and on all that were opened
since, and look-ups from there find matching values. -/
theorem runProgram_matchesOn (enclosed : store.Enclosed seen counts)
    (same : store.MatchesOn seen (renamed counts identities) other) {scope : Nat}
    (scopeSeen : seen scope) {program : Node} (keeps : program.KeepsTo counts) (limit : Nat) :
    (runProgram limit scope program store).1.Matches (renamed counts identities)
      (runProgram limit (identities.scope scope) program other).1 ∧
    (runProgram limit scope program store).2.MatchesOn (store.Stays seen)
      (renamed counts identities) (runProgram limit (identities.scope scope) program other).2 ∧
    ∀ number, store.Stays seen number → ∀ name, counts name →
      Option.Rel (Value.Matches (renamed counts identities))
        ((runProgram limit scope program store).2.get? number name)
        ((runProgram limit (identities.scope scope) program other).2.get?
          (identities.scope number) name) := by
  have inner : List.Forall₂ (fun first second => first = second ∧ first.KeepsTo counts)
      program.children program.children :=
    List.forall₂_same.mpr fun child member => ⟨rfl, keeps.child member⟩
  -- The core stands for both stores as a whole, so each of the two runs is in step with its run.
  have whole := enclosed.core_matches
  have start := Store.restoring_place (.inl scopeSeen : store.Stays seen scope)
  obtain ⟨value, after⟩ := @matches_runProgram (renamed counts (store.restoring seen)) id id limit
    (store.place seen scope) program program inner _ _ whole
  obtain ⟨value', after'⟩ := @matches_runProgram
    (renamed counts ((store.restoring seen).then identities)) id id limit
    (store.place seen scope) program program inner _ _
    (whole.then same fun number present =>
      (Store.seen_of_core (Array.getElem?_eq_getElem present)).1)
  simp only [Correspondence.scope_renamed, Renaming.scope_then, start]
    at value after value' after'
  refine ⟨⟨(value.value.then_iff _).mp value'.value, value.label.symm.trans value'.label⟩, ?_, ?_⟩
  · have part := after.matchesOn after'
    exact ⟨part.lone, part.tags, part.numbers, fun number frame stays =>
      part.scopes number frame ⟨_, Store.restoring_place stays⟩⟩
  · intro number stays name counted
    have found := after.get? (store.place seen number) counted
    have found' := after'.get? (store.place seen number) counted
    simp only [Correspondence.scope_renamed, Renaming.scope_then, Store.restoring_place stays]
      at found found'
    exact (rel_iff_of_rel (fun _ _ matched => matched.then_iff) found _).mp found'

end Session

/-! ### What can be seen from a scope -/

namespace Store

/-- The scopes that can be seen from a scope by names that count: the scope itself, the scopes
around those that can be seen, and the scopes of the functions that are bound there. -/
inductive Sees (store : Store) (counts : String → Prop) (start : Nat) : Nat → Prop where
  | start : Sees store counts start start
  | outer {number outer : Nat} {frame : Scope} (seen : Sees store counts start number)
      (held : store.scopes[number]? = some frame) (around : frame.outer = some outer) :
      Sees store counts start outer
  | closure {number closure : Nat} {frame : Scope} {name : String} {value : Value} {body : Node}
      (seen : Sees store counts start number) (held : store.scopes[number]? = some frame)
      (bound : frame.get? name = some value) (counted : counts name)
      (holds : value.Holds body closure) : Sees store counts start closure

/-- A function with this body can be reached from a scope by names that count. -/
def Offers (store : Store) (counts : String → Prop) (start : Nat) (body : Node) : Prop :=
  ∃ (number closure : Nat) (frame : Scope) (name : String) (value : Value),
    store.Sees counts start number ∧ store.scopes[number]? = some frame ∧
      frame.get? name = some value ∧ counts name ∧ value.Holds body closure

theorem enclosed_sees {store : Store} {start : Nat}
    (keeps : ∀ body, store.Offers counts start body → body.KeepsTo counts) :
    store.Enclosed (store.Sees counts start) counts :=
  ⟨fun _ _ seen held _ around => .outer seen held around,
    fun number frame seen held name value bound counted body scope holds =>
      ⟨.closure seen held bound counted holds,
        keeps body ⟨number, scope, frame, name, value, seen, held, bound, counted, holds⟩⟩⟩

/-- The store with further scopes, and with further tags handed out. -/
def extended (store : Store) (scopes : Array Scope) (tags : Nat) : Store :=
  ⟨store.scopes ++ scopes, store.nextTag + tags, store.lone⟩

theorem grows_extended_set (store : Store) (scopes : Array Scope) (tags target : Nat)
    (name : String) (value : Value) :
    store.Grows ((store.extended scopes tags).set target name value) := by
  refine Grows.trans ⟨?_, ?_⟩ (grows_set _ target name value)
  · exact Nat.le_add_right _ _
  · simp [extended]

/-- A binding of a name that does not count leaves a closed store matched, wherever it is made. -/
theorem Closed.matchesOn_extended_set {store : Store} (closed : store.Closed) {seen : Nat → Prop}
    {name : String} (enclosed : store.Enclosed seen (· ≠ name)) (scopes : Array Scope)
    (tags target : Nat) (value : Value) :
    store.MatchesOn seen
      (renamed (· ≠ name) (beyond store ((store.extended scopes tags).set target name value)))
      ((store.extended scopes tags).set target name value) := by
  have grown := store.grows_extended_set scopes tags target name value
  refine ⟨rfl, tag_beyond_add grown, scope_beyond_add grown, fun number frame isSeen held => ?_⟩
  obtain ⟨present, -⟩ := Array.getElem?_eq_some_iff.mp held
  have there : (store.extended scopes tags).scopes[number]? = some frame := by
    rw [extended, Array.getElem?_append_left present, held]
  obtain ⟨counterpart, found, outer, bindings⟩ :=
    (framed_set (store.extended scopes tags) target name value).exists_later there
  refine ⟨counterpart, ?_, ?_⟩
  · rw [Correspondence.scope_renamed, scope_beyond present, found]
  · refine closed.scope_matches_beyond held outer (fun wanted other => bindings wanted ?_)
      fun wanted held' bound counted body scope holds => ?_
    · exact mt List.mem_singleton.mp other
    · exact (enclosed.functions number frame isSeen held wanted held' bound counted body scope
        holds).2

end Store

namespace Session

/-- Take any text without syntax errors, any closed store, as every session reaches
(`Reached.closed`), any scope in it, and any name that is no identifier of the program or of the
body of a function that can be reached from the scope by other names. Bind the name to any value
in any scope of the store, in place of what it was bound to or anew; it may be the name of a
built-in function, and the value may come with scopes and tags of its own. The run in the scope
ends with the new binding as it ends without it, up to identities: with matching values from the
same statement, which are of one kind and are shown by one text, or with reports of the same
failure at the same place. And afterwards every scope that could be seen or that was opened in the
run has matching values for every other name, and so have the look-ups from there. -/
theorem runText_of_unused (text : String) (accepted : (readSource text).errors = [])
    (store : Store) (closed : store.Closed) (scope : Nat) (present : scope < store.scopes.size)
    (name : String) (unused : name ∉ (readSource text).program.identifiers)
    (unusedInside : ∀ body, store.Offers (· ≠ name) scope body → name ∉ body.identifiers)
    (scopes : Array Scope) (tags target : Nat) (value : Value) (limit : Nat) (other : Store)
    (bound : other = (store.extended scopes tags).set target name value) :
    ∃ outcome after outcome' after',
      runText limit scope text store = .ok (outcome, after) ∧
      runText limit scope text other = .ok (outcome', after') ∧
      outcome.Matches (renamed (· ≠ name) (beyond store other)) outcome' ∧
      outcome.value.EndsLike outcome'.value ∧
      after.MatchesOn (store.Stays (store.Sees (· ≠ name) scope))
        (renamed (· ≠ name) (beyond store other)) after' ∧
      ∀ number, store.Stays (store.Sees (· ≠ name) scope) number → ∀ wanted, wanted ≠ name →
        Option.Rel (Value.Matches (renamed (· ≠ name) (beyond store other)))
          (after.get? number wanted)
          (after'.get? ((beyond store other).scope number) wanted) := by
  subst bound
  have enclosed : store.Enclosed (store.Sees (· ≠ name) scope) (· ≠ name) :=
    Store.enclosed_sees fun body offered wanted used same =>
      unusedInside body offered (same ▸ used)
  have keeps : (readSource text).program.KeepsTo (· ≠ name) :=
    fun wanted used same => unused (same ▸ used)
  have ended := runProgram_matchesOn enclosed
    (closed.matchesOn_extended_set enclosed scopes tags target value) .start keeps limit
  rw [scope_beyond present] at ended
  exact ⟨_, _, _, _, runText_of_accepted accepted limit scope store,
    runText_of_accepted accepted limit scope _, ended.1, ended.1.value.endsLike trivial, ended.2⟩

theorem runText_of_unused_of_builtin_name :
    ∃ store other outcome after outcome' after',
      store = fresh.2.freshTag.2.set 0 "f" (.function 0 ["n"] (.tree .block
        [.ofToken ⟨.leftBrace, "\x7b", .first⟩, .ofToken ⟨.ident, "n", .first⟩]) 0) ∧
      other = (store.extended #[⟨some 0, []⟩] 1).set 0 "len" (.function 1 [] (.tree .block
        [.ofToken ⟨.leftBrace, "\x7b", .first⟩, .ofToken ⟨.ident, "len", .first⟩]) 1) ∧
      runText 60 0 "f([f])" store = .ok (outcome, after) ∧
      runText 60 0 "f([f])" other = .ok (outcome', after') ∧
      outcome.value.EndsLike outcome'.value := by
  obtain ⟨store, is⟩ : ∃ store, store = fresh.2.freshTag.2.set 0 "f" (.function 0 ["n"] (.tree
      .block [.ofToken ⟨.leftBrace, "\x7b", .first⟩, .ofToken ⟨.ident, "n", .first⟩]) 0) :=
    ⟨_, rfl⟩
  have closed : store.Closed := by
    rw [is]
    exact (closed_fresh _).freshTag.set (.function (by decide) (by decide))
  have unusedInside : ∀ body, store.Offers (· ≠ "len") 0 body → "len" ∉ body.identifiers := by
    rintro body ⟨number, closure, frame, name, value, -, held, bound, -, holds⟩
    subst is
    cases number with
    | zero =>
      cases held
      change (Scope.set ⟨none, []⟩ "f" _).get? name = some value at bound
      rw [Scope.get?_set] at bound
      split at bound
      · cases bound
        cases holds
        decide
      · cases bound
    | succ number => simp [Store.set, fresh, Store.empty, Store.openScope, Store.freshTag] at held
  obtain ⟨outcome, after, outcome', after', ran, ran', -, alike, -⟩ := runText_of_unused "f([f])"
    (by decide +kernel) store closed 0 (by rw [is]; decide) "len" (by decide +kernel) unusedInside
    #[⟨some 0, []⟩] 1 0 (.function 1 [] (.tree .block [.ofToken ⟨.leftBrace, "\x7b", .first⟩,
      .ofToken ⟨.ident, "len", .first⟩]) 1) 60 _ rfl
  exact ⟨store, _, outcome, after, outcome', after', is, rfl, ran, ran', alike⟩

end Session

end Scriptlet
