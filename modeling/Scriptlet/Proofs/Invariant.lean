/-
This file states the invariant of evaluation and shows that the parts of the evaluator
which evaluate nothing themselves keep it. A value is sound when every function in it,
however deep, has the body of a well-shaped block and a scope that exists; a store is
sound when all its bindings are, and when every scope lies inside an older one. Scopes are
never given up, so the second half says of the past as well that no function was ever
called whose scope did not exist.

`Eval.Safe` is what a computation promises on sound stores. It speaks of a lower bound on
the number of scopes, because values stay sound while scopes are added.
-/

import Scriptlet.Evaluator
import Scriptlet.Proofs.Shape

namespace Scriptlet

/-- The faults that the language documents for its users. An operator in one of them is an
operator of the language, and a unary one is the sign, because negation of truth applies to
everything. -/
def Fault.UserLevel : Fault → Prop
  | unboundName _ | divisionByZero | notCallable _ | wrongArgumentCount _ _ | unhashable _
  | notIndexable _ | unsupportedArgument _ _ | arrayExpected _ _ | integerExpected _ _
  | emptyArray | outOfBounds _ => True
  | typeMismatch _ operator _ | unknownBinary _ operator _ =>
    operator ∈ BinaryOperator.all.map BinaryOperator.text
  | unknownUnary operator _ => operator = UnaryOperator.negate.text
  | unencodable _ | unknownNode _ | unhandledLeaf _ _ | notIdentifier _ | notInteger _
  | missingNode | malformedTree _ => False

/-- The fault of a text that holds a lone surrogate, when these characters stand for one. -/
def Fault.Unencodable (lone : Char → Bool) : Fault → Prop
  | unencodable text => text.toList.any lone = true
  | _ => False

/-! ### The invariant -/

/-- The values that a run can produce when so many scopes exist. No account of a failure is
among them. -/
inductive Value.Sound (scopes : Nat) : Value → Prop where
  | atom (content : Atom) : Sound scopes (.atom content)
  | null : Sound scopes .null
  | array {tag : Nat} {elements : List Value} (inner : ∀ element ∈ elements, Sound scopes element) :
      Sound scopes (.array tag elements)
  | hash {tag : Nat} {entries : List (HashEntry Value)}
      (inner : ∀ entry ∈ entries, Sound scopes entry.value) : Sound scopes (.hash tag entries)
  | function {tag : Nat} {parameters : List String} {body : Node} {scope : Nat}
      (shaped : body.Shaped .block) (present : scope < scopes) :
      Sound scopes (.function tag parameters body scope)
  | builtin (which : Builtin) : Sound scopes (.builtin which)

theorem Value.Sound.mono {fewer more : Nat} (grown : fewer ≤ more) {value : Value}
    (sound : value.Sound fewer) : value.Sound more := by
  induction sound with
  | atom content => exact .atom content
  | null => exact .null
  | array _ inner => exact .array inner
  | hash _ inner => exact .hash inner
  | function shaped present => exact .function shaped (Nat.lt_of_lt_of_le present grown)
  | builtin which => exact .builtin which

/-- The bindings of a scope are sound and the scope around it is older. -/
structure Scope.Sound (scopes number : Nat) (scope : Scope) : Prop where
  bindings : ∀ binding ∈ scope.bindings, binding.2.Sound scopes
  outer : ∀ outer ∈ scope.outer, outer < number

/-- Every scope of the store is sound. -/
def Store.Sound (store : Store) : Prop :=
  ∀ (number : Nat) (scope : Scope), store.scopes[number]? = some scope →
    scope.Sound store.scopes.size number

namespace Store

theorem sound_empty : empty.Sound := by
  intro number scope found
  simp [empty] at found

variable {store : Store}

theorem Sound.freshTag (sound : store.Sound) : store.freshTag.2.Sound :=
  sound

theorem Sound.openScope (sound : store.Sound) {outer : Option Nat}
    (present : ∀ scope ∈ outer, scope < store.scopes.size) : (store.openScope outer).2.Sound := by
  intro number scope found
  simp only [Store.openScope, Array.getElem?_push, Array.size_push] at found ⊢
  split at found
  · next new =>
    cases found
    rw [new]
    exact ⟨nofun, present⟩
  · obtain ⟨bindings, older⟩ := sound number scope found
    exact ⟨fun binding member => (bindings binding member).mono (Nat.le_succ _), older⟩

theorem Sound.set (sound : store.Sound) {scope : Nat} {name : String} {value : Value}
    (valueSound : value.Sound store.scopes.size) : (store.set scope name value).Sound := by
  intro number frame found
  simp only [Store.set, Array.getElem?_modify, Array.size_modify] at found ⊢
  split at found
  · obtain ⟨before, held, rfl⟩ := Option.map_eq_some_iff.mp found
    obtain ⟨bindings, older⟩ := sound number before held
    refine ⟨?_, older⟩
    intro binding member
    rcases List.mem_cons.mp member with rfl | kept
    · exact valueSound
    · exact bindings binding ((List.mem_filter.mp kept).1)
  · exact sound number frame found

@[simp] theorem size_scopes_set (store : Store) (scope : Nat) (name : String) (value : Value) :
    (store.set scope name value).scopes.size = store.scopes.size :=
  Array.size_modify

/-- Binding several names one after the other keeps the number of scopes. -/
theorem Sound.setAll (sound : store.Sound) {scope : Nat} {pairs : List (String × Value)}
    (pairsSound : ∀ binding ∈ pairs, binding.2.Sound store.scopes.size) :
    (pairs.foldl (fun store (name, value) => store.set scope name value) store).Sound ∧
      (pairs.foldl (fun store (name, value) => store.set scope name value) store).scopes.size =
        store.scopes.size := by
  induction pairs generalizing store with
  | nil => exact ⟨sound, rfl⟩
  | cons first rest inductionHypothesis =>
    have next : (store.set scope first.1 first.2).Sound :=
      sound.set (pairsSound first List.mem_cons_self)
    obtain ⟨lastSound, size⟩ := inductionHypothesis next fun binding member => by
      rw [size_scopes_set]
      exact pairsSound binding (List.mem_cons_of_mem _ member)
    exact ⟨lastSound, size.trans (size_scopes_set ..)⟩

/-- What a look-up finds is sound. -/
theorem Sound.get? (sound : store.Sound) {scope : Nat} {name : String} {value : Value}
    (found : store.get? scope name = some value) : value.Sound store.scopes.size := by
  fun_induction Store.get? store scope name with
  | case1 | case3 | case5 => cases found
  | case2 number frame held own bound =>
    cases found
    obtain ⟨before, after, split, -⟩ := List.lookup_eq_some_iff.mp bound
    refine (sound number frame held).bindings (name, value) ?_
    rw [split]
    exact List.mem_append_right _ List.mem_cons_self
  | case4 number frame held unbound outer around older inductionHypothesis =>
    exact inductionHypothesis found

end Store

/-! ### Computations that keep the invariant -/

/-- What may cut short a run that leaves this store. -/
def Interrupt.Sound (store : Store) : Interrupt → Prop
  | returned value => value.Sound store.scopes.size
  | fault cause _ => cause.UserLevel ∨ cause.Unencodable store.lone
  | depthExceeded => True

namespace Eval

variable {α β : Type} {least : Nat} {action : Eval α} {post : Nat → α → Prop}

/-- A result with what is known of it, or an interrupt that may be, on a sound store with at
least so many scopes. -/
def Ends (least : Nat) (post : Nat → α → Prop) : EStateM.Result Interrupt Store α → Prop
  | .ok result after =>
    after.Sound ∧ least ≤ after.scopes.size ∧ post after.scopes.size result
  | .error interrupt after =>
    after.Sound ∧ least ≤ after.scopes.size ∧ interrupt.Sound after

/-- From a sound store with enough scopes the computation ends well. -/
def Safe (least : Nat) (action : Eval α) (post : Nat → α → Prop) : Prop :=
  ∀ store : Store, store.Sound → least ≤ store.scopes.size → Ends least post (action store)

theorem safe_pure {result : α} (holds : ∀ size, least ≤ size → post size result) :
    Safe least (pure result) post :=
  fun _ sound enough => ⟨sound, enough, holds _ enough⟩

theorem Safe.bind {middle : Nat → α → Prop} {continuation : α → Eval β} {post : Nat → β → Prop}
    (first : Safe least action middle)
    (rest : ∀ size result, least ≤ size → middle size result →
      Safe size (continuation result) post) :
    Safe least (action >>= continuation) post := by
  intro store sound enough
  have ended := first store sound enough
  show Ends least post (EStateM.bind action continuation store)
  rw [EStateM.bind]
  cases run : action store with
  | ok result after =>
    rw [run] at ended
    obtain ⟨afterSound, grown, holds⟩ := ended
    have next := rest _ result grown holds after afterSound (Nat.le_refl _)
    cases second : continuation result after with
    | ok final last =>
      simp only [second, Ends] at next ⊢
      exact ⟨next.1, Nat.le_trans grown next.2.1, next.2.2⟩
    | error interrupt last =>
      simp only [second, Ends] at next ⊢
      exact ⟨next.1, Nat.le_trans grown next.2.1, next.2.2⟩
  | error interrupt after =>
    rw [run] at ended
    exact ended

theorem safe_fail {cause : Fault} (documented : cause.UserLevel) : Safe least (fail cause) post :=
  fun _ sound enough => ⟨sound, enough, .inl documented⟩

/-- Only a text with a lone surrogate cannot be encoded. -/
theorem safe_encode (value : Value) : Safe least (encode value) fun _ _ => True := by
  intro store sound enough
  rw [encode_run]
  split
  · next text found =>
    exact ⟨sound, enough, .inr (Value.unencodable?_eq_some_iff.mp found).2⟩
  · exact ⟨sound, enough, trivial⟩

theorem safe_ofExcept {rule : Except Fault α}
    (holds : ∀ result, rule = .ok result → ∀ size, least ≤ size → post size result)
    (documented : ∀ cause, rule = .error cause → cause.UserLevel) :
    Safe least (ofExcept rule) post := by
  cases rule with
  | ok result => exact safe_pure (holds result rfl)
  | error cause => exact safe_fail (documented cause rfl)

/-- The store that is looked at is sound and has the scopes of this moment. -/
theorem safe_get :
    Safe least get fun size store => store.Sound ∧ store.scopes.size = size :=
  fun _ sound enough => ⟨sound, enough, sound, rfl⟩

theorem safe_freshTag : Safe least freshTag fun _ _ => True :=
  fun _ sound enough => ⟨sound.freshTag, enough, trivial⟩

theorem Safe.locating (safe : Safe least action post) (node : Node) :
    Safe least (locating node action) post := by
  intro store sound enough
  have ended := safe store sound enough
  rw [Eval.locating]
  split
  · next cause after run =>
    rw [run] at ended
    exact ended
  · exact ended

theorem Safe.catchReturn {action : Eval Value} (safe : Safe least action Value.Sound) :
    Safe least (catchReturn action) Value.Sound := by
  intro store sound enough
  have ended := safe store sound enough
  rw [Eval.catchReturn]
  split
  · next value after run =>
    rw [run] at ended
    exact ended
  · exact ended

theorem safe_newArray {elements : List Value}
    (inner : ∀ element ∈ elements, element.Sound least) :
    Safe least (newArray elements) Value.Sound := by
  refine safe_freshTag.bind fun size tag grown _ => ?_
  exact safe_pure fun more later => .array fun element member =>
    (inner element member).mono (Nat.le_trans grown later)

end Eval

/-! ### Operators, containers and built-in functions -/

theorem BinaryOperator.apply_ok {operator : BinaryOperator} {left right value : Value}
    (applied : operator.apply left right = .ok value) : ∃ content, value = .atom content := by
  unfold apply at applied
  split at applied
  · unfold applyIntegers at applied
    split at applied <;> try split at applied
    all_goals cases applied <;> exact ⟨_, rfl⟩
  · unfold applyOthers at applied
    split at applied <;> try split at applied
    all_goals cases applied <;> exact ⟨_, rfl⟩

theorem BinaryOperator.apply_error {operator : BinaryOperator} (known : operator ∈ all)
    {left right : Value} {cause : Fault} (applied : operator.apply left right = .error cause) :
    cause.UserLevel := by
  have listed : operator.text ∈ all.map text := List.mem_map_of_mem known
  unfold apply at applied
  split at applied
  · unfold applyIntegers at applied
    split at applied <;> try split at applied
    all_goals cases applied
    all_goals first | exact listed | trivial
  · unfold applyOthers at applied
    split at applied <;> try split at applied
    all_goals cases applied
    all_goals exact listed

theorem BinaryOperator.ofText_mem_all :
    ∀ text ∈ all.map BinaryOperator.text, ofText text ∈ all := by
  decide

theorem UnaryOperator.apply_ok {operator : UnaryOperator} {operand value : Value}
    (applied : operator.apply operand = .ok value) : ∃ content, value = .atom content := by
  unfold apply at applied
  split at applied
  all_goals cases applied
  all_goals exact ⟨_, rfl⟩

theorem UnaryOperator.apply_error {operator : UnaryOperator}
    (known : operator = not ∨ operator = negate) {operand : Value} {cause : Fault}
    (applied : operator.apply operand = .error cause) : cause.UserLevel := by
  rcases known with rfl | rfl
  · cases applied
  · unfold apply at applied
    split at applied
    all_goals cases applied
    rfl

namespace HashTable

variable {α : Type} {entries : List (HashEntry α)}

theorem exists_entry_of_findFiled? {filed : HashKey} {value : α}
    (found : findFiled? entries filed = some value) : ∃ entry ∈ entries, entry.value = value := by
  induction entries with
  | nil => cases found
  | cons first rest inductionHypothesis =>
    rw [findFiled?] at found
    split at found
    · cases found
      exact ⟨first, List.mem_cons_self, rfl⟩
    · obtain ⟨entry, member, same⟩ := inductionHypothesis found
      exact ⟨entry, List.mem_cons_of_mem _ member, same⟩

theorem eq_or_mem_of_mem_put {entry other : HashEntry α} (member : other ∈ put entries entry) :
    other = entry ∨ other ∈ entries := by
  induction entries with
  | nil => exact .inl (List.mem_singleton.mp member)
  | cons first rest inductionHypothesis =>
    rw [put] at member
    split at member
    · rcases List.mem_cons.mp member with same | later
      · exact .inl same
      · exact .inr (List.mem_cons_of_mem _ later)
    · rcases List.mem_cons.mp member with rfl | later
      · exact .inr List.mem_cons_self
      · exact (inductionHypothesis later).imp_right (List.mem_cons_of_mem _)

theorem filed_insert {key : Atom} {value : α}
    (filed : ∀ entry ∈ entries, entry.filed = entry.key.hashKey) :
    ∀ entry ∈ insert entries key value, entry.filed = entry.key.hashKey := by
  intro entry member
  rcases eq_or_mem_of_mem_put member with rfl | kept
  · rfl
  · exact filed entry kept

/-- A known key takes the later value in its place, and a new one goes to the end. -/
theorem nodup_keys_insert {key : Atom} {value : α}
    (filed : ∀ entry ∈ entries, entry.filed = entry.key.hashKey)
    (distinct : (keys entries).Nodup) : (keys (insert entries key value)).Nodup := by
  rw [keys_insert entries key value filed]
  split
  · exact distinct
  · next new =>
    exact List.nodup_append.mpr ⟨distinct, List.pairwise_singleton _ key, by
      intro kept member other single same
      rw [List.mem_singleton.mp single] at same
      exact new (same ▸ member)⟩

end HashTable

section

variable {scopes : Nat}

theorem Value.Sound.elements {tag : Nat} {elements : List Value}
    (sound : (Value.array tag elements).Sound scopes) :
    ∀ element ∈ elements, element.Sound scopes := by
  cases sound with
  | array inner => exact inner

theorem Value.Sound.entries {tag : Nat} {entries : List (HashEntry Value)}
    (sound : (Value.hash tag entries).Sound scopes) :
    ∀ entry ∈ entries, entry.value.Sound scopes := by
  cases sound with
  | hash inner => exact inner

theorem Value.sound_getD {found : Option Value}
    (sound : ∀ value ∈ found, value.Sound scopes) : (found.getD .null).Sound scopes := by
  cases found with
  | none => exact .null
  | some value => exact sound value rfl

theorem Value.elementAt_ok {container index value : Value} (sound : container.Sound scopes)
    (found : container.elementAt index = .ok value) : value.Sound scopes := by
  unfold elementAt at found
  split at found
  · cases found
    split
    · exact .null
    · exact Value.sound_getD fun element held => sound.elements _ (List.mem_of_getElem? held)
  · split at found
    · cases found
      refine Value.sound_getD fun held member => ?_
      obtain ⟨entry, listed, rfl⟩ := HashTable.exists_entry_of_findFiled? member
      exact sound.entries entry listed
    · cases found
  · cases found

theorem Value.elementAt_error {container index : Value} {cause : Fault}
    (failed : container.elementAt index = .error cause) : cause.UserLevel := by
  unfold elementAt at failed
  split at failed <;> try split at failed
  all_goals cases failed
  all_goals trivial

open Eval

/-- All of some values are sound. -/
def AllSound (scopes : Nat) (values : List Value) : Prop :=
  ∀ value ∈ values, value.Sound scopes

theorem AllSound.mono {fewer more : Nat} (grown : fewer ≤ more) {values : List Value}
    (sound : AllSound fewer values) : AllSound more values :=
  fun value member => (sound value member).mono grown

theorem Builtin.safe_elements (builtin : Builtin) {argument : Value}
    (sound : argument.Sound scopes) :
    Safe scopes (ofExcept (builtin.elements argument)) AllSound := by
  refine safe_ofExcept ?_ ?_
  · intro inner found size grown
    unfold elements at found
    split at found
    · cases found
      exact AllSound.mono grown sound.elements
    · cases found
  · intro cause failed
    unfold elements at failed
    split at failed
    all_goals cases failed
    trivial

theorem Value.safe_length (argument : Value) :
    Safe scopes (ofExcept argument.length) Value.Sound := by
  refine safe_ofExcept ?_ ?_
  · intro value found size grown
    unfold length at found
    split at found
    all_goals cases found
    all_goals exact .atom _
  · intro cause failed
    unfold length at failed
    split at failed
    all_goals cases failed
    trivial

theorem safe_presentElement {found : Option Value}
    (sound : ∀ element ∈ found, element.Sound scopes) :
    Safe scopes (ofExcept (presentElement found)) Value.Sound := by
  cases found with
  | none => exact safe_fail trivial
  | some element => exact safe_pure fun size grown => (sound element rfl).mono grown

theorem safe_removeAt {elements : List Value} (sound : AllSound scopes elements) (place : Value) :
    Safe scopes (ofExcept (removeAt elements place)) AllSound := by
  refine safe_ofExcept ?_ ?_
  · intro remaining found size grown
    unfold removeAt at found
    split at found
    · split at found
      · cases found
        intro element member
        exact (sound element (List.mem_of_mem_eraseIdx member)).mono grown
      · cases found
    · cases found
  · intro cause failed
    unfold removeAt at failed
    split at failed <;> try split at failed
    all_goals cases failed
    all_goals trivial

theorem Builtin.safe_apply (builtin : Builtin) {arguments : List Value}
    (sound : AllSound scopes arguments) : Safe scopes (builtin.apply arguments) Value.Sound := by
  unfold apply
  split
  · next value => exact (safe_encode value).bind fun _ _ _ _ => value.safe_length
  · next array =>
    refine (Builtin.safe_elements _ (sound array List.mem_cons_self)).bind
      fun size elements _ inner => ?_
    exact safe_presentElement fun element member => inner element (List.mem_of_head? member)
  · next array =>
    refine (Builtin.safe_elements _ (sound array List.mem_cons_self)).bind
      fun size elements _ inner => ?_
    exact safe_presentElement fun element member => inner element (List.mem_of_getLast? member)
  · next array value =>
    refine (Builtin.safe_elements _ (sound array List.mem_cons_self)).bind
      fun size elements grown inner => safe_newArray ?_
    have added := (sound value (List.mem_cons_of_mem _ List.mem_cons_self)).mono grown
    exact List.forall_mem_append.mpr ⟨inner, List.forall_mem_singleton.mpr added⟩
  · next array place =>
    refine (Builtin.safe_elements _ (sound array List.mem_cons_self)).bind
      fun size elements _ inner => ?_
    exact (safe_removeAt inner place).bind fun _ _ _ remaining => safe_newArray remaining
  · exact safe_fail trivial

end

end Scriptlet
