/-
This file says what a hash is. The keys and values of a hash literal are evaluated in turn, from
left to right, and each value is filed under its key. What comes out is a finite map under `==`:
one entry for each key, in the order in which the keys came first, with the value that came last.
Entries are filed by digest, but a digest never decides anything, because the kind and the content
of the key are part of what an entry is filed under.

The evaluation of a literal stops at the first expression that does not end with a value, at the
first key that is no atom, and behind the value of the first key that has no UTF-8 form and so no
digest. The literal then leaves the store as that expression left it, whatever stands behind it.
-/

import Scriptlet.Proofs.Invariant
import Scriptlet.Proofs.Nesting

namespace Scriptlet

/-! ### Tables that are filled one entry after the other -/

namespace HashTable

variable {α : Type}

/-- Files values under their keys, from left to right. -/
def insertAll (entries : List (HashEntry α)) (results : List (Atom × α)) : List (HashEntry α) :=
  results.foldl (fun entries result => insert entries result.1 result.2) entries

@[simp] theorem insertAll_cons (entries : List (HashEntry α)) (result : Atom × α)
    (results : List (Atom × α)) :
    insertAll entries (result :: results) =
      insertAll (insert entries result.1 result.2) results := rfl

/-- The value that comes last with a key. -/
def LastOf (results : List (Atom × α)) (key : Atom) (value : α) : Prop :=
  ∃ front back, results = front ++ (key, value) :: back ∧ ∀ later ∈ back, later.1 ≠ key

/-- The table has one entry for each key of some results, in the order in which the keys come
first, each filed under its key and with the value that comes last. -/
structure Collects (entries : List (HashEntry α)) (results : List (Atom × α)) : Prop where
  order : keys entries = (results.map Prod.fst).eraseDups
  filed : ∀ entry ∈ entries, entry.filed = entry.key.hashKey
  latest : ∀ entry ∈ entries, LastOf results entry.key entry.value

theorem lookup_reverse_eq_some_iff {results : List (Atom × α)} {key : Atom} {value : α} :
    results.reverse.lookup key = some value ↔ LastOf results key value := by
  rw [List.lookup_eq_some_iff]
  constructor
  · rintro ⟨before, behind, reversed, other⟩
    refine ⟨behind.reverse, before.reverse, ?_, fun later member => ?_⟩
    · rw [← List.reverse_inj, reversed]
      simp
    · exact (bne_iff_ne.mp (other later (List.mem_reverse.mp member))).symm
  · rintro ⟨front, back, rfl, other⟩
    refine ⟨back.reverse, front.reverse, by simp, fun later member => ?_⟩
    exact bne_iff_ne.mpr (other later (List.mem_reverse.mp member)).symm

/-- A key has the value that was filed last, or what it had before. -/
theorem find?_insertAll (entries : List (HashEntry α)) (results : List (Atom × α)) (key : Atom) :
    find? (insertAll entries results) key =
      (results.reverse.lookup key).or (find? entries key) := by
  induction results generalizing entries with
  | nil => rfl
  | cons result rest inductionHypothesis =>
    obtain ⟨own, value⟩ := result
    rw [insertAll_cons, inductionHypothesis, find?_insert, List.reverse_cons, List.lookup_append,
      Option.or_assoc]
    congr 1
    by_cases same : own = key
    · simp [same]
    · simp [List.lookup_cons, same, beq_false_of_ne (Ne.symm same)]

section

variable {entries : List (HashEntry α)} {results : List (Atom × α)}
  (filed : ∀ entry ∈ entries, entry.filed = entry.key.hashKey)

include filed

theorem filed_insertAll :
    ∀ entry ∈ insertAll entries results, entry.filed = entry.key.hashKey := by
  induction results generalizing entries with
  | nil => exact filed
  | cons result rest inductionHypothesis => exact inductionHypothesis (filed_insert filed)

theorem nodup_keys_insertAll (distinct : (keys entries).Nodup) :
    (keys (insertAll entries results)).Nodup := by
  induction results generalizing entries with
  | nil => exact distinct
  | cons result rest inductionHypothesis =>
    exact inductionHypothesis (filed_insert filed) (nodup_keys_insert filed distinct)

/-- New keys go to the end in the order in which they come. -/
theorem keys_insertAll :
    keys (insertAll entries results) =
      keys entries ++ ((results.map Prod.fst).removeAll (keys entries)).eraseDups := by
  induction results generalizing entries with
  | nil => simp [insertAll]
  | cons result rest inductionHypothesis =>
    rw [insertAll_cons, inductionHypothesis (filed_insert filed), keys_insert _ _ _ filed,
      List.map_cons, List.cons_removeAll]
    split
    · next known => simp [known]
    · next new =>
      simp [new, List.eraseDups_cons, List.removeAll, List.filter_filter, Bool.and_comm,
        Bool.beq_eq_decide_eq]

/-- In a table without repeated keys every entry is found. -/
theorem find?_of_mem (distinct : (keys entries).Nodup) {entry : HashEntry α}
    (member : entry ∈ entries) : find? entries entry.key = some entry.value := by
  induction entries with
  | nil => cases member
  | cons first rest inductionHypothesis =>
    rw [List.forall_mem_cons] at filed
    rw [keys, List.map_cons, List.nodup_cons] at distinct
    simp only [find?, findFiled?, filed.1, Atom.hashKey_inj]
    rcases List.mem_cons.mp member with rfl | later
    · exact if_pos rfl
    · rw [if_neg fun same : first.key = entry.key => distinct.1 (same ▸ List.mem_map_of_mem later)]
      exact inductionHypothesis filed.2 distinct.2 later

end

/-- A table that is filled from left to right collects what it is filled with. -/
theorem collects_insertAll (results : List (Atom × α)) :
    Collects (insertAll [] results) results := by
  have start : ∀ entry ∈ ([] : List (HashEntry α)), entry.filed = entry.key.hashKey := nofun
  refine ⟨?_, filed_insertAll start, fun entry member => ?_⟩
  · rw [keys_insertAll start]
    simp [keys]
  · have found := find?_of_mem (filed_insertAll start) (nodup_keys_insertAll start .nil) member
    rw [find?_insertAll, find?, findFiled?, Option.or_none] at found
    exact lookup_reverse_eq_some_iff.mp found

end HashTable

/-! ### Keys and equality -/

/-- A value equals an atom exactly when it is that atom. -/
theorem Value.atom_equals_iff {key : Atom} {index : Value} :
    (Value.atom key).equals index = true ↔ index.atom? = some key := by
  cases index <;> simp [equals, atom?, eq_comm]

/-- A hash gives to each atom the value that came last with a key equal to it, and `null` where
no key is, if only the atom has a digest. Nothing but an atom can be looked up. No look-up
changes the store. -/
structure Value.Answers (hash : Value) (results : List (Atom × Value)) (store : Store) : Prop where
  found : ∀ {key : Atom} {value index : Value}, HashTable.LastOf results key value →
    (Value.atom key).equals index = true → index.unencodable? store.lone = none →
    Evaluator.element hash index store = .ok value store
  missing : ∀ {index : Value}, index.atom?.isSome = true →
    (∀ result ∈ results, (Value.atom result.1).equals index = false) →
    index.unencodable? store.lone = none → Evaluator.element hash index store = .ok .null store
  refused : ∀ {index : Value}, index.atom? = none → ∃ fault : Fault,
    Evaluator.element hash index store = .error (.fault fault none) store ∧
      fault.message = "unusable as hash key: " ++ index.kind.name
  unencodable : ∀ {index : Value} {text : String}, index.unencodable? store.lone = some text →
    Evaluator.element hash index store = .error (.fault (.unencodable text) none) store

/-- A look-up in a hash is a look-up of the digest, once there is one. -/
theorem Evaluator.element_hash (tag : Nat) (entries : List (HashEntry Value)) (index : Value)
    (store : Store) :
    element (.hash tag entries) index store =
      match index.unencodable? store.lone with
      | some text => .error (.fault (.unencodable text) none) store
      | none => Eval.ofExcept ((Value.hash tag entries).elementAt index) store := by
  have gated : element (.hash tag entries) index =
      Eval.encode index >>= fun _ => .ofExcept ((Value.hash tag entries).elementAt index) :=
    rfl
  rw [gated, Eval.bind_run, Eval.encode_run]
  cases index.unencodable? store.lone <;> rfl

theorem Value.unencodable?_of_not_atom {index : Value} (unusable : index.atom? = none)
    (lone : Char → Bool) : index.unencodable? lone = none := by
  cases index with
  | atom => cases unusable
  | null | array | hash | function | builtin | error => rfl

theorem Value.answers_insertAll (tag : Nat) (results : List (Atom × Value)) (store : Store) :
    (Value.hash tag (HashTable.insertAll [] results)).Answers results store where
  found := by
    intro key value index last same encoded
    rw [atom_equals_iff] at same
    rw [Evaluator.element_hash, encoded]
    simp only [elementAt, same, HashTable.find?_insertAll,
      HashTable.lookup_reverse_eq_some_iff.mpr last]
    rfl
  missing := by
    intro index usable other encoded
    obtain ⟨key, same⟩ := Option.isSome_iff_exists.mp usable
    have absent : results.reverse.lookup key = none := by
      refine List.lookup_eq_none_iff.mpr fun result member => bne_iff_ne.mpr fun equal => ?_
      have differ := other result (List.mem_reverse.mp member)
      rw [← equal, atom_equals_iff.mpr same] at differ
      cases differ
    rw [Evaluator.element_hash, encoded]
    simp only [elementAt, same, HashTable.find?_insertAll, absent]
    rfl
  refused := by
    intro index unusable
    refine ⟨.unhashable index.kind, ?_, rfl⟩
    rw [Evaluator.element_hash, unencodable?_of_not_atom unusable]
    simp only [elementAt, unusable]
    rfl
  unencodable := by
    intro index text found
    rw [Evaluator.element_hash, found]

/-! ### The pairs of a literal -/

/-- A pair of a hash literal: the token between its parts, and the parts. -/
structure Pair where
  colon : Token
  key : Node
  value : Node

namespace Pair

/-- The tree of a pair. -/
def node (pair : Pair) : Node :=
  .tree .pair [.ofToken pair.colon, pair.key, pair.value]

/-- The expressions of a pair, in the order in which they are evaluated. -/
def parts (pair : Pair) : List Node :=
  [pair.key, pair.value]

/-- The tree of a hash literal. -/
def literal (opening : Token) (pairs : List Pair) : Node :=
  .tree .hash (.ofToken opening :: pairs.map node)

end Pair

namespace Evaluator

variable {meaning called : Meaning} {scope : Nat} {pairs front back : List Pair} {pair : Pair}
  {results : List (Atom × Value)} {entries found : List (HashEntry Value)}
  {interrupt : Interrupt} {evaluated : List Node} {store middle after : Store}

/-- The expressions of some pairs have values one after the other, and every key is an atom that
has a digest. -/
inductive Fills (meaning : Meaning) (scope : Nat) :
    List Pair → Store → List (Atom × Value) → Store → Prop where
  | nil (store : Store) : Fills meaning scope [] store [] store
  | cons {pair : Pair} {pairs : List Pair} {atom : Atom} {value : Value}
      {results : List (Atom × Value)} {store middle later after : Store}
      (ranKey : meaning scope pair.key store = .ok (.atom atom) middle)
      (ranValue : meaning scope pair.value middle = .ok value later)
      (encoded : (Value.atom atom).unencodable? later.lone = none)
      (behind : Fills meaning scope pairs later results after) :
      Fills meaning scope (pair :: pairs) store ((atom, value) :: results) after

/-- A pair is not filed: its key or its value does not end with a value, its key is no atom, or its
key has no digest. The list has the expressions that were evaluated up to there. -/
inductive Balks (meaning : Meaning) (scope : Nat) (pair : Pair) (store : Store) :
    List Node → Interrupt → Store → Prop where
  | key {interrupt : Interrupt} {after : Store}
      (ran : meaning scope pair.key store = .error interrupt after) :
      Balks meaning scope pair store [pair.key] interrupt after
  | refused {key : Value} {after : Store} (ran : meaning scope pair.key store = .ok key after)
      (unusable : key.atom? = none) :
      Balks meaning scope pair store [pair.key] (.fault (.unhashable key.kind) none) after
  | value {atom : Atom} {interrupt : Interrupt} {middle after : Store}
      (ranKey : meaning scope pair.key store = .ok (.atom atom) middle)
      (ran : meaning scope pair.value middle = .error interrupt after) :
      Balks meaning scope pair store [pair.key, pair.value] interrupt after
  | unencodable {atom : Atom} {value : Value} {text : String} {middle after : Store}
      (ranKey : meaning scope pair.key store = .ok (.atom atom) middle)
      (ran : meaning scope pair.value middle = .ok value after)
      (lone : (Value.atom atom).unencodable? after.lone = some text) :
      Balks meaning scope pair store [pair.key, pair.value] (.fault (.unencodable text) none) after

/-- A node comes to its turn among some nodes, and this is the store that it finds. -/
def ComesToTurn (meaning : Meaning) (scope : Nat) (nodes : List Node) (store : Store)
    (inner : Node) (innerStore : Store) : Prop :=
  ∃ front back results, nodes = front ++ inner :: back ∧
    values meaning scope front store = .ok results innerStore

/-- What the expressions of the pairs come to. -/
theorem Fills.values_eq (fills : Fills meaning scope pairs store results after) :
    values meaning scope (pairs.flatMap Pair.parts) store =
      .ok (results.flatMap fun result => [.atom result.1, result.2]) after := by
  induction fills with
  | nil => rfl
  | cons ranKey ranValue _ _ inductionHypothesis =>
    exact values_cons ranKey (values_cons ranValue inductionHypothesis)

/-- A pair is filed, or it ends the literal. -/
theorem filed_or_balks (meaning : Meaning) (scope : Nat) (pair : Pair) (store : Store) :
    (∃ atom value middle later, meaning scope pair.key store = .ok (.atom atom) middle ∧
      meaning scope pair.value middle = .ok value later ∧
      (Value.atom atom).unencodable? later.lone = none) ∨
    ∃ evaluated interrupt after, Balks meaning scope pair store evaluated interrupt after := by
  cases ranKey : meaning scope pair.key store with
  | error interrupt after => exact .inr ⟨_, _, _, .key ranKey⟩
  | ok key middle =>
    cases key with
    | atom atom =>
      cases ranValue : meaning scope pair.value middle with
      | error interrupt after => exact .inr ⟨_, _, _, .value ranKey ranValue⟩
      | ok value later =>
        cases encoded : (Value.atom atom).unencodable? later.lone with
        | none => exact .inl ⟨_, _, _, _, rfl, ranValue, encoded⟩
        | some text => exact .inr ⟨_, _, _, .unencodable ranKey ranValue encoded⟩
    | null | array | hash | function | builtin | error =>
      exact .inr ⟨_, _, _, .refused ranKey rfl⟩

/-- The expressions of a literal have values with atoms for keys, or there is a first pair that
ends it. -/
theorem fills_or_balks (meaning : Meaning) (scope : Nat) (pairs : List Pair) (store : Store) :
    (∃ results after, Fills meaning scope pairs store results after) ∨
    ∃ front pair back results middle evaluated interrupt after, pairs = front ++ pair :: back ∧
      Fills meaning scope front store results middle ∧
      Balks meaning scope pair middle evaluated interrupt after := by
  induction pairs generalizing store with
  | nil => exact .inl ⟨[], store, .nil store⟩
  | cons pair rest inductionHypothesis =>
    rcases filed_or_balks meaning scope pair store with
      ⟨atom, value, middle, later, ranKey, ranValue, encoded⟩ |
        ⟨evaluated, interrupt, after, balks⟩
    · rcases inductionHypothesis later with ⟨results, after, fills⟩ |
        ⟨front, second, back, results, between, evaluated, interrupt, after, rfl, fills, balks⟩
      · exact .inl ⟨_, _, .cons ranKey ranValue encoded fills⟩
      · exact .inr ⟨_, _, _, _, _, _, _, _, rfl, .cons ranKey ranValue encoded fills, balks⟩
    · exact .inr ⟨[], pair, rest, [], store, _, _, _, rfl, .nil store, balks⟩

/-- A pair that is filed goes into the entries, and the pairs behind it go on from there. -/
theorem hashEntries_pair {atom : Atom} {value : Value} {later : Store}
    (ranKey : meaning scope pair.key store = .ok (.atom atom) middle)
    (ranValue : meaning scope pair.value middle = .ok value later)
    (encoded : (Value.atom atom).unencodable? later.lone = none)
    (entries : List (HashEntry Value)) (rest : List Node) :
    hashEntries meaning scope entries (pair.node :: rest) store =
      hashEntries meaning scope (HashTable.insert entries atom value) rest later := by
  rw [hashEntries]
  show (meaning scope pair.key >>= _) store = _
  simp only [Eval.bind_run, ranKey, Value.atom?, ranValue, Eval.encode_run, encoded]

/-- A pair that is not filed ends the literal, whatever stands behind it. -/
theorem Balks.hashEntries_eq (balks : Balks meaning scope pair store evaluated interrupt after)
    (entries : List (HashEntry Value)) (rest : List Node) :
    hashEntries meaning scope entries (pair.node :: rest) store = .error interrupt after := by
  rw [hashEntries]
  show (meaning scope pair.key >>= _) store = _
  cases balks with
  | key ran => rw [Eval.bind_run, ran]
  | refused ran unusable =>
    simp only [Eval.bind_run, ran, unusable]
    rfl
  | value ranKey ran => simp only [Eval.bind_run, ranKey, Value.atom?, ran]
  | unencodable ranKey ran lone =>
    simp only [Eval.bind_run, ranKey, Value.atom?, ran, Eval.encode_run, lone]

/-- The entries of a literal are what its pairs fill in. -/
theorem hashEntries_eq_ok_iff :
    hashEntries meaning scope entries (pairs.map Pair.node) store = .ok found after ↔
      ∃ results, Fills meaning scope pairs store results after ∧
        found = HashTable.insertAll entries results := by
  constructor
  · intro ran
    induction pairs generalizing entries store with
    | nil =>
      cases ran
      exact ⟨[], .nil _, rfl⟩
    | cons pair rest inductionHypothesis =>
      rw [List.map_cons] at ran
      rcases filed_or_balks meaning scope pair store with
        ⟨atom, value, middle, later, ranKey, ranValue, encoded⟩ | ⟨_, _, _, balks⟩
      · rw [hashEntries_pair ranKey ranValue encoded] at ran
        obtain ⟨results, fills, rfl⟩ := inductionHypothesis ran
        exact ⟨_, .cons ranKey ranValue encoded fills, rfl⟩
      · rw [balks.hashEntries_eq] at ran
        cases ran
  · rintro ⟨results, fills, rfl⟩
    induction fills generalizing entries with
    | nil => rfl
    | cons ranKey ranValue encoded _ inductionHypothesis =>
      rw [List.map_cons, hashEntries_pair ranKey ranValue encoded]
      exact inductionHypothesis

theorem Fills.hashEntries_eq (fills : Fills meaning scope pairs store results after)
    (entries : List (HashEntry Value)) :
    hashEntries meaning scope entries (pairs.map Pair.node) store =
      .ok (HashTable.insertAll entries results) after :=
  hashEntries_eq_ok_iff.mpr ⟨results, fills, rfl⟩

/-- The pairs of a literal up to one that ends it. -/
theorem hashEntries_of_balks (fills : Fills meaning scope front store results middle)
    (balks : Balks meaning scope pair middle evaluated interrupt after) (back : List Pair) :
    hashEntries meaning scope [] ((front ++ pair :: back).map Pair.node) store =
      .error interrupt after := by
  rw [List.map_append, hashEntries_append, Eval.bind_run, fills.hashEntries_eq]
  exact balks.hashEntries_eq _ _

/-! ### What is evaluated of a literal that ends early -/

theorem values_append {nodes others : List Node} {found more : List Value}
    (ran : values meaning scope nodes store = .ok found middle)
    (ranOthers : values meaning scope others middle = .ok more after) :
    values meaning scope (nodes ++ others) store = .ok (found ++ more) after := by
  induction nodes generalizing store found with
  | nil =>
    cases ran
    exact ranOthers
  | cons first rest inductionHypothesis =>
    obtain ⟨value, between, others, ranFirst, ranRest, rfl⟩ := exists_of_values_cons ran
    exact values_cons ranFirst (inductionHypothesis ranRest)

theorem Balks.exists_eq_cons (balks : Balks meaning scope pair store evaluated interrupt after) :
    ∃ others, evaluated = pair.key :: others := by
  cases balks <;> exact ⟨_, rfl⟩

/-- Pairs that are all filed stand in front of the one that ends the literal. -/
theorem exists_of_filed_prefix {before behind : List Pair} {other : Pair}
    (fills : Fills meaning scope front store results middle)
    (balks : Balks meaning scope pair middle evaluated interrupt after)
    (same : front ++ pair :: back = before ++ other :: behind)
    {entries : List (HashEntry Value)} {later : Store}
    (ran : hashEntries meaning scope [] (before.map Pair.node) store = .ok entries later) :
    (∃ between, front = before ++ other :: between) ∨
      before = front ∧ other = pair ∧ later = middle := by
  have first (start : front = before) (equal : other = pair) :
      before = front ∧ other = pair ∧ later = middle := by
    subst start
    rw [fills.hashEntries_eq] at ran
    cases ran
    exact ⟨rfl, equal, rfl⟩
  rcases List.append_eq_append_iff.mp same with ⟨rest, rfl, split⟩ | ⟨rest, rfl, split⟩
  · cases rest with
    | nil =>
      cases split
      exact .inr (first (List.append_nil front).symm rfl)
    | cons next rest =>
      cases split
      rw [hashEntries_of_balks fills balks] at ran
      cases ran
  · cases rest with
    | nil =>
      cases split
      exact .inr (first (List.append_nil before) rfl)
    | cons next rest =>
      cases split
      exact .inl ⟨rest, rfl⟩

/-- A child of a literal with a key and a value is one of its pairs. -/
theorem exists_pair_of_listed {opening : Token} {children before behind : List Node}
    {node key value : Node} (form : Pair.literal opening pairs = .tree .hash children)
    (listed : children.tail = before ++ node :: behind) (parts : node.operands = [key, value]) :
    ∃ first other last, pairs = first ++ other :: last ∧ before = first.map Pair.node ∧
      key = other.key ∧ value = other.value := by
  cases form
  obtain ⟨first, rest, rfl, rfl, split⟩ := List.map_eq_append_iff.mp listed
  obtain ⟨other, last, rfl, rfl, rfl⟩ := List.map_eq_cons_iff.mp split
  cases parts
  exact ⟨first, other, last, rfl, rfl, rfl, rfl⟩

/-- Of a literal that ends early nothing is evaluated but the expressions up to the end. -/
theorem Enters.comesToTurn {opening : Token} {entry : Entry} {innerScope : Nat} {inner : Node}
    {innerStore : Store} (fills : Fills meaning scope front store results middle)
    (balks : Balks meaning scope pair middle evaluated interrupt after)
    (enters : Enters meaning called scope (Pair.literal opening (front ++ pair :: back)) store entry
      innerScope inner innerStore) :
    innerScope = scope ∧
      ComesToTurn meaning scope (front.flatMap Pair.parts ++ evaluated) store inner innerStore := by
  cases enters with
  | premise listed ran =>
    have none : premises (Pair.literal opening (front ++ pair :: back)) = [] := rfl
    simp [none] at listed
  | branch form ran chosen => cases form
  | statement calls counted listed ranBody =>
    obtain ⟨_, _, form, _⟩ := calls
    cases form
  | key form listed parts ran =>
    obtain ⟨before, other, behind, same, rfl, rfl, rfl⟩ := exists_pair_of_listed form listed parts
    obtain ⟨filed, filled, -⟩ := hashEntries_eq_ok_iff.mp ran
    refine ⟨rfl, before.flatMap Pair.parts, ?_⟩
    rcases exists_of_filed_prefix fills balks same ran with ⟨between, rfl⟩ | ⟨rfl, rfl, rfl⟩
    · exact ⟨_, _, by simp [Pair.parts]; rfl, filled.values_eq⟩
    · obtain ⟨others, rfl⟩ := balks.exists_eq_cons
      exact ⟨_, _, rfl, filled.values_eq⟩
  | value form listed parts ran ranKey hashable =>
    obtain ⟨before, other, behind, same, rfl, rfl, rfl⟩ := exists_pair_of_listed form listed parts
    obtain ⟨filed, filled, -⟩ := hashEntries_eq_ok_iff.mp ran
    have ranAlone : values meaning scope [other.key] _ = .ok [_] _ := values_cons ranKey rfl
    have ranBefore := values_append filled.values_eq ranAlone
    refine ⟨rfl, before.flatMap Pair.parts ++ [other.key], ?_⟩
    rcases exists_of_filed_prefix fills balks same ran with ⟨between, rfl⟩ | ⟨rfl, rfl, rfl⟩
    · exact ⟨_, _, by simp [Pair.parts]; rfl, ranBefore⟩
    · cases balks with
      | key ran =>
        rw [ran] at ranKey
        cases ranKey
      | refused ran unusable =>
        rw [ran] at ranKey
        cases ranKey
        rw [unusable] at hashable
        cases hashable
      | value | unencodable => exact ⟨[], _, by simp, ranBefore⟩

end Evaluator

/-! ### The literal -/

/-- What an interrupt is behind a node: a fault without a place has taken the place of the
node. -/
def Interrupt.leaving (interrupt : Interrupt) (place : Option Place) : Interrupt :=
  match interrupt with
  | .fault cause none => .fault cause place
  | interrupt => interrupt

theorem Eval.locating_of_error {α : Type} {action : Eval α} {interrupt : Interrupt}
    {store after : Store} (node : Node) (ended : action store = .error interrupt after) :
    locating node action store = .error (interrupt.leaving node.place?) after := by
  unfold locating
  rw [ended]
  rcases interrupt with value | ⟨cause, _ | place⟩ | _ <;> rfl

namespace Evaluator

variable {meaning : Meaning} {scope : Nat} {pairs front : List Pair} {pair : Pair}
  {results : List (Atom × Value)} {interrupt : Interrupt} {evaluated : List Node}
  {store middle after : Store}

theorem step_literal (called : Meaning) (opening : Token)
    (fills : Fills meaning scope pairs store results after) :
    step meaning called scope (Pair.literal opening pairs) store =
      .ok (.hash after.nextTag (HashTable.insertAll [] results)) after.freshTag.2 := by
  have filled := fills.hashEntries_eq []
  simp only [Pair.literal, step, treeValue, Eval.locating, List.tail_cons, Eval.bind_run, filled]
  rfl

theorem step_literal_of_balks (called : Meaning) (opening : Token)
    (fills : Fills meaning scope front store results middle)
    (balks : Balks meaning scope pair middle evaluated interrupt after) (back : List Pair) :
    step meaning called scope (Pair.literal opening (front ++ pair :: back)) store =
      .error (interrupt.leaving (Leaf.ofToken opening).place?) after := by
  refine Eval.locating_of_error (Pair.literal opening (front ++ pair :: back)) ?_
  have ended := hashEntries_of_balks fills balks back
  simp only [Pair.literal, treeValue, List.tail_cons, Eval.bind_run, ended]

end Evaluator

end Scriptlet
