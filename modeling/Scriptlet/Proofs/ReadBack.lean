/-
This file reads values back from the text that shows them. `Value.Readable` lists the values for
which this is possible: integers that have a literal, booleans, functions of accepted sources,
and arrays and hashes of such values. The text of a readable value is accepted, and running it
gives the value again, up to what `Value.bare` forgets: identities, captured scopes and positions.

For each kind of value there is a node that the text is read as and that evaluates to the value;
`ReadsBack` says both of one node, and the node of an array or a hash is made from those of its
parts. Evaluation is bounded, so how deep a value is nested has to be counted along.
-/

import Mathlib.Data.List.Nodup
import Scriptlet.Proofs.DepthLimit
import Scriptlet.Proofs.FunctionText
import Scriptlet.Proofs.Layout

namespace Scriptlet

/-! ### Values without identities -/

namespace Value

mutual

/-- The value without its tags, the scopes of its functions and the positions in them. -/
def bare : Value → Value
  | atom content => atom content
  | null => null
  | array _ elements => array 0 (bareAll elements)
  | hash _ entries => hash 0 (bareEntries entries)
  | function _ parameters body _ => function 0 parameters body.unplaced 0
  | builtin which => builtin which
  | error _ report => error 0 report.unplaced

/-- The values without identities. -/
def bareAll : List Value → List Value
  | [] => []
  | value :: rest => bare value :: bareAll rest

/-- The entries of a hash with their values without identities. -/
def bareEntries : List (HashEntry Value) → List (HashEntry Value)
  | [] => []
  | ⟨filed, key, value⟩ :: rest => ⟨filed, key, bare value⟩ :: bareEntries rest

end

mutual

/-- How deep a value is nested; a value without parts counts one. -/
def depth : Value → Nat
  | array _ elements => depthAll elements + 1
  | hash _ entries => depthEntries entries + 1
  | _ => 1

/-- How deep some values are nested at most. -/
def depthAll : List Value → Nat
  | [] => 0
  | value :: rest => max (depth value) (depthAll rest)

/-- How deep the values of some entries are nested at most. -/
def depthEntries : List (HashEntry Value) → Nat
  | [] => 0
  | ⟨_, _, value⟩ :: rest => max (depth value) (depthEntries rest)

end

/-- The entry with its value without identities. -/
def bareEntry (entry : HashEntry Value) : HashEntry Value :=
  ⟨entry.filed, entry.key, entry.value.bare⟩

theorem bareAll_eq_map (values : List Value) : bareAll values = values.map bare := by
  induction values with
  | nil => rfl
  | cons first rest inductionHypothesis => rw [bareAll, inductionHypothesis, List.map_cons]

theorem bareEntries_eq_map (entries : List (HashEntry Value)) :
    bareEntries entries = entries.map bareEntry := by
  induction entries with
  | nil => rfl
  | cons first rest inductionHypothesis =>
    rw [bareEntries, inductionHypothesis, List.map_cons]
    rfl

/-- What is forgotten does not show. -/
theorem inspect_bare (value : Value) : value.bare.inspect = value.inspect := by
  induction value using Value.induction with
  | atom | null | builtin => rfl
  | array tag elements inductionHypothesis =>
    have same : (elements.map bare).map inspect = elements.map inspect := by
      rw [List.map_map]
      exact List.map_congr_left inductionHypothesis
    simp only [bare, inspect, inspectAll_eq_map, bareAll_eq_map, same]
  | hash tag entries inductionHypothesis =>
    have same : (entries.map bareEntry).map HashEntry.inspected =
        entries.map HashEntry.inspected := by
      rw [List.map_map]
      refine List.map_congr_left fun entry member => ?_
      rw [HashEntry.inspected, ← inductionHypothesis entry member]
      rfl
    simp only [bare, inspect, inspectEntries_eq_map, bareEntries_eq_map, same]
  | function tag parameters body scope =>
    have alike : body.unplaced.Alike body := body.unplaced_unplaced
    simp only [bare, inspect, alike.statementTerms_eq]
  | error tag report => cases report <;> rfl

/-- Matching values differ in what is forgotten only. -/
theorem Matches.bare_eq {c : Correspondence} {value other : Value} (same : value.Matches c other) :
    value.bare = other.bare := by
  induction same with
  | atom | null | builtin => rfl
  | array length inner inductionHypothesis =>
    have same := List.forall₂_iff_zip.mpr ⟨length, fun member => inductionHypothesis _ member⟩
    simp only [bare, bareAll_eq_map, map_eq_map_of_forall₂ same]
  | @hash tag entries others length headings inner inductionHypothesis =>
    have same : List.Forall₂ (fun entry other => bareEntry entry = bareEntry other) entries
        others := by
      refine List.forall₂_iff_zip.mpr ⟨length, fun {entry other} member => ?_⟩
      rw [bareEntry, (headings _ member).1, (headings _ member).2, inductionHypothesis _ member]
      rfl
    simp only [bare, bareEntries_eq_map, map_eq_map_of_forall₂ same]
  | function same => exact congrArg (Value.function 0 _ · 0) (Correspondence.alike same)
  | error same => simp only [bare, ErrorReport.Matches.unplaced_eq same]

theorem eq_atom_of_bare {value : Value} {content : Atom} (same : value.bare = .atom content) :
    value = .atom content := by
  cases value with
  | atom => exact same
  | null | array | hash | function | builtin | error => cases same

theorem one_le_depth (value : Value) : 1 ≤ value.depth := by
  cases value <;> simp [depth]

end Value

/-! ### Computations that give a result -/

namespace Eval

variable {α β : Type}

/-- Whatever the store, the computation ends by itself with such a result. -/
def Yields (action : Eval α) (post : α → Prop) : Prop :=
  ∀ store, ∃ result after, action store = .ok result after ∧ post result

theorem yields_pure {result : α} {post : α → Prop} (holds : post result) :
    Yields (pure result) post :=
  fun store => ⟨result, store, rfl, holds⟩

theorem Yields.bind {first : Eval α} {continuation : α → Eval β} {middle : α → Prop}
    {post : β → Prop} (before : Yields first middle)
    (behind : ∀ result, middle result → Yields (continuation result) post) :
    Yields (first >>= continuation) post := by
  intro store
  obtain ⟨result, between, ran, holds⟩ := before store
  rw [bind_run, ran]
  exact behind result holds between

theorem yields_freshTag : Yields freshTag fun _ => True :=
  fun _ => ⟨_, _, rfl, trivial⟩

theorem Yields.locating {action : Eval α} {post : α → Prop} (inner : Yields action post)
    (node : Node) : Yields (locating node action) post := by
  intro store
  obtain ⟨result, after, ran, holds⟩ := inner store
  refine ⟨result, after, ?_, holds⟩
  rw [Eval.locating, ran]

end Eval

open Eval Evaluator Grammar

section

variable {meaning : Meaning} {scope : Nat}

/-- The node means the value, up to what is forgotten. -/
def Means (meaning : Meaning) (scope : Nat) (value : Value) (node : Node) : Prop :=
  Yields (meaning scope node) fun result => result.bare = value.bare

theorem yields_values {elements : List Value} {nodes : List Node}
    (means : List.Forall₂ (Means meaning scope) elements nodes) :
    Yields (values meaning scope nodes) fun results =>
      Value.bareAll results = Value.bareAll elements := by
  induction means with
  | nil => exact yields_pure rfl
  | cons first _ inductionHypothesis =>
    refine first.bind fun value same => inductionHypothesis.bind fun others sameOthers => ?_
    exact yields_pure (by rw [Value.bareAll, Value.bareAll, same, sameOthers])

/-- The atoms that are read back: booleans, and the integers whose sign and digits are literals. -/
def Atom.Readable : Atom → Prop
  | integer value => -0x7fffffffffffffff ≤ value ∧ value ≤ 0x7fffffffffffffff
  | boolean _ => True
  | string _ => False

/-- No text is among the atoms that are read back, so there is nothing to encode. -/
theorem Atom.Readable.yields_encode {content : Atom} (plain : content.Readable) :
    Yields (encode (.atom content)) fun _ => True := by
  intro store
  refine ⟨(), store, encode_eq_ok_iff.mpr ⟨?_, rfl⟩, trivial⟩
  cases content with
  | integer | boolean => rfl
  | string => exact plain.elim

/-- The pair of nodes means the entry. -/
def MeansEntry (meaning : Meaning) (scope : Nat) (entry : HashEntry Value) (pair : Node) : Prop :=
  ∃ colon key value, pair = .tree .pair [colon, key, value] ∧
    Means meaning scope (.atom entry.key) key ∧ Means meaning scope entry.value value

theorem put_of_fresh {entries : List (HashEntry Value)} {entry : HashEntry Value}
    (fresh : entry.filed ∉ entries.map HashEntry.filed) :
    HashTable.put entries entry = entries ++ [entry] := by
  induction entries with
  | nil => rfl
  | cons first rest inductionHypothesis =>
    rw [List.map_cons, List.mem_cons, not_or] at fresh
    rw [HashTable.put, if_neg (Ne.symm fresh.1), inductionHypothesis fresh.2, List.cons_append]

/-- The pairs of a hash literal are filed one behind the other when no key comes twice. -/
theorem yields_hashEntries {entries : List (HashEntry Value)} {pairs : List Node}
    (means : List.Forall₂ (MeansEntry meaning scope) entries pairs)
    (filed : ∀ entry ∈ entries, entry.filed = entry.key.hashKey)
    (plain : ∀ entry ∈ entries, entry.key.Readable)
    (done : List (HashEntry Value)) (distinct : ((done ++ entries).map HashEntry.filed).Nodup) :
    Yields (hashEntries meaning scope done pairs) fun results =>
      Value.bareEntries results = Value.bareEntries (done ++ entries) := by
  induction means generalizing done with
  | nil => exact yields_pure (by rw [List.append_nil])
  | @cons entry pair entries pairs first _ inductionHypothesis =>
    obtain ⟨colon, keyNode, valueNode, rfl, key, value⟩ := first
    rw [List.forall_mem_cons] at filed plain
    refine key.bind fun held sameKey => ?_
    obtain rfl := Value.eq_atom_of_bare sameKey
    refine value.bind fun held sameValue => ?_
    have added : HashTable.insert done entry.key held =
        done ++ [⟨entry.filed, entry.key, held⟩] := by
      rw [HashTable.insert, ← filed.1]
      refine put_of_fresh fun listed => ?_
      rw [List.map_append, List.nodup_append] at distinct
      exact distinct.2.2 _ listed _ List.mem_cons_self rfl
    have result : Value.bareEntries (done ++ [⟨entry.filed, entry.key, held⟩] ++ entries) =
        Value.bareEntries (done ++ entry :: entries) := by
      simp only [Value.bareEntries_eq_map, List.map_append, List.map_cons,
        Value.bareEntry, sameValue, List.append_assoc, List.singleton_append]
    refine plain.1.yields_encode.bind fun _ _ => ?_
    rw [added, ← result]
    exact inductionHypothesis filed.2 plain.2 _ (by simpa using distinct)

end

/-! ### Values and their literals -/

/-- The text is read as the node, and with enough frames the node evaluates to the value. -/
structure ReadsBack (value : Value) (node : Node) : Prop where
  written : WrittenAs (.expression .lowest) [node] value.inspect
  means : ∀ frames, 2 * value.depth + 5 ≤ frames → ∀ scope, Means (eval frames) scope value node

theorem eval_eq_step {frames : Nat} (enough : 5 ≤ frames) {node : Node}
    (single : runsStatements node = false) (scope : Nat) :
    eval frames scope node = step (eval (frames - 2)) (eval (frames - 5)) scope node := by
  obtain ⟨more, rfl⟩ := Nat.exists_eq_add_of_le' enough
  rw [eval_add_five, spare, single]
  rfl

/-- The number is found again in the digits that show it. -/
theorem decimalValue_toString (number : Nat) :
    Text.decimalValue (toString number).toList = number := by
  rw [Nat.toString_eq_repr, Nat.toList_repr]
  exact Nat.ofDigitChars_ten_toDigits

theorem digits_toString (number : Nat) : ∀ c ∈ (toString number).toList, isDigit c = true := by
  rw [Nat.toString_eq_repr, Nat.toList_repr]
  intro c member
  rw [isDigit_eq]
  exact Nat.isDigit_of_mem_toDigits (by decide) (by decide) member

theorem toString_ne_empty (number : Nat) : toString number ≠ "" := by
  rw [Ne, ← String.toList_eq_nil_iff, Nat.toString_eq_repr, Nat.toList_repr]
  exact Nat.toDigits_ne_nil

/-- The token of a number. -/
def Token.number (number : Nat) : Token :=
  ⟨.int, toString number, .first⟩

theorem writtenAs_number {number : Nat} (fits : number ≤ maxLiteral) :
    WrittenAs (.expression .call) [.ofToken (.number number)] (toString number) := by
  have spelled : (Token.number number).Spelled :=
    .number rfl (toString_ne_empty number) (digits_toString number)
  have small : Text.decimalValue (Token.number number).text.toList ≤ maxLiteral := by
    rw [Token.number, decimalValue_toString]
    exact fits
  have written := writtenAs_leaf (.integer rfl small) List.mem_cons_self
    (legible_cons.mpr ⟨⟨spelled, nofun⟩, legible_nil⟩)
  rwa [render_ofToken (show TokenKind.int ≠ .string by decide)] at written

theorem means_number (number : Nat) {frames : Nat} (enough : 5 ≤ frames) (scope : Nat) :
    Means (eval frames) scope (.integer number) (.ofToken (.number number)) := by
  rw [Means, eval_eq_step enough (by rfl)]
  refine Yields.locating ?_ _
  have read : Text.integer? (toString number) = some (number : Int) := by
    rw [integer?_of_digits (toString_ne_empty number) (digits_toString number),
      decimalValue_toString]
  show Yields (leafValue scope (.ofToken (.number number))) _
  simp only [leafValue, Leaf.ofToken, Token.number, read]
  exact yields_pure rfl

theorem readsBack_natural {number : Nat} (fits : number ≤ maxLiteral) :
    ReadsBack (.integer number) (.ofToken (.number number)) where
  written := (writtenAs_number fits).loosen (Precedence.level_le_call _)
  means frames enough scope := means_number number (by omega) scope

theorem readsBack_negative {number : Nat} (fits : number ≤ maxLiteral) (some : number ≠ 0) :
    ReadsBack (.integer (-number))
      (.tree .unary [.ofToken (.made .minus), .ofToken (.number number)]) where
  written := by
    have starts : (toString number).toList.head? ≠ Option.some '=' := by
      intro head
      exact absurd (digits_toString number _ (List.mem_of_head? head)) (by decide)
    have sign : (Token.made .minus).Spelled := .mark (by decide)
    have text : (Value.integer (-number)).inspect =
        (Token.made .minus).text ++ toString number := by
      obtain ⟨less, rfl⟩ := Nat.exists_eq_succ_of_ne_zero some
      rfl
    rw [text]
    exact (writtenAs_signed (by decide) sign starts (writtenAs_number fits)).loosen
      (Precedence.level_lowest_le _)
  means frames enough scope := by
    have wide : 7 ≤ frames := enough
    rw [Means, eval_eq_step (by omega) (by rfl)]
    refine Yields.locating ?_ _
    refine (means_number number (by omega) scope).bind fun held same => ?_
    obtain rfl := Value.eq_atom_of_bare same
    have inside : Integer.InRange (-number : Int) := by
      simp only [Integer.InRange, maxLiteral] at fits ⊢
      omega
    show Yields (pure (Value.integer (Integer.wrap (-number)))) _
    rw [Integer.wrap_of_inRange inside]
    exact yields_pure rfl

theorem writtenAs_boolean {kind : TokenKind} (member : kind ∈ [TokenKind.trueWord, .falseWord]) :
    WrittenAs (.expression .call) [.ofToken (.made kind)] (Token.made kind).text := by
  have all : ∀ kind ∈ [TokenKind.trueWord, .falseWord], kind ∈ plainLeaves ∧ kind ≠ .string ∧
      kind = .ofWord (Token.made kind).text ∧ (Token.made kind).text ≠ "" ∧
      (Token.made kind).text.toList.all isLetter = true := by decide
  obtain ⟨leaf, notString, word, some, letters⟩ := all kind member
  have spelled : (Token.made kind).Spelled := .word word some (List.all_eq_true.mp letters)
  have written := writtenAs_leaf (.leaf leaf) (List.mem_cons_of_mem _ leaf)
    (legible_cons.mpr ⟨⟨spelled, fun isString => absurd isString notString⟩, legible_nil⟩)
  rwa [render_ofToken notString] at written

theorem readsBack_boolean (truth : Bool) :
    ReadsBack (.boolean truth) (.ofToken (.made (if truth then .trueWord else .falseWord))) where
  written := by
    refine WrittenAs.loosen ?_ (Precedence.level_le_call _)
    cases truth with
    | false => exact writtenAs_boolean (by decide)
    | true => exact writtenAs_boolean (by decide)
  means frames enough scope := by
    rw [Means, eval_eq_step (by omega) (by rfl)]
    refine Yields.locating ?_ _
    cases truth with
    | false => exact yields_pure rfl
    | true => exact yields_pure rfl

theorem readsBack_function {word parameters body : Node}
    (stands : StandsInSource word parameters body) (tag closure : Nat) :
    ReadsBack (.function tag (parameters.operands.map Node.leafText) body closure)
      (.tree .function [word, parameters, body]) where
  written := stands.writtenAs.loosen (Precedence.level_le_call _)
  means frames enough scope := by
    rw [Means, eval_eq_step (by omega) (by rfl)]
    refine Yields.locating ?_ _
    exact yields_freshTag.bind fun _ _ => yields_pure rfl

/-! ### Arrays -/

theorem depth_le_depthAll {elements : List Value} {element : Value} (member : element ∈ elements) :
    element.depth ≤ Value.depthAll elements := by
  induction elements with
  | nil => cases member
  | cons first rest inductionHypothesis =>
    rw [Value.depthAll]
    rcases List.mem_cons.mp member with rfl | later
    · exact Nat.le_max_left _ _
    · exact (inductionHypothesis later).trans (Nat.le_max_right _ _)

theorem exists_forall₂ {α β : Type} {related : α → β → Prop} {list : List α}
    (each : ∀ first ∈ list, ∃ second, related first second) :
    ∃ others, List.Forall₂ related list others := by
  induction list with
  | nil => exact ⟨[], .nil⟩
  | cons first rest inductionHypothesis =>
    rw [List.forall_mem_cons] at each
    obtain ⟨second, same⟩ := each.1
    obtain ⟨others, sameOthers⟩ := inductionHypothesis each.2
    exact ⟨second :: others, .cons same sameOthers⟩

theorem writtenAs_expressions {element : Value} {node : Node} {elements : List Value}
    {nodes : List Node} (first : ReadsBack element node)
    (others : List.Forall₂ ReadsBack elements nodes) :
    WrittenAs .expressions (node :: nodes)
      (", ".intercalate (Value.inspectAll (element :: elements))) := by
  induction others generalizing element node with
  | nil => exact writtenAs_oneExpression first.written
  | cons second _ inductionHypothesis =>
    exact writtenAs_moreExpressions (List.cons_ne_nil _ _) first.written
      (inductionHypothesis second)

theorem writtenAs_elements {elements : List Value} {nodes : List Node}
    (reads : List.Forall₂ ReadsBack elements nodes) :
    WrittenAs .items nodes (", ".intercalate (Value.inspectAll elements)) := by
  cases reads with
  | nil => exact writtenAs_noItems
  | cons first others => exact (writtenAs_expressions first others).items

theorem readsBack_array {elements : List Value} {nodes : List Node}
    (reads : List.Forall₂ ReadsBack elements nodes) (tag : Nat) :
    ReadsBack (.array tag elements)
      (.tree .array (.ofToken (.made .leftBracket) :: nodes)) where
  written := (writtenAs_array rfl (.mark (by decide)) (writtenAs_elements reads)).loosen
    (Precedence.level_le_call _)
  means frames enough scope := by
    rw [Value.depth] at enough
    rw [Means, eval_eq_step (by omega) (by rfl)]
    refine Yields.locating ?_ _
    have means : List.Forall₂ (Means (eval (frames - 2)) scope) elements nodes := by
      refine ((List.forall₂_and_left _ _).mpr ⟨fun _ => depth_le_depthAll, reads⟩).imp ?_
      rintro element node ⟨shallow, reads⟩
      exact reads.means _ (by omega) scope
    refine (yields_values means).bind fun results same => ?_
    refine yields_freshTag.bind fun _ _ => yields_pure ?_
    rw [Value.bare, Value.bare, same]

/-! ### Hashes -/

theorem depthEntries_eq_depthAll (entries : List (HashEntry Value)) :
    Value.depthEntries entries = Value.depthAll (entries.map HashEntry.value) := by
  induction entries with
  | nil => rfl
  | cons first rest inductionHypothesis =>
    rw [Value.depthEntries, inductionHypothesis, List.map_cons, Value.depthAll]

theorem depth_le_depthEntries {entries : List (HashEntry Value)} {entry : HashEntry Value}
    (member : entry ∈ entries) : entry.value.depth ≤ Value.depthEntries entries := by
  rw [depthEntries_eq_depthAll]
  exact depth_le_depthAll (List.mem_map_of_mem member)

/-- The pair of nodes is read back as the entry. -/
def EntryReadsBack (entry : HashEntry Value) (pair : Node) : Prop :=
  ∃ key value, pair = .tree .pair [.ofToken (.made .colon), key, value] ∧
    ReadsBack (.atom entry.key) key ∧ ReadsBack entry.value value

theorem writtenAs_entries {entries : List (HashEntry Value)} {pairs : List Node}
    (reads : List.Forall₂ EntryReadsBack entries pairs) :
    WrittenAs .pairs pairs (", ".intercalate (entries.map HashEntry.inspected)) := by
  induction reads with
  | nil => exact writtenAs_noPairs
  | cons first others inductionHypothesis =>
    obtain ⟨key, value, rfl, keyReads, valueReads⟩ := first
    refine writtenAs_pairs rfl (.mark (by decide)) keyReads.written valueReads.written ?_
      inductionHypothesis
    rw [List.length_map, others.length_eq]

theorem readsBack_hash {entries : List (HashEntry Value)} {pairs : List Node}
    (reads : List.Forall₂ EntryReadsBack entries pairs)
    (filed : ∀ entry ∈ entries, entry.filed = entry.key.hashKey)
    (plain : ∀ entry ∈ entries, entry.key.Readable)
    (distinct : (entries.map HashEntry.filed).Nodup) (tag : Nat) :
    ReadsBack (.hash tag entries) (.tree .hash (.ofToken (.made .leftBrace) :: pairs)) where
  written := by
    rw [Value.inspect, Value.inspectEntries_eq_map]
    exact (writtenAs_hash rfl (.mark (by decide)) (writtenAs_entries reads)).loosen
      (Precedence.level_le_call _)
  means frames enough scope := by
    rw [Value.depth] at enough
    rw [Means, eval_eq_step (by omega) (by rfl)]
    refine Yields.locating ?_ _
    have means : List.Forall₂ (MeansEntry (eval (frames - 2)) scope) entries pairs := by
      refine ((List.forall₂_and_left _ _).mpr ⟨fun _ => depth_le_depthEntries, reads⟩).imp ?_
      rintro entry pair ⟨shallow, key, value, rfl, keyReads, valueReads⟩
      have flat : (Value.atom entry.key).depth ≤ entry.value.depth := entry.value.one_le_depth
      exact ⟨_, key, value, rfl, keyReads.means _ (by omega) scope,
        valueReads.means _ (by omega) scope⟩
    refine (yields_hashEntries means filed plain [] distinct).bind fun results same => ?_
    refine yields_freshTag.bind fun _ _ => yields_pure ?_
    rw [Value.bare, Value.bare, same, List.nil_append]

/-! ### Values that can be read back -/

/-- The values that are read back. -/
inductive Value.Readable : Value → Prop where
  | atom {content : Atom} (plain : content.Readable) : Readable (.atom content)
  | function {tag closure : Nat} {word parameters body : Node}
      (stands : StandsInSource word parameters body) :
      Readable (.function tag (parameters.operands.map Node.leafText) body closure)
  | array {tag : Nat} {elements : List Value} (inner : ∀ element ∈ elements, Readable element) :
      Readable (.array tag elements)
  | hash {tag : Nat} {entries : List (HashEntry Value)}
      (filed : ∀ entry ∈ entries, entry.filed = entry.key.hashKey)
      (distinct : (HashTable.keys entries).Nodup)
      (plain : ∀ entry ∈ entries, entry.key.Readable)
      (inner : ∀ entry ∈ entries, Readable entry.value) : Readable (.hash tag entries)

theorem Atom.Readable.readsBack {content : Atom} (plain : content.Readable) :
    ∃ node, ReadsBack (.atom content) node := by
  cases content with
  | integer value =>
    obtain ⟨low, high⟩ := plain
    obtain ⟨number, rfl | rfl⟩ := value.eq_nat_or_neg
    · exact ⟨_, readsBack_natural (by simp only [maxLiteral]; omega)⟩
    · by_cases zero : number = 0
      · subst zero
        exact ⟨_, readsBack_natural (Nat.zero_le _)⟩
      · exact ⟨_, readsBack_negative (by simp only [maxLiteral]; omega) zero⟩
  | boolean truth => exact ⟨_, readsBack_boolean truth⟩
  | string text => exact plain.elim

theorem Value.Readable.readsBack {value : Value} (readable : value.Readable) :
    ∃ node, ReadsBack value node := by
  induction readable with
  | atom plain => exact plain.readsBack
  | function stands => exact ⟨_, readsBack_function stands _ _⟩
  | array _ inductionHypothesis =>
    obtain ⟨nodes, reads⟩ := exists_forall₂ inductionHypothesis
    exact ⟨_, readsBack_array reads _⟩
  | @hash tag entries filed distinct plain _ inductionHypothesis =>
    have each : ∀ entry ∈ entries, ∃ pair, EntryReadsBack entry pair := by
      intro entry member
      obtain ⟨key, keyReads⟩ := (plain entry member).readsBack
      obtain ⟨value, valueReads⟩ := inductionHypothesis entry member
      exact ⟨_, key, value, rfl, keyReads, valueReads⟩
    obtain ⟨pairs, reads⟩ := exists_forall₂ each
    have keys : entries.map HashEntry.filed = (HashTable.keys entries).map Atom.hashKey := by
      rw [HashTable.keys, List.map_map]
      exact List.map_congr_left filed
    have distinctKeys : (entries.map HashEntry.filed).Nodup := by
      rw [keys]
      exact List.Nodup.map (fun _ _ => Atom.hashKey_inj.mp) distinct
    exact ⟨_, readsBack_hash reads filed plain distinctKeys tag⟩

/-! ### Running the text of a value -/

namespace Session

open Correspondence (relocated)

/-- With enough frames a program of one literal comes to its value. -/
theorem runProgram_of_readsBack {value : Value} {node : Node} (reads : ReadsBack value node)
    {limit : Nat} (enough : 2 * value.depth + 7 ≤ limit) (scope : Nat) (store : Store) :
    (runProgram limit scope (.tree .program [.tree .expressionStatement [node]])
      store).1.value.bare = value.bare := by
  have statement : Means (eval limit) scope value (.tree .expressionStatement [node]) := by
    rw [Means, eval_eq_step (by omega) (by rfl)]
    exact Yields.locating (reads.means _ (by omega) scope) _
  obtain ⟨result, after, ran, same⟩ := statement store
  have settles : runProgram limit scope (.tree .program [.tree .expressionStatement [node]]) store =
      (⟨result, some .expressionStatement⟩, after) := by
    rw [runProgram, Node.children, statements, bind_run, ran]
    rfl
  rw [settles]
  exact same

/-- The text that shows a readable value is accepted. Run in any scope of any store it comes to
the value again, up to identities, captured scopes and positions, and is shown by the same text;
only a limit that is too low for the nesting of the value can stop it. The least integer is not
readable: its text is rejected. -/
theorem runText_inspect {value : Value} (readable : value.Readable) :
    (readSource value.inspect).errors = [] ∧
    (∀ (limit scope : Nat) (store : Store), ∃ outcome after,
      runText limit scope value.inspect store = .ok (outcome, after) ∧
      (outcome.value.bare = value.bare ∧ outcome.value.inspect = value.inspect ∨
        limit < 2 * value.depth + 7 ∧ outcome.value.HitLimit)) ∧
    (readSource (Value.integer (-0x8000000000000000)).inspect).errors ≠ [] := by
  obtain ⟨node, reads⟩ := readable.readsBack
  obtain ⟨tokens, derived, scans⟩ := reads.written
  have written : WrittenAs .statement [.tree .expressionStatement [node]] value.inspect :=
    ⟨tokens, .expressionStatement derived, scans⟩
  obtain ⟨accepted, alike⟩ := readSource_of_writtenAs written.last
  refine ⟨accepted, fun limit scope store => ?_, by decide +kernel⟩
  rw [runText_of_accepted accepted]
  have comesTo (frames : Nat) (enough : 2 * value.depth + 7 ≤ frames) :
      (runProgram frames scope (readSource value.inspect).program store).1.value.bare =
        value.bare := by
    obtain ⟨outcomes, -⟩ := @matches_runProgram relocated id id frames scope _ _ alike.children
      _ _ store.matches_self
    rw [outcomes.value.bare_eq, runProgram_of_readsBack reads enough]
  have shows {result : Value} (same : result.bare = value.bare) :
      result.inspect = value.inspect := by
    rw [← result.inspect_bare, same, value.inspect_bare]
  refine ⟨_, _, rfl, ?_⟩
  by_cases enough : 2 * value.depth + 7 ≤ limit
  · have same := comesTo limit enough
    exact .inl ⟨same, shows same⟩
  · have low : limit < 2 * value.depth + 7 := by omega
    rcases runProgram_upToLimit (Nat.le_of_lt low) scope (readSource value.inspect).program store
      with stopped | goesOn
    · exact .inr ⟨low, stopped⟩
    · have same := comesTo _ (Nat.le_refl _)
      rw [goesOn] at same
      exact .inl ⟨same, shows same⟩

/-- The negation `func(a) { -a }`, kept with a boolean under a negative key. -/
theorem runText_inspect_of_keyed_function :
    let body : Node := .tree .block [.ofToken ⟨.leftBrace, "\x7b", ⟨1, 9⟩⟩,
      .tree .expressionStatement [.tree .unary
        [.ofToken ⟨.minus, "-", ⟨1, 11⟩⟩, .ofToken ⟨.ident, "a", ⟨1, 12⟩⟩]]]
    let value : Value := .hash 7 [⟨(Atom.integer (-5)).hashKey, .integer (-5),
      .array 3 [.boolean true, .function 3 ["a"] body 40]⟩]
    value.Readable ∧ ∃ outcome after,
      runText frameLimit fresh.1 value.inspect fresh.2 = .ok (outcome, after) ∧
        outcome.value.bare = value.bare ∧ outcome.value.inspect = value.inspect := by
  intro body value
  have parsed : (readSource "func(a) \x7b -a \x7d").program = .tree .program
      [.tree .expressionStatement [.tree .function [.ofToken ⟨.funcWord, "func", ⟨1, 1⟩⟩,
        .tree .parameters [.ofToken ⟨.leftParen, "(", ⟨1, 5⟩⟩, .ofToken ⟨.ident, "a", ⟨1, 6⟩⟩],
        body]]] := by decide +kernel
  have stands : StandsInSource (.ofToken ⟨.funcWord, "func", ⟨1, 1⟩⟩)
      (.tree .parameters [.ofToken ⟨.leftParen, "(", ⟨1, 5⟩⟩, .ofToken ⟨.ident, "a", ⟨1, 6⟩⟩])
      body := by
    refine ⟨"func(a) \x7b -a \x7d", by decide +kernel, ?_⟩
    rw [parsed]
    exact .child List.mem_cons_self (.child List.mem_cons_self .self)
  have readable : value.Readable := by
    refine .hash (by decide) (by decide) ?_ ?_
    · simp [Atom.Readable]
    · rw [List.forall_mem_singleton]
      refine .array (List.forall_mem_cons.mpr ⟨.atom trivial, List.forall_mem_singleton.mpr ?_⟩)
      exact .function stands
  refine ⟨readable, ?_⟩
  obtain ⟨-, runs, -⟩ := runText_inspect readable
  obtain ⟨outcome, after, ran, same | ⟨low, -⟩⟩ := runs frameLimit fresh.1 fresh.2
  · exact ⟨outcome, after, ran, same⟩
  · exact absurd low (by decide)

end Session

end Scriptlet
