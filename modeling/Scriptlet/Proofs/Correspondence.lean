/-
This file relates what two runs hold when they do the same in different places. The second run
may have other numbers for its scopes and other tags for its arrays, hashes and functions, it
may keep its outermost scopes inside a further one that is empty, its trees may stand at other
positions, and some names may be bound on one side alone. A `Correspondence` says which of
these differences there are.

Values match when they differ in these things only, and stores match when they bind matching
values to the names that count. Whatever can be asked of a value, apart from its tag, has the
same answer for a matching one; in particular matching values are shown by the same text
(`Value.Matches.inspect_eq`).
-/

import Mathlib.Data.List.Forall2
import Mathlib.Order.Monotone.Basic
import Scriptlet.Proofs.Invariant
import Scriptlet.Value.Inspect

namespace Scriptlet

/-- Two nodes have the same form: they are holes, or leaves of one kind with one text, or trees
with one label and related children. An identifier has to be a name that counts. -/
inductive Node.Parallel (related : Node → Node → Prop) (counts : String → Prop) :
    Node → Node → Prop where
  | hole : Parallel related counts .hole .hole
  | leaf {first second : Leaf} (kind : first.kind = second.kind) (text : first.text = second.text)
      (seen : first.kind = .own .ident → counts first.text) :
      Parallel related counts (.leaf first) (.leaf second)
  | tree {label : Label} {children others : List Node}
      (inner : List.Forall₂ related children others) :
      Parallel related counts (.tree label children) (.tree label others)

/-- In what a second run may differ from a first one. -/
structure Correspondence where
  /-- The tag that a tag of the first run stands for in the second one. -/
  tag : Nat → Nat
  /-- The scope of the second run that a scope of the first one stands for. -/
  scope : Nat → Nat
  /-- The scope around those that stand for outermost scopes, if there is one. -/
  root : Option Nat
  /-- The names that are bound alike. -/
  counts : String → Prop
  /-- The nodes that stand for each other. -/
  node : Node → Node → Prop
  /-- Positions agree as well. -/
  placed : Prop
  /-- The first run may reach its depth limit where the second one goes on. -/
  firstMayStop : Prop
  /-- The second run may reach its depth limit where the first one goes on. -/
  secondMayStop : Prop
  tag_injective : Function.Injective tag
  scope_strictMono : StrictMono scope
  root_apart : ∀ number, root ≠ some (scope number)
  parallel : ∀ {first second : Node}, node first second →
    Node.Parallel node counts first second
  place_eq : placed → ∀ {first second : Node}, node first second → first.place? = second.place?

/-! ### Values, scopes and stores that match -/

/-- Reports of the same failure. -/
inductive ErrorReport.Matches (placed : Prop) : ErrorReport → ErrorReport → Prop where
  | plain (message : String) : Matches placed (.plain message) (.plain message)
  | fault (cause : Fault) {place other : Option Place} (same : placed → place = other) :
      Matches placed (.fault cause place) (.fault cause other)
  | depthExceeded : Matches placed .depthExceeded .depthExceeded

/-- Values that differ in tags, scopes and the positions in function bodies at most. -/
inductive Value.Matches (c : Correspondence) : Value → Value → Prop where
  | atom (content : Atom) : Matches c (.atom content) (.atom content)
  | null : Matches c .null .null
  | array {tag : Nat} {elements others : List Value} (length : elements.length = others.length)
      (inner : ∀ pair ∈ elements.zip others, Matches c pair.1 pair.2) :
      Matches c (.array tag elements) (.array (c.tag tag) others)
  | hash {tag : Nat} {entries others : List (HashEntry Value)}
      (length : entries.length = others.length)
      (headings : ∀ pair ∈ entries.zip others,
        pair.1.filed = pair.2.filed ∧ pair.1.key = pair.2.key)
      (inner : ∀ pair ∈ entries.zip others, Matches c pair.1.value pair.2.value) :
      Matches c (.hash tag entries) (.hash (c.tag tag) others)
  | function {tag : Nat} {parameters : List String} {body other : Node} {scope : Nat}
      (same : c.node body other) :
      Matches c (.function tag parameters body scope)
        (.function (c.tag tag) parameters other (c.scope scope))
  | builtin (which : Builtin) : Matches c (.builtin which) (.builtin which)
  | error {tag : Nat} {report other : ErrorReport} (same : report.Matches c.placed other) :
      Matches c (.error tag report) (.error (c.tag tag) other)

/-- Entries with one key and matching values. -/
structure HashEntry.Matches (c : Correspondence) (entry other : HashEntry Value) : Prop where
  filed : entry.filed = other.filed
  key : entry.key = other.key
  value : entry.value.Matches c other.value

/-- Scopes that stand for each other. -/
structure Scope.Matches (c : Correspondence) (scope other : Scope) : Prop where
  outer : other.outer = (scope.outer.map c.scope).or c.root
  bindings : ∀ name, c.counts name →
    Option.Rel (Value.Matches c) (scope.get? name) (other.get? name)

/-- Every scope of the first store has its counterpart in the second one, and what is opened
or handed out next will be a pair of counterparts again. -/
structure Store.Matches (c : Correspondence) (store other : Store) : Prop where
  lone : other.lone = store.lone
  tags : ∀ count, c.tag (store.nextTag + count) = other.nextTag + count
  numbers : ∀ count, c.scope (store.scopes.size + count) = other.scopes.size + count
  scopes : ∀ (number : Nat) (frame : Scope), store.scopes[number]? = some frame →
    ∃ counterpart, other.scopes[c.scope number]? = some counterpart ∧ frame.Matches c counterpart
  root : ∀ number, c.root = some number → other.scopes[number]? = some ⟨none, []⟩

/-- What cuts both runs short in the same way. -/
inductive Interrupt.Matches (c : Correspondence) : Interrupt → Interrupt → Prop where
  | returned {value other : Value} (same : value.Matches c other) :
      Matches c (.returned value) (.returned other)
  | fault (cause : Fault) {place other : Option Place} (same : c.placed → place = other) :
      Matches c (.fault cause place) (.fault cause other)
  | depthExceeded : Matches c .depthExceeded .depthExceeded

/-! ### Nodes -/

theorem map_eq_map_of_forall₂ {α β γ : Type} {image : α → γ} {image' : β → γ} {list : List α}
    {others : List β}
    (same : List.Forall₂ (fun first second => image first = image' second) list others) :
    list.map image = others.map image' := by
  rwa [← List.forall₂_eq_eq_eq, List.forall₂_map_left_iff, List.forall₂_map_right_iff]

namespace Node

theorem leafText_unplaced (node : Node) : node.unplaced.leafText = node.leafText := by
  cases node <;> rfl

theorem label?_unplaced (node : Node) : node.unplaced.label? = node.label? := by
  cases node <;> rfl

section

variable {nodes : List Node} (inner : ∀ node ∈ nodes, node.unplaced.render = node.render)

include inner

theorem renderAll_unplacedAll : renderAll (unplacedAll nodes) = renderAll nodes := by
  induction nodes with
  | nil => rfl
  | cons first rest inductionHypothesis =>
    rw [List.forall_mem_cons] at inner
    rw [unplacedAll, renderAll, renderAll, inner.1, inductionHypothesis inner.2]

theorem renderTerms_unplacedAll : renderTerms (unplacedAll nodes) = renderTerms nodes := by
  induction nodes with
  | nil => rfl
  | cons first rest inductionHypothesis =>
    rw [List.forall_mem_cons] at inner
    rw [unplacedAll, renderTerms, renderTerms, inner.1, label?_unplaced,
      inductionHypothesis inner.2]

theorem renderProgram_unplacedAll : renderProgram (unplacedAll nodes) = renderProgram nodes := by
  induction nodes with
  | nil => rfl
  | cons first rest inductionHypothesis =>
    rw [List.forall_mem_cons] at inner
    cases rest with
    | nil => simp only [unplacedAll, renderProgram, inner.1]
    | cons second others =>
      have later := inductionHypothesis inner.2
      simp only [unplacedAll, renderProgram, inner.1, label?_unplaced] at later ⊢
      rw [later]

theorem renderAlternative_unplacedAll :
    renderAlternative (unplacedAll nodes) = renderAlternative nodes := by
  cases nodes with
  | nil => rfl
  | cons first rest =>
    have same := inner first List.mem_cons_self
    cases first with
    | hole => rfl
    | leaf leaf => rfl
    | tree label children =>
      simp only [unplacedAll, unplaced, renderAlternative] at same ⊢
      rw [same]

end

theorem render_unplaced (node : Node) : node.unplaced.render = node.render := by
  induction node using induction with
  | hole => rfl
  | leaf leaf => rfl
  | tree label children inner =>
    rw [unplaced]
    cases label with
    | program => rw [render_program, render_program, renderProgram_unplacedAll inner]
    | expressionStatement =>
      cases children with
      | nil => rfl
      | cons first rest => exact inner first List.mem_cons_self
    | block =>
      rcases children with _ | ⟨first, _ | ⟨second, rest⟩⟩
      · rfl
      · rfl
      · have terms := renderTerms_unplacedAll (List.forall_mem_cons.mp inner).2
        rw [unplacedAll] at terms
        simp only [unplacedAll, render_block_cons, terms]
    | letStatement | binary | function | index | pair =>
      rcases children with _ | ⟨first, _ | ⟨second, _ | ⟨third, _ | ⟨fourth, rest⟩⟩⟩⟩
      case cons.cons.cons.nil =>
        simp only [List.forall_mem_cons] at inner
        simp only [unplacedAll, render, leafText_unplaced, inner]
      all_goals rfl
    | returnStatement | unary =>
      rcases children with _ | ⟨first, _ | ⟨second, _ | ⟨third, rest⟩⟩⟩
      case cons.cons.nil =>
        simp only [List.forall_mem_cons] at inner
        simp only [unplacedAll, render, leafText_unplaced, inner]
      all_goals rfl
    | conditional =>
      rcases children with _ | ⟨first, _ | ⟨second, _ | ⟨third, rest⟩⟩⟩
      case cons.cons.cons =>
        simp only [List.forall_mem_cons] at inner
        simp only [unplacedAll, render, inner, renderAlternative_unplacedAll inner.2.2.2]
      all_goals rfl
    | call =>
      rcases children with _ | ⟨first, _ | ⟨second, rest⟩⟩
      case cons.cons =>
        simp only [List.forall_mem_cons] at inner
        simp only [unplacedAll, render, inner, renderAll_unplacedAll inner.2.2]
      all_goals rfl
    | parameters | array | hash =>
      cases children with
      | nil => rfl
      | cons first rest =>
        simp only [List.forall_mem_cons] at inner
        simp only [unplacedAll, render, renderAll_unplacedAll inner.2]
    | foreign => rfl

theorem identifier?_leaf (leaf : Leaf) :
    (Node.leaf leaf).identifier? = if leaf.kind = .own .ident then some leaf.text else none := by
  obtain ⟨kind, text, line, column⟩ := leaf
  by_cases ident : kind = .own .ident
  · subst ident
    rfl
  · rw [if_neg ident]
    unfold identifier?
    split
    · next same =>
      cases same
      exact absurd rfl ident
    · rfl

theorem operands_unplaced (node : Node) : node.unplaced.operands = unplacedAll node.operands := by
  cases node with
  | hole => rfl
  | leaf leaf => rfl
  | tree label children =>
    rw [unplaced, operands, operands]
    split
    · cases children <;> rfl
    · rfl

/-- Where a node stands does not show in its text. -/
theorem Alike.statementTerms_eq {first second : Node} (alike : first.Alike second) :
    first.statementTerms = second.statementTerms := by
  have terms (node : Node) : node.unplaced.statementTerms = node.statementTerms := by
    rw [statementTerms, operands_unplaced]
    exact renderTerms_unplacedAll fun child _ => render_unplaced child
  rw [← terms first, ← terms second, alike]

end Node

section

variable {c : Correspondence}

namespace Correspondence

variable {first second : Node}

/-- Nodes that stand for each other differ in positions at most. -/
theorem alike (same : c.node first second) : first.Alike second := by
  induction first using Node.induction generalizing second with
  | hole =>
    cases c.parallel same
    rfl
  | leaf leaf =>
    cases c.parallel same with
    | leaf kind text => simp only [Node.Alike, Node.unplaced, Leaf.unplaced, kind, text]
  | tree label children inductionHypothesis =>
    cases c.parallel same with
    | tree inner =>
      have each := (List.forall₂_and_left _ _).mpr ⟨inductionHypothesis, inner⟩
      simp only [Node.Alike, Node.unplaced, Node.unplacedAll_eq_map, Node.tree.injEq, true_and]
      exact map_eq_map_of_forall₂ (each.imp fun _ _ both => both.1 both.2)

theorem leafText_eq (same : c.node first second) : first.leafText = second.leafText := by
  cases c.parallel same with
  | hole | tree => rfl
  | leaf _ text => exact text

theorem identifier?_eq (same : c.node first second) : first.identifier? = second.identifier? := by
  cases c.parallel same with
  | hole | tree => rfl
  | leaf kind text => rw [Node.identifier?_leaf, Node.identifier?_leaf, kind, text]

theorem operands (same : c.node first second) :
    List.Forall₂ c.node first.operands second.operands := by
  cases c.parallel same with
  | hole | leaf => exact .nil
  | tree inner =>
    rw [Node.operands, Node.operands]
    split
    · rw [← List.drop_one, ← List.drop_one]
      exact List.forall₂_drop 1 inner
    · exact inner

end Correspondence

/-! ### Values -/

/-- The text of an entry in the text of its hash. -/
def HashEntry.inspected (entry : HashEntry Value) : String :=
  entry.key.inspect ++ ": " ++ entry.value.inspect

theorem ErrorReport.matches_self {placed : Prop} (report : ErrorReport) :
    report.Matches placed report := by
  cases report with
  | plain message => exact .plain message
  | fault cause place => exact .fault cause fun _ => rfl
  | depthExceeded => exact .depthExceeded

theorem ErrorReport.Matches.message_eq {placed : Prop} {report other : ErrorReport}
    (same : report.Matches placed other) : report.message = other.message := by
  cases same <;> rfl

namespace Value

variable {value other : Value}

theorem Matches.ofElements {tag : Nat} {elements others : List Value}
    (inner : List.Forall₂ (Matches c) elements others) :
    (Value.array tag elements).Matches c (.array (c.tag tag) others) :=
  .array inner.length_eq fun _ member => List.forall₂_zip inner member

theorem Matches.elements {tag tag' : Nat} {elements others : List Value}
    (same : (Value.array tag elements).Matches c (.array tag' others)) :
    List.Forall₂ (Matches c) elements others := by
  cases same with
  | array length inner => exact List.forall₂_iff_zip.mpr ⟨length, fun member => inner _ member⟩

theorem Matches.ofEntries {tag : Nat} {entries others : List (HashEntry Value)}
    (inner : List.Forall₂ (HashEntry.Matches c) entries others) :
    (Value.hash tag entries).Matches c (.hash (c.tag tag) others) :=
  .hash inner.length_eq
    (fun _ member => ⟨(List.forall₂_zip inner member).filed, (List.forall₂_zip inner member).key⟩)
    fun _ member => (List.forall₂_zip inner member).value

theorem Matches.entries {tag tag' : Nat} {entries others : List (HashEntry Value)}
    (same : (Value.hash tag entries).Matches c (.hash tag' others)) :
    List.Forall₂ (HashEntry.Matches c) entries others := by
  cases same with
  | hash length headings inner =>
    exact List.forall₂_iff_zip.mpr ⟨length, fun member =>
      ⟨(headings _ member).1, (headings _ member).2, inner _ member⟩⟩

theorem Matches.kind_eq (same : value.Matches c other) : value.kind = other.kind := by
  cases same <;> rfl

theorem Matches.atom?_eq (same : value.Matches c other) : value.atom? = other.atom? := by
  cases same <;> rfl

theorem Matches.isTruthy_eq (same : value.Matches c other) :
    value.isTruthy = other.isTruthy := by
  cases same <;> rfl

theorem Matches.isTrue_eq (same : value.Matches c other) : value.isTrue = other.isTrue := by
  cases same <;> rfl

theorem Matches.isError_eq (same : value.Matches c other) : value.isError = other.isError := by
  cases same <;> rfl

/-- Different tags stay different. -/
theorem Matches.equals_eq {left left' right right' : Value} (first : left.Matches c left')
    (second : right.Matches c right') : left.equals right = left'.equals right' := by
  cases first <;> cases second <;> simp [equals, c.tag_injective.eq_iff]

theorem inspectAll_eq_map (values : List Value) : inspectAll values = values.map inspect := by
  induction values with
  | nil => rfl
  | cons first rest inductionHypothesis => rw [inspectAll, inductionHypothesis, List.map_cons]

theorem inspectEntries_eq_map (entries : List (HashEntry Value)) :
    inspectEntries entries = entries.map HashEntry.inspected := by
  induction entries with
  | nil => rfl
  | cons first rest inductionHypothesis =>
    rw [inspectEntries, inductionHypothesis, List.map_cons]
    rfl

/-- Matching values are shown by the same text. -/
theorem Matches.inspect_eq (same : value.Matches c other) : value.inspect = other.inspect := by
  induction same with
  | atom | null | builtin => rfl
  | array length inner inductionHypothesis =>
    have same := List.forall₂_iff_zip.mpr ⟨length, fun member => inductionHypothesis _ member⟩
    simp only [inspect, inspectAll_eq_map, map_eq_map_of_forall₂ same]
  | @hash tag entries others length headings inner inductionHypothesis =>
    have same : List.Forall₂ (fun entry other => entry.inspected = other.inspected) entries
        others := by
      refine List.forall₂_iff_zip.mpr ⟨length, fun {entry other} member => ?_⟩
      rw [HashEntry.inspected, (headings _ member).2, inductionHypothesis _ member]
      rfl
    simp only [inspect, inspectEntries_eq_map, map_eq_map_of_forall₂ same]
  | function same => simp only [inspect, (Correspondence.alike same).statementTerms_eq]
  | error same => simp only [inspect, ErrorReport.Matches.message_eq same]

end Value

/-! ### Operators and containers -/

/-- Rules that give related results or raise the same fault. -/
inductive RulesAgree {α β : Type} (post : α → β → Prop) : Except Fault α → Except Fault β → Prop
    where
  | ok {first : α} {second : β} (related : post first second) :
      RulesAgree post (.ok first) (.ok second)
  | error (cause : Fault) : RulesAgree post (.error cause) (.error cause)

/-- On operands that are not both atoms an operator looks at their kinds, at whether they are
equal and at whether they are true, and at nothing else. -/
theorem BinaryOperator.apply_of_part {operator : BinaryOperator} {left right : Value}
    (part : left.atom? = none ∨ right.atom? = none) :
    operator.apply left right =
      match operator with
      | equal => .ok (.boolean (left.equals right))
      | notEqual => .ok (.boolean (!left.equals right))
      | and => .ok (.boolean (left.isTrue && right.isTrue))
      | or => .ok (.boolean (left.isTrue || right.isTrue))
      | operator =>
        if left.kind = right.kind then
          .error (.unknownBinary left.kind operator.text right.kind)
        else
          .error (.typeMismatch left.kind operator.text right.kind) := by
  unfold apply
  split
  · simp [Value.atom?] at part
  · unfold applyOthers
    split
    · simp [Value.atom?] at part
    · rfl
    · rfl
    · rfl
    · rfl
    · cases operator <;> simp_all

theorem BinaryOperator.apply_eq (operator : BinaryOperator) {left left' right right' : Value}
    (first : left.Matches c left') (second : right.Matches c right') :
    operator.apply left right = operator.apply left' right' := by
  by_cases part : left.atom? = none ∨ right.atom? = none
  · have part' : left'.atom? = none ∨ right'.atom? = none := by
      rwa [← first.atom?_eq, ← second.atom?_eq]
    rw [apply_of_part part, apply_of_part part', first.equals_eq second, first.kind_eq,
      second.kind_eq, first.isTrue_eq, second.isTrue_eq]
  · cases first <;> cases second <;> simp [Value.atom?] at part
    rfl

theorem rulesAgree_binary (operator : BinaryOperator) {left left' right right' : Value}
    (first : left.Matches c left') (second : right.Matches c right') :
    RulesAgree (Value.Matches c) (operator.apply left right) (operator.apply left' right') := by
  rw [operator.apply_eq first second]
  cases applied : operator.apply left' right' with
  | ok value =>
    obtain ⟨content, rfl⟩ := BinaryOperator.apply_ok applied
    exact .ok (.atom content)
  | error cause => exact .error cause

theorem rulesAgree_unary (operator : UnaryOperator) {operand other : Value}
    (same : operand.Matches c other) :
    RulesAgree (Value.Matches c) (operator.apply operand) (operator.apply other) := by
  have equal : operator.apply operand = operator.apply other := by
    cases operator <;> cases same <;> rfl
  rw [equal]
  cases applied : operator.apply other with
  | ok value =>
    obtain ⟨content, rfl⟩ := UnaryOperator.apply_ok applied
    exact .ok (.atom content)
  | error cause => exact .error cause

theorem rel_getElem? {α β : Type} {related : α → β → Prop} {list : List α} {others : List β}
    (inner : List.Forall₂ related list others) (index : Nat) :
    Option.Rel related list[index]? others[index]? := by
  induction inner generalizing index with
  | nil => exact .none
  | cons first _ inductionHypothesis =>
    cases index with
    | zero => exact .some first
    | succ index => exact inductionHypothesis index

theorem rel_findFiled? {entries others : List (HashEntry Value)}
    (inner : List.Forall₂ (HashEntry.Matches c) entries others) (filed : HashKey) :
    Option.Rel (Value.Matches c) (HashTable.findFiled? entries filed)
      (HashTable.findFiled? others filed) := by
  induction inner with
  | nil => exact .none
  | cons first _ inductionHypothesis =>
    rw [HashTable.findFiled?, HashTable.findFiled?, first.filed]
    split
    · exact .some first.value
    · exact inductionHypothesis

theorem matches_getD {found found' : Option Value}
    (same : Option.Rel (Value.Matches c) found found') :
    (found.getD .null).Matches c (found'.getD .null) := by
  cases same with
  | none => exact .null
  | some same => exact same

theorem rulesAgree_elementAt {container container' index index' : Value}
    (first : container.Matches c container') (second : index.Matches c index') :
    RulesAgree (Value.Matches c) (container.elementAt index) (container'.elementAt index') := by
  cases container with
  | array tag elements =>
    obtain ⟨others, rfl⟩ : ∃ others, container' = .array (c.tag tag) others := by
      cases first
      exact ⟨_, rfl⟩
    cases second with
    | atom content =>
      cases content with
      | integer place =>
        refine .ok ?_
        split
        · exact .null
        · exact matches_getD (rel_getElem? first.elements _)
      | boolean | string => exact .error _
    | null | array | hash | function | builtin | error => exact .error _
  | hash tag entries =>
    obtain ⟨others, rfl⟩ : ∃ others, container' = .hash (c.tag tag) others := by
      cases first
      exact ⟨_, rfl⟩
    unfold Value.elementAt
    rw [second.atom?_eq, second.kind_eq]
    cases index'.atom? with
    | none => exact .error _
    | some key => exact .ok (matches_getD (rel_findFiled? first.entries _))
  | atom | null | function | builtin | error =>
    cases first
    exact .error _

/-- A known key takes the later value on both sides, and a new one goes to the end. -/
theorem forall₂_insert {entries others : List (HashEntry Value)}
    (inner : List.Forall₂ (HashEntry.Matches c) entries others) (key : Atom) {value other : Value}
    (same : value.Matches c other) :
    List.Forall₂ (HashEntry.Matches c) (HashTable.insert entries key value)
      (HashTable.insert others key other) := by
  unfold HashTable.insert
  have new : HashEntry.Matches c ⟨key.hashKey, key, value⟩ ⟨key.hashKey, key, other⟩ :=
    ⟨rfl, rfl, same⟩
  induction inner with
  | nil => exact .cons new .nil
  | cons first rest inductionHypothesis =>
    rw [HashTable.put, HashTable.put, first.filed]
    split
    · exact .cons new rest
    · exact .cons first inductionHypothesis

/-! ### Stores -/

theorem Scope.Matches.set {scope other : Scope} (matched : scope.Matches c other)
    {value value' : Value} (same : value.Matches c value') (name : String) :
    (scope.set name value).Matches c (other.set name value') := by
  refine ⟨matched.outer, fun wanted counts => ?_⟩
  rw [Scope.get?_set, Scope.get?_set]
  split
  · exact .some same
  · exact matched.bindings wanted counts

namespace Store

variable {store other : Store}

theorem Matches.freshTag (same : store.Matches c other) :
    store.freshTag.2.Matches c other.freshTag.2 ∧ other.freshTag.1 = c.tag store.freshTag.1 := by
  refine ⟨⟨same.lone, fun count => ?_, same.numbers, same.scopes, same.root⟩, (same.tags 0).symm⟩
  show c.tag (store.nextTag + 1 + count) = other.nextTag + 1 + count
  rw [Nat.add_assoc, same.tags, Nat.add_assoc]

/-- A scope that is not there has no counterpart either. -/
theorem Matches.getElem?_eq_none (same : store.Matches c other) {number : Nat}
    (absent : store.scopes[number]? = none) : other.scopes[c.scope number]? = none := by
  rw [Array.getElem?_eq_none_iff] at absent ⊢
  obtain ⟨count, rfl⟩ := Nat.exists_eq_add_of_le absent
  rw [same.numbers]
  exact Nat.le_add_right _ _

theorem get?_of_held {number : Nat} {frame : Scope} (held : store.scopes[number]? = some frame)
    (name : String) :
    store.get? number name =
      match frame.get? name with
      | some value => some value
      | none =>
        match frame.outer with
        | none => none
        | some outer => if outer < number then store.get? outer name else none := by
  have unfolded := Store.get?.eq_def store number name
  rw [held] at unfolded
  exact unfolded

/-- Nothing is found in the scope around the others. -/
theorem Matches.get?_root (same : store.Matches c other) {number : Nat}
    (isRoot : c.root = some number) (name : String) : other.get? number name = none := by
  rw [get?_of_held (same.root number isRoot)]
  rfl

/-- A look-up of a name that counts finds matching values, or nothing on both sides. -/
theorem Matches.get? (same : store.Matches c other) (number : Nat) {name : String}
    (counts : c.counts name) :
    Option.Rel (Value.Matches c) (store.get? number name)
      (other.get? (c.scope number) name) := by
  induction number using Nat.strongRecOn with
  | ind number inductionHypothesis =>
    cases held : store.scopes[number]? with
    | none =>
      rw [Store.get?, held, Store.get?, same.getElem?_eq_none held]
      exact .none
    | some frame =>
      obtain ⟨counterpart, there, matched⟩ := same.scopes number frame held
      have own := matched.bindings name counts
      rw [get?_of_held held, get?_of_held there, matched.outer]
      generalize counterpart.get? name = found' at own ⊢
      generalize frame.get? name = found at own ⊢
      cases own with
      | some value => exact .some value
      | none =>
        cases frame.outer with
        | none =>
          dsimp only [Option.map_none, Option.none_or]
          cases isRoot : c.root with
          | none => exact .none
          | some root =>
            dsimp only
            rw [same.get?_root isRoot, ite_self]
            exact .none
        | some outer =>
          dsimp only [Option.map_some, Option.some_or]
          simp only [c.scope_strictMono.lt_iff_lt]
          split
          · next older => exact inductionHypothesis outer older
          · exact .none

theorem Matches.set (same : store.Matches c other) (scope : Nat) (name : String)
    {value value' : Value} (valueSame : value.Matches c value') :
    (store.set scope name value).Matches c (other.set (c.scope scope) name value') := by
  refine ⟨same.lone, same.tags, fun count => ?_, fun number frame held => ?_,
    fun number isRoot => ?_⟩
  · simp only [size_scopes_set]
    exact same.numbers count
  · simp only [Store.set, Array.getElem?_modify, c.scope_strictMono.injective.eq_iff] at held ⊢
    split at held
    · next own =>
      obtain ⟨before, there, rfl⟩ := Option.map_eq_some_iff.mp held
      obtain ⟨counterpart, found, matched⟩ := same.scopes number before there
      rw [if_pos own, found]
      exact ⟨_, rfl, matched.set valueSame name⟩
    · next apart =>
      rw [if_neg apart]
      exact same.scopes number frame held
  · have apart : c.scope scope ≠ number := by
      rintro rfl
      exact c.root_apart scope isRoot
    simp only [Store.set, Array.getElem?_modify, if_neg apart]
    exact same.root number isRoot

/-- New scopes inside scopes that stand for each other, or outside all of them. -/
theorem Matches.openScope (same : store.Matches c other) (outer : Option Nat) :
    (store.openScope outer).2.Matches c (other.openScope ((outer.map c.scope).or c.root)).2 ∧
      other.scopes.size = c.scope store.scopes.size := by
  have opened : c.scope store.scopes.size = other.scopes.size := same.numbers 0
  refine ⟨⟨same.lone, same.tags, fun count => ?_, fun number frame held => ?_,
    fun number isRoot => ?_⟩, opened.symm⟩
  · simp only [Store.openScope, Array.size_push, Nat.add_assoc]
    exact same.numbers (1 + count)
  · simp only [Store.openScope, Array.getElem?_push] at held ⊢
    split at held
    · next last =>
      cases held
      rw [last, if_pos opened]
      exact ⟨_, rfl, rfl, fun _ _ => .none⟩
    · obtain ⟨counterpart, found, matched⟩ := same.scopes number frame held
      refine ⟨counterpart, ?_, matched⟩
      rw [if_neg, found]
      exact fun last => absurd found (by simp [last])
  · have there := same.root number isRoot
    simp only [Store.openScope, Array.getElem?_push]
    rw [if_neg, there]
    exact fun last => absurd there (by simp [last])

end Store

end

end Scriptlet
