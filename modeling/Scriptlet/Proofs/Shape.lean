/-
This file says which trees come out of the grammar, without their tokens. Every label has
the children that it needs, in their places, every leaf has a kind with a value, operators
are operators of the language, integers are decimal numbers, and there are no holes.

Main statement: `Grammar.Derives.shaped` says this of every tree that is derived from
spelled tokens.
-/

import Scriptlet.Text.Decimal
import Scriptlet.Value.Operator
import Scriptlet.Proofs.Grammar
import Scriptlet.Proofs.Spelling

namespace Scriptlet

open Grammar

namespace Node

/-- What a node stands for in the tree around it. -/
inductive Role where
  | expression
  | name
  | parameters
  | pair
  | block
  | statement

/-- The trees of the grammar. -/
inductive Shaped : Role → Node → Prop where
  | leaf {token : Token} (member : token.kind ∈ plainLeaves) :
      Shaped .expression (.ofToken token)
  | integer {token : Token} {value : Int} (kind : token.kind = .int)
      (decimal : Text.integer? token.text = some value) : Shaped .expression (.ofToken token)
  | unary {operator : Token} {operand : Node}
      (known : operator.text = UnaryOperator.not.text ∨ operator.text = UnaryOperator.negate.text)
      (inner : Shaped .expression operand) :
      Shaped .expression (.tree .unary [.ofToken operator, operand])
  | binary {operator : Token} {left right : Node}
      (known : operator.text ∈ BinaryOperator.all.map BinaryOperator.text)
      (leftShaped : Shaped .expression left) (rightShaped : Shaped .expression right) :
      Shaped .expression (.tree .binary [.ofToken operator, left, right])
  | call {opening : Token} {callee : Node} {arguments : List Node}
      (calleeShaped : Shaped .expression callee)
      (inner : ∀ argument ∈ arguments, Shaped .expression argument) :
      Shaped .expression (.tree .call (.ofToken opening :: callee :: arguments))
  | index {opening : Token} {left inside : Node} (leftShaped : Shaped .expression left)
      (inner : Shaped .expression inside) :
      Shaped .expression (.tree .index [.ofToken opening, left, inside])
  | array {opening : Token} {elements : List Node}
      (inner : ∀ element ∈ elements, Shaped .expression element) :
      Shaped .expression (.tree .array (.ofToken opening :: elements))
  | hash {opening : Token} {pairs : List Node} (inner : ∀ pair ∈ pairs, Shaped .pair pair) :
      Shaped .expression (.tree .hash (.ofToken opening :: pairs))
  | conditional {word : Token} {condition consequence : Node} {alternative : List Node}
      (conditionShaped : Shaped .expression condition) (blockShaped : Shaped .block consequence)
      (otherShaped : ∀ block ∈ alternative, Shaped .block block) :
      Shaped .expression
        (.tree .conditional (.ofToken word :: condition :: consequence :: alternative))
  | function {word : Token} {parameters body : Node}
      (parametersShaped : Shaped .parameters parameters) (bodyShaped : Shaped .block body) :
      Shaped .expression (.tree .function [.ofToken word, parameters, body])
  | name {token : Token} (kind : token.kind = .ident) : Shaped .name (.ofToken token)
  | parameters {opening : Token} {names : List Node} (inner : ∀ name ∈ names, Shaped .name name) :
      Shaped .parameters (.tree .parameters (.ofToken opening :: names))
  | pair {colon : Token} {key value : Node} (keyShaped : Shaped .expression key)
      (valueShaped : Shaped .expression value) :
      Shaped .pair (.tree .pair [.ofToken colon, key, value])
  | block {opening : Token} {statements : List Node}
      (inner : ∀ statement ∈ statements, Shaped .statement statement) :
      Shaped .block (.tree .block (.ofToken opening :: statements))
  | letStatement {word name : Token} {value : Node} (nameKind : name.kind = .ident)
      (inner : Shaped .expression value) :
      Shaped .statement (.tree .letStatement [.ofToken word, .ofToken name, value])
  | returnStatement {word : Token} {value : Node} (inner : Shaped .expression value) :
      Shaped .statement (.tree .returnStatement [.ofToken word, value])
  | expressionStatement {value : Node} (inner : Shaped .expression value) :
      Shaped .statement (.tree .expressionStatement [value])

/-- The statements of a block are shaped. -/
theorem Shaped.operands_of_block {body : Node} (shaped : body.Shaped .block) :
    ∀ statement ∈ body.operands, statement.Shaped .statement := by
  cases shaped with
  | block inner => exact inner

/-- What is evaluated: expressions, blocks and statements. -/
def Evaluated (node : Node) : Prop :=
  ∃ role, node.Shaped role ∧ (role = .expression ∨ role = .block ∨ role = .statement)

theorem Shaped.evaluated_expression {node : Node} (shaped : node.Shaped .expression) :
    node.Evaluated :=
  ⟨.expression, shaped, .inl rfl⟩

theorem Shaped.evaluated_block {node : Node} (shaped : node.Shaped .block) : node.Evaluated :=
  ⟨.block, shaped, .inr (.inl rfl)⟩

theorem Shaped.evaluated_statement {node : Node} (shaped : node.Shaped .statement) :
    node.Evaluated :=
  ⟨.statement, shaped, .inr (.inr rfl)⟩

end Node

theorem isDigit_eq (c : Char) : isDigit c = c.isDigit := by
  simp only [isDigit, Char.isDigit, Char.le_def, ge_iff_le]

/-- A run of digits is a decimal integer. -/
theorem integer?_of_digits {text : String} (some : text ≠ "")
    (digits : ∀ c ∈ text.toList, isDigit c = true) :
    Text.integer? text = Option.some (Text.decimalValue text.toList : Int) := by
  obtain ⟨first, rest, chars⟩ := List.exists_cons_of_ne_nil (mt String.toList_eq_nil_iff.mp some)
  rw [chars] at digits
  have all : (first :: rest).all Char.isDigit = true := by
    simp only [isDigit_eq] at digits
    exact List.all_eq_true.mpr digits
  have digit := digits first List.mem_cons_self
  rw [Text.integer?, chars]
  split
  · next listed =>
    rw [(List.cons.inj listed).1] at digit
    exact absurd digit (by decide)
  · next listed =>
    rw [(List.cons.inj listed).1] at digit
    exact absurd digit (by decide)
  · rw [Text.natural?, all]
    rfl

namespace Grammar

/-- What the nodes of a phrase stand for. -/
def Phrase.role : Phrase → Node.Role
  | expression _ | expressions | items => .expression
  | names => .name
  | parameters => .parameters
  | pairs => .pair
  | alternative | block => .block
  | statement | statements => .statement

theorem known_of_mem_binaryOperators {rank : Precedence} {token : Token}
    (member : token.kind ∈ binaryOperators rank) (spelled : token.Spelled) :
    token.text ∈ BinaryOperator.all.map BinaryOperator.text := by
  have all : ∀ kind ∈ binaryOperators rank,
      ∃ text ∈ BinaryOperator.all.map BinaryOperator.text, kind.fixedText? = some text := by
    cases rank <;> decide
  obtain ⟨text, listed, fixed⟩ := all _ member
  rw [spelled.text_eq fixed]
  exact listed

theorem known_of_mem_unaryOperators {token : Token} (member : token.kind ∈ unaryOperators)
    (spelled : token.Spelled) :
    token.text = UnaryOperator.not.text ∨ token.text = UnaryOperator.negate.text := by
  simp only [unaryOperators, List.mem_cons, List.not_mem_nil, or_false] at member
  rcases member with kind | kind
  · exact .inl (spelled.text_eq (by rw [kind]; rfl))
  · exact .inr (spelled.text_eq (by rw [kind]; rfl))

theorem shaped_integer {token : Token} (kind : token.kind = .int) (spelled : token.Spelled) :
    (Node.ofToken token).Shaped .expression := by
  cases spelled with
  | number _ some digits =>
    exact .integer kind (integer?_of_digits some digits)
  | mark listed =>
    have all : ∀ mark ∈ marks, mark.2 ≠ .int := by decide
    exact absurd kind (all _ listed)
  | word isWord =>
    rw [isWord] at kind
    exact absurd kind (TokenKind.ofWord_ne (by decide) (by decide))
  | string other | stray other =>
    rw [other] at kind
    cases kind

theorem Derives.shaped {separation : Separation} {phrase : Phrase} {tokens : List Token}
    {nodes : List Node} (derivation : Derives separation phrase tokens nodes)
    (spelled : ∀ token ∈ tokens, token.Spelled) : ∀ node ∈ nodes, node.Shaped phrase.role := by
  induction derivation with
  | tighten _ _ inner => exact inner spelled
  | binary member _ _ _ left right =>
    simp only [List.forall_mem_append, List.forall_mem_cons] at spelled
    obtain ⟨leftSpelled, operatorSpelled, rightSpelled⟩ := spelled
    simp only [List.forall_mem_singleton] at left right ⊢
    exact .binary (known_of_mem_binaryOperators member operatorSpelled) (left leftSpelled)
      (right rightSpelled)
  | unary member _ inner =>
    simp only [List.forall_mem_cons] at spelled
    simp only [List.forall_mem_singleton] at inner ⊢
    exact .unary (known_of_mem_unaryOperators member spelled.1) (inner spelled.2)
  | call _ _ _ _ callee inner =>
    simp only [List.forall_mem_append, List.forall_mem_cons] at spelled
    simp only [List.forall_mem_singleton] at callee ⊢
    exact .call (callee spelled.1) (inner spelled.2.2.1)
  | index _ _ _ _ left inner =>
    simp only [List.forall_mem_append, List.forall_mem_cons] at spelled
    simp only [List.forall_mem_singleton] at left inner ⊢
    exact .index (left spelled.1) (inner spelled.2.2.1)
  | leaf member =>
    simp only [List.forall_mem_singleton]
    exact .leaf member
  | integer kind _ =>
    simp only [List.forall_mem_singleton] at spelled ⊢
    exact shaped_integer kind spelled
  | group _ _ _ inner =>
    simp only [List.forall_mem_append, List.forall_mem_cons] at spelled
    exact inner spelled.2.1
  | array _ _ _ inner =>
    simp only [List.forall_mem_append, List.forall_mem_cons] at spelled
    simp only [List.forall_mem_singleton]
    exact .array (inner spelled.2.1)
  | hash _ _ _ inner =>
    simp only [List.forall_mem_append, List.forall_mem_cons] at spelled
    simp only [List.forall_mem_singleton]
    exact .hash (inner spelled.2.1)
  | conditional _ _ _ _ _ _ condition block other =>
    simp only [List.forall_mem_append, List.forall_mem_cons] at spelled
    obtain ⟨-, -, conditionSpelled, -, blockSpelled, otherSpelled⟩ := spelled
    simp only [List.forall_mem_singleton] at condition block ⊢
    exact .conditional (condition conditionSpelled) (block blockSpelled) (other otherSpelled)
  | function _ _ _ parameters block =>
    simp only [List.forall_mem_append, List.forall_mem_cons] at spelled
    simp only [List.forall_mem_singleton] at parameters block ⊢
    exact .function (parameters spelled.2.1) (block spelled.2.2)
  | oneExpression _ inner => exact inner spelled
  | moreExpressions _ _ _ inner others =>
    simp only [List.forall_mem_append, List.forall_mem_cons] at spelled
    simp only [List.forall_mem_singleton] at inner
    exact List.forall_mem_cons.mpr ⟨inner spelled.1, others spelled.2.2⟩
  | noItems | noPairs | noAlternative | noStatements => exact nofun
  | someItems _ inner => exact inner spelled
  | oneName kind =>
    simp only [List.forall_mem_singleton]
    exact .name kind
  | moreNames kind _ _ others =>
    simp only [List.forall_mem_cons] at spelled
    exact List.forall_mem_cons.mpr ⟨.name kind, others spelled.2.2⟩
  | noParameters =>
    simp only [List.forall_mem_singleton]
    exact .parameters nofun
  | someParameters _ _ _ inner =>
    simp only [List.forall_mem_append, List.forall_mem_cons] at spelled
    simp only [List.forall_mem_singleton]
    exact .parameters (inner spelled.2.1)
  | lastPair _ _ _ key value =>
    simp only [List.forall_mem_append, List.forall_mem_cons] at spelled
    simp only [List.forall_mem_singleton] at key value ⊢
    exact .pair (key spelled.1) (value spelled.2.2)
  | morePairs _ _ _ _ _ key value others =>
    simp only [List.forall_mem_append, List.forall_mem_cons] at spelled
    obtain ⟨keySpelled, -, valueSpelled, -, othersSpelled⟩ := spelled
    simp only [List.forall_mem_singleton] at key value
    exact List.forall_mem_cons.mpr
      ⟨.pair (key keySpelled) (value valueSpelled), others othersSpelled⟩
  | someAlternative _ _ inner =>
    simp only [List.forall_mem_cons] at spelled
    exact inner spelled.2
  | block _ _ _ inner =>
    simp only [List.forall_mem_append, List.forall_mem_cons] at spelled
    simp only [List.forall_mem_singleton]
    exact .block (inner spelled.2.1)
  | letStatement _ nameKind _ _ inner =>
    simp only [List.forall_mem_cons] at spelled
    simp only [List.forall_mem_singleton] at inner ⊢
    exact .letStatement nameKind (inner spelled.2.2.2)
  | returnStatement _ _ inner =>
    simp only [List.forall_mem_cons] at spelled
    simp only [List.forall_mem_singleton] at inner ⊢
    exact .returnStatement (inner spelled.2)
  | expressionStatement _ inner =>
    simp only [List.forall_mem_singleton] at inner ⊢
    exact .expressionStatement (inner spelled)
  | terminated _ _ _ inner others =>
    simp only [List.forall_mem_append, List.forall_mem_cons] at spelled
    simp only [List.forall_mem_singleton] at inner
    exact List.forall_mem_cons.mpr ⟨inner spelled.1, others spelled.2.2⟩
  | unterminated _ _ _ inner others =>
    simp only [List.forall_mem_append] at spelled
    simp only [List.forall_mem_singleton] at inner
    exact List.forall_mem_cons.mpr ⟨inner spelled.1, others spelled.2⟩

end Grammar

end Scriptlet
