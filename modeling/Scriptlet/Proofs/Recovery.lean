/-
This file is about the trees of sources with errors. A failed expectation leaves a hole and reading
goes on behind it, so holes can stand at any depth of a tree. They stand only where an expression is
expected, though: around them every tree has the children and the tokens that its label asks for.
`Node.Regular` lists these trees.

That each reader gives such a tree is proved by induction on its fuel. A reader that runs out of it
may give anything, and `Parser.Gives` leaves this open; a source is read on enough fuel.
-/

import Scriptlet.Proofs.Progress
import Scriptlet.Proofs.Shape

namespace Scriptlet

open Grammar

namespace Node

/-! ### Trees with holes -/

/-- The trees that are read from sources, with or without errors. What is expected to be an
expression may be a hole. -/
inductive Regular : Role → Node → Prop where
  | hole : Regular .expression .hole
  | leaf {token : Token} (kind : token.kind ∈ plainLeaves) : Regular .expression (.ofToken token)
  | integer {token : Token} (kind : token.kind = .int)
      (small : Text.decimalValue token.text.toList ≤ maxLiteral) :
      Regular .expression (.ofToken token)
  | unary {operator : Token} {operand : Node} (kind : operator.kind ∈ unaryOperators)
      (inner : Regular .expression operand) :
      Regular .expression (.tree .unary [.ofToken operator, operand])
  | binary {rank : Precedence} {operator : Token} {left right : Node}
      (kind : operator.kind ∈ binaryOperators rank) (leftRegular : Regular .expression left)
      (rightRegular : Regular .expression right) :
      Regular .expression (.tree .binary [.ofToken operator, left, right])
  | call {opening : Token} {callee : Node} {arguments : List Node}
      (opens : opening.kind = .leftParen) (calleeRegular : Regular .expression callee)
      (inner : ∀ argument ∈ arguments, Regular .expression argument) :
      Regular .expression (.tree .call (.ofToken opening :: callee :: arguments))
  | index {opening : Token} {left inside : Node} (opens : opening.kind = .leftBracket)
      (leftRegular : Regular .expression left) (inner : Regular .expression inside) :
      Regular .expression (.tree .index [.ofToken opening, left, inside])
  | array {opening : Token} {elements : List Node} (opens : opening.kind = .leftBracket)
      (inner : ∀ element ∈ elements, Regular .expression element) :
      Regular .expression (.tree .array (.ofToken opening :: elements))
  | hash {opening : Token} {pairs : List Node} (opens : opening.kind = .leftBrace)
      (inner : ∀ pair ∈ pairs, Regular .pair pair) :
      Regular .expression (.tree .hash (.ofToken opening :: pairs))
  | conditional {word : Token} {condition consequence : Node} {alternative : List Node}
      (kind : word.kind = .ifWord) (conditionRegular : Regular .expression condition)
      (blockRegular : Regular .block consequence) (single : alternative.length ≤ 1)
      (otherRegular : ∀ block ∈ alternative, Regular .block block) :
      Regular .expression
        (.tree .conditional (.ofToken word :: condition :: consequence :: alternative))
  | function {word : Token} {parameters body : Node} (kind : word.kind = .funcWord)
      (parametersRegular : Regular .parameters parameters) (bodyRegular : Regular .block body) :
      Regular .expression (.tree .function [.ofToken word, parameters, body])
  | name {token : Token} (kind : token.kind = .ident) : Regular .name (.ofToken token)
  | parameters {opening : Token} {names : List Node} (opens : opening.kind = .leftParen)
      (inner : ∀ name ∈ names, Regular .name name) :
      Regular .parameters (.tree .parameters (.ofToken opening :: names))
  | pair {colon : Token} {key value : Node} (kind : colon.kind = .colon)
      (keyRegular : Regular .expression key) (valueRegular : Regular .expression value) :
      Regular .pair (.tree .pair [.ofToken colon, key, value])
  | block {opening : Token} {statements : List Node} (opens : opening.kind = .leftBrace)
      (inner : ∀ statement ∈ statements, Regular .statement statement) :
      Regular .block (.tree .block (.ofToken opening :: statements))
  | letStatement {word name : Token} {value : Node} (kind : word.kind = .letWord)
      (nameKind : name.kind = .ident) (inner : Regular .expression value) :
      Regular .statement (.tree .letStatement [.ofToken word, .ofToken name, value])
  | returnStatement {word : Token} {value : Node} (kind : word.kind = .returnWord)
      (inner : Regular .expression value) :
      Regular .statement (.tree .returnStatement [.ofToken word, value])
  | expressionStatement {value : Node} (inner : Regular .expression value) :
      Regular .statement (.tree .expressionStatement [value])

end Node

namespace Parser

variable {α β : Type} {window : Window}

/-! ### What a reader gives -/

/-- The result of the reader has a property, unless the fuel has run out. -/
def Gives (parser : Parser α) (window : Window) (post : α → Prop) : Prop :=
  SyntaxError.outOfFuel ∈ (parser.run window).2.errors ∨ post (parser.run window).1

section

variable {post : β → Prop}

theorem gives_pure {result : β} (holds : post result) : Gives (pure result) window post :=
  .inr holds

/-- Fuel that has run out is not forgotten. -/
theorem Gives.bind {parser : Parser α} {continuation : α → Parser β} {middle : α → Prop}
    (first : Gives parser window middle) [steady : ∀ result, Steady (continuation result)]
    (second : ∀ result after, middle result → Gives (continuation result) after post) :
    Gives (parser >>= continuation) window post := by
  rcases first with spent | holds
  · exact .inl (((steady _).leads _).errors.subset spent)
  · exact second _ _ holds

/-- The same for a reader of which the two results are looked at one by one. -/
theorem Gives.bind_option {parser : Parser (Option α)} {continuation : Option α → Parser β}
    {middle : Option α → Prop} (first : Gives parser window middle)
    [nothing : Steady (continuation none)] [found : ∀ result, Steady (continuation (some result))]
    (missed : ∀ after, Gives (continuation none) after post)
    (second : ∀ result after, middle (some result) →
      Gives (continuation (some result)) after post) :
    Gives (parser >>= continuation) window post := by
  have steady (result : Option α) : Steady (continuation result) := by
    cases result
    · exact nothing
    · exact found _
  refine first.bind fun result after holds => ?_
  cases result with
  | none => exact missed after
  | some result => exact second result after holds

theorem gives_outOfFuel {result : β} :
    Gives (record .outOfFuel >>= fun _ => pure result) window post :=
  .inl (List.mem_append_right _ List.mem_cons_self)

theorem gives_current_bind {onward : Token → Parser β} :
    Gives (current >>= onward) window post ↔ Gives (onward window.current) window post :=
  Iff.rfl

theorem gives_ahead_bind {onward : Token → Parser β} :
    Gives (ahead >>= onward) window post ↔ Gives (onward window.ahead) window post :=
  Iff.rfl

theorem gives_advance_bind {onward : Unit → Parser β} :
    Gives (advance >>= onward) window post ↔ Gives (onward ()) window.advance post :=
  Iff.rfl

theorem gives_record_bind {error : SyntaxError} {onward : Unit → Parser β} :
    Gives (record error >>= onward) window post ↔ Gives (onward ()) (window.record error) post :=
  Iff.rfl

theorem gives_ite {condition : Prop} [Decidable condition] {yes no : Parser β} :
    Gives (if condition then yes else no) window post ↔
      (condition → Gives yes window post) ∧ (¬ condition → Gives no window post) := by
  by_cases holds : condition <;> simp [holds]

theorem gives_expect_bind {wanted : TokenKind} {onward : Bool → Parser β} :
    Gives (expect wanted >>= onward) window post ↔
      (window.ahead.kind = wanted → Gives (onward true) window.advance post) ∧
        (window.ahead.kind ≠ wanted →
          Gives (onward false) (window.record (.unexpected wanted window.ahead.kind)) post) := by
  simp only [expect, bind_assoc, gives_ahead_bind]
  by_cases found : window.ahead.kind = wanted
  · simp only [found, if_true, bind_assoc, pure_bind, gives_advance_bind, forall_const, ne_eq,
      not_true_eq_false, false_implies, and_true]
  · simp only [found, if_false, bind_assoc, pure_bind, gives_record_bind, false_implies, ne_eq,
      not_false_eq_true, forall_const, true_and]

/-- A reader that gives up where a token is missing. -/
theorem gives_unless_expect {wanted : TokenKind} {missed : β} {rest : Parser β}
    (fails : post missed) (found : window.ahead.kind = wanted → Gives rest window.advance post) :
    Gives (expect wanted >>= fun given => if (!given) = true then pure missed else rest) window
      post := by
  rw [gives_expect_bind]
  exact ⟨found, fun _ => gives_pure fails⟩

/-- A reader that goes on where a token is found. -/
theorem gives_when_expect {wanted : TokenKind} {missed : β} {rest : Parser β}
    (fails : post missed) (found : window.ahead.kind = wanted → Gives rest window.advance post) :
    Gives (expect wanted >>= fun given => if given = true then rest else pure missed) window
      post := by
  rw [gives_expect_bind]
  exact ⟨found, fun _ => gives_pure fails⟩

theorem gives_skipSemicolon {result : β} (holds : post result) :
    Gives (skipSemicolon >>= fun _ => pure result) window post := by
  simp only [skipSemicolon, bind_assoc, gives_ahead_bind]
  by_cases ends : window.ahead.kind = .semicolon
  · rw [if_pos ends]
    exact gives_pure holds
  · rw [if_neg ends]
    exact gives_pure holds

end

/-! ### The readers -/

/-- A reader that finds nothing has nothing to show. -/
theorem forall_mem_none {property : α → Prop} : ∀ found ∈ (none : Option α), property found :=
  fun found member => absurd member (Option.not_mem_none found)

theorem forall_mem_some {property : α → Prop} {result : α} (holds : property result) :
    ∀ found ∈ some result, property found := by
  rintro _ ⟨rfl⟩
  exact holds

/-- One node more before those that were found. -/
theorem forall_mem_map_cons {property : Node → Prop} {first : Node} {found : Option (List Node)}
    (own : property first) (others : ∀ nodes ∈ found, ∀ node ∈ nodes, property node) :
    ∀ nodes ∈ found.map (first :: ·), ∀ node ∈ nodes, property node := by
  intro nodes member
  obtain ⟨rest, read, rfl⟩ := Option.map_eq_some_iff.mp member
  exact List.forall_mem_cons.mpr ⟨own, others rest read⟩

theorem gives_names (fuel : Nat) (window : Window) :
    Gives (names fuel) window fun found =>
      ∀ names ∈ found, ∀ name ∈ names, name.Regular .name := by
  induction fuel generalizing window with
  | zero => exact gives_outOfFuel
  | succ fuel inductionHypothesis =>
    simp only [names]
    refine gives_when_expect forall_mem_none fun isName => ?_
    simp only [gives_current_bind, gives_ahead_bind, gives_ite, gives_advance_bind]
    constructor
    · exact fun _ => (inductionHypothesis _).bind fun rest _ regular =>
        gives_pure (forall_mem_map_cons (.name isName) regular)
    · exact fun _ => gives_pure (forall_mem_some (List.forall_mem_singleton.mpr (.name isName)))

theorem gives_parameters (fuel : Nat) {window : Window} (opens : window.current.kind = .leftParen) :
    Gives (parameters fuel) window fun found =>
      ∀ parameters ∈ found, parameters.Regular .parameters := by
  simp only [parameters, gives_current_bind, gives_ahead_bind, gives_ite, gives_advance_bind]
  constructor
  · exact fun _ => gives_pure (forall_mem_some (.parameters opens (List.forall_mem_nil _)))
  · intro _
    refine (gives_names fuel window).bind_option (fun _ => gives_pure forall_mem_none)
      fun names _ regular => gives_when_expect forall_mem_none fun _ => ?_
    exact gives_pure (forall_mem_some (.parameters opens (regular names rfl)))

theorem gives_integer {token : Token} (kind : token.kind = .int) (window : Window) :
    Gives (integer token) window (Node.Regular .expression) := by
  simp only [integer, gives_ite]
  exact ⟨fun small => gives_pure (.integer kind small), fun _ => gives_pure .hole⟩

/-- With so much fuel every reader gives regular trees. -/
structure Forms (fuel : Nat) : Prop where
  expression (rank : Precedence) (window : Window) :
    Gives (expression fuel rank) window (Node.Regular .expression)
  operators (rank : Precedence) {left : Node} (window : Window)
    (regular : left.Regular .expression) :
    Gives (operators fuel rank left) window (Node.Regular .expression)
  operand (token : Token) (window : Window) :
    Gives (operand fuel token) window (Node.Regular .expression)
  application {left : Node} {window : Window} (regular : left.Regular .expression)
    (binds : 1 < window.current.kind.precedence.level) :
    Gives (application fuel left) window (Node.Regular .expression)
  conditional {token : Token} (window : Window) (kind : token.kind = .ifWord) :
    Gives (conditional fuel token) window (Node.Regular .expression)
  function {token : Token} (window : Window) (kind : token.kind = .funcWord) :
    Gives (function fuel token) window (Node.Regular .expression)
  expressionList (close : TokenKind) (window : Window) :
    Gives (expressionList fuel close) window fun found =>
      ∀ items ∈ found, ∀ item ∈ items, item.Regular .expression
  expressions (window : Window) :
    Gives (expressions fuel) window fun items => ∀ item ∈ items, item.Regular .expression
  pairs (window : Window) :
    Gives (pairs fuel) window fun found => ∀ pairs ∈ found, ∀ pair ∈ pairs, pair.Regular .pair
  block {window : Window} (opens : window.current.kind = .leftBrace) :
    Gives (block fuel) window (Node.Regular .block)
  statements (inBlock : Bool) (window : Window) :
    Gives (statements fuel inBlock) window fun statements =>
      ∀ statement ∈ statements, statement.Regular .statement
  statement (window : Window) :
    Gives (statement fuel) window fun found => ∀ statement ∈ found, statement.Regular .statement

variable {fuel : Nat}

theorem Forms.expression_succ (forms : Forms fuel) (rank : Precedence) (window : Window) :
    Gives (Parser.expression (fuel + 1) rank) window (Node.Regular .expression) := by
  simp only [Parser.expression, gives_current_bind, gives_ite]
  refine ⟨fun _ => ?_, fun _ => gives_pure .hole⟩
  exact (forms.operand _ window).bind fun left after regular => forms.operators rank after regular

theorem Forms.operators_succ (forms : Forms fuel) (rank : Precedence) {left : Node}
    (window : Window) (regular : left.Regular .expression) :
    Gives (Parser.operators (fuel + 1) rank left) window (Node.Regular .expression) := by
  simp only [Parser.operators, gives_ahead_bind, gives_ite, gives_advance_bind]
  refine ⟨fun tighter => ?_, fun _ => gives_pure regular⟩
  have binds : 1 < window.advance.current.kind.precedence.level :=
    Nat.lt_of_le_of_lt rank.one_le_level tighter
  exact (forms.application regular binds).bind fun applied after regular =>
    forms.operators rank after regular

theorem Forms.operand_succ (forms : Forms fuel) (token : Token) (window : Window) :
    Gives (Parser.operand (fuel + 1) token) window (Node.Regular .expression) := by
  unfold Parser.operand
  split
  · next kind => exact gives_pure (.leaf (by rw [kind]; decide))
  · next kind => exact gives_pure (.leaf (by rw [kind]; decide))
  · next kind => exact gives_pure (.leaf (by rw [kind]; decide))
  · next kind => exact gives_pure (.leaf (by rw [kind]; decide))
  · next kind => exact gives_integer kind window
  · next kind =>
    rw [gives_advance_bind]
    exact (forms.expression .unary _).bind fun operand _ regular =>
      gives_pure (.unary (by rw [kind]; decide) regular)
  · next kind =>
    rw [gives_advance_bind]
    exact (forms.expression .unary _).bind fun operand _ regular =>
      gives_pure (.unary (by rw [kind]; decide) regular)
  · rw [gives_advance_bind]
    exact (forms.expression .lowest _).bind fun inner _ regular =>
      gives_when_expect .hole fun _ => gives_pure regular
  · next kind => exact forms.conditional window kind
  · next kind => exact forms.function window kind
  · next kind =>
    exact (forms.expressionList _ window).bind_option (fun _ => gives_pure .hole)
      fun elements _ regular => gives_pure (.array kind (regular elements rfl))
  · next kind =>
    exact (forms.pairs window).bind_option (fun _ => gives_pure .hole)
      fun pairs _ regular => gives_pure (.hash kind (regular pairs rfl))
  · exact gives_pure .hole

theorem Forms.application_succ (forms : Forms fuel) {left : Node} {window : Window}
    (regular : left.Regular .expression) (binds : 1 < window.current.kind.precedence.level) :
    Gives (Parser.application (fuel + 1) left) window (Node.Regular .expression) := by
  simp only [Parser.application, gives_current_bind]
  split
  · next kind =>
    exact (forms.expressionList _ window).bind_option (fun _ => gives_pure .hole)
      fun arguments _ inner => gives_pure (.call kind regular (inner arguments rfl))
  · next kind =>
    rw [gives_advance_bind]
    exact (forms.expression .lowest _).bind fun inside _ inner =>
      gives_when_expect .hole fun _ => gives_pure (.index kind regular inner)
  · next notCall notIndex =>
    rw [gives_advance_bind]
    refine (forms.expression _ _).bind fun right _ inner => gives_pure ?_
    -- What binds is a parenthesis, a bracket or a binary operator.
    rcases mem_binaryOperators_of_level binds with call | index | binary
    · exact absurd call notCall
    · exact absurd index notIndex
    · exact .binary binary regular inner

/-- A block whose opening brace is ahead. -/
theorem Forms.block_ahead (forms : Forms fuel) {window : Window}
    (opens : window.ahead.kind = .leftBrace) :
    Gives (Parser.block fuel) window.advance (Node.Regular .block) :=
  forms.block opens

set_option synthInstance.maxSize 2048 in
theorem Forms.conditional_succ (forms : Forms fuel) {token : Token} (window : Window)
    (kind : token.kind = .ifWord) :
    Gives (Parser.conditional (fuel + 1) token) window (Node.Regular .expression) := by
  simp only [Parser.conditional]
  refine gives_unless_expect .hole fun _ => ?_
  rw [gives_advance_bind]
  refine (forms.expression .lowest _).bind fun condition _ inner => ?_
  refine gives_unless_expect .hole fun _ => gives_unless_expect .hole fun opens => ?_
  refine (forms.block_ahead opens).bind fun consequence _ block => ?_
  simp only [gives_ahead_bind, gives_ite, gives_advance_bind]
  constructor
  · intro _
    refine gives_unless_expect .hole fun opens => ?_
    refine (forms.block_ahead opens).bind fun alternative _ other => gives_pure ?_
    exact .conditional kind inner block (Nat.le_refl _) (List.forall_mem_singleton.mpr other)
  · exact fun _ =>
      gives_pure (.conditional kind inner block (Nat.zero_le _) (List.forall_mem_nil _))

theorem Forms.function_succ (forms : Forms fuel) {token : Token} (window : Window)
    (kind : token.kind = .funcWord) :
    Gives (Parser.function (fuel + 1) token) window (Node.Regular .expression) := by
  simp only [Parser.function]
  refine gives_unless_expect .hole fun opens => ?_
  have read := gives_parameters fuel (show window.advance.current.kind = .leftParen from opens)
  refine read.bind_option (fun _ => gives_pure .hole) fun parameters _ regular => ?_
  refine gives_unless_expect .hole fun opens => ?_
  exact (forms.block_ahead opens).bind fun body _ block =>
    gives_pure (.function kind (regular parameters rfl) block)

theorem Forms.expressionList_succ (forms : Forms fuel) (close : TokenKind) (window : Window) :
    Gives (Parser.expressionList (fuel + 1) close) window fun found =>
      ∀ items ∈ found, ∀ item ∈ items, item.Regular .expression := by
  simp only [Parser.expressionList, gives_ahead_bind, gives_ite, gives_advance_bind]
  constructor
  · exact fun _ => gives_pure (forall_mem_some (List.forall_mem_nil _))
  · refine fun _ => (forms.expressions _).bind fun items _ regular => ?_
    exact gives_when_expect forall_mem_none fun _ => gives_pure (forall_mem_some regular)

theorem Forms.expressions_succ (forms : Forms fuel) (window : Window) :
    Gives (Parser.expressions (fuel + 1)) window fun items =>
      ∀ item ∈ items, item.Regular .expression := by
  simp only [Parser.expressions]
  refine (forms.expression .lowest window).bind fun first _ regular => ?_
  simp only [gives_ahead_bind, gives_ite, gives_advance_bind]
  refine ⟨fun _ => ?_, fun _ => gives_pure (List.forall_mem_singleton.mpr regular)⟩
  exact (forms.expressions _).bind fun rest _ others =>
    gives_pure (List.forall_mem_cons.mpr ⟨regular, others⟩)

set_option synthInstance.maxSize 2048 in
theorem Forms.pairs_succ (forms : Forms fuel) (window : Window) :
    Gives (Parser.pairs (fuel + 1)) window fun found =>
      ∀ pairs ∈ found, ∀ pair ∈ pairs, pair.Regular .pair := by
  -- Behind a pair the others follow, with or without a comma.
  have again {pair : Node} (regular : pair.Regular .pair) (window : Window) :
      Gives (Parser.pairs fuel >>= fun others => pure (others.map (pair :: ·))) window fun found =>
        ∀ pairs ∈ found, ∀ pair ∈ pairs, pair.Regular .pair :=
    (forms.pairs window).bind fun others _ inner =>
      gives_pure (forall_mem_map_cons regular inner)
  simp only [Parser.pairs, gives_ahead_bind, gives_ite, gives_advance_bind]
  constructor
  · exact fun _ => gives_pure (forall_mem_some (List.forall_mem_nil _))
  · intro _
    refine (forms.expression .lowest _).bind fun key _ keyRegular => ?_
    refine gives_unless_expect forall_mem_none fun isColon => ?_
    rw [gives_current_bind, gives_advance_bind]
    refine (forms.expression .lowest _).bind fun value _ valueRegular => ?_
    have regular := Node.Regular.pair isColon keyRegular valueRegular
    rw [gives_ahead_bind, gives_ite]
    refine ⟨fun _ => again regular _, fun _ => ?_⟩
    exact gives_when_expect forall_mem_none fun _ => again regular _

theorem Forms.block_succ (forms : Forms fuel) {window : Window}
    (opens : window.current.kind = .leftBrace) :
    Gives (Parser.block (fuel + 1)) window (Node.Regular .block) := by
  simp only [Parser.block, gives_current_bind, gives_advance_bind]
  refine (forms.statements true _).bind fun statements _ regular => ?_
  simp only [gives_current_bind, gives_ite, gives_record_bind]
  exact ⟨fun _ => gives_pure (.block opens regular), fun _ => gives_pure (.block opens regular)⟩

theorem Forms.statements_succ (forms : Forms fuel) (inBlock : Bool) (window : Window) :
    Gives (Parser.statements (fuel + 1) inBlock) window fun statements =>
      ∀ statement ∈ statements, statement.Regular .statement := by
  simp only [Parser.statements, gives_current_bind, gives_ite]
  refine ⟨fun _ => gives_pure (List.forall_mem_nil _), fun _ => ?_⟩
  refine (forms.statement window).bind fun first _ regular => ?_
  rw [gives_advance_bind]
  refine (forms.statements inBlock _).bind fun rest _ others => gives_pure ?_
  refine List.forall_mem_append.mpr ⟨fun statement member => ?_, others⟩
  exact regular statement (Option.mem_toList.mp member)

theorem Forms.statement_succ (forms : Forms fuel) (window : Window) :
    Gives (Parser.statement (fuel + 1)) window fun found =>
      ∀ statement ∈ found, statement.Regular .statement := by
  simp only [Parser.statement, gives_current_bind]
  split
  · next kind =>
    refine gives_unless_expect forall_mem_none fun isName => ?_
    rw [gives_current_bind]
    refine gives_unless_expect forall_mem_none fun _ => ?_
    rw [gives_advance_bind]
    exact (forms.expression .lowest _).bind fun value _ regular =>
      gives_skipSemicolon (forall_mem_some (.letStatement kind isName regular))
  · next kind =>
    rw [gives_advance_bind]
    exact (forms.expression .lowest _).bind fun value _ regular =>
      gives_skipSemicolon (forall_mem_some (.returnStatement kind regular))
  · exact (forms.expression .lowest _).bind fun value _ regular =>
      gives_skipSemicolon (forall_mem_some (.expressionStatement regular))

/-- Every reader gives regular trees as long as there is fuel. -/
theorem forms (fuel : Nat) : Forms fuel := by
  induction fuel with
  | zero => constructor <;> intros <;> exact gives_outOfFuel
  | succ fuel inductionHypothesis =>
    exact ⟨inductionHypothesis.expression_succ, inductionHypothesis.operators_succ,
      inductionHypothesis.operand_succ, inductionHypothesis.application_succ,
      inductionHypothesis.conditional_succ, inductionHypothesis.function_succ,
      inductionHypothesis.expressionList_succ, inductionHypothesis.expressions_succ,
      inductionHypothesis.pairs_succ, inductionHypothesis.block_succ,
      inductionHypothesis.statements_succ, inductionHypothesis.statement_succ⟩

end Parser

namespace Node

/-! ### Everywhere in a tree -/

/-- The node is the other one or stands somewhere inside it. -/
inductive Within (node : Node) : Node → Prop where
  | self : Within node node
  | child {label : Label} {children : List Node} {child : Node} (member : child ∈ children)
      (inner : Within node child) : Within node (.tree label children)

/-- A property that a node and every node inside it has. -/
def Everywhere (property : Node → Prop) (node : Node) : Prop :=
  ∀ inner : Node, inner.Within node → property inner

section

variable {property : Node → Prop} {label : Label} {token : Token} {children : List Node}

theorem everywhere_ofToken (own : property (.ofToken token)) :
    (ofToken token).Everywhere property := by
  intro inner within
  cases within
  exact own

theorem everywhere_tree (own : property (.tree label children))
    (inside : ∀ child ∈ children, child.Everywhere property) :
    (tree label children).Everywhere property := by
  intro inner within
  cases within with
  | self => exact own
  | child member deeper => exact inside _ member inner deeper

/-- The same for a tree that starts with a token. -/
theorem everywhere_introduced (first : property (.ofToken token))
    (own : property (.tree label (.ofToken token :: children)))
    (inside : ∀ child ∈ children, child.Everywhere property) :
    (tree label (.ofToken token :: children)).Everywhere property :=
  everywhere_tree own (List.forall_mem_cons.mpr ⟨everywhere_ofToken first, inside⟩)

end

/-- The trees of the grammar have no holes. -/
theorem Shaped.everywhere_ne_hole {role : Role} {node : Node} (shaped : node.Shaped role) :
    node.Everywhere (· ≠ .hole) := by
  induction shaped with
  | leaf | integer | name => exact everywhere_ofToken nofun
  | unary _ _ inner | returnStatement _ inner =>
    exact everywhere_introduced nofun nofun (List.forall_mem_singleton.mpr inner)
  | binary _ _ _ left right | index _ _ left right | pair _ _ left right
  | function _ _ left right =>
    exact everywhere_introduced nofun nofun
      (List.forall_mem_cons.mpr ⟨left, List.forall_mem_singleton.mpr right⟩)
  | call _ _ callee inner =>
    exact everywhere_introduced nofun nofun (List.forall_mem_cons.mpr ⟨callee, inner⟩)
  | array _ inner | hash _ inner | parameters _ inner | block _ inner =>
    exact everywhere_introduced nofun nofun inner
  | conditional _ _ _ condition block other =>
    exact everywhere_introduced nofun nofun
      (List.forall_mem_cons.mpr ⟨condition, List.forall_mem_cons.mpr ⟨block, other⟩⟩)
  | letStatement _ _ inner =>
    exact everywhere_introduced nofun nofun (List.forall_mem_cons.mpr
      ⟨everywhere_ofToken nofun, List.forall_mem_singleton.mpr inner⟩)
  | expressionStatement _ inner => exact everywhere_tree nofun (List.forall_mem_singleton.mpr inner)

end Node

/-! ### The tree of a source -/

/-- The statements of any source are regular. -/
theorem exists_regular (text : String) :
    ∃ statements, (readSource text).program = .tree .program statements ∧
      ∀ statement ∈ statements, statement.Regular .statement := by
  have fueled := outOfFuel_not_mem_errors text
  refine ⟨_, rfl, ?_⟩
  rcases (Parser.forms (Window.ofText text).fuel).statements false (Window.ofText text) with
    spent | regular
  · exact absurd spent fueled
  · exact regular

/-- A hole is left by an error. -/
theorem errors_ne_nil_of_hole {text : String} {statements : List Node}
    (program : (readSource text).program = .tree .program statements)
    (missing : Node.hole.Within (.tree .program statements)) : (readSource text).errors ≠ [] := by
  intro accepted
  obtain ⟨derivedStatements, same, derived⟩ := program_of_readSource accepted
  obtain ⟨-, rfl⟩ := Node.tree.inj (program.symm.trans same)
  have shaped := derived.shaped (Cursor.spelled_of_mem_scan _)
  have whole : (Node.tree .program statements).Everywhere (· ≠ .hole) :=
    Node.everywhere_tree nofun fun statement member =>
      (shaped statement member).everywhere_ne_hole
  exact whole .hole missing rfl

end Scriptlet
