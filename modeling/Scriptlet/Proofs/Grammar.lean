/-
This file gives the grammar of the language: which runs of tokens stand for which
trees. It is stratified. Each rank of operators has a stratum of its own, a binary
operator takes its left operand from its own stratum and its right operand from the
next tighter one, and what stands between parentheses starts again at the loosest.
The operators of each rank and the order of the strata are written out here, so the
grammar owes nothing to the way in which a reader climbs them.

A derivation says of one phrase which tokens it covers and which nodes they add to
the tree around it. The leaves of these nodes are the tokens themselves, with their
places.

Two grammars differ in how statements are kept apart. Where a semicolon is required
there is one between any two statements, and the last of a block or program may have
one; where it is optional a statement may also follow another directly.
-/

import Scriptlet.Tree.Parser

namespace Scriptlet

/-- The next tighter rank; nothing binds tighter than a call. -/
def Precedence.tighter? : Precedence → Option Precedence
  | lowest => some equality
  | equality => some comparison
  | comparison => some sum
  | sum => some product
  | product => some unary
  | unary => some call
  | call => none

/-- The stratum of what stands to the right of an operator of a rank. -/
def Precedence.operandStratum : Precedence → Precedence
  | lowest => equality
  | equality => comparison
  | comparison => sum
  | sum => product
  | product => unary
  | unary => unary
  | call => unary

/-- The tokens of a text, without the closing one. -/
def sourceTokens (text : String) : List Token :=
  (Cursor.ofText text).scan.tokens

namespace Precedence

theorem operandStratum_level_le_unary (rank : Precedence) :
    rank.operandStratum.level ≤ unary.level := by
  cases rank <;> decide

theorem operandStratum_level_le {rank stratum : Precedence}
    (tighter : rank.level < stratum.level) : rank.operandStratum.level ≤ stratum.level := by
  cases rank <;> cases stratum <;> first | decide | exact absurd tighter (by decide)

theorem level_lowest_le (rank : Precedence) : lowest.level ≤ rank.level := by
  cases rank <;> decide

theorem level_le_call (rank : Precedence) : rank.level ≤ call.level := by
  cases rank <;> decide

end Precedence

namespace Grammar

/-- The binary operators of each rank. -/
def binaryOperators : Precedence → List TokenKind
  | .equality => [.equal, .notEqual]
  | .comparison => [.less, .greater, .and, .or]
  | .sum => [.plus, .minus]
  | .product => [.asterisk, .slash]
  | _ => []

/-- The unary operators. -/
def unaryOperators : List TokenKind :=
  [.bang, .minus]

/-- The kinds of token that are expressions by themselves, integers apart. -/
def plainLeaves : List TokenKind :=
  [.ident, .string, .trueWord, .falseWord]

/-- Whether two statements need a semicolon between them. -/
inductive Separation where
  | required
  | optional
  deriving DecidableEq

/-- The phrases of the grammar. -/
inductive Phrase where
  /-- An expression of one stratum. -/
  | expression (rank : Precedence)
  /-- Expressions with commas between them, at least one. -/
  | expressions
  /-- The elements of an array or the arguments of a call, possibly none. -/
  | items
  /-- Names with commas between them, at least one. -/
  | names
  /-- A parameter list with its parentheses. -/
  | parameters
  /-- The pairs of a hash; a comma may stand behind the last one. -/
  | pairs
  /-- What may follow the first block of a conditional. -/
  | alternative
  | block
  | statement
  | statements

/-- The tokens that a phrase covers and the nodes that they stand for. -/
inductive Derives (separation : Separation) : Phrase → List Token → List Node → Prop where
  | tighten {rank tighter : Precedence} {tokens : List Token} {node : Node}
      (next : rank.tighter? = some tighter)
      (inner : Derives separation (.expression tighter) tokens [node]) :
      Derives separation (.expression rank) tokens [node]
  | binary {rank tighter : Precedence} {operator : Token} {leftTokens rightTokens : List Token}
      {left right : Node} (member : operator.kind ∈ binaryOperators rank)
      (next : rank.tighter? = some tighter)
      (leftDerives : Derives separation (.expression rank) leftTokens [left])
      (rightDerives : Derives separation (.expression tighter) rightTokens [right]) :
      Derives separation (.expression rank) (leftTokens ++ operator :: rightTokens)
        [.tree .binary [.ofToken operator, left, right]]
  | unary {operator : Token} {tokens : List Token} {operand : Node}
      (member : operator.kind ∈ unaryOperators)
      (inner : Derives separation (.expression .unary) tokens [operand]) :
      Derives separation (.expression .unary) (operator :: tokens)
        [.tree .unary [.ofToken operator, operand]]
  | call {opening closing : Token} {calleeTokens tokens : List Token} {callee : Node}
      {arguments : List Node} (opens : opening.kind = .leftParen)
      (closes : closing.kind = .rightParen)
      (calleeDerives : Derives separation (.expression .call) calleeTokens [callee])
      (inner : Derives separation .items tokens arguments) :
      Derives separation (.expression .call) (calleeTokens ++ opening :: (tokens ++ [closing]))
        [.tree .call (.ofToken opening :: callee :: arguments)]
  | index {opening closing : Token} {leftTokens tokens : List Token} {left inside : Node}
      (opens : opening.kind = .leftBracket) (closes : closing.kind = .rightBracket)
      (leftDerives : Derives separation (.expression .call) leftTokens [left])
      (inner : Derives separation (.expression .lowest) tokens [inside]) :
      Derives separation (.expression .call) (leftTokens ++ opening :: (tokens ++ [closing]))
        [.tree .index [.ofToken opening, left, inside]]
  | leaf {token : Token} (member : token.kind ∈ plainLeaves) :
      Derives separation (.expression .call) [token] [.ofToken token]
  | integer {token : Token} (kind : token.kind = .int)
      (fits : Text.decimalValue token.text.toList ≤ maxLiteral) :
      Derives separation (.expression .call) [token] [.ofToken token]
  | group {opening closing : Token} {tokens : List Token} {node : Node}
      (opens : opening.kind = .leftParen) (closes : closing.kind = .rightParen)
      (inner : Derives separation (.expression .lowest) tokens [node]) :
      Derives separation (.expression .call) (opening :: (tokens ++ [closing])) [node]
  | array {opening closing : Token} {tokens : List Token} {elements : List Node}
      (opens : opening.kind = .leftBracket) (closes : closing.kind = .rightBracket)
      (inner : Derives separation .items tokens elements) :
      Derives separation (.expression .call) (opening :: (tokens ++ [closing]))
        [.tree .array (.ofToken opening :: elements)]
  | hash {opening closing : Token} {tokens : List Token} {pairs : List Node}
      (opens : opening.kind = .leftBrace) (closes : closing.kind = .rightBrace)
      (inner : Derives separation .pairs tokens pairs) :
      Derives separation (.expression .call) (opening :: (tokens ++ [closing]))
        [.tree .hash (.ofToken opening :: pairs)]
  | conditional {word opening closing : Token}
      {conditionTokens blockTokens otherTokens : List Token} {condition consequence : Node}
      {alternative : List Node} (kind : word.kind = .ifWord) (opens : opening.kind = .leftParen)
      (closes : closing.kind = .rightParen)
      (conditionDerives : Derives separation (.expression .lowest) conditionTokens [condition])
      (blockDerives : Derives separation .block blockTokens [consequence])
      (otherDerives : Derives separation .alternative otherTokens alternative) :
      Derives separation (.expression .call)
        (word :: opening :: (conditionTokens ++ closing :: (blockTokens ++ otherTokens)))
        [.tree .conditional (.ofToken word :: condition :: consequence :: alternative)]
  | function {word : Token} {parameterTokens blockTokens : List Token} {parameters body : Node}
      (kind : word.kind = .funcWord)
      (parametersDerive : Derives separation .parameters parameterTokens [parameters])
      (blockDerives : Derives separation .block blockTokens [body]) :
      Derives separation (.expression .call) (word :: (parameterTokens ++ blockTokens))
        [.tree .function [.ofToken word, parameters, body]]
  | oneExpression {tokens : List Token} {node : Node}
      (inner : Derives separation (.expression .lowest) tokens [node]) :
      Derives separation .expressions tokens [node]
  | moreExpressions {comma : Token} {tokens restTokens : List Token} {node : Node}
      {rest : List Node} (separates : comma.kind = .comma)
      (inner : Derives separation (.expression .lowest) tokens [node])
      (restDerives : Derives separation .expressions restTokens rest) :
      Derives separation .expressions (tokens ++ comma :: restTokens) (node :: rest)
  | noItems : Derives separation .items [] []
  | someItems {tokens : List Token} {nodes : List Node}
      (inner : Derives separation .expressions tokens nodes) :
      Derives separation .items tokens nodes
  | oneName {name : Token} (kind : name.kind = .ident) :
      Derives separation .names [name] [.ofToken name]
  | moreNames {name comma : Token} {restTokens : List Token} {rest : List Node}
      (kind : name.kind = .ident) (separates : comma.kind = .comma)
      (restDerives : Derives separation .names restTokens rest) :
      Derives separation .names (name :: comma :: restTokens) (.ofToken name :: rest)
  | noParameters {opening closing : Token} (opens : opening.kind = .leftParen)
      (closes : closing.kind = .rightParen) :
      Derives separation .parameters [opening, closing] [.tree .parameters [.ofToken opening]]
  | someParameters {opening closing : Token} {tokens : List Token} {names : List Node}
      (opens : opening.kind = .leftParen) (closes : closing.kind = .rightParen)
      (inner : Derives separation .names tokens names) :
      Derives separation .parameters (opening :: (tokens ++ [closing]))
        [.tree .parameters (.ofToken opening :: names)]
  | noPairs : Derives separation .pairs [] []
  | lastPair {colon : Token} {keyTokens valueTokens : List Token} {key value : Node}
      (kind : colon.kind = .colon)
      (keyDerives : Derives separation (.expression .lowest) keyTokens [key])
      (valueDerives : Derives separation (.expression .lowest) valueTokens [value]) :
      Derives separation .pairs (keyTokens ++ colon :: valueTokens)
        [.tree .pair [.ofToken colon, key, value]]
  | morePairs {colon comma : Token} {keyTokens valueTokens restTokens : List Token}
      {key value : Node} {rest : List Node} (kind : colon.kind = .colon)
      (separates : comma.kind = .comma)
      (keyDerives : Derives separation (.expression .lowest) keyTokens [key])
      (valueDerives : Derives separation (.expression .lowest) valueTokens [value])
      (restDerives : Derives separation .pairs restTokens rest) :
      Derives separation .pairs (keyTokens ++ colon :: (valueTokens ++ comma :: restTokens))
        (.tree .pair [.ofToken colon, key, value] :: rest)
  | noAlternative : Derives separation .alternative [] []
  | someAlternative {word : Token} {tokens : List Token} {block : Node}
      (kind : word.kind = .elseWord) (inner : Derives separation .block tokens [block]) :
      Derives separation .alternative (word :: tokens) [block]
  | block {opening closing : Token} {tokens : List Token} {statements : List Node}
      (opens : opening.kind = .leftBrace) (closes : closing.kind = .rightBrace)
      (inner : Derives separation .statements tokens statements) :
      Derives separation .block (opening :: (tokens ++ [closing]))
        [.tree .block (.ofToken opening :: statements)]
  | letStatement {word name equals : Token} {tokens : List Token} {value : Node}
      (kind : word.kind = .letWord) (nameKind : name.kind = .ident)
      (equalsKind : equals.kind = .assign)
      (inner : Derives separation (.expression .lowest) tokens [value]) :
      Derives separation .statement (word :: name :: equals :: tokens)
        [.tree .letStatement [.ofToken word, .ofToken name, value]]
  | returnStatement {word : Token} {tokens : List Token} {value : Node}
      (kind : word.kind = .returnWord)
      (inner : Derives separation (.expression .lowest) tokens [value]) :
      Derives separation .statement (word :: tokens)
        [.tree .returnStatement [.ofToken word, value]]
  | expressionStatement {tokens : List Token} {value : Node}
      (inner : Derives separation (.expression .lowest) tokens [value]) :
      Derives separation .statement tokens [.tree .expressionStatement [value]]
  | noStatements : Derives separation .statements [] []
  | terminated {semicolon : Token} {tokens restTokens : List Token} {statement : Node}
      {rest : List Node} (ends : semicolon.kind = .semicolon)
      (inner : Derives separation .statement tokens [statement])
      (restDerives : Derives separation .statements restTokens rest) :
      Derives separation .statements (tokens ++ semicolon :: restTokens) (statement :: rest)
  | unterminated {tokens restTokens : List Token} {statement : Node} {rest : List Node}
      (apart : separation = .optional ∨ restTokens = [])
      (inner : Derives separation .statement tokens [statement])
      (restDerives : Derives separation .statements restTokens rest) :
      Derives separation .statements (tokens ++ restTokens) (statement :: rest)

/-- The tokens of a whole program and its tree. -/
def Program (separation : Separation) (tokens : List Token) (tree : Node) : Prop :=
  ∃ statements, tree = .tree .program statements ∧
    Derives separation .statements tokens statements

/-! ### The table of ranks agrees with the strata -/

theorem precedence_of_mem_binaryOperators {kind : TokenKind} {rank : Precedence}
    (member : kind ∈ binaryOperators rank) : kind.precedence = rank := by
  cases rank <;> simp only [binaryOperators, List.mem_cons, List.not_mem_nil, or_false] at member
  · rcases member with rfl | rfl <;> rfl
  · rcases member with rfl | rfl | rfl | rfl <;> rfl
  · rcases member with rfl | rfl <;> rfl
  · rcases member with rfl | rfl <;> rfl

theorem tighter?_of_mem_binaryOperators {kind : TokenKind} {rank : Precedence}
    (member : kind ∈ binaryOperators rank) : rank.tighter? = some rank.operandStratum := by
  cases rank <;> first | rfl | cases member

/-- A token that binds its neighbours opens a call or an index or is a binary operator. -/
theorem mem_binaryOperators_of_level {kind : TokenKind} (binds : 1 < kind.precedence.level) :
    kind = .leftParen ∨ kind = .leftBracket ∨ kind ∈ binaryOperators kind.precedence := by
  cases kind <;> first | decide | exact absurd binds (by decide)

theorem exists_tighter {rank stratum : Precedence} (looser : rank.level < stratum.level) :
    ∃ tighter, rank.tighter? = some tighter ∧ tighter.level = rank.level + 1 := by
  cases rank
  case call => cases stratum <;> exact absurd looser (by decide)
  all_goals exact ⟨_, rfl, rfl⟩

theorem level_of_tighter {rank tighter : Precedence} (next : rank.tighter? = some tighter) :
    tighter.level = rank.level + 1 := by
  cases rank <;> cases next <;> rfl

/-- An expression of a stratum belongs to every looser one. -/
theorem Derives.loosen {separation : Separation} {rank stratum : Precedence}
    {tokens : List Token} {node : Node} (looser : rank.level ≤ stratum.level)
    (derivation : Derives separation (.expression stratum) tokens [node]) :
    Derives separation (.expression rank) tokens [node] := by
  obtain ⟨steps, levels⟩ := Nat.exists_eq_add_of_le looser
  induction steps generalizing rank with
  | zero =>
    rw [Precedence.level_injective levels] at derivation
    exact derivation
  | succ steps inductionHypothesis =>
    have below : rank.level < stratum.level := by omega
    obtain ⟨tighter, next, level⟩ := exists_tighter below
    exact .tighten next (inductionHypothesis (by omega) (by omega))

/-! ### The first token of a phrase -/

/-- What the first token of a phrase tells about it. A phrase that may be empty tells
nothing. -/
def Phrase.Starts : Phrase → List Token → Prop
  | expression _, tokens | expressions, tokens =>
    ∃ token others, tokens = token :: others ∧ token.kind.startsExpression = true
  | names, tokens => ∃ token others, tokens = token :: others ∧ token.kind = .ident
  | parameters, tokens => ∃ token others, tokens = token :: others ∧ token.kind = .leftParen
  | block, tokens => ∃ token others, tokens = token :: others ∧ token.kind = .leftBrace
  | statement, tokens => ∃ token others, tokens = token :: others ∧
    (token.kind.startsExpression = true ∨ token.kind = .letWord ∨ token.kind = .returnWord)
  | items, _ | pairs, _ | alternative, _ | statements, _ => True

theorem startsExpression_of_mem_plainLeaves {kind : TokenKind} (member : kind ∈ plainLeaves) :
    kind.startsExpression = true := by
  simp only [plainLeaves, List.mem_cons, List.not_mem_nil, or_false] at member
  rcases member with rfl | rfl | rfl | rfl <;> rfl

theorem startsExpression_of_mem_unaryOperators {kind : TokenKind}
    (member : kind ∈ unaryOperators) : kind.startsExpression = true := by
  simp only [unaryOperators, List.mem_cons, List.not_mem_nil, or_false] at member
  rcases member with rfl | rfl <;> rfl

theorem Derives.starts {separation : Separation} {phrase : Phrase} {tokens : List Token}
    {nodes : List Node} (derivation : Derives separation phrase tokens nodes) :
    phrase.Starts tokens := by
  induction derivation with
  | tighten _ _ inner | oneExpression _ inner => exact inner
  | binary _ _ _ _ left _ | call _ _ _ _ left _ | index _ _ _ _ left _
  | moreExpressions _ _ _ left _ =>
    obtain ⟨token, others, rfl, starts⟩ := left
    exact ⟨token, _, rfl, starts⟩
  | unary member => exact ⟨_, _, rfl, startsExpression_of_mem_unaryOperators member⟩
  | leaf member => exact ⟨_, _, rfl, startsExpression_of_mem_plainLeaves member⟩
  | integer kind | group kind | array kind | hash kind | conditional kind | function kind =>
    exact ⟨_, _, rfl, by simp [kind, TokenKind.startsExpression]⟩
  | oneName kind | moreNames kind | noParameters kind | someParameters kind | block kind =>
    exact ⟨_, _, rfl, kind⟩
  | letStatement kind | returnStatement kind => exact ⟨_, _, rfl, by simp [kind]⟩
  | expressionStatement _ inner =>
    obtain ⟨token, others, rfl, starts⟩ := inner
    exact ⟨token, others, rfl, .inl starts⟩
  | noItems | someItems | noPairs | lastPair | morePairs | noAlternative | someAlternative
  | noStatements | terminated | unterminated => trivial

end Grammar

end Scriptlet
