/-
This file proves that the reader finds every tree of the grammar in which semicolons
are required: a text whose tokens derive a tree is read without errors and gives
exactly that tree.

The proof follows the derivation. What an expression is read as depends on what comes
behind it, so the statement about expressions speaks of the operator loop: reading an
expression of a stratum comes down to entering the loop with that expression as the
left operand. An operator extends the left operand and goes round the loop, and at
the end the loop is left because the token ahead binds too loosely. `Follows` is what
the token ahead has to satisfy for the reader to stop in the right place.

Fuel is accounted for along with it. A phrase of so many tokens is read on eight times
as much fuel and a little more, which is less than a reading starts with.
-/

import Scriptlet.Proofs.CleanRun

namespace Scriptlet

open Grammar

/-- The last window of a phrase: it has the rest of the tokens behind its current one and
keeps the closing token and the errors. -/
structure Window.Reaches (window last : Window) (rest : List Token) : Prop where
  tokens : last.advance.tokens = rest
  closing : last.closing = window.closing
  errors : last.errors = window.errors

namespace Window

theorem Reaches.ahead {window last : Window} {rest : List Token}
    (reaches : window.Reaches last rest) : last.ahead = rest.headD window.closing := by
  rw [← reaches.tokens, ← reaches.closing]
  rfl

theorem Reaches.ahead_cons {window last : Window} {token : Token} {rest : List Token}
    (reaches : window.Reaches last (token :: rest)) : last.ahead = token := by
  rw [reaches.ahead, List.headD_cons]

theorem Reaches.advance {window last : Window} {token : Token} {rest : List Token}
    (reaches : window.Reaches last (token :: rest)) : window.Reaches last.advance rest :=
  ⟨by rw [tokens_advance, reaches.tokens, List.tail_cons], reaches.closing, reaches.errors⟩

theorem Reaches.trans {window middle last : Window} {between rest : List Token}
    (before : window.Reaches middle between) (after : middle.Reaches last rest) :
    window.Reaches last rest :=
  ⟨after.tokens, after.closing.trans before.closing, after.errors.trans before.errors⟩

/-- A phrase that starts on the next token may count from the one before it. -/
theorem Reaches.of_advance {window last : Window} {rest : List Token}
    (reaches : window.advance.Reaches last rest) : window.Reaches last rest :=
  ⟨reaches.tokens, reaches.closing, reaches.errors⟩

theorem current_eq {window : Window} {token : Token} {rest : List Token}
    (listed : window.tokens = token :: rest) : window.current = token := by
  rw [current, listed, List.headD_cons]

/-- What stands between the brackets of a phrase. -/
theorem inside_eq {window : Window} {opening closing : Token} {tokens rest : List Token}
    (listed : window.tokens = opening :: (tokens ++ [closing]) ++ rest) :
    window.advance.tokens = tokens ++ closing :: rest := by
  simp [tokens_advance, listed]

theorem advance_tokens_eq {window : Window} {token : Token} {rest : List Token}
    (listed : window.tokens = token :: rest) : window.advance.tokens = rest := by
  rw [tokens_advance, listed, List.tail_cons]

end Window

namespace Parser

/-- A token of this kind behind an expression of the stratum is not taken in by it. -/
def Follows (stratum : Precedence) (kind : TokenKind) : Prop :=
  kind.precedence.level ≤ stratum.level ∧ kind ≠ .elseWord

instance (stratum : Precedence) (kind : TokenKind) : Decidable (Follows stratum kind) :=
  inferInstanceAs (Decidable (_ ∧ _))

/-- Reading at a rank takes in expressions of the stratum. -/
structure TakesIn (rank stratum : Precedence) : Prop where
  notCall : rank ≠ .call
  reached : rank = .lowest ∨ rank.operandStratum.level ≤ stratum.level

/-- Reading an expression comes down to entering the operator loop with it. -/
def ReadsExpression (stratum : Precedence) (tokens : List Token) (node : Node) : Prop :=
  ∀ (window : Window) (rest : List Token) (rank : Precedence), window.tokens = tokens ++ rest →
    Follows stratum (rest.headD window.closing).kind → TakesIn rank stratum →
    ∃ last, window.Reaches last rest ∧ ∀ (spare : Nat) (result : Node) (after : Window),
      (∀ fuel, spare ≤ fuel → Reads (operators fuel rank node) last result after) →
      ∀ fuel, spare + 8 * tokens.length ≤ fuel → Reads (expression fuel rank) window result after

/-- Reading expressions with commas between them. -/
def ReadsExpressions (tokens : List Token) (nodes : List Node) : Prop :=
  ∀ (window : Window) (rest : List Token), window.tokens = tokens ++ rest →
    Follows .lowest (rest.headD window.closing).kind →
    (rest.headD window.closing).kind ≠ .comma →
    ∃ last, window.Reaches last rest ∧
      ∀ fuel, 8 * tokens.length + 2 ≤ fuel → Reads (expressions fuel) window nodes last

/-- Reading what stands between the current token and a closing one. -/
def ReadsItems (tokens : List Token) (nodes : List Node) : Prop :=
  ∀ (window : Window) (closing : Token) (rest : List Token),
    window.advance.tokens = tokens ++ closing :: rest →
    closing.kind = .rightParen ∨ closing.kind = .rightBracket →
    ∃ last, window.Reaches last rest ∧
      ∀ fuel, 8 * tokens.length + 3 ≤ fuel →
        Reads (expressionList fuel closing.kind) window (some nodes) last

/-- Reading names from behind the current token. -/
def ReadsNames (tokens : List Token) (nodes : List Node) : Prop :=
  ∀ (window : Window) (rest : List Token), window.advance.tokens = tokens ++ rest →
    (rest.headD window.closing).kind ≠ .comma →
    ∃ last, window.Reaches last rest ∧
      ∀ fuel, tokens.length ≤ fuel → Reads (names fuel) window (some nodes) last

/-- Reading a parameter list. -/
def ReadsParameters (tokens : List Token) (node : Node) : Prop :=
  ∀ (window : Window) (rest : List Token), window.tokens = tokens ++ rest →
    ∃ last, window.Reaches last rest ∧
      ∀ fuel, tokens.length ≤ fuel → Reads (parameters fuel) window (some node) last

/-- Reading the pairs of a hash up to its closing brace. -/
def ReadsPairs (tokens : List Token) (nodes : List Node) : Prop :=
  ∀ (window : Window) (closing : Token) (rest : List Token),
    window.advance.tokens = tokens ++ closing :: rest → closing.kind = .rightBrace →
    ∃ last, window.Reaches last rest ∧
      ∀ fuel, 8 * tokens.length + 1 ≤ fuel → Reads (pairs fuel) window (some nodes) last

/-- Reading a block. -/
def ReadsBlock (tokens : List Token) (node : Node) : Prop :=
  ∀ (window : Window) (rest : List Token), window.tokens = tokens ++ rest →
    ∃ last, window.Reaches last rest ∧
      ∀ fuel, 8 * tokens.length ≤ fuel → Reads (block fuel) window node last

/-- Reading what may follow the first block of a conditional. -/
def ReadsAlternative (tokens : List Token) (nodes : List Node) : Prop :=
  (tokens = [] ∧ nodes = []) ∨
    ∃ word blockTokens block, tokens = word :: blockTokens ∧ nodes = [block] ∧
      word.kind = .elseWord ∧ Phrase.block.Starts blockTokens ∧ ReadsBlock blockTokens block

/-- Reading a statement with the semicolon behind it. -/
def ReadsStatement (tokens : List Token) (node : Node) : Prop :=
  ∀ (window : Window) (rest : List Token), window.tokens = tokens ++ rest →
    Follows .lowest (rest.headD window.closing).kind →
    ∃ last, window.Reaches last rest ∧
      ∀ fuel, 8 * tokens.length + 2 ≤ fuel →
        Reads (statement fuel) window (some node) last.behindSemicolon

/-- Reading statements up to the token that ends them. -/
def ReadsStatements (tokens : List Token) (nodes : List Node) : Prop :=
  ∀ (window : Window) (rest : List Token) (inBlock : Bool), window.tokens = tokens ++ rest →
    (rest.headD window.closing).kind = (if inBlock then .rightBrace else .endOfInput) →
    ∃ last : Window, last.tokens = rest ∧ last.closing = window.closing ∧
      last.errors = window.errors ∧
      ∀ fuel, 8 * tokens.length + 3 ≤ fuel → Reads (statements fuel inBlock) window nodes last

/-- What reading makes of a phrase. -/
def ReadsPhrase : Phrase → List Token → List Node → Prop
  | .expression stratum, tokens, [node] => ReadsExpression stratum tokens node
  | .expressions, tokens, nodes => ReadsExpressions tokens nodes
  | .items, tokens, nodes => ReadsItems tokens nodes
  | .names, tokens, nodes => ReadsNames tokens nodes
  | .parameters, tokens, [node] => ReadsParameters tokens node
  | .pairs, tokens, nodes => ReadsPairs tokens nodes
  | .alternative, tokens, nodes => ReadsAlternative tokens nodes
  | .block, tokens, [node] => ReadsBlock tokens node
  | .statement, tokens, [node] => ReadsStatement tokens node
  | .statements, tokens, nodes => ReadsStatements tokens nodes
  | _, _, _ => False

section

variable {stratum : Precedence}

/-- At the end of an expression the operator loop is left. -/
theorem reads_operators_of_follows {rank : Precedence} {last : Window} {node : Node}
    (loose : last.ahead.kind.precedence.level ≤ rank.level) (fuel : Nat) (some : 1 ≤ fuel) :
    Reads (operators fuel rank node) last node last := by
  obtain ⟨less, rfl⟩ := Nat.exists_eq_add_of_le' some
  exact reads_operators.mpr (.inr ⟨Nat.not_lt_of_le loose, rfl, rfl⟩)

/-- A whole expression is read when the token behind it cannot extend it. -/
theorem ReadsExpression.whole {tokens : List Token} {node : Node}
    (readsOn : ReadsExpression stratum tokens node) {window : Window} {rest : List Token}
    {rank : Precedence} (listed : window.tokens = tokens ++ rest) (takesIn : TakesIn rank stratum)
    (follows : Follows stratum (rest.headD window.closing).kind)
    (loose : (rest.headD window.closing).kind.precedence.level ≤ rank.level) :
    ∃ last, window.Reaches last rest ∧
      ∀ fuel, 8 * tokens.length + 1 ≤ fuel → Reads (expression fuel rank) window node last := by
  obtain ⟨last, reaches, reads⟩ := readsOn window rest rank listed follows takesIn
  refine ⟨last, reaches, fun fuel enough => ?_⟩
  rw [← reaches.ahead] at loose
  exact reads 1 node last (reads_operators_of_follows loose) fuel (by omega)

theorem takesIn_lowest : TakesIn .lowest stratum :=
  ⟨by decide, .inl rfl⟩

/-- An expression is read up to a token that ends every expression. -/
theorem ReadsExpression.upTo {tokens : List Token} {node : Node}
    (readsOn : ReadsExpression .lowest tokens node) {window : Window} {mark : Token}
    {rest : List Token} (listed : window.tokens = tokens ++ mark :: rest)
    (ends : Follows .lowest mark.kind) :
    ∃ last, window.Reaches last (mark :: rest) ∧ ∀ fuel, 8 * tokens.length + 1 ≤ fuel →
      Reads (expression fuel .lowest) window node last :=
  readsOn.whole listed takesIn_lowest ends ends.1

/-- Whatever its rank, an expression is read that the current token opens. -/
theorem readsExpression_of_operand {tokens : List Token} {node : Node}
    (starts : (Phrase.expression stratum).Starts tokens)
    (reads : ∀ (window : Window) (rest : List Token), window.tokens = tokens ++ rest →
      Follows stratum (rest.headD window.closing).kind →
      ∃ last, window.Reaches last rest ∧
        ∀ fuel, 8 * tokens.length ≤ fuel + 1 →
          Reads (operand fuel window.current) window node last) :
    ReadsExpression stratum tokens node := by
  intro window rest rank listed follows takesIn
  obtain ⟨last, reaches, operandReads⟩ := reads window rest listed follows
  refine ⟨last, reaches, fun spare result after readsOn fuel enough => ?_⟩
  obtain ⟨token, others, rfl, opens⟩ := starts
  rw [List.length_cons] at enough operandReads
  obtain ⟨less, rfl⟩ : ∃ less, fuel = less + 1 := Nat.exists_eq_add_of_le' (by omega)
  refine reads_expression.mpr ⟨?_, node, last, operandReads less (by omega),
    readsOn less (by omega)⟩
  rw [Window.current_eq listed]
  exact opens

theorem readsExpression_tighten {rank tighter : Precedence} {tokens : List Token} {node : Node}
    (next : rank.tighter? = some tighter) (inner : ReadsExpression tighter tokens node) :
    ReadsExpression rank tokens node := by
  intro window rest least listed follows takesIn
  have level := level_of_tighter next
  refine inner window rest least listed ⟨?_, follows.2⟩ ⟨takesIn.notCall, ?_⟩
  · exact Nat.le_trans follows.1 (by omega)
  · exact takesIn.reached.imp_right fun reached => Nat.le_trans reached (by omega)

theorem TakesIn.level_lt {rank : Precedence} {kind : TokenKind} (takesIn : TakesIn rank stratum)
    (member : kind ∈ binaryOperators stratum) : rank.level < stratum.level := by
  obtain ⟨notCall, reached⟩ := takesIn
  cases stratum <;> cases member
  all_goals
    cases rank <;> first | decide | exact absurd reached (by decide)

theorem takesIn_of_mem {kind : TokenKind} {tighter : Precedence}
    (member : kind ∈ binaryOperators stratum) (next : stratum.tighter? = some tighter) :
    TakesIn stratum tighter := by
  refine ⟨?_, .inr ?_⟩
  · rintro rfl
    cases member
  · rw [tighter?_of_mem_binaryOperators member] at next
    exact Nat.le_of_eq (congrArg Precedence.level (Option.some.inj next))

/-- A binary operator opens neither a call nor an index nor an alternative. -/
theorem kind_ne_of_mem_binaryOperators {kind other : TokenKind}
    (member : kind ∈ binaryOperators stratum)
    (outside : other ∉ binaryOperators other.precedence) : kind ≠ other := by
  rintro rfl
  rw [precedence_of_mem_binaryOperators member] at outside
  exact outside member

theorem readsExpression_binary {tighter : Precedence} {operator : Token}
    {leftTokens rightTokens : List Token} {left right : Node}
    (member : operator.kind ∈ binaryOperators stratum)
    (next : stratum.tighter? = some tighter) (leftReads : ReadsExpression stratum leftTokens left)
    (rightReads : ReadsExpression tighter rightTokens right) :
    ReadsExpression stratum (leftTokens ++ operator :: rightTokens)
      (.tree .binary [.ofToken operator, left, right]) := by
  intro window rest rank listed follows takesIn
  have precedence := precedence_of_mem_binaryOperators member
  have level := level_of_tighter next
  rw [List.append_assoc, List.cons_append] at listed
  obtain ⟨last, reaches, enters⟩ := leftReads window (operator :: (rightTokens ++ rest)) rank listed
    ⟨Nat.le_of_eq (congrArg Precedence.level precedence),
      kind_ne_of_mem_binaryOperators member (by decide)⟩ takesIn
  have ahead : last.advance.current = operator := reaches.ahead_cons
  have closing : last.advance.advance.closing = window.closing := reaches.closing
  obtain ⟨final, reachesOn, readsRight⟩ := rightReads.whole reaches.advance.tokens
    (takesIn_of_mem member next)
    ⟨by rw [closing]; exact Nat.le_trans follows.1 (by omega), by rw [closing]; exact follows.2⟩
    (by rw [closing]; exact follows.1)
  refine ⟨final, reaches.advance.trans reachesOn.of_advance,
    fun spare result after readsOn fuel enough => ?_⟩
  rw [List.length_append, List.length_cons] at enough
  refine enters (spare + 8 * rightTokens.length + 8) result after (fun more moreEnough => ?_) fuel
    (by omega)
  obtain ⟨less, rfl⟩ : ∃ less, more = less + 2 := Nat.exists_eq_add_of_le' (by omega)
  have tighterThan : rank.level < last.ahead.kind.precedence.level := by
    rw [reaches.ahead_cons, precedence]
    exact takesIn.level_lt member
  refine reads_operators.mpr (.inl ⟨tighterThan, _, final, ?_, readsOn (less + 1) (by omega)⟩)
  refine (reads_application_binary ?_ ?_).mpr ⟨right, ?_, ?_⟩
  · rw [ahead]
    exact kind_ne_of_mem_binaryOperators member (by decide)
  · rw [ahead]
    exact kind_ne_of_mem_binaryOperators member (by decide)
  · rw [ahead, precedence]
    exact readsRight less (by omega)
  · rw [ahead]

theorem readsExpression_unary {operator : Token} {tokens : List Token} {operand : Node}
    (member : operator.kind ∈ unaryOperators) (inner : ReadsExpression .unary tokens operand) :
    ReadsExpression .unary (operator :: tokens) (.tree .unary [.ofToken operator, operand]) := by
  refine readsExpression_of_operand
    ⟨operator, tokens, rfl, startsExpression_of_mem_unaryOperators member⟩ ?_
  intro window rest listed follows
  have current := Window.current_eq listed
  obtain ⟨last, reaches, reads⟩ := inner.whole (Window.advance_tokens_eq listed)
    ⟨by decide, .inr (Nat.le_refl _)⟩ follows follows.1
  refine ⟨last, reaches.of_advance, fun fuel enough => ?_⟩
  rw [List.length_cons] at enough
  obtain ⟨less, rfl⟩ : ∃ less, fuel = less + 1 := Nat.exists_eq_add_of_le' (by omega)
  rw [current]
  exact (reads_operand_unary member).mpr ⟨operand, reads less (by omega), rfl⟩

theorem readsExpression_leaf {token : Token} (member : token.kind ∈ plainLeaves) :
    ReadsExpression .call [token] (.ofToken token) := by
  refine readsExpression_of_operand
    ⟨token, [], rfl, startsExpression_of_mem_plainLeaves member⟩ ?_
  intro window rest listed follows
  refine ⟨window, ⟨Window.advance_tokens_eq listed, rfl, rfl⟩, fun fuel enough => ?_⟩
  rw [List.length_singleton] at enough
  obtain ⟨less, rfl⟩ : ∃ less, fuel = less + 1 := Nat.exists_eq_add_of_le' (by omega)
  rw [Window.current_eq listed]
  exact (reads_operand_leaf member).mpr ⟨rfl, rfl⟩

theorem readsExpression_integer {token : Token} (kind : token.kind = .int)
    (fits : Text.decimalValue token.text.toList ≤ maxLiteral) :
    ReadsExpression .call [token] (.ofToken token) := by
  refine readsExpression_of_operand
    ⟨token, [], rfl, by simp [kind, TokenKind.startsExpression]⟩ ?_
  intro window rest listed follows
  refine ⟨window, ⟨Window.advance_tokens_eq listed, rfl, rfl⟩, fun fuel enough => ?_⟩
  rw [List.length_singleton] at enough
  obtain ⟨less, rfl⟩ : ∃ less, fuel = less + 1 := Nat.exists_eq_add_of_le' (by omega)
  rw [Window.current_eq listed]
  exact (reads_operand_integer kind).mpr ⟨fits, rfl, rfl⟩

theorem readsExpression_group {opening closing : Token} {tokens : List Token} {node : Node}
    (opens : opening.kind = .leftParen) (closes : closing.kind = .rightParen)
    (inner : ReadsExpression .lowest tokens node) :
    ReadsExpression .call (opening :: (tokens ++ [closing])) node := by
  refine readsExpression_of_operand
    ⟨opening, _, rfl, by simp [opens, TokenKind.startsExpression]⟩ ?_
  intro window rest listed follows
  have current := Window.current_eq listed
  obtain ⟨last, reaches, reads⟩ := inner.upTo (Window.inside_eq listed)
    (by rw [closes]; decide)
  refine ⟨last.advance, reaches.advance.of_advance, fun fuel enough => ?_⟩
  rw [List.length_cons, List.length_append] at enough
  obtain ⟨less, rfl⟩ : ∃ less, fuel = less + 1 := Nat.exists_eq_add_of_le' (by omega)
  rw [current]
  exact (reads_operand_group opens).mpr
    ⟨node, last, reads less (by omega), by rw [reaches.ahead_cons, closes], rfl, rfl⟩

theorem readsExpression_array {opening closing : Token} {tokens : List Token}
    {elements : List Node} (opens : opening.kind = .leftBracket)
    (closes : closing.kind = .rightBracket) (inner : ReadsItems tokens elements) :
    ReadsExpression .call (opening :: (tokens ++ [closing]))
      (.tree .array (.ofToken opening :: elements)) := by
  refine readsExpression_of_operand
    ⟨opening, _, rfl, by simp [opens, TokenKind.startsExpression]⟩ ?_
  intro window rest listed follows
  have current := Window.current_eq listed
  obtain ⟨last, reaches, reads⟩ := inner window closing rest (Window.inside_eq listed) (.inr closes)
  refine ⟨last, reaches, fun fuel enough => ?_⟩
  rw [List.length_cons, List.length_append] at enough
  obtain ⟨less, rfl⟩ : ∃ less, fuel = less + 1 := Nat.exists_eq_add_of_le' (by omega)
  rw [current]
  rw [closes] at reads
  exact (reads_operand_array opens).mpr ⟨elements, reads less (by omega), rfl⟩

theorem readsExpression_hash {opening closing : Token} {tokens : List Token}
    {pairs : List Node} (opens : opening.kind = .leftBrace)
    (closes : closing.kind = .rightBrace) (inner : ReadsPairs tokens pairs) :
    ReadsExpression .call (opening :: (tokens ++ [closing]))
      (.tree .hash (.ofToken opening :: pairs)) := by
  refine readsExpression_of_operand
    ⟨opening, _, rfl, by simp [opens, TokenKind.startsExpression]⟩ ?_
  intro window rest listed follows
  have current := Window.current_eq listed
  obtain ⟨last, reaches, reads⟩ := inner window closing rest (Window.inside_eq listed) closes
  refine ⟨last, reaches, fun fuel enough => ?_⟩
  rw [List.length_cons, List.length_append] at enough
  obtain ⟨less, rfl⟩ : ∃ less, fuel = less + 1 := Nat.exists_eq_add_of_le' (by omega)
  rw [current]
  exact (reads_operand_hash opens).mpr ⟨pairs, reads less (by omega), rfl⟩

/-- A call or an index: the operator loop takes in what the token behind the left operand
opens. -/
theorem readsExpression_application {opening : Token} {leftTokens tokens : List Token}
    {left node : Node} (binds : opening.kind.precedence = .call)
    (leftReads : ReadsExpression .call leftTokens left)
    (reads : ∀ (window : Window) (rest : List Token), window.tokens = opening :: tokens ++ rest →
      ∃ last, window.Reaches last rest ∧
        ∀ fuel, 8 * tokens.length + 4 ≤ fuel → Reads (application fuel left) window node last) :
    ReadsExpression .call (leftTokens ++ opening :: tokens) node := by
  intro window rest rank listed follows takesIn
  have notElse : opening.kind ≠ .elseWord := by
    intro kind
    rw [kind] at binds
    cases binds
  rw [List.append_assoc, List.cons_append] at listed
  obtain ⟨last, reaches, enters⟩ := leftReads window (opening :: (tokens ++ rest)) rank listed
    ⟨Precedence.level_le_call _, notElse⟩ takesIn
  obtain ⟨final, reachesOn, applies⟩ := reads last.advance rest reaches.tokens
  refine ⟨final, reaches.trans reachesOn.of_advance,
    fun spare result after readsOn fuel enough => ?_⟩
  rw [List.length_append, List.length_cons] at enough
  refine enters (spare + 8 * tokens.length + 8) result after (fun more moreEnough => ?_) fuel
    (by omega)
  obtain ⟨less, rfl⟩ : ∃ less, more = less + 1 := Nat.exists_eq_add_of_le' (by omega)
  have tighterThan : rank.level < last.ahead.kind.precedence.level := by
    rw [reaches.ahead_cons, binds]
    have notCall := takesIn.notCall
    cases rank <;> first | decide | exact absurd rfl notCall
  exact reads_operators.mpr
    (.inl ⟨tighterThan, node, final, applies less (by omega), readsOn less (by omega)⟩)

theorem readsExpression_call {opening closing : Token} {calleeTokens tokens : List Token}
    {callee : Node} {arguments : List Node} (opens : opening.kind = .leftParen)
    (closes : closing.kind = .rightParen) (calleeReads : ReadsExpression .call calleeTokens callee)
    (inner : ReadsItems tokens arguments) :
    ReadsExpression .call (calleeTokens ++ opening :: (tokens ++ [closing]))
      (.tree .call (.ofToken opening :: callee :: arguments)) := by
  refine readsExpression_application (by rw [opens]; rfl) calleeReads fun window rest listed => ?_
  have current := Window.current_eq listed
  obtain ⟨last, reaches, reads⟩ := inner window closing rest (Window.inside_eq listed) (.inl closes)
  refine ⟨last, reaches, fun fuel enough => ?_⟩
  rw [List.length_append] at enough
  obtain ⟨less, rfl⟩ : ∃ less, fuel = less + 1 := Nat.exists_eq_add_of_le' (by omega)
  rw [closes] at reads
  exact (reads_application_call (by rw [current, opens])).mpr
    ⟨arguments, reads less (by omega), by rw [current]⟩

theorem readsExpression_index {opening closing : Token} {leftTokens tokens : List Token}
    {left inside : Node} (opens : opening.kind = .leftBracket)
    (closes : closing.kind = .rightBracket) (leftReads : ReadsExpression .call leftTokens left)
    (inner : ReadsExpression .lowest tokens inside) :
    ReadsExpression .call (leftTokens ++ opening :: (tokens ++ [closing]))
      (.tree .index [.ofToken opening, left, inside]) := by
  refine readsExpression_application (by rw [opens]; rfl) leftReads fun window rest listed => ?_
  have current := Window.current_eq listed
  obtain ⟨last, reaches, reads⟩ := inner.upTo (Window.inside_eq listed)
    (by rw [closes]; decide)
  refine ⟨last.advance, reaches.advance.of_advance, fun fuel enough => ?_⟩
  rw [List.length_append] at enough
  obtain ⟨less, rfl⟩ : ∃ less, fuel = less + 1 := Nat.exists_eq_add_of_le' (by omega)
  exact (reads_application_index (by rw [current, opens])).mpr
    ⟨inside, last, reads less (by omega), by rw [reaches.ahead_cons, closes], by rw [current], rfl⟩

theorem readsExpression_conditional {word opening closing : Token}
    {conditionTokens blockTokens otherTokens : List Token} {condition consequence : Node}
    {alternative : List Node} (kind : word.kind = .ifWord) (opens : opening.kind = .leftParen)
    (closes : closing.kind = .rightParen) (begins : Phrase.block.Starts blockTokens)
    (conditionReads : ReadsExpression .lowest conditionTokens condition)
    (blockReads : ReadsBlock blockTokens consequence)
    (otherReads : ReadsAlternative otherTokens alternative) :
    ReadsExpression .call
      (word :: opening :: (conditionTokens ++ closing :: (blockTokens ++ otherTokens)))
      (.tree .conditional (.ofToken word :: condition :: consequence :: alternative)) := by
  refine readsExpression_of_operand
    ⟨word, _, rfl, by simp [kind, TokenKind.startsExpression]⟩ ?_
  intro window rest listed follows
  have current := Window.current_eq listed
  have listedOn := Window.advance_tokens_eq listed
  have ahead : window.ahead = opening := Window.current_eq listedOn
  have inside : window.advance.advance.tokens =
      conditionTokens ++ closing :: (blockTokens ++ (otherTokens ++ rest)) := by
    simp [listed]
  obtain ⟨behind, reachesBehind, readsCondition⟩ := conditionReads.upTo inside
    (by rw [closes]; decide)
  obtain ⟨between, reachesBetween, readsBlock⟩ := blockReads behind.advance.advance
    (otherTokens ++ rest) reachesBehind.advance.tokens
  obtain ⟨brace, braceTokens, rfl, braceKind⟩ := begins
  have behindAhead : behind.ahead.kind = .rightParen := by
    rw [reachesBehind.ahead_cons, closes]
  have braceAhead : behind.advance.ahead.kind = .leftBrace := by
    rw [reachesBehind.advance.ahead_cons, braceKind]
  have reaches : window.Reaches between (otherTokens ++ rest) :=
    reachesBehind.of_advance.of_advance.trans reachesBetween.of_advance.of_advance
  rcases otherReads with ⟨rfl, rfl⟩ | ⟨elseWord, elseTokens, block, rfl, rfl, elseKind,
    ⟨elseBrace, elseRest, rfl, elseBraceKind⟩, elseReads⟩
  · refine ⟨between, reaches, fun fuel enough => ?_⟩
    simp only [List.length_cons, List.length_append] at enough
    obtain ⟨less, rfl⟩ : ∃ less, fuel = less + 2 := Nat.exists_eq_add_of_le' (by omega)
    have notElse : between.ahead.kind ≠ .elseWord := by
      rw [reaches.ahead]
      exact follows.2
    rw [current]
    refine (reads_operand_conditional kind).mpr (reads_conditional.mpr
      ⟨by rw [ahead, opens], condition, behind, readsCondition less (by omega), behindAhead,
        braceAhead, consequence, between, readsBlock less ?_, .inr ⟨notElse, rfl, rfl⟩⟩)
    rw [List.length_cons]
    omega
  · obtain ⟨last, reachesLast, readsElse⟩ := elseReads between.advance.advance rest
      reaches.advance.tokens
    have elseAhead : between.ahead.kind = .elseWord := by
      rw [reaches.ahead_cons, elseKind]
    have reopens : between.advance.ahead.kind = .leftBrace := by
      rw [reaches.advance.ahead_cons, elseBraceKind]
    refine ⟨last, reaches.trans reachesLast.of_advance.of_advance, fun fuel enough => ?_⟩
    simp only [List.length_cons, List.length_append] at enough
    obtain ⟨less, rfl⟩ : ∃ less, fuel = less + 2 := Nat.exists_eq_add_of_le' (by omega)
    rw [current]
    refine (reads_operand_conditional kind).mpr (reads_conditional.mpr
      ⟨by rw [ahead, opens], condition, behind, readsCondition less (by omega), behindAhead,
        braceAhead, consequence, between, readsBlock less ?_,
        .inl ⟨elseAhead, reopens, block, readsElse less ?_, rfl⟩⟩)
    · rw [List.length_cons]
      omega
    · rw [List.length_cons]
      omega

theorem readsExpression_function {word : Token} {parameterTokens blockTokens : List Token}
    {parameters body : Node} (kind : word.kind = .funcWord)
    (opens : Phrase.parameters.Starts parameterTokens) (begins : Phrase.block.Starts blockTokens)
    (parametersRead : ReadsParameters parameterTokens parameters)
    (blockReads : ReadsBlock blockTokens body) :
    ReadsExpression .call (word :: (parameterTokens ++ blockTokens))
      (.tree .function [.ofToken word, parameters, body]) := by
  refine readsExpression_of_operand
    ⟨word, _, rfl, by simp [kind, TokenKind.startsExpression]⟩ ?_
  intro window rest listed follows
  have current := Window.current_eq listed
  have inside : window.advance.tokens = parameterTokens ++ (blockTokens ++ rest) := by
    simp [listed]
  obtain ⟨opening, openingRest, rfl, openingKind⟩ := opens
  have ahead : window.ahead = opening := Window.current_eq inside
  obtain ⟨between, reachesBetween, readsParameters⟩ := parametersRead window.advance _ inside
  obtain ⟨last, reachesLast, readsBody⟩ := blockReads between.advance rest reachesBetween.tokens
  obtain ⟨brace, braceTokens, rfl, braceKind⟩ := begins
  have braceAhead : between.ahead.kind = .leftBrace := by
    rw [reachesBetween.ahead_cons, braceKind]
  refine ⟨last, reachesBetween.of_advance.trans reachesLast.of_advance, fun fuel enough => ?_⟩
  simp only [List.length_cons, List.length_append] at enough
  obtain ⟨less, rfl⟩ : ∃ less, fuel = less + 2 := Nat.exists_eq_add_of_le' (by omega)
  rw [current]
  refine (reads_operand_function kind).mpr (reads_function.mpr
    ⟨by rw [ahead, openingKind], parameters, between, readsParameters less ?_, braceAhead, body,
      readsBody less ?_, rfl⟩)
  · rw [List.length_cons]
    omega
  · rw [List.length_cons]
    omega

/-! ### Lists -/

theorem readsExpressions_one {tokens : List Token} {node : Node}
    (inner : ReadsExpression .lowest tokens node) : ReadsExpressions tokens [node] := by
  intro window rest listed follows notComma
  obtain ⟨last, reaches, reads⟩ := inner.whole listed takesIn_lowest follows follows.1
  refine ⟨last, reaches, fun fuel enough => ?_⟩
  obtain ⟨less, rfl⟩ : ∃ less, fuel = less + 1 := Nat.exists_eq_add_of_le' (by omega)
  have ends : last.ahead.kind ≠ .comma := by
    rw [reaches.ahead]
    exact notComma
  exact reads_expressions.mpr ⟨node, last, reads less (by omega), .inr ⟨ends, rfl, rfl⟩⟩

theorem readsExpressions_more {comma : Token} {tokens restTokens : List Token} {node : Node}
    {others : List Node} (separates : comma.kind = .comma)
    (inner : ReadsExpression .lowest tokens node)
    (othersRead : ReadsExpressions restTokens others) :
    ReadsExpressions (tokens ++ comma :: restTokens) (node :: others) := by
  intro window rest listed follows notComma
  rw [List.append_assoc, List.cons_append] at listed
  obtain ⟨between, reaches, reads⟩ := inner.upTo listed
    (by rw [separates]; decide)
  have closing : between.advance.advance.closing = window.closing := reaches.closing
  obtain ⟨last, reachesLast, readsOthers⟩ := othersRead between.advance.advance rest
    reaches.advance.tokens (by rw [closing]; exact follows) (by rw [closing]; exact notComma)
  refine ⟨last, reaches.trans reachesLast.of_advance.of_advance, fun fuel enough => ?_⟩
  rw [List.length_append, List.length_cons] at enough
  obtain ⟨less, rfl⟩ : ∃ less, fuel = less + 1 := Nat.exists_eq_add_of_le' (by omega)
  exact reads_expressions.mpr ⟨node, between, reads less (by omega),
    .inl ⟨by rw [reaches.ahead_cons, separates], others, readsOthers less (by omega), rfl⟩⟩

theorem readsItems_none : ReadsItems [] [] := by
  intro window closing rest listed closes
  have ahead : window.ahead = closing := Window.current_eq listed
  refine ⟨window.advance, ⟨Window.advance_tokens_eq listed, rfl, rfl⟩, fun fuel enough => ?_⟩
  obtain ⟨less, rfl⟩ : ∃ less, fuel = less + 1 := Nat.exists_eq_add_of_le' (by omega)
  exact reads_expressionList.mpr (.inl ⟨by rw [ahead], rfl, rfl⟩)

theorem readsItems_some {tokens : List Token} {nodes : List Node}
    (starts : Phrase.expressions.Starts tokens) (inner : ReadsExpressions tokens nodes) :
    ReadsItems tokens nodes := by
  intro window closing rest listed closes
  have ends : Follows .lowest closing.kind := by
    rcases closes with kind | kind <;> rw [kind] <;> decide
  have notComma : closing.kind ≠ .comma := by
    rcases closes with kind | kind <;> simp [kind]
  obtain ⟨between, reaches, reads⟩ := inner window.advance (closing :: rest) listed ends notComma
  obtain ⟨token, others, rfl, opens⟩ := starts
  have ahead : window.ahead = token := Window.current_eq listed
  have notClosed : window.ahead.kind ≠ closing.kind := by
    intro same
    rw [ahead] at same
    rw [same] at opens
    rcases closes with kind | kind <;> simp [kind, TokenKind.startsExpression] at opens
  refine ⟨between.advance, reaches.advance.of_advance, fun fuel enough => ?_⟩
  obtain ⟨less, rfl⟩ : ∃ less, fuel = less + 1 := Nat.exists_eq_add_of_le' (by omega)
  exact reads_expressionList.mpr (.inr ⟨notClosed, nodes, between, reads less (by omega),
    by rw [reaches.ahead_cons], rfl, rfl⟩)

theorem readsNames_one {name : Token} (kind : name.kind = .ident) :
    ReadsNames [name] [.ofToken name] := by
  intro window rest listed notComma
  have ahead : window.ahead = name := Window.current_eq listed
  have reaches : window.Reaches window.advance rest :=
    ⟨Window.advance_tokens_eq listed, rfl, rfl⟩
  refine ⟨window.advance, reaches, fun fuel enough => ?_⟩
  obtain ⟨less, rfl⟩ : ∃ less, fuel = less + 1 := Nat.exists_eq_add_of_le' enough
  have ends : window.advance.ahead.kind ≠ .comma := by
    rw [reaches.ahead]
    exact notComma
  exact reads_names.mpr ⟨by rw [ahead, kind], .inr ⟨ends, by rw [ahead], rfl⟩⟩

theorem readsNames_more {name comma : Token} {restTokens : List Token} {others : List Node}
    (kind : name.kind = .ident) (separates : comma.kind = .comma)
    (othersRead : ReadsNames restTokens others) :
    ReadsNames (name :: comma :: restTokens) (.ofToken name :: others) := by
  intro window rest listed notComma
  have ahead : window.ahead = name := Window.current_eq listed
  have listedOn : window.advance.advance.tokens = comma :: (restTokens ++ rest) :=
    Window.advance_tokens_eq listed
  have aheadOn : window.advance.ahead = comma := Window.current_eq listedOn
  obtain ⟨last, reaches, reads⟩ := othersRead window.advance.advance rest
    (Window.advance_tokens_eq listedOn) notComma
  refine ⟨last, reaches.of_advance.of_advance, fun fuel enough => ?_⟩
  rw [List.length_cons, List.length_cons] at enough
  obtain ⟨less, rfl⟩ : ∃ less, fuel = less + 1 := Nat.exists_eq_add_of_le' (by omega)
  exact reads_names.mpr ⟨by rw [ahead, kind],
    .inl ⟨by rw [aheadOn, separates], some others, reads less (by omega), by rw [ahead]; rfl⟩⟩

theorem readsParameters_none {opening closing : Token} (closes : closing.kind = .rightParen) :
    ReadsParameters [opening, closing] (.tree .parameters [.ofToken opening]) := by
  intro window rest listed
  have current := Window.current_eq listed
  have listedOn := Window.advance_tokens_eq listed
  have ahead : window.ahead = closing := Window.current_eq listedOn
  refine ⟨window.advance, ⟨Window.advance_tokens_eq listedOn, rfl, rfl⟩, fun fuel enough => ?_⟩
  exact reads_parameters.mpr (.inl ⟨by rw [ahead, closes], by rw [current], rfl⟩)

theorem readsParameters_some {opening closing : Token} {tokens : List Token} {names : List Node}
    (closes : closing.kind = .rightParen) (starts : Phrase.names.Starts tokens)
    (inner : ReadsNames tokens names) :
    ReadsParameters (opening :: (tokens ++ [closing]))
      (.tree .parameters (.ofToken opening :: names)) := by
  intro window rest listed
  have current := Window.current_eq listed
  have inside := Window.inside_eq listed
  obtain ⟨between, reaches, reads⟩ := inner window (closing :: rest) inside (by simp [closes])
  obtain ⟨name, others, rfl, kind⟩ := starts
  have ahead : window.ahead = name := Window.current_eq inside
  refine ⟨between.advance, reaches.advance, fun fuel enough => ?_⟩
  rw [List.length_cons, List.length_append] at enough
  exact reads_parameters.mpr (.inr ⟨by simp [ahead, kind], names, between, reads fuel (by omega),
    by rw [reaches.ahead_cons, closes], by rw [current], rfl⟩)

theorem readsPairs_none : ReadsPairs [] [] := by
  intro window closing rest listed closes
  have ahead : window.ahead = closing := Window.current_eq listed
  refine ⟨window.advance, ⟨Window.advance_tokens_eq listed, rfl, rfl⟩, fun fuel enough => ?_⟩
  obtain ⟨less, rfl⟩ : ∃ less, fuel = less + 1 := Nat.exists_eq_add_of_le' (by omega)
  exact reads_pairs.mpr (.inl ⟨by rw [ahead, closes], rfl, rfl⟩)

/-- The key and the value of a pair are read up to the token behind the pair. -/
theorem reads_pair {colon mark : Token} {keyTokens valueTokens rest : List Token}
    {key value : Node} (kind : colon.kind = .colon) (starts : Phrase.expressions.Starts keyTokens)
    (keyReads : ReadsExpression .lowest keyTokens key)
    (valueReads : ReadsExpression .lowest valueTokens value) {window : Window}
    (listed : window.advance.tokens = keyTokens ++ colon :: (valueTokens ++ mark :: rest))
    (ends : Follows .lowest mark.kind) :
    ∃ between, window.Reaches between (mark :: rest) ∧
      ∀ (nodes : List Node) (after : Window) (fuel : Nat),
        8 * (keyTokens.length + valueTokens.length) + 1 ≤ fuel →
        (mark.kind = .rightBrace ∧ Reads (pairs fuel) between (some nodes) after) ∨
          (mark.kind = .comma ∧ Reads (pairs fuel) between.advance (some nodes) after) →
        Reads (pairs (fuel + 1)) window
          (some (.tree .pair [.ofToken colon, key, value] :: nodes)) after := by
  obtain ⟨behind, reachesBehind, readsKey⟩ := keyReads.upTo listed (by rw [kind]; decide)
  obtain ⟨between, reachesBetween, readsValue⟩ :=
    valueReads.upTo reachesBehind.advance.tokens ends
  obtain ⟨token, others, rfl, opens⟩ := starts
  have ahead : window.ahead = token := Window.current_eq listed
  have notClosed : window.ahead.kind ≠ .rightBrace := by
    intro closed
    rw [ahead] at closed
    simp [closed, TokenKind.startsExpression] at opens
  have colonAhead : behind.ahead = colon := reachesBehind.ahead_cons
  have markAhead : between.ahead = mark := reachesBetween.ahead_cons
  refine ⟨between, reachesBehind.of_advance.trans reachesBetween.of_advance.of_advance,
    fun nodes after fuel enough continued => ?_⟩
  refine reads_pairs.mpr (.inr ⟨notClosed, key, behind, readsKey fuel (by omega),
    by rw [colonAhead, kind], value, between, readsValue fuel (by omega), ?_⟩)
  rw [markAhead, colonAhead]
  rcases continued with ⟨closes, reads⟩ | ⟨separates, reads⟩
  · exact .inl ⟨closes, some nodes, reads, rfl⟩
  · exact .inr ⟨by simp [separates], separates, some nodes, reads, rfl⟩

theorem readsPairs_last {colon : Token} {keyTokens valueTokens : List Token} {key value : Node}
    (kind : colon.kind = .colon) (starts : Phrase.expressions.Starts keyTokens)
    (keyReads : ReadsExpression .lowest keyTokens key)
    (valueReads : ReadsExpression .lowest valueTokens value) :
    ReadsPairs (keyTokens ++ colon :: valueTokens) [.tree .pair [.ofToken colon, key, value]] := by
  intro window closing rest listed closes
  rw [List.append_assoc, List.cons_append] at listed
  obtain ⟨between, reaches, reads⟩ := reads_pair kind starts keyReads valueReads listed
    (by rw [closes]; decide)
  refine ⟨between.advance, reaches.advance, fun fuel enough => ?_⟩
  rw [List.length_append, List.length_cons] at enough
  obtain ⟨less, rfl⟩ : ∃ less, fuel = less + 2 := Nat.exists_eq_add_of_le' (by omega)
  refine reads [] between.advance (less + 1) (by omega) (.inl ⟨closes, ?_⟩)
  exact reads_pairs.mpr (.inl ⟨by rw [reaches.ahead_cons, closes], rfl, rfl⟩)

theorem readsPairs_more {colon comma : Token} {keyTokens valueTokens restTokens : List Token}
    {key value : Node} {others : List Node} (kind : colon.kind = .colon)
    (separates : comma.kind = .comma) (starts : Phrase.expressions.Starts keyTokens)
    (keyReads : ReadsExpression .lowest keyTokens key)
    (valueReads : ReadsExpression .lowest valueTokens value)
    (othersRead : ReadsPairs restTokens others) :
    ReadsPairs (keyTokens ++ colon :: (valueTokens ++ comma :: restTokens))
      (.tree .pair [.ofToken colon, key, value] :: others) := by
  intro window closing rest listed closes
  have listed : window.advance.tokens =
      keyTokens ++ colon :: (valueTokens ++ comma :: (restTokens ++ closing :: rest)) := by
    simpa using listed
  obtain ⟨between, reaches, reads⟩ := reads_pair kind starts keyReads valueReads listed
    (by rw [separates]; decide)
  obtain ⟨last, reachesLast, readsOthers⟩ := othersRead between.advance closing rest
    reaches.advance.tokens closes
  refine ⟨last, reaches.trans reachesLast.of_advance, fun fuel enough => ?_⟩
  simp only [List.length_append, List.length_cons] at enough
  obtain ⟨less, rfl⟩ : ∃ less, fuel = less + 1 := Nat.exists_eq_add_of_le' (by omega)
  exact reads others last less (by omega) (.inr ⟨separates, readsOthers less (by omega)⟩)

/-! ### Blocks and statements -/

theorem readsBlock_braces {opening closing : Token} {tokens : List Token}
    {statements : List Node} (closes : closing.kind = .rightBrace)
    (inner : ReadsStatements tokens statements) :
    ReadsBlock (opening :: (tokens ++ [closing]))
      (.tree .block (.ofToken opening :: statements)) := by
  intro window rest listed
  have current := Window.current_eq listed
  obtain ⟨last, tokensLast, closingLast, errorsLast, reads⟩ := inner window.advance
    (closing :: rest) true (Window.inside_eq listed) closes
  refine ⟨last, ⟨Window.advance_tokens_eq tokensLast, closingLast, errorsLast⟩,
    fun fuel enough => ?_⟩
  rw [List.length_cons, List.length_append] at enough
  obtain ⟨less, rfl⟩ : ∃ less, fuel = less + 1 := Nat.exists_eq_add_of_le' (by omega)
  refine reads_block.mpr ⟨statements, reads less (by omega), ?_, by rw [current]⟩
  rw [Window.current_eq tokensLast, closes]
  decide

theorem readsStatement_let {word name equals : Token} {tokens : List Token} {value : Node}
    (kind : word.kind = .letWord) (nameKind : name.kind = .ident)
    (equalsKind : equals.kind = .assign) (inner : ReadsExpression .lowest tokens value) :
    ReadsStatement (word :: name :: equals :: tokens)
      (.tree .letStatement [.ofToken word, .ofToken name, value]) := by
  intro window rest listed follows
  have current := Window.current_eq listed
  have listedName := Window.advance_tokens_eq listed
  have listedEquals := Window.advance_tokens_eq listedName
  have ahead : window.ahead = name := Window.current_eq listedName
  have aheadOn : window.advance.ahead = equals := Window.current_eq listedEquals
  obtain ⟨last, reaches, reads⟩ := inner.whole (Window.advance_tokens_eq listedEquals)
    takesIn_lowest follows follows.1
  refine ⟨last, reaches.of_advance.of_advance.of_advance, fun fuel enough => ?_⟩
  simp only [List.length_cons] at enough
  obtain ⟨less, rfl⟩ : ∃ less, fuel = less + 1 := Nat.exists_eq_add_of_le' (by omega)
  exact (reads_letStatement (by rw [current, kind])).mpr ⟨by rw [ahead, nameKind],
    by rw [aheadOn, equalsKind], value, last, reads less (by omega), by rw [current, ahead], rfl⟩

theorem readsStatement_return {word : Token} {tokens : List Token} {value : Node}
    (kind : word.kind = .returnWord) (inner : ReadsExpression .lowest tokens value) :
    ReadsStatement (word :: tokens) (.tree .returnStatement [.ofToken word, value]) := by
  intro window rest listed follows
  have current := Window.current_eq listed
  obtain ⟨last, reaches, reads⟩ := inner.whole (Window.advance_tokens_eq listed) takesIn_lowest
    follows follows.1
  refine ⟨last, reaches.of_advance, fun fuel enough => ?_⟩
  rw [List.length_cons] at enough
  obtain ⟨less, rfl⟩ : ∃ less, fuel = less + 1 := Nat.exists_eq_add_of_le' (by omega)
  exact (reads_returnStatement (by rw [current, kind])).mpr
    ⟨value, last, reads less (by omega), by rw [current], rfl⟩

theorem readsStatement_expression {tokens : List Token} {value : Node}
    (starts : Phrase.expressions.Starts tokens) (inner : ReadsExpression .lowest tokens value) :
    ReadsStatement tokens (.tree .expressionStatement [value]) := by
  intro window rest listed follows
  obtain ⟨last, reaches, reads⟩ := inner.whole listed takesIn_lowest follows follows.1
  obtain ⟨token, others, rfl, opens⟩ := starts
  have current := Window.current_eq listed
  refine ⟨last, reaches, fun fuel enough => ?_⟩
  obtain ⟨less, rfl⟩ : ∃ less, fuel = less + 1 := Nat.exists_eq_add_of_le' (by omega)
  refine (reads_expressionStatement ?_ ?_).mpr ⟨value, last, reads less (by omega), rfl, rfl⟩
  · intro kind
    simp [← current, kind, TokenKind.startsExpression] at opens
  · intro kind
    simp [← current, kind, TokenKind.startsExpression] at opens

theorem readsStatements_none : ReadsStatements [] [] := by
  intro window rest inBlock listed ends
  refine ⟨window, listed, rfl, rfl, fun fuel enough => ?_⟩
  obtain ⟨less, rfl⟩ : ∃ less, fuel = less + 1 := Nat.exists_eq_add_of_le' (by omega)
  refine reads_statements.mpr (.inl ⟨?_, rfl, rfl⟩)
  have current : window.current = rest.headD window.closing := by
    rw [Window.current, listed, List.nil_append]
  rw [current, ends]
  cases inBlock <;> simp

/-- Neither the end of the input nor a closing brace starts a statement. -/
theorem not_ended_of_starts {tokens rest : List Token} {inBlock : Bool} {window : Window}
    (starts : Phrase.statement.Starts tokens) (listed : window.tokens = tokens ++ rest) :
    ¬ (window.current.kind = .endOfInput ∨
      (inBlock = true ∧ window.current.kind = .rightBrace)) := by
  obtain ⟨token, others, rfl, opens⟩ := starts
  rw [Window.current_eq listed]
  rintro (kind | ⟨-, kind⟩) <;> simp [kind, TokenKind.startsExpression] at opens

theorem readsStatements_terminated {semicolon : Token} {tokens restTokens : List Token}
    {statement : Node} {others : List Node} (ends : semicolon.kind = .semicolon)
    (starts : Phrase.statement.Starts tokens) (inner : ReadsStatement tokens statement)
    (othersRead : ReadsStatements restTokens others) :
    ReadsStatements (tokens ++ semicolon :: restTokens) (statement :: others) := by
  intro window rest inBlock listed terminator
  rw [List.append_assoc, List.cons_append] at listed
  obtain ⟨between, reaches, reads⟩ := inner window _ listed
    (by rw [List.headD_cons, ends]; decide)
  have closing : between.advance.advance.closing = window.closing := reaches.closing
  obtain ⟨last, tokensLast, closingLast, errorsLast, readsOthers⟩ :=
    othersRead between.advance.advance rest inBlock reaches.advance.tokens
      (by rw [closing]; exact terminator)
  refine ⟨last, tokensLast, closingLast.trans closing, errorsLast.trans reaches.errors,
    fun fuel enough => ?_⟩
  rw [List.length_append, List.length_cons] at enough
  obtain ⟨less, rfl⟩ : ∃ less, fuel = less + 1 := Nat.exists_eq_add_of_le' (by omega)
  have behind : between.behindSemicolon = between.advance := by
    rw [Window.behindSemicolon, reaches.ahead_cons, if_pos ends]
  rw [behind] at reads
  exact reads_statements.mpr (.inr ⟨not_ended_of_starts starts listed, statement, between.advance,
    reads less (by omega), others, readsOthers less (by omega), rfl⟩)

theorem readsStatements_last {tokens : List Token} {statement : Node}
    (starts : Phrase.statement.Starts tokens) (inner : ReadsStatement tokens statement) :
    ReadsStatements tokens [statement] := by
  intro window rest inBlock listed terminator
  have follows : Follows .lowest (rest.headD window.closing).kind := by
    rw [terminator]
    cases inBlock <;> decide
  obtain ⟨between, reaches, reads⟩ := inner window rest listed follows
  have behind : between.behindSemicolon = between := by
    rw [Window.behindSemicolon, reaches.ahead, terminator, if_neg]
    cases inBlock <;> decide
  have closing : between.advance.closing = window.closing := reaches.closing
  obtain ⟨last, tokensLast, closingLast, errorsLast, readsNone⟩ :=
    readsStatements_none between.advance rest inBlock reaches.tokens
      (by rw [closing]; exact terminator)
  refine ⟨last, tokensLast, closingLast.trans closing, errorsLast.trans reaches.errors,
    fun fuel enough => ?_⟩
  have positive : 0 < tokens.length := by
    obtain ⟨token, more, rfl, -⟩ := starts
    exact Nat.succ_pos _
  obtain ⟨less, rfl⟩ : ∃ less, fuel = less + 1 := Nat.exists_eq_add_of_le' (by omega)
  rw [behind] at reads
  refine reads_statements.mpr (.inr ⟨not_ended_of_starts starts listed, statement, between,
    reads less (by omega), [], readsNone less ?_, rfl⟩)
  rw [List.length_nil]
  omega

end

/-! ### Derivations are read -/

theorem eq_nil_of_derives_nil {separation : Separation} {nodes : List Node}
    (derivation : Derives separation .statements [] nodes) : nodes = [] := by
  generalize listed : ([] : List Token) = tokens at derivation
  cases derivation with
  | noStatements => rfl
  | terminated _ inner _ =>
    exact absurd listed.symm (List.append_ne_nil_of_right_ne_nil _ (List.cons_ne_nil _ _))
  | unterminated _ inner _ =>
    obtain ⟨token, others, rfl, -⟩ := inner.starts
    cases listed

theorem readsPhrase_of_derives {phrase : Phrase} {tokens : List Token} {nodes : List Node}
    (derivation : Derives .required phrase tokens nodes) : ReadsPhrase phrase tokens nodes := by
  induction derivation with
  | tighten next _ inner => exact readsExpression_tighten next inner
  | binary member next _ _ left right => exact readsExpression_binary member next left right
  | unary member _ inner => exact readsExpression_unary member inner
  | call opens closes _ _ callee inner => exact readsExpression_call opens closes callee inner
  | index opens closes _ _ left inner => exact readsExpression_index opens closes left inner
  | leaf member => exact readsExpression_leaf member
  | integer kind fits => exact readsExpression_integer kind fits
  | group opens closes _ inner => exact readsExpression_group opens closes inner
  | array opens closes _ inner => exact readsExpression_array opens closes inner
  | hash opens closes _ inner => exact readsExpression_hash opens closes inner
  | conditional kind opens closes _ block _ condition consequence other =>
    exact readsExpression_conditional kind opens closes block.starts condition consequence other
  | function kind parameters block parametersRead bodyReads =>
    exact readsExpression_function kind parameters.starts block.starts parametersRead bodyReads
  | oneExpression _ inner => exact readsExpressions_one inner
  | moreExpressions separates _ _ inner others =>
    exact readsExpressions_more separates inner others
  | noItems => exact readsItems_none
  | someItems derived inner => exact readsItems_some derived.starts inner
  | oneName kind => exact readsNames_one kind
  | moreNames kind separates _ others => exact readsNames_more kind separates others
  | noParameters _ closes => exact readsParameters_none closes
  | someParameters _ closes derived inner => exact readsParameters_some closes derived.starts inner
  | noPairs => exact readsPairs_none
  | lastPair kind derived _ key value => exact readsPairs_last kind derived.starts key value
  | morePairs kind separates derived _ _ key value others =>
    exact readsPairs_more kind separates derived.starts key value others
  | noAlternative => exact .inl ⟨rfl, rfl⟩
  | someAlternative kind derived inner =>
    exact .inr ⟨_, _, _, rfl, rfl, kind, derived.starts, inner⟩
  | block _ closes _ inner => exact readsBlock_braces closes inner
  | letStatement kind nameKind equalsKind _ inner =>
    exact readsStatement_let kind nameKind equalsKind inner
  | returnStatement kind _ inner => exact readsStatement_return kind inner
  | expressionStatement derived inner => exact readsStatement_expression derived.starts inner
  | noStatements => exact readsStatements_none
  | terminated ends derived _ inner others =>
    exact readsStatements_terminated ends derived.starts inner others
  | unterminated apart derived others inner =>
    rcases apart with required | rfl
    · cases required
    · rw [List.append_nil, eq_nil_of_derives_nil others]
      exact readsStatements_last derived.starts inner

end Parser

/-- A text whose tokens derive a tree is read as that tree, without errors. -/
theorem readSource_of_program {text : String} {tree : Node}
    (derivation : Program .required (sourceTokens text) tree) :
    readSource text = ⟨tree, []⟩ := by
  obtain ⟨statements, rfl, derived⟩ := derivation
  have reads : Parser.ReadsStatements (sourceTokens text) statements :=
    Parser.readsPhrase_of_derives derived
  obtain ⟨last, -, -, errors, readsAll⟩ := reads (Window.ofText text) [] false
    (List.append_nil _).symm (Cursor.kind_closing_scan _)
  have enough : 8 * (sourceTokens text).length + 3 ≤ (Window.ofText text).fuel :=
    Nat.add_le_add_left (by decide) _
  obtain ⟨run, -⟩ := readsAll _ enough
  have program : Parser.readProgram.run (Window.ofText text) =
      (.tree .program statements, last) := by
    exact congrArg (fun outcome => (Node.tree .program outcome.1, outcome.2)) run
  rw [readSource, program]
  exact congrArg (Reading.mk _) errors

/-- Take any tree and a text whose tokens derive it up to their places, by the strata of the
operators, with parentheses wherever they are needed or wanted and with semicolons between
statements. Reading the text records no error and gives that tree. -/
theorem readSource_of_derivation (text : String) (tree target : Node)
    (derivation : Program .required (sourceTokens text) tree) (alike : tree.Alike target) :
    (readSource text).errors = [] ∧ (readSource text).program = tree ∧
      (readSource text).program.Alike target := by
  rw [readSource_of_program derivation]
  exact ⟨rfl, rfl, alike⟩

theorem readSource_of_derivation_negated_factor :
    ∃ tree, Program .required (sourceTokens "-a * (b)") tree ∧
      (readSource "-a * (b)").errors = [] ∧ (readSource "-a * (b)").program = tree := by
  let minus : Token := ⟨.minus, "-", ⟨1, 1⟩⟩
  let factor : Token := ⟨.ident, "a", ⟨1, 2⟩⟩
  let times : Token := ⟨.asterisk, "*", ⟨1, 4⟩⟩
  let opening : Token := ⟨.leftParen, "(", ⟨1, 6⟩⟩
  let other : Token := ⟨.ident, "b", ⟨1, 7⟩⟩
  let closing : Token := ⟨.rightParen, ")", ⟨1, 8⟩⟩
  have tokens : sourceTokens "-a * (b)" = [minus, factor, times, opening, other, closing] := by
    decide +kernel
  have left : Derives .required (.expression .product) [minus, factor]
      [.tree .unary [.ofToken minus, .ofToken factor]] :=
    (Derives.unary (by decide) (.tighten rfl (.leaf (by decide)))).loosen (by decide)
  have grouped : Derives .required (.expression .lowest) [other] [.ofToken other] :=
    (Derives.leaf (by decide)).loosen (by decide)
  have right : Derives .required (.expression .unary) [opening, other, closing] [.ofToken other] :=
    .tighten rfl (.group rfl rfl grouped)
  have multiplies : times.kind ∈ binaryOperators .product := by decide
  have product := Derives.binary multiplies rfl left right
  have whole : Derives .required (.expression .lowest) _ _ := product.loosen (by decide)
  have program : Derives .required .statements
      [minus, factor, times, opening, other, closing] _ :=
    .unterminated (.inr rfl) (.expressionStatement whole) .noStatements
  rw [← tokens] at program
  have derivation : Program .required _ (.tree .program _) := ⟨_, rfl, program⟩
  obtain ⟨errors, tree, -⟩ := readSource_of_derivation _ _ _ derivation rfl
  exact ⟨_, derivation, errors, tree⟩

end Scriptlet
