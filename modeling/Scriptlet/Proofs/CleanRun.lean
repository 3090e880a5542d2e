/-
This file says what a reader does when it records no error. `Parser.Reads` relates a
reader and the window it starts on to its result and the window it leaves, for runs
that leave the list of errors as it was. For each reader one equivalence,
`reads_expression` and so on, lists all that such a run can be; what is proved about
runs that succeed is proved from these alone.

Whether errors were recorded is only known at the end of a run. That a run without
errors consists of runs without errors therefore needs a second fact: no reader takes
an error back, loses sight of the closing token, or moves the window to the left.
`Parser.Steady` collects these, and every reader is steady, whether it fails or not.
-/

import Scriptlet.Proofs.Grammar

namespace Scriptlet

/-! ### Where a window can move -/

/-- The second window can be reached from the first by moving on and recording errors. -/
structure Window.Leads (first second : Window) : Prop where
  errors : first.errors <+: second.errors
  closing : second.closing = first.closing
  tokens : second.tokens <:+ first.tokens

namespace Window

theorem Leads.refl (window : Window) : window.Leads window :=
  ⟨List.prefix_rfl, rfl, List.suffix_rfl⟩

theorem Leads.trans {first second third : Window} (before : first.Leads second)
    (after : second.Leads third) : first.Leads third :=
  ⟨before.errors.trans after.errors, after.closing.trans before.closing,
    after.tokens.trans before.tokens⟩

theorem leads_advance (window : Window) : window.Leads window.advance :=
  ⟨List.prefix_rfl, rfl, List.tail_suffix window.tokens⟩

/-- The window after an optional semicolon. -/
def behindSemicolon (window : Window) : Window :=
  if window.ahead.kind = .semicolon then window.advance else window

theorem leads_record (window : Window) (error : SyntaxError) :
    window.Leads (window.record error) :=
  ⟨List.prefix_append _ _, rfl, List.suffix_rfl⟩

end Window

namespace Parser

variable {α β : Type}

/-- A reader that only moves on and records errors. -/
class Steady (parser : Parser α) : Prop where
  leads : ∀ window : Window, window.Leads (parser.run window).2

instance steady_pure (result : α) : Steady (pure result : Parser α) :=
  ⟨Window.Leads.refl⟩

instance steady_bind (parser : Parser α) (continuation : α → Parser β) [first : Steady parser]
    [second : ∀ result, Steady (continuation result)] : Steady (parser >>= continuation) :=
  ⟨fun window => (first.leads window).trans ((second _).leads _)⟩

/-- The two results that an optional one can be are looked at one by one. -/
instance (priority := low) steady_bind_option (parser : Parser (Option α))
    (continuation : Option α → Parser β) [Steady parser] [Steady (continuation none)]
    [∀ found, Steady (continuation (some found))] : Steady (parser >>= continuation) := by
  have second (result : Option α) : Steady (continuation result) := by
    cases result <;> infer_instance
  infer_instance

instance steady_ite (condition : Prop) [Decidable condition] (yes no : Parser α)
    [first : Steady yes] [second : Steady no] : Steady (if condition then yes else no) := by
  split
  · exact first
  · exact second

instance steady_current : Steady current :=
  ⟨Window.Leads.refl⟩

instance steady_ahead : Steady ahead :=
  ⟨Window.Leads.refl⟩

instance steady_advance : Steady advance :=
  ⟨Window.leads_advance⟩

instance steady_record (error : SyntaxError) : Steady (record error) :=
  ⟨fun window => window.leads_record error⟩

instance steady_expect (wanted : TokenKind) : Steady (expect wanted) := by
  unfold expect
  infer_instance

instance steady_skipSemicolon : Steady skipSemicolon := by
  unfold skipSemicolon
  infer_instance

instance steady_integer (token : Token) : Steady (integer token) := by
  unfold integer
  infer_instance

instance steady_names (fuel : Nat) : Steady (names fuel) := by
  induction fuel with
  | zero =>
    unfold names
    infer_instance
  | succ fuel inductionHypothesis =>
    unfold names
    infer_instance

instance steady_parameters (fuel : Nat) : Steady (parameters fuel) := by
  unfold parameters
  infer_instance

/-- All readers that call each other are steady on some amount of fuel. -/
structure AllSteady (fuel : Nat) : Prop where
  expression (rank : Precedence) : Steady (expression fuel rank)
  operators (rank : Precedence) (left : Node) : Steady (operators fuel rank left)
  operand (token : Token) : Steady (operand fuel token)
  application (left : Node) : Steady (application fuel left)
  conditional (token : Token) : Steady (conditional fuel token)
  function (token : Token) : Steady (function fuel token)
  expressionList (close : TokenKind) : Steady (expressionList fuel close)
  expressions : Steady (expressions fuel)
  pairs : Steady (pairs fuel)
  block : Steady (block fuel)
  statements (inBlock : Bool) : Steady (statements fuel inBlock)
  statement : Steady (statement fuel)

set_option synthInstance.maxSize 2048 in
theorem allSteady (fuel : Nat) : AllSteady fuel := by
  induction fuel with
  | zero =>
    constructor
    all_goals
      intros
      simp only [expression, operators, operand, application, conditional, function,
        expressionList, expressions, pairs, block, statements, statement]
      infer_instance
  | succ fuel inductionHypothesis =>
    obtain ⟨_, _, _, _, _, _, _, _, _, _, _, _⟩ := inductionHypothesis
    constructor
    case operand =>
      intro token
      unfold operand
      split <;> infer_instance
    case application =>
      intro left
      unfold application
      refine @steady_bind _ _ _ _ _ fun token => ?_
      split <;> infer_instance
    case statement =>
      unfold statement
      refine @steady_bind _ _ _ _ _ fun token => ?_
      split <;> infer_instance
    all_goals
      intros
      simp only [expression, operators, conditional, function, expressionList, expressions, pairs,
        block, statements]
      infer_instance

section

variable (fuel : Nat)

instance steady_expression (rank : Precedence) : Steady (expression fuel rank) :=
  (allSteady fuel).expression rank

instance steady_operators (rank : Precedence) (left : Node) : Steady (operators fuel rank left) :=
  (allSteady fuel).operators rank left

instance steady_operand (token : Token) : Steady (operand fuel token) :=
  (allSteady fuel).operand token

instance steady_application (left : Node) : Steady (application fuel left) :=
  (allSteady fuel).application left

instance steady_expressionList (close : TokenKind) : Steady (expressionList fuel close) :=
  (allSteady fuel).expressionList close

instance steady_expressions : Steady (expressions fuel) :=
  (allSteady fuel).expressions

instance steady_pairs : Steady (pairs fuel) :=
  (allSteady fuel).pairs

instance steady_block : Steady (block fuel) :=
  (allSteady fuel).block

instance steady_statements (inBlock : Bool) : Steady (statements fuel inBlock) :=
  (allSteady fuel).statements inBlock

instance steady_statement : Steady (statement fuel) :=
  (allSteady fuel).statement

end

/-! ### Runs without errors -/

/-- The reader turns the first window into the second with this result, and records no
error. -/
def Reads (parser : Parser α) (window : Window) (result : α) (after : Window) : Prop :=
  parser.run window = (result, after) ∧ after.errors = window.errors

theorem Reads.leads {parser : Parser α} [steady : Steady parser] {window after : Window}
    {result : α} (reads : Reads parser window result after) : window.Leads after := by
  have leads := steady.leads window
  rwa [reads.1] at leads

section

variable {window after : Window}

/-- A run of two readers in a row has no errors exactly when neither of them has. -/
theorem reads_bind {parser : Parser α} {continuation : α → Parser β} [first : Steady parser]
    [second : ∀ result, Steady (continuation result)] {result : β} :
    Reads (parser >>= continuation) window result after ↔
      ∃ middle between, Reads parser window middle between ∧
        Reads (continuation middle) between result after := by
  constructor
  · rintro ⟨runs, clean⟩
    have before := (first.leads window).errors
    have behind := ((second (parser.run window).1).leads (parser.run window).2).errors
    change (continuation (parser.run window).1).run (parser.run window).2 = _ at runs
    rw [runs] at behind
    have same : (parser.run window).2.errors = window.errors := by
      rw [clean] at behind
      exact behind.eq_of_length_le before.length_le
    exact ⟨_, _, ⟨rfl, same⟩, runs, clean.trans same.symm⟩
  · rintro ⟨middle, between, ⟨runs, clean⟩, runsOn, cleanOn⟩
    refine ⟨?_, cleanOn.trans clean⟩
    change (continuation (parser.run window).1).run (parser.run window).2 = _
    rw [runs]
    exact runsOn

/-- The same for a reader that always finds something when it records no error. -/
theorem reads_bind_some {parser : Parser (Option α)} {continuation : Option α → Parser β}
    [Steady parser] [Steady (continuation none)] [∀ found, Steady (continuation (some found))]
    (finds : ∀ {result : Option α} {between : Window},
      Reads parser window result between → result.isSome = true) {result : β} :
    Reads (parser >>= continuation) window result after ↔
      ∃ found between, Reads parser window (some found) between ∧
        Reads (continuation (some found)) between result after := by
  have steady (result : Option α) : Steady (continuation result) := by
    cases result <;> infer_instance
  rw [reads_bind]
  constructor
  · rintro ⟨middle, between, reads, readsOn⟩
    obtain ⟨found, rfl⟩ := Option.isSome_iff_exists.mp (finds reads)
    exact ⟨found, between, reads, readsOn⟩
  · rintro ⟨found, between, reads, readsOn⟩
    exact ⟨some found, between, reads, readsOn⟩

theorem reads_pure {given result : α} :
    Reads (pure given) window result after ↔ result = given ∧ after = window := by
  constructor
  · rintro ⟨runs, -⟩
    obtain ⟨rfl, rfl⟩ := Prod.mk.inj runs
    exact ⟨rfl, rfl⟩
  · rintro ⟨rfl, rfl⟩
    exact ⟨rfl, rfl⟩

theorem reads_bind_pure {parser : Parser α} {form : α → β} [Steady parser] {result : β} :
    Reads (parser >>= fun found => pure (form found)) window result after ↔
      ∃ found, Reads parser window found after ∧ result = form found := by
  simp only [reads_bind, reads_pure]
  constructor
  · rintro ⟨found, between, reads, rfl, rfl⟩
    exact ⟨found, reads, rfl⟩
  · rintro ⟨found, reads, rfl⟩
    exact ⟨found, after, reads, rfl, rfl⟩

theorem reads_ite {condition : Prop} [Decidable condition] {yes no : Parser α} {result : α} :
    Reads (if condition then yes else no) window result after ↔
      (condition ∧ Reads yes window result after) ∨
        (¬ condition ∧ Reads no window result after) := by
  by_cases holds : condition <;> simp [holds]

theorem reads_current_bind {continuation : Token → Parser β} {result : β} :
    Reads (current >>= continuation) window result after ↔
      Reads (continuation window.current) window result after :=
  Iff.rfl

theorem reads_ahead_bind {continuation : Token → Parser β} {result : β} :
    Reads (ahead >>= continuation) window result after ↔
      Reads (continuation window.ahead) window result after :=
  Iff.rfl

theorem reads_advance_bind {continuation : Unit → Parser β} {result : β} :
    Reads (advance >>= continuation) window result after ↔
      Reads (continuation ()) window.advance result after :=
  Iff.rfl

theorem not_reads_record_bind {error : SyntaxError} {continuation : Unit → Parser β}
    [∀ result, Steady (continuation result)] {result : β} :
    ¬ Reads (record error >>= continuation) window result after := by
  rw [reads_bind]
  rintro ⟨middle, between, ⟨runs, clean⟩, -⟩
  rw [← (Prod.mk.inj runs).2] at clean
  simp [Window.record] at clean

theorem reads_expect_bind {wanted : TokenKind} {continuation : Bool → Parser β}
    [∀ result, Steady (continuation result)] {result : β} :
    Reads (expect wanted >>= continuation) window result after ↔
      window.ahead.kind = wanted ∧ Reads (continuation true) window.advance result after := by
  simp only [expect, bind_assoc, reads_ahead_bind]
  by_cases found : window.ahead.kind = wanted
  · simp only [found, if_true, true_and, bind_assoc, pure_bind, reads_advance_bind]
  · simp only [found, if_false, false_and, iff_false, bind_assoc, pure_bind]
    exact not_reads_record_bind

theorem reads_skipSemicolon_bind {continuation : Unit → Parser β} {result : β} :
    Reads (skipSemicolon >>= continuation) window result after ↔
      Reads (continuation ()) window.behindSemicolon result after := by
  simp only [skipSemicolon, bind_assoc, reads_ahead_bind, Window.behindSemicolon]
  by_cases ends : window.ahead.kind = .semicolon
  · simp only [ends, if_true, reads_advance_bind]
  · simp only [ends, if_false, pure_bind]

/-! ### What a run without errors can be: names and expressions -/

theorem reads_names {fuel : Nat} {result : Option (List Node)} :
    Reads (names (fuel + 1)) window result after ↔
      window.ahead.kind = .ident ∧
        ((window.advance.ahead.kind = .comma ∧ ∃ rest,
            Reads (names fuel) window.advance.advance rest after ∧
              result = rest.map (Node.ofToken window.ahead :: ·)) ∨
          (window.advance.ahead.kind ≠ .comma ∧ result = some [.ofToken window.ahead] ∧
            after = window.advance)) := by
  simp only [names, reads_expect_bind, if_true, reads_current_bind, reads_ahead_bind, reads_ite,
    reads_advance_bind, @reads_bind _ _ _ _ (names _), reads_pure, Window.current_advance]
  simp

theorem isSome_of_reads_names {fuel : Nat} {result : Option (List Node)}
    (reads : Reads (names fuel) window result after) : result.isSome = true := by
  induction fuel generalizing window result with
  | zero =>
    simp only [names] at reads
    exact absurd reads not_reads_record_bind
  | succ fuel inductionHypothesis =>
    obtain ⟨-, ⟨-, rest, restReads, rfl⟩ | ⟨-, rfl, -⟩⟩ := reads_names.mp reads
    · rw [Option.isSome_map]
      exact inductionHypothesis restReads
    · rfl

theorem reads_parameters {fuel : Nat} {result : Option Node} :
    Reads (parameters fuel) window result after ↔
      (window.ahead.kind = .rightParen ∧
          result = some (.tree .parameters [.ofToken window.current]) ∧ after = window.advance) ∨
        (window.ahead.kind ≠ .rightParen ∧ ∃ names between,
          Reads (Parser.names fuel) window (some names) between ∧
            between.ahead.kind = .rightParen ∧
            result = some (.tree .parameters (.ofToken window.current :: names)) ∧
            after = between.advance) := by
  simp only [parameters, reads_current_bind, reads_ahead_bind, reads_ite, reads_advance_bind,
    reads_pure, reads_bind_some isSome_of_reads_names, reads_expect_bind, if_true]

theorem isSome_of_reads_parameters {fuel : Nat} {result : Option Node}
    (reads : Reads (parameters fuel) window result after) : result.isSome = true := by
  obtain ⟨-, rfl, -⟩ | ⟨-, names, between, -, -, rfl, -⟩ := reads_parameters.mp reads
  · rfl
  · rfl


theorem reads_expression {fuel : Nat} {rank : Precedence} {result : Node} :
    Reads (expression (fuel + 1) rank) window result after ↔
      window.current.kind.startsExpression = true ∧ ∃ left between,
        Reads (operand fuel window.current) window left between ∧
          Reads (operators fuel rank left) between result after := by
  simp only [expression, reads_current_bind, reads_ite, @reads_bind _ _ _ _ (operand _ _),
    not_reads_record_bind, and_false, or_false]

theorem reads_operators {fuel : Nat} {rank : Precedence} {left result : Node} :
    Reads (operators (fuel + 1) rank left) window result after ↔
      (rank.level < window.ahead.kind.precedence.level ∧ ∃ applied between,
          Reads (application fuel left) window.advance applied between ∧
            Reads (operators fuel rank applied) between result after) ∨
        (¬ rank.level < window.ahead.kind.precedence.level ∧ result = left ∧ after = window) := by
  simp only [operators, reads_ahead_bind, reads_ite, reads_advance_bind,
    @reads_bind _ _ _ _ (application _ _), reads_pure]

theorem reads_expressions {fuel : Nat} {result : List Node} :
    Reads (expressions (fuel + 1)) window result after ↔
      ∃ first between, Reads (expression fuel .lowest) window first between ∧
        ((between.ahead.kind = .comma ∧ ∃ rest,
            Reads (expressions fuel) between.advance.advance rest after ∧
              result = first :: rest) ∨
          (between.ahead.kind ≠ .comma ∧ result = [first] ∧ after = between)) := by
  simp only [expressions, @reads_bind _ _ _ _ (expression _ _), reads_ahead_bind, reads_ite,
    reads_advance_bind, reads_bind_pure, reads_pure, ne_eq]

theorem reads_expressionList {fuel : Nat} {close : TokenKind} {result : Option (List Node)} :
    Reads (expressionList (fuel + 1) close) window result after ↔
      (window.ahead.kind = close ∧ result = some [] ∧ after = window.advance) ∨
        (window.ahead.kind ≠ close ∧ ∃ items between,
          Reads (expressions fuel) window.advance items between ∧ between.ahead.kind = close ∧
            result = some items ∧ after = between.advance) := by
  simp only [expressionList, reads_ahead_bind, reads_ite, reads_advance_bind, reads_pure,
    @reads_bind _ _ _ _ (expressions _), reads_expect_bind, if_true, ne_eq]

theorem isSome_of_reads_expressionList {fuel : Nat} {close : TokenKind}
    {result : Option (List Node)} (reads : Reads (expressionList fuel close) window result after) :
    result.isSome = true := by
  cases fuel with
  | zero =>
    simp only [expressionList] at reads
    exact absurd reads not_reads_record_bind
  | succ fuel =>
    obtain ⟨-, rfl, -⟩ | ⟨-, items, between, -, -, rfl, -⟩ := reads_expressionList.mp reads
    · rfl
    · rfl

set_option synthInstance.maxSize 2048 in
theorem reads_pairs {fuel : Nat} {result : Option (List Node)} :
    Reads (pairs (fuel + 1)) window result after ↔
      (window.ahead.kind = .rightBrace ∧ result = some [] ∧ after = window.advance) ∨
        (window.ahead.kind ≠ .rightBrace ∧ ∃ key behind,
          Reads (expression fuel .lowest) window.advance key behind ∧
          behind.ahead.kind = .colon ∧ ∃ value between,
          Reads (expression fuel .lowest) behind.advance.advance value between ∧
          ((between.ahead.kind = .rightBrace ∧ ∃ rest, Reads (pairs fuel) between rest after ∧
              result = rest.map (Node.tree .pair [.ofToken behind.ahead, key, value] :: ·)) ∨
            (between.ahead.kind ≠ .rightBrace ∧ between.ahead.kind = .comma ∧ ∃ rest,
              Reads (pairs fuel) between.advance rest after ∧
              result = rest.map (Node.tree .pair [.ofToken behind.ahead, key, value] :: ·)))) := by
  simp only [pairs, reads_ahead_bind, reads_ite, reads_advance_bind, reads_pure,
    @reads_bind _ _ _ _ (expression _ _), reads_expect_bind, Bool.not_true, Bool.false_eq_true,
    if_false, if_true, reads_current_bind, Window.current_advance,
    @reads_bind_pure _ _ _ _ (pairs _), ne_eq]

theorem isSome_of_reads_pairs {fuel : Nat} {result : Option (List Node)}
    (reads : Reads (pairs fuel) window result after) : result.isSome = true := by
  induction fuel generalizing window result with
  | zero =>
    simp only [pairs] at reads
    exact absurd reads not_reads_record_bind
  | succ fuel inductionHypothesis =>
    obtain ⟨-, rfl, -⟩ | ⟨-, key, behind, -, -, value, between, -,
      ⟨-, rest, restReads, rfl⟩ | ⟨-, -, rest, restReads, rfl⟩⟩ := reads_pairs.mp reads
    · rfl
    · rw [Option.isSome_map]
      exact inductionHypothesis restReads
    · rw [Option.isSome_map]
      exact inductionHypothesis restReads

section

variable {fuel : Nat} {token : Token} {result : Node}

theorem reads_operand_leaf (member : token.kind ∈ Grammar.plainLeaves) :
    Reads (operand (fuel + 1) token) window result after ↔
      result = .ofToken token ∧ after = window := by
  simp only [Grammar.plainLeaves, List.mem_cons, List.not_mem_nil, or_false] at member
  rcases member with kind | kind | kind | kind <;> simp only [operand, kind, reads_pure]

theorem reads_operand_integer (kind : token.kind = .int) :
    Reads (operand (fuel + 1) token) window result after ↔
      Text.decimalValue token.text.toList ≤ maxLiteral ∧ result = .ofToken token ∧
        after = window := by
  simp only [operand, kind, integer, reads_ite, reads_pure, not_reads_record_bind, and_false,
    or_false]

theorem reads_operand_unary (member : token.kind ∈ Grammar.unaryOperators) :
    Reads (operand (fuel + 1) token) window result after ↔
      ∃ right, Reads (expression fuel .unary) window.advance right after ∧
        result = .tree .unary [.ofToken token, right] := by
  simp only [Grammar.unaryOperators, List.mem_cons, List.not_mem_nil, or_false] at member
  rcases member with kind | kind <;>
    simp only [operand, kind, reads_advance_bind, reads_bind_pure]

theorem reads_operand_group (kind : token.kind = .leftParen) :
    Reads (operand (fuel + 1) token) window result after ↔
      ∃ inner between, Reads (expression fuel .lowest) window.advance inner between ∧
        between.ahead.kind = .rightParen ∧ result = inner ∧ after = between.advance := by
  simp only [operand, kind, reads_advance_bind, @reads_bind _ _ _ _ (expression _ _),
    reads_expect_bind, if_true, reads_pure]

theorem reads_operand_conditional (kind : token.kind = .ifWord) :
    Reads (operand (fuel + 1) token) window result after ↔
      Reads (conditional fuel token) window result after := by
  simp only [operand, kind]

theorem reads_operand_function (kind : token.kind = .funcWord) :
    Reads (operand (fuel + 1) token) window result after ↔
      Reads (function fuel token) window result after := by
  simp only [operand, kind]

theorem reads_operand_array (kind : token.kind = .leftBracket) :
    Reads (operand (fuel + 1) token) window result after ↔
      ∃ elements, Reads (expressionList fuel .rightBracket) window (some elements) after ∧
        result = .tree .array (.ofToken token :: elements) := by
  simp only [operand, kind, reads_bind_some isSome_of_reads_expressionList, reads_pure]
  simp

theorem reads_operand_hash (kind : token.kind = .leftBrace) :
    Reads (operand (fuel + 1) token) window result after ↔
      ∃ pairs, Reads (Parser.pairs fuel) window (some pairs) after ∧
        result = .tree .hash (.ofToken token :: pairs) := by
  simp only [operand, kind, reads_bind_some isSome_of_reads_pairs, reads_pure]
  simp

end

section

variable {fuel : Nat} {left result : Node}

theorem reads_application_call (kind : window.current.kind = .leftParen) :
    Reads (application (fuel + 1) left) window result after ↔
      ∃ arguments, Reads (expressionList fuel .rightParen) window (some arguments) after ∧
        result = .tree .call (.ofToken window.current :: left :: arguments) := by
  simp only [application, reads_current_bind, kind,
    reads_bind_some isSome_of_reads_expressionList, reads_pure]
  simp

theorem reads_application_index (kind : window.current.kind = .leftBracket) :
    Reads (application (fuel + 1) left) window result after ↔
      ∃ index between, Reads (expression fuel .lowest) window.advance index between ∧
        between.ahead.kind = .rightBracket ∧
        result = .tree .index [.ofToken window.current, left, index] ∧
        after = between.advance := by
  simp only [application, reads_current_bind, kind, reads_advance_bind,
    @reads_bind _ _ _ _ (expression _ _), reads_expect_bind, if_true, reads_pure]

theorem reads_application_binary (notCall : window.current.kind ≠ .leftParen)
    (notIndex : window.current.kind ≠ .leftBracket) :
    Reads (application (fuel + 1) left) window result after ↔
      ∃ right, Reads (expression fuel window.current.kind.precedence) window.advance right after ∧
        result = .tree .binary [.ofToken window.current, left, right] := by
  simp only [application, reads_current_bind, reads_advance_bind, reads_bind_pure]

end

/-! ### What a run without errors can be: blocks and statements -/

set_option synthInstance.maxSize 2048 in
theorem reads_conditional {fuel : Nat} {token : Token} {result : Node} :
    Reads (conditional (fuel + 1) token) window result after ↔
      window.ahead.kind = .leftParen ∧ ∃ condition behind,
        Reads (expression fuel .lowest) window.advance.advance condition behind ∧
        behind.ahead.kind = .rightParen ∧ behind.advance.ahead.kind = .leftBrace ∧
        ∃ consequence between, Reads (block fuel) behind.advance.advance consequence between ∧
          ((between.ahead.kind = .elseWord ∧ between.advance.ahead.kind = .leftBrace ∧
              ∃ alternative, Reads (block fuel) between.advance.advance alternative after ∧
                result = .tree .conditional
                  [.ofToken token, condition, consequence, alternative]) ∨
            (between.ahead.kind ≠ .elseWord ∧
              result = .tree .conditional [.ofToken token, condition, consequence] ∧
              after = between)) := by
  simp only [conditional, reads_expect_bind, Bool.not_true, Bool.false_eq_true, if_false,
    reads_advance_bind, @reads_bind _ _ _ _ (expression _ _), @reads_bind _ _ _ _ (block _),
    reads_ahead_bind, reads_ite, reads_pure]
  simp

set_option synthInstance.maxSize 2048 in
theorem reads_function {fuel : Nat} {token : Token} {result : Node} :
    Reads (function (fuel + 1) token) window result after ↔
      window.ahead.kind = .leftParen ∧ ∃ parameters between,
        Reads (Parser.parameters fuel) window.advance (some parameters) between ∧
        between.ahead.kind = .leftBrace ∧ ∃ body,
        Reads (block fuel) between.advance body after ∧
        result = .tree .function [.ofToken token, parameters, body] := by
  simp only [function, reads_expect_bind, Bool.not_true, Bool.false_eq_true, if_false,
    reads_bind_some isSome_of_reads_parameters, reads_bind_pure]

theorem reads_block {fuel : Nat} {result : Node} :
    Reads (block (fuel + 1)) window result after ↔
      ∃ statements, Reads (Parser.statements fuel true) window.advance statements after ∧
        after.current.kind ≠ .endOfInput ∧
        result = .tree .block (.ofToken window.current :: statements) := by
  simp only [block, reads_current_bind, reads_advance_bind,
    @reads_bind _ _ _ _ (Parser.statements _ _), reads_ite, not_reads_record_bind, and_false,
    false_or, reads_pure]
  constructor
  · rintro ⟨statements, between, reads, closed, rfl, rfl⟩
    exact ⟨statements, reads, closed, rfl⟩
  · rintro ⟨statements, reads, closed, rfl⟩
    exact ⟨statements, after, reads, closed, rfl, rfl⟩

theorem reads_statements {fuel : Nat} {inBlock : Bool} {result : List Node} :
    Reads (statements (fuel + 1) inBlock) window result after ↔
      ((window.current.kind = .endOfInput ∨
          (inBlock = true ∧ window.current.kind = .rightBrace)) ∧ result = [] ∧
          after = window) ∨
        (¬ (window.current.kind = .endOfInput ∨
          (inBlock = true ∧ window.current.kind = .rightBrace)) ∧ ∃ first between,
          Reads (statement fuel) window first between ∧ ∃ rest,
          Reads (statements fuel inBlock) between.advance rest after ∧
          result = first.toList ++ rest) := by
  simp only [statements, reads_current_bind, reads_ite, reads_pure,
    @reads_bind _ _ _ _ (statement _), reads_advance_bind, reads_bind_pure]

section

variable {fuel : Nat} {result : Option Node}

theorem reads_letStatement (kind : window.current.kind = .letWord) :
    Reads (statement (fuel + 1)) window result after ↔
      window.ahead.kind = .ident ∧ window.advance.ahead.kind = .assign ∧ ∃ value between,
        Reads (expression fuel .lowest) window.advance.advance.advance value between ∧
        result = some (.tree .letStatement
          [.ofToken window.current, .ofToken window.ahead, value]) ∧
        after = between.behindSemicolon := by
  simp only [statement, reads_current_bind, kind, reads_expect_bind, Bool.not_true,
    Bool.false_eq_true, if_false, reads_advance_bind, @reads_bind _ _ _ _ (expression _ _),
    reads_skipSemicolon_bind, reads_pure, Window.current_advance]

theorem reads_returnStatement (kind : window.current.kind = .returnWord) :
    Reads (statement (fuel + 1)) window result after ↔
      ∃ value between, Reads (expression fuel .lowest) window.advance value between ∧
        result = some (.tree .returnStatement [.ofToken window.current, value]) ∧
        after = between.behindSemicolon := by
  simp only [statement, reads_current_bind, kind, reads_advance_bind,
    @reads_bind _ _ _ _ (expression _ _), reads_skipSemicolon_bind, reads_pure]

theorem reads_expressionStatement (notLet : window.current.kind ≠ .letWord)
    (notReturn : window.current.kind ≠ .returnWord) :
    Reads (statement (fuel + 1)) window result after ↔
      ∃ value between, Reads (expression fuel .lowest) window value between ∧
        result = some (.tree .expressionStatement [value]) ∧
        after = between.behindSemicolon := by
  simp only [statement, reads_current_bind, @reads_bind _ _ _ _ (expression _ _),
    reads_skipSemicolon_bind, reads_pure]

end

end

end Parser

end Scriptlet
