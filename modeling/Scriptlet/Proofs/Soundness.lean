/-
This file proves that a text which is read without errors is derived by the grammar:
its tokens, all of them and in their order, are a derivation of the tree that was
read.

Each reader starts on the first token of its phrase and stops on the last one, so
what it has used up is what stood before the tokens behind the current one. The
operator loop is the one place where the strata matter. It holds a left operand of
some stratum, and the token ahead never binds tighter than that stratum allows: an
operator is taken in only when the left operand belongs to its stratum, and the right
operand was read up to a token that binds no tighter. This is the bound on the token
ahead that every statement about expressions carries along.
-/

import Scriptlet.Proofs.CleanRun

namespace Scriptlet

open Grammar

/-! ### The tokens at the window -/

/-- The closing token, and no other, marks the end of the input. -/
structure Window.Proper (window : Window) : Prop where
  closing : window.closing.kind = .endOfInput
  tokens : ∀ token ∈ window.tokens, token.kind ≠ .endOfInput

namespace Window

theorem Proper.of_leads {first second : Window} (proper : first.Proper)
    (leads : first.Leads second) : second.Proper :=
  ⟨leads.closing ▸ proper.closing, fun token member =>
    proper.tokens token (leads.tokens.subset member)⟩

theorem Proper.advance {window : Window} (proper : window.Proper) : window.advance.Proper :=
  proper.of_leads window.leads_advance

/-- A current token of any other kind stands in the list. -/
theorem Proper.tokens_eq {window : Window} (proper : window.Proper)
    (more : window.current.kind ≠ .endOfInput) :
    window.tokens = window.current :: window.advance.tokens := by
  cases listed : window.tokens with
  | nil =>
    rw [current, listed] at more
    exact absurd proper.closing more
  | cons token rest => rw [current, tokens_advance, listed, List.headD_cons, List.tail_cons]

/-- A token ahead of any other kind stands in the list. -/
theorem Proper.behind_eq {window : Window} (proper : window.Proper)
    (more : window.ahead.kind ≠ .endOfInput) :
    window.advance.tokens = window.ahead :: window.advance.advance.tokens :=
  proper.advance.tokens_eq more

theorem Proper.current_of_endOfInput {window : Window} (proper : window.Proper)
    (ended : window.current.kind = .endOfInput) : window.tokens = [] := by
  cases listed : window.tokens with
  | nil => rfl
  | cons token rest =>
    rw [current, listed, List.headD_cons] at ended
    exact absurd ended (proper.tokens token (by rw [listed]; exact List.mem_cons_self))

end Window

/-- What can start an expression. -/
theorem TokenKind.startsExpression_cases {kind : TokenKind}
    (starts : kind.startsExpression = true) :
    kind ∈ plainLeaves ∨ kind = .int ∨ kind ∈ unaryOperators ∨ kind = .leftParen ∨
      kind = .ifWord ∨ kind = .funcWord ∨ kind = .leftBracket ∨ kind = .leftBrace := by
  cases kind <;> first | decide | exact absurd starts (by decide)

namespace Parser

/-! ### What each reader derives -/

/-- The tokens from the current one of the first window to the current one of the second
are a phrase. -/
def Spans (phrase : Phrase) (window after : Window) (nodes : List Node) : Prop :=
  ∃ tokens, window.tokens = tokens ++ after.advance.tokens ∧ Derives .optional phrase tokens nodes

/-- The tokens between the current one of the first window and that of the second are a
phrase, and the latter closes it. -/
def Encloses (close : TokenKind) (phrase : Phrase) (window after : Window) (nodes : List Node) :
    Prop :=
  ∃ tokens closing, closing.kind = close ∧
    window.advance.tokens = tokens ++ closing :: after.advance.tokens ∧
    Derives .optional phrase tokens nodes

/-- The token ahead binds no tighter than a stratum. -/
def Bounded (stratum : Precedence) (window : Window) : Prop :=
  window.ahead.kind.precedence.level ≤ stratum.level

/-- On some amount of fuel every reader that records no error has read a derivation. -/
structure SoundOn (fuel : Nat) : Prop where
  expression {rank : Precedence} {window after : Window} {node : Node} (proper : window.Proper)
    (reads : Reads (expression fuel rank) window node after) :
    Spans (.expression rank.operandStratum) window after [node] ∧ Bounded rank after
  operators {rank stratum : Precedence} {window after : Window} {left node : Node}
    {leftTokens : List Token} (proper : window.Proper)
    (derived : Derives .optional (.expression stratum) leftTokens [left])
    (reached : rank.operandStratum.level ≤ stratum.level) (bounded : Bounded stratum window)
    (reads : Reads (operators fuel rank left) window node after) :
    ∃ tokens, window.advance.tokens = tokens ++ after.advance.tokens ∧
      Derives .optional (.expression rank.operandStratum) (leftTokens ++ tokens) [node] ∧
      Bounded rank after
  operand {window after : Window} {node : Node} (proper : window.Proper)
    (starts : window.current.kind.startsExpression = true)
    (reads : Reads (operand fuel window.current) window node after) :
    ∃ stratum, Spans (.expression stratum) window after [node] ∧
      Precedence.unary.level ≤ stratum.level ∧ Bounded stratum after
  application {window after : Window} {left node : Node} {leftTokens : List Token}
    (proper : window.Proper) (binds : 1 < window.current.kind.precedence.level)
    (derived : Derives .optional (.expression window.current.kind.precedence) leftTokens [left])
    (reads : Reads (application fuel left) window node after) :
    ∃ tokens, window.tokens = tokens ++ after.advance.tokens ∧
      Derives .optional (.expression window.current.kind.precedence) (leftTokens ++ tokens)
        [node] ∧
      Bounded window.current.kind.precedence after
  conditional {window after : Window} {node : Node} (proper : window.Proper)
    (kind : window.current.kind = .ifWord)
    (reads : Reads (conditional fuel window.current) window node after) :
    Spans (.expression .call) window after [node]
  function {window after : Window} {node : Node} (proper : window.Proper)
    (kind : window.current.kind = .funcWord)
    (reads : Reads (function fuel window.current) window node after) :
    Spans (.expression .call) window after [node]
  expressionList {close : TokenKind} {window after : Window} {nodes : List Node}
    (proper : window.Proper) (inside : close ≠ .endOfInput)
    (reads : Reads (expressionList fuel close) window (some nodes) after) :
    Encloses close .items window after nodes
  expressions {window after : Window} {nodes : List Node} (proper : window.Proper)
    (reads : Reads (expressions fuel) window nodes after) :
    Spans .expressions window after nodes
  pairs {window after : Window} {nodes : List Node} (proper : window.Proper)
    (reads : Reads (pairs fuel) window (some nodes) after) :
    Encloses .rightBrace .pairs window after nodes
  block {window after : Window} {node : Node} (proper : window.Proper)
    (kind : window.current.kind = .leftBrace) (reads : Reads (block fuel) window node after) :
    Spans .block window after [node]
  statements {inBlock : Bool} {window after : Window} {nodes : List Node}
    (proper : window.Proper) (reads : Reads (statements fuel inBlock) window nodes after) :
    ∃ tokens, window.tokens = tokens ++ after.tokens ∧
      Derives .optional .statements tokens nodes ∧
      (after.current.kind = .endOfInput ∨
        (inBlock = true ∧ after.current.kind = .rightBrace))
  statement {window after : Window} {result : Option Node} (proper : window.Proper)
    (reads : Reads (statement fuel) window result after) :
    ∃ node between, result = some node ∧ Spans .statement window between [node] ∧
      between.Proper ∧ after = between.behindSemicolon

section

variable {fuel : Nat} {window after : Window} {node : Node}

theorem spans_names (proper : window.Proper) {nodes : List Node}
    (reads : Reads (names fuel) window (some nodes) after) :
    ∃ tokens, window.advance.tokens = tokens ++ after.advance.tokens ∧
      Derives .optional .names tokens nodes := by
  induction fuel generalizing window nodes with
  | zero =>
    simp only [names] at reads
    exact absurd reads not_reads_record_bind
  | succ fuel inductionHypothesis =>
    obtain ⟨name, ⟨comma, rest, restReads, listed⟩ | ⟨-, listed, rfl⟩⟩ := reads_names.mp reads
    · obtain ⟨others, rfl⟩ := Option.isSome_iff_exists.mp (isSome_of_reads_names restReads)
      obtain rfl := Option.some.inj listed
      obtain ⟨tokens, spanned, derived⟩ :=
        inductionHypothesis proper.advance.advance restReads
      refine ⟨window.ahead :: window.advance.ahead :: tokens, ?_, .moreNames name comma derived⟩
      rw [proper.behind_eq (by simp [name]), proper.advance.behind_eq (by simp [comma]), spanned]
      rfl
    · obtain rfl := Option.some.inj listed
      exact ⟨[window.ahead], proper.behind_eq (by simp [name]), .oneName name⟩

theorem proper_of_reads {α : Type} {parser : Parser α} [Steady parser] {result : α}
    (proper : window.Proper) (reads : Reads parser window result after) : after.Proper :=
  proper.of_leads reads.leads

theorem spans_parameters (proper : window.Proper) (opens : window.current.kind = .leftParen)
    (reads : Reads (parameters fuel) window (some node) after) :
    Spans .parameters window after [node] := by
  obtain ⟨closes, listed, rfl⟩ | ⟨-, names, between, namesRead, closes, listed, rfl⟩ :=
    reads_parameters.mp reads
  · obtain rfl := Option.some.inj listed
    refine ⟨[window.current, window.ahead], ?_, .noParameters opens closes⟩
    rw [proper.tokens_eq (by simp [opens]), proper.behind_eq (by simp [closes])]
    rfl
  · obtain rfl := Option.some.inj listed
    have behind := proper_of_reads proper namesRead
    obtain ⟨tokens, spanned, derived⟩ := spans_names proper namesRead
    refine ⟨window.current :: (tokens ++ [between.ahead]), ?_,
      .someParameters opens closes derived⟩
    rw [proper.tokens_eq (by simp [opens]), spanned, behind.behind_eq (by simp [closes])]
    simp

/-! ### One step of each reader -/

theorem SoundOn.expression_succ (sound : SoundOn fuel) {rank : Precedence}
    (proper : window.Proper) (reads : Reads (Parser.expression (fuel + 1) rank) window node after) :
    Spans (.expression rank.operandStratum) window after [node] ∧ Bounded rank after := by
  obtain ⟨starts, left, between, leftReads, readsOn⟩ := reads_expression.mp reads
  obtain ⟨stratum, ⟨leftTokens, spanned, derived⟩, atom, bounded⟩ :=
    sound.operand proper starts leftReads
  have reached := Nat.le_trans rank.operandStratum_level_le_unary atom
  obtain ⟨tokens, spannedOn, derivedOn, boundedOn⟩ :=
    sound.operators (proper_of_reads proper leftReads) derived reached bounded readsOn
  refine ⟨⟨leftTokens ++ tokens, ?_, derivedOn⟩, boundedOn⟩
  rw [spanned, spannedOn, List.append_assoc]

theorem SoundOn.operators_succ (sound : SoundOn fuel) {rank stratum : Precedence} {left : Node}
    {leftTokens : List Token} (proper : window.Proper)
    (derived : Derives .optional (.expression stratum) leftTokens [left])
    (reached : rank.operandStratum.level ≤ stratum.level) (bounded : Bounded stratum window)
    (reads : Reads (Parser.operators (fuel + 1) rank left) window node after) :
    ∃ tokens, window.advance.tokens = tokens ++ after.advance.tokens ∧
      Derives .optional (.expression rank.operandStratum) (leftTokens ++ tokens) [node] ∧
      Bounded rank after := by
  obtain ⟨tighter, applied, between, appliedReads, readsOn⟩ | ⟨looser, rfl, rfl⟩ :=
    reads_operators.mp reads
  · have binds : 1 < window.advance.current.kind.precedence.level :=
      Nat.lt_of_le_of_lt rank.one_le_level tighter
    obtain ⟨tokens, spanned, derivedOn, boundedOn⟩ :=
      sound.application proper.advance binds (derived.loosen bounded) appliedReads
    obtain ⟨restTokens, spannedRest, derivedRest, boundedRest⟩ :=
      sound.operators (proper_of_reads proper.advance appliedReads) derivedOn
        (Precedence.operandStratum_level_le tighter) boundedOn readsOn
    refine ⟨tokens ++ restTokens, ?_, ?_, boundedRest⟩
    · rw [spanned, spannedRest, List.append_assoc]
    · rw [← List.append_assoc]
      exact derivedRest
  · refine ⟨[], rfl, ?_, Nat.le_of_not_lt looser⟩
    rw [List.append_nil]
    exact derived.loosen reached

theorem bounded_call (window : Window) : Bounded .call window :=
  Precedence.level_le_call _

theorem SoundOn.operand_succ (sound : SoundOn fuel) (proper : window.Proper)
    (starts : window.current.kind.startsExpression = true)
    (reads : Reads (Parser.operand (fuel + 1) window.current) window node after) :
    ∃ stratum, Spans (.expression stratum) window after [node] ∧
      Precedence.unary.level ≤ stratum.level ∧ Bounded stratum after := by
  have listed : window.tokens = window.current :: window.advance.tokens := by
    apply proper.tokens_eq
    intro ended
    simp [ended, TokenKind.startsExpression] at starts
  rcases TokenKind.startsExpression_cases starts with
    member | kind | member | kind | kind | kind | kind | kind
  · obtain ⟨rfl, rfl⟩ := (reads_operand_leaf member).mp reads
    exact ⟨.call, ⟨[after.current], listed, .leaf member⟩, by decide, bounded_call _⟩
  · obtain ⟨fits, rfl, rfl⟩ := (reads_operand_integer kind).mp reads
    exact ⟨.call, ⟨[after.current], listed, .integer kind fits⟩, by decide, bounded_call _⟩
  · obtain ⟨right, rightReads, rfl⟩ := (reads_operand_unary member).mp reads
    obtain ⟨⟨tokens, spanned, derived⟩, bounded⟩ := sound.expression proper.advance rightReads
    refine ⟨.unary, ⟨window.current :: tokens, ?_, .unary member derived⟩, Nat.le_refl _, bounded⟩
    rw [listed, spanned, List.cons_append]
  · obtain ⟨inner, between, innerReads, closes, rfl, rfl⟩ :=
      (reads_operand_group kind).mp reads
    obtain ⟨⟨tokens, spanned, derived⟩, -⟩ := sound.expression proper.advance innerReads
    have behind := (proper_of_reads proper.advance innerReads).behind_eq (by simp [closes])
    refine ⟨.call, ⟨window.current :: (tokens ++ [between.ahead]), ?_,
      .group kind closes (derived.loosen (by decide))⟩, by decide, bounded_call _⟩
    rw [listed, spanned, behind]
    simp
  · exact ⟨.call, sound.conditional proper kind ((reads_operand_conditional kind).mp reads),
      by decide, bounded_call _⟩
  · exact ⟨.call, sound.function proper kind ((reads_operand_function kind).mp reads),
      by decide, bounded_call _⟩
  · obtain ⟨elements, elementsRead, rfl⟩ := (reads_operand_array kind).mp reads
    obtain ⟨tokens, closing, closes, spanned, derived⟩ :=
      sound.expressionList proper (by decide) elementsRead
    refine ⟨.call, ⟨window.current :: (tokens ++ [closing]), ?_, .array kind closes derived⟩,
      by decide, bounded_call _⟩
    rw [listed, spanned]
    simp
  · obtain ⟨pairs, pairsRead, rfl⟩ := (reads_operand_hash kind).mp reads
    obtain ⟨tokens, closing, closes, spanned, derived⟩ := sound.pairs proper pairsRead
    refine ⟨.call, ⟨window.current :: (tokens ++ [closing]), ?_, .hash kind closes derived⟩,
      by decide, bounded_call _⟩
    rw [listed, spanned]
    simp

theorem SoundOn.application_succ (sound : SoundOn fuel) {left : Node} {leftTokens : List Token}
    (proper : window.Proper) (binds : 1 < window.current.kind.precedence.level)
    (derived : Derives .optional (.expression window.current.kind.precedence) leftTokens [left])
    (reads : Reads (Parser.application (fuel + 1) left) window node after) :
    ∃ tokens, window.tokens = tokens ++ after.advance.tokens ∧
      Derives .optional (.expression window.current.kind.precedence) (leftTokens ++ tokens)
        [node] ∧
      Bounded window.current.kind.precedence after := by
  have listed : window.tokens = window.current :: window.advance.tokens := by
    apply proper.tokens_eq
    intro ended
    simp [ended, TokenKind.precedence, Precedence.level] at binds
  rcases mem_binaryOperators_of_level binds with kind | kind | member
  · rw [kind] at derived ⊢
    obtain ⟨arguments, argumentsRead, rfl⟩ := (reads_application_call kind).mp reads
    obtain ⟨tokens, closing, closes, spanned, inner⟩ :=
      sound.expressionList proper (by decide) argumentsRead
    refine ⟨window.current :: (tokens ++ [closing]), ?_, .call kind closes derived inner,
      bounded_call _⟩
    rw [listed, spanned]
    simp
  · rw [kind] at derived ⊢
    obtain ⟨index, between, indexReads, closes, rfl, rfl⟩ :=
      (reads_application_index kind).mp reads
    obtain ⟨⟨tokens, spanned, inner⟩, -⟩ := sound.expression proper.advance indexReads
    have behind := (proper_of_reads proper.advance indexReads).behind_eq (by simp [closes])
    refine ⟨window.current :: (tokens ++ [between.ahead]), ?_,
      .index kind closes derived (inner.loosen (by decide)), bounded_call _⟩
    rw [listed, spanned, behind]
    simp
  · have notCall : window.current.kind ≠ .leftParen := by
      intro kind
      simp [kind, TokenKind.precedence, binaryOperators] at member
    have notIndex : window.current.kind ≠ .leftBracket := by
      intro kind
      simp [kind, TokenKind.precedence, binaryOperators] at member
    obtain ⟨right, rightReads, rfl⟩ := (reads_application_binary notCall notIndex).mp reads
    obtain ⟨⟨tokens, spanned, inner⟩, bounded⟩ := sound.expression proper.advance rightReads
    refine ⟨window.current :: tokens, ?_,
      .binary member (tighter?_of_mem_binaryOperators member) derived inner, bounded⟩
    rw [listed, spanned, List.cons_append]

theorem SoundOn.conditional_succ (sound : SoundOn fuel) (proper : window.Proper)
    (kind : window.current.kind = .ifWord)
    (reads : Reads (Parser.conditional (fuel + 1) window.current) window node after) :
    Spans (.expression .call) window after [node] := by
  obtain ⟨opens, condition, behind, conditionReads, closes, begins, consequence, between,
    blockReads, continued⟩ := reads_conditional.mp reads
  have properBehind := proper_of_reads proper.advance.advance conditionReads
  have properBetween := proper_of_reads properBehind.advance.advance blockReads
  obtain ⟨⟨conditionTokens, conditionSpanned, conditionDerived⟩, -⟩ :=
    sound.expression proper.advance.advance conditionReads
  obtain ⟨blockTokens, blockSpanned, blockDerived⟩ :=
    sound.block properBehind.advance.advance begins blockReads
  have spanned : window.tokens = window.current :: window.ahead ::
      (conditionTokens ++ behind.ahead :: (blockTokens ++ between.advance.tokens)) := by
    rw [proper.tokens_eq (by simp [kind]), proper.behind_eq (by simp [opens]), conditionSpanned,
      properBehind.behind_eq (by simp [closes]), blockSpanned]
  have derives {otherTokens : List Token} {alternative : List Node}
      (other : Derives .optional .alternative otherTokens alternative) :=
    Derives.conditional kind opens closes (conditionDerived.loosen (by decide)) blockDerived other
  rcases continued with ⟨follows, reopens, alternative, otherReads, rfl⟩ | ⟨-, rfl, rfl⟩
  · obtain ⟨otherTokens, otherSpanned, otherDerived⟩ :=
      sound.block properBetween.advance.advance reopens otherReads
    refine ⟨_, ?_, derives (.someAlternative follows otherDerived)⟩
    rw [spanned, properBetween.behind_eq (by simp [follows]), otherSpanned]
    simp
  · refine ⟨_, ?_, derives .noAlternative⟩
    rw [spanned]
    simp

theorem SoundOn.function_succ (sound : SoundOn fuel) (proper : window.Proper)
    (kind : window.current.kind = .funcWord)
    (reads : Reads (Parser.function (fuel + 1) window.current) window node after) :
    Spans (.expression .call) window after [node] := by
  obtain ⟨opens, parameters, between, parametersRead, begins, body, blockReads, rfl⟩ :=
    reads_function.mp reads
  have properBetween := proper_of_reads proper.advance parametersRead
  obtain ⟨parameterTokens, parametersSpanned, parametersDerived⟩ :=
    spans_parameters proper.advance opens parametersRead
  obtain ⟨blockTokens, blockSpanned, blockDerived⟩ :=
    sound.block properBetween.advance begins blockReads
  refine ⟨_, ?_, .function kind parametersDerived blockDerived⟩
  rw [proper.tokens_eq (by simp [kind]), parametersSpanned, blockSpanned]
  simp

theorem SoundOn.expressionList_succ (sound : SoundOn fuel) {close : TokenKind}
    {nodes : List Node} (proper : window.Proper) (inside : close ≠ .endOfInput)
    (reads : Reads (Parser.expressionList (fuel + 1) close) window (some nodes) after) :
    Encloses close .items window after nodes := by
  obtain ⟨closes, listed, rfl⟩ | ⟨-, items, between, itemsRead, closes, listed, rfl⟩ :=
    reads_expressionList.mp reads
  · obtain rfl := Option.some.inj listed
    exact ⟨[], window.ahead, closes, proper.behind_eq (closes ▸ inside), .noItems⟩
  · obtain rfl := Option.some.inj listed
    have behind := (proper_of_reads proper.advance itemsRead).behind_eq (closes ▸ inside)
    obtain ⟨tokens, spanned, derived⟩ := sound.expressions proper.advance itemsRead
    exact ⟨tokens, between.ahead, closes, by rw [spanned, behind], .someItems derived⟩

theorem SoundOn.expressions_succ (sound : SoundOn fuel) {nodes : List Node}
    (proper : window.Proper) (reads : Reads (Parser.expressions (fuel + 1)) window nodes after) :
    Spans .expressions window after nodes := by
  obtain ⟨first, between, firstReads, continued⟩ := reads_expressions.mp reads
  have properBetween := proper_of_reads proper firstReads
  obtain ⟨⟨tokens, spanned, derived⟩, -⟩ := sound.expression proper firstReads
  rcases continued with ⟨separates, rest, restReads, rfl⟩ | ⟨-, rfl, rfl⟩
  · obtain ⟨restTokens, restSpanned, restDerived⟩ :=
      sound.expressions properBetween.advance.advance restReads
    refine ⟨_, ?_, .moreExpressions separates (derived.loosen (by decide)) restDerived⟩
    rw [spanned, properBetween.behind_eq (by simp [separates]), restSpanned]
    simp
  · exact ⟨tokens, spanned, .oneExpression (derived.loosen (by decide))⟩

theorem reads_pairs_of_rightBrace {result : Option (List Node)}
    (closes : window.ahead.kind = .rightBrace)
    (reads : Reads (Parser.pairs fuel) window result after) :
    result = some [] ∧ after = window.advance := by
  cases fuel with
  | zero =>
    simp only [Parser.pairs] at reads
    exact absurd reads not_reads_record_bind
  | succ fuel =>
    obtain ⟨-, ended⟩ | ⟨more, -⟩ := reads_pairs.mp reads
    · exact ended
    · exact absurd closes more

theorem SoundOn.pairs_succ (sound : SoundOn fuel) {nodes : List Node} (proper : window.Proper)
    (reads : Reads (Parser.pairs (fuel + 1)) window (some nodes) after) :
    Encloses .rightBrace .pairs window after nodes := by
  obtain ⟨closes, listed, rfl⟩ | ⟨-, key, behind, keyReads, colon, value, between, valueReads,
    continued⟩ := reads_pairs.mp reads
  · obtain rfl := Option.some.inj listed
    exact ⟨[], window.ahead, closes, proper.behind_eq (by simp [closes]), .noPairs⟩
  · have properBehind := proper_of_reads proper.advance keyReads
    have properBetween := proper_of_reads properBehind.advance.advance valueReads
    obtain ⟨⟨keyTokens, keySpanned, keyDerived⟩, -⟩ := sound.expression proper.advance keyReads
    obtain ⟨⟨valueTokens, valueSpanned, valueDerived⟩, -⟩ :=
      sound.expression properBehind.advance.advance valueReads
    have spanned : window.advance.tokens =
        keyTokens ++ behind.ahead :: (valueTokens ++ between.advance.tokens) := by
      rw [keySpanned, properBehind.behind_eq (by simp [colon]), valueSpanned]
    have keyLowest : Derives .optional (.expression .lowest) keyTokens [key] :=
      keyDerived.loosen (by decide)
    have valueLowest : Derives .optional (.expression .lowest) valueTokens [value] :=
      valueDerived.loosen (by decide)
    rcases continued with
      ⟨closes, rest, restReads, listed⟩ | ⟨-, separates, rest, restReads, listed⟩
    · obtain ⟨rfl, rfl⟩ := reads_pairs_of_rightBrace closes restReads
      obtain rfl := Option.some.inj listed
      refine ⟨_, between.ahead, closes, ?_, .lastPair colon keyLowest valueLowest⟩
      rw [spanned, properBetween.behind_eq (by simp [closes])]
      simp
    · obtain ⟨others, rfl⟩ := Option.isSome_iff_exists.mp (isSome_of_reads_pairs restReads)
      obtain rfl := Option.some.inj listed
      obtain ⟨restTokens, closing, closes, restSpanned, restDerived⟩ :=
        sound.pairs properBetween.advance restReads
      refine ⟨_, closing, closes, ?_,
        .morePairs colon separates keyLowest valueLowest restDerived⟩
      rw [spanned, properBetween.behind_eq (by simp [separates]), restSpanned]
      simp

theorem SoundOn.block_succ (sound : SoundOn fuel) (proper : window.Proper)
    (kind : window.current.kind = .leftBrace)
    (reads : Reads (Parser.block (fuel + 1)) window node after) :
    Spans .block window after [node] := by
  obtain ⟨statements, statementsRead, closed, rfl⟩ := reads_block.mp reads
  have properAfter := proper_of_reads proper.advance statementsRead
  obtain ⟨tokens, spanned, derived, ended | ⟨-, closes⟩⟩ :=
    sound.statements proper.advance statementsRead
  · exact absurd ended closed
  · refine ⟨window.current :: (tokens ++ [after.current]), ?_, .block kind closes derived⟩
    rw [proper.tokens_eq (by simp [kind]), spanned, properAfter.tokens_eq closed]
    simp

theorem SoundOn.statements_succ (sound : SoundOn fuel) {inBlock : Bool} {nodes : List Node}
    (proper : window.Proper)
    (reads : Reads (Parser.statements (fuel + 1) inBlock) window nodes after) :
    ∃ tokens, window.tokens = tokens ++ after.tokens ∧
      Derives .optional .statements tokens nodes ∧
      (after.current.kind = .endOfInput ∨
        (inBlock = true ∧ after.current.kind = .rightBrace)) := by
  obtain ⟨ended, rfl, rfl⟩ | ⟨-, first, between, firstReads, rest, restReads, rfl⟩ :=
    reads_statements.mp reads
  · exact ⟨[], rfl, .noStatements, ended⟩
  · have properBetween := proper_of_reads proper firstReads
    obtain ⟨restTokens, restSpanned, restDerived, ended⟩ :=
      sound.statements properBetween.advance restReads
    obtain ⟨node, last, rfl, ⟨tokens, spanned, derived⟩, properLast, rfl⟩ :=
      sound.statement proper firstReads
    by_cases semicolon : last.ahead.kind = .semicolon
    · rw [Window.behindSemicolon, if_pos semicolon] at restSpanned
      refine ⟨tokens ++ last.ahead :: restTokens, ?_, .terminated semicolon derived restDerived,
        ended⟩
      rw [spanned, properLast.behind_eq (by simp [semicolon]), restSpanned]
      simp
    · rw [Window.behindSemicolon, if_neg semicolon] at restSpanned
      refine ⟨tokens ++ restTokens, ?_, .unterminated (.inl rfl) derived restDerived, ended⟩
      rw [spanned, restSpanned, List.append_assoc]

theorem SoundOn.statement_succ (sound : SoundOn fuel) {result : Option Node}
    (proper : window.Proper) (reads : Reads (Parser.statement (fuel + 1)) window result after) :
    ∃ node between, result = some node ∧ Spans .statement window between [node] ∧
      between.Proper ∧ after = between.behindSemicolon := by
  by_cases isLet : window.current.kind = .letWord
  · obtain ⟨name, equals, value, between, valueReads, rfl, rfl⟩ :=
      (reads_letStatement isLet).mp reads
    have properValue := proper.advance.advance.advance
    obtain ⟨⟨tokens, spanned, derived⟩, -⟩ := sound.expression properValue valueReads
    refine ⟨_, between, rfl, ⟨_, ?_, .letStatement isLet name equals (derived.loosen (by decide))⟩,
      proper_of_reads properValue valueReads, rfl⟩
    rw [proper.tokens_eq (by simp [isLet]), proper.behind_eq (by simp [name]),
      proper.advance.behind_eq (by simp [equals]), spanned]
    simp
  · by_cases isReturn : window.current.kind = .returnWord
    · obtain ⟨value, between, valueReads, rfl, rfl⟩ := (reads_returnStatement isReturn).mp reads
      obtain ⟨⟨tokens, spanned, derived⟩, -⟩ := sound.expression proper.advance valueReads
      refine ⟨_, between, rfl, ⟨_, ?_, .returnStatement isReturn (derived.loosen (by decide))⟩,
        proper_of_reads proper.advance valueReads, rfl⟩
      rw [proper.tokens_eq (by simp [isReturn]), spanned]
      simp
    · obtain ⟨value, between, valueReads, rfl, rfl⟩ :=
        (reads_expressionStatement isLet isReturn).mp reads
      obtain ⟨⟨tokens, spanned, derived⟩, -⟩ := sound.expression proper valueReads
      exact ⟨_, between, rfl, ⟨tokens, spanned, .expressionStatement (derived.loosen (by decide))⟩,
        proper_of_reads proper valueReads, rfl⟩

/-- A run without errors has read a derivation, whatever the fuel. -/
theorem soundOn (fuel : Nat) : SoundOn fuel := by
  induction fuel with
  | zero =>
    constructor
    all_goals
      intros
      rename_i reads
      simp only [Parser.expression, Parser.operators, Parser.operand, Parser.application,
        Parser.conditional, Parser.function, Parser.expressionList, Parser.expressions,
        Parser.pairs, Parser.block, Parser.statements, Parser.statement] at reads
      exact absurd reads not_reads_record_bind
  | succ fuel sound =>
    exact {
      expression := sound.expression_succ
      operators := sound.operators_succ
      operand := sound.operand_succ
      application := sound.application_succ
      conditional := sound.conditional_succ
      function := sound.function_succ
      expressionList := sound.expressionList_succ
      expressions := sound.expressions_succ
      pairs := sound.pairs_succ
      block := sound.block_succ
      statements := sound.statements_succ
      statement := sound.statement_succ }

end

end Parser

/-! ### The tokens of a text -/

theorem Window.proper_ofText (text : String) : (Window.ofText text).Proper :=
  ⟨Cursor.kind_closing_scan _, Cursor.kind_of_mem_scan _⟩

/-- A text that is read without errors is derived by the grammar. -/
theorem program_of_readSource {text : String} (accepted : (readSource text).errors = []) :
    Program .optional (sourceTokens text) (readSource text).program := by
  have proper := Window.proper_ofText text
  have reads : Parser.Reads (Parser.statements (Window.ofText text).fuel false)
      (Window.ofText text) (readSource text).program.children
      ((Parser.statements (Window.ofText text).fuel false).run (Window.ofText text)).2 :=
    ⟨rfl, accepted⟩
  obtain ⟨tokens, spanned, derived, ended | ⟨impossible, -⟩⟩ :=
    (Parser.soundOn _).statements proper reads
  · have rest := (Parser.proper_of_reads proper reads).current_of_endOfInput ended
    rw [rest, List.append_nil] at spanned
    refine ⟨_, rfl, ?_⟩
    rw [← spanned] at derived
    exact derived
  · cases impossible

end Scriptlet
