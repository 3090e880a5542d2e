/-
This file compares runs of a reader on two windows of which the second shows the same tokens at
other places, and then more. A run without errors that stays clear of the end of the first
window cannot tell the two apart: it is possible on the second window as well, on any larger
amount of fuel, gives a tree that differs in positions at most, and leaves the same tokens
unread before the additional ones.

A run stays clear of the end when two tokens are left where it stops, the current one and the
one ahead, because the window never moves back. When there are no additional tokens it need not
stay clear of anything.
-/

import Mathlib.Data.List.Forall2
import Scriptlet.Proofs.Places
import Scriptlet.Proofs.Soundness

namespace Scriptlet

/-! ### Windows that show more -/

namespace Window

/-- The second window shows the tokens of the first, at other places, and then more. -/
structure Extends (more : List (TokenKind × String)) (window longer : Window) : Prop where
  tokens : longer.tokens.map Token.bare = window.tokens.map Token.bare ++ more
  closing : longer.closing.bare = window.closing.bare

/-- There are no more tokens than the window shows, or it is clear of its end. -/
def Clear (more : List (TokenKind × String)) (window : Window) : Prop :=
  more = [] ∨ 2 ≤ window.tokens.length

variable {more : List (TokenKind × String)} {window longer after : Window}

theorem Clear.of_leads (clear : after.Clear more) (leads : window.Leads after) :
    window.Clear more :=
  clear.imp_right fun enough => Nat.le_trans enough leads.tokens.length_le

theorem bare_current (window : Window) :
    window.current.bare = (window.tokens.map Token.bare).headD window.closing.bare := by
  rw [Window.current]
  cases window.tokens <;> rfl

theorem Extends.current (shows : window.Extends more longer)
    (enough : more = [] ∨ window.tokens ≠ []) : longer.current.bare = window.current.bare := by
  rw [bare_current, bare_current, shows.tokens, shows.closing]
  rcases enough with rfl | unread
  · rw [List.append_nil]
  · obtain ⟨first, rest, listed⟩ := List.exists_cons_of_ne_nil unread
    rw [listed]
    rfl

theorem Extends.advance (shows : window.Extends more longer)
    (enough : more = [] ∨ window.tokens ≠ []) :
    window.advance.Extends more longer.advance := by
  refine ⟨?_, shows.closing⟩
  rw [tokens_advance, tokens_advance, List.map_tail, shows.tokens, List.map_tail]
  rcases enough with rfl | unread
  · rw [List.append_nil, List.append_nil]
  · obtain ⟨first, rest, listed⟩ := List.exists_cons_of_ne_nil unread
    rw [listed]
    rfl

theorem Clear.unread (clear : window.Clear more) : more = [] ∨ window.tokens ≠ [] :=
  clear.imp_right fun enough nothing => by simp [nothing] at enough

theorem Clear.unread_advance (clear : window.Clear more) :
    more = [] ∨ window.advance.tokens ≠ [] :=
  clear.imp_right fun enough nothing => by
    have length := congrArg List.length nothing
    rw [tokens_advance, List.length_tail, List.length_nil] at length
    omega

theorem Extends.ahead (shows : window.Extends more longer) (clear : window.Clear more) :
    longer.ahead.bare = window.ahead.bare :=
  (shows.advance clear.unread).current clear.unread_advance

end Window

/-! ### Readers that cannot tell windows apart -/

namespace Parser

open Window

variable {α β γ δ : Type} {more : List (TokenKind × String)} {window longer after : Window}

/-- What the first reader reads without errors and clear of the end, the second one reads on
every window that shows more. -/
def Mirrors (more : List (TokenKind × String)) (first : Parser α) (second : Parser β)
    (related : α → β → Prop) : Prop :=
  ∀ window longer result after, Reads first window result after → after.Clear more →
    window.Extends more longer → ∃ result' after', Reads second longer result' after' ∧
      related result result' ∧ after.Extends more after'

/-- Tokens of one kind with one text. -/
abbrev SameBare (token other : Token) : Prop :=
  token.bare = other.bare

theorem mirrors_pure {related : α → β → Prop} {result : α} {result' : β}
    (holds : related result result') : Mirrors more (pure result) (pure result') related := by
  rintro window longer _ _ reads - shows
  obtain ⟨rfl, rfl⟩ := reads_pure.mp reads
  exact ⟨result', longer, ⟨rfl, rfl⟩, holds, shows⟩

theorem Mirrors.bind {first : Parser α} {second : Parser β} {continuation : α → Parser γ}
    {continuation' : β → Parser δ} {related : α → β → Prop} {last : γ → δ → Prop} [Steady first]
    [steady : ∀ result, Steady (continuation result)] (before : Mirrors more first second related)
    (behind : ∀ result result', related result result' →
      Mirrors more (continuation result) (continuation' result') last) :
    Mirrors more (first >>= continuation) (second >>= continuation') last := by
  intro window longer result after reads clear shows
  obtain ⟨middle, between, firstReads, restReads⟩ := reads_bind.mp reads
  obtain ⟨middle', between', firstReads', holds, showsOn⟩ :=
    before window longer middle between firstReads (clear.of_leads restReads.leads) shows
  obtain ⟨result', after', restReads', holdsOn, showsLast⟩ :=
    behind middle middle' holds between between' result after restReads clear showsOn
  refine ⟨result', after', ⟨?_, restReads'.2.trans firstReads'.2⟩, holdsOn, showsLast⟩
  show (continuation' (second.run longer).1).run (second.run longer).2 = _
  rw [firstReads'.1]
  exact restReads'.1

/-- The two results that an optional one can be are looked at one by one. -/
theorem Mirrors.bind_option {first : Parser (Option α)} {second : Parser (Option β)}
    {continuation : Option α → Parser γ} {continuation' : Option β → Parser δ}
    {related : α → β → Prop} {last : γ → δ → Prop} [Steady first] [Steady (continuation none)]
    [∀ found, Steady (continuation (some found))]
    (before : Mirrors more first second (Option.Rel related))
    (absent : Mirrors more (continuation none) (continuation' none) last)
    (present : ∀ found found', related found found' →
      Mirrors more (continuation (some found)) (continuation' (some found')) last) :
    Mirrors more (first >>= continuation) (second >>= continuation') last := by
  have steady (result : Option α) : Steady (continuation result) := by
    cases result <;> infer_instance
  refine before.bind fun result result' holds => ?_
  cases holds with
  | none => exact absent
  | some holds => exact present _ _ holds

theorem mirrors_current : Mirrors more current current SameBare := by
  intro window longer result after reads clear shows
  obtain ⟨rfl, rfl⟩ := Prod.mk.inj reads.1
  exact ⟨_, longer, ⟨rfl, rfl⟩, (shows.current clear.unread).symm, shows⟩

theorem mirrors_ahead : Mirrors more ahead ahead SameBare := by
  intro window longer result after reads clear shows
  obtain ⟨rfl, rfl⟩ := Prod.mk.inj reads.1
  exact ⟨_, longer, ⟨rfl, rfl⟩, (shows.ahead clear).symm, shows⟩

theorem mirrors_advance : Mirrors more advance advance fun _ _ => True := by
  intro window longer result after reads clear shows
  have unread := (clear.of_leads reads.leads).unread
  obtain ⟨rfl, rfl⟩ := Prod.mk.inj reads.1
  exact ⟨_, longer.advance, ⟨rfl, rfl⟩, trivial, shows.advance unread⟩

/-- A reader that records an error has no run without errors. -/
theorem mirrors_record {error : SyntaxError} {continuation : Unit → Parser α} {second : Parser β}
    {related : α → β → Prop} [∀ result, Steady (continuation result)] :
    Mirrors more (record error >>= continuation) second related :=
  fun _ _ _ _ reads => absurd reads not_reads_record_bind

theorem mirrors_ite {condition : Prop} [Decidable condition] {yes no : Parser α}
    {yes' no' : Parser β} {related : α → β → Prop} (first : Mirrors more yes yes' related)
    (second : Mirrors more no no' related) :
    Mirrors more (if condition then yes else no) (if condition then yes' else no') related := by
  split
  · exact first
  · exact second

/-- An expectation is met on both sides, or there was an error. -/
theorem mirrors_expect (wanted : TokenKind) :
    Mirrors more (expect wanted) (expect wanted) fun met met' => met = true ∧ met' = true := by
  refine mirrors_ahead.bind fun token token' same => ?_
  rw [(Prod.mk.inj same).1]
  refine mirrors_ite ?_ mirrors_record
  exact mirrors_advance.bind fun _ _ _ => mirrors_pure ⟨rfl, rfl⟩

theorem mirrors_skipSemicolon :
    Mirrors more skipSemicolon skipSemicolon fun _ _ => True := by
  refine mirrors_ahead.bind fun token token' same => ?_
  rw [(Prod.mk.inj same).1]
  exact mirrors_ite mirrors_advance (mirrors_pure trivial)

/-! ### Trees that are alike -/

theorem alike_ofToken {token other : Token} (same : SameBare token other) :
    (Node.ofToken token).Alike (.ofToken other) := by
  obtain ⟨kind, text⟩ := Prod.mk.inj same
  simp only [Node.Alike, Node.ofToken, Node.unplaced, Leaf.unplaced, Leaf.ofToken, kind, text]

/-- Lists of trees that are alike. -/
abbrev AllAlike : List Node → List Node → Prop :=
  List.Forall₂ Node.Alike

theorem allAlike_iff {nodes others : List Node} :
    AllAlike nodes others ↔ nodes.map Node.unplaced = others.map Node.unplaced := by
  rw [← List.forall₂_eq_eq_eq, List.forall₂_map_left_iff, List.forall₂_map_right_iff]
  exact Iff.rfl

theorem alike_tree {label : Label} {children others : List Node}
    (inner : AllAlike children others) :
    (Node.tree label children).Alike (.tree label others) := by
  simp only [Node.Alike, Node.unplaced, Node.unplacedAll_eq_map, allAlike_iff.mp inner]

theorem rel_map_cons {node node' : Node} (first : node.Alike node')
    {rest rest' : Option (List Node)} (others : Option.Rel AllAlike rest rest') :
    Option.Rel AllAlike (rest.map (node :: ·)) (rest'.map (node' :: ·)) := by
  cases others with
  | none => exact .none
  | some others => exact .some (.cons first others)

/-! ### The readers -/

theorem mirrors_names {fuel fuel' : Nat} (enough : fuel ≤ fuel') :
    Mirrors more (names fuel) (names fuel') (Option.Rel AllAlike) := by
  induction fuel generalizing fuel' with
  | zero => exact mirrors_record
  | succ fuel inductionHypothesis =>
    obtain ⟨fuel', rfl⟩ := Nat.exists_eq_add_of_le' (Nat.le_trans (Nat.le_add_left 1 fuel) enough)
    unfold names
    refine (mirrors_expect .ident).bind ?_
    rintro _ _ ⟨rfl, rfl⟩
    refine mirrors_current.bind fun name name' sameName => ?_
    refine mirrors_ahead.bind fun token token' same => ?_
    rw [(Prod.mk.inj same).1]
    refine mirrors_ite ?_ (mirrors_pure (.some (.cons (alike_ofToken sameName) .nil)))
    refine mirrors_advance.bind fun _ _ _ => ?_
    refine (inductionHypothesis (by omega)).bind fun rest rest' others => ?_
    exact mirrors_pure (rel_map_cons (alike_ofToken sameName) others)

theorem mirrors_parameters {fuel fuel' : Nat} (enough : fuel ≤ fuel') :
    Mirrors more (parameters fuel) (parameters fuel') (Option.Rel Node.Alike) := by
  unfold parameters
  refine mirrors_current.bind fun opening opening' sameOpening => ?_
  refine mirrors_ahead.bind fun token token' same => ?_
  rw [(Prod.mk.inj same).1]
  refine mirrors_ite ?_ ?_
  · refine mirrors_advance.bind fun _ _ _ => ?_
    exact mirrors_pure (.some (alike_tree (.cons (alike_ofToken sameOpening) .nil)))
  · refine (mirrors_names enough).bind_option (mirrors_pure .none) fun names names' others => ?_
    refine (mirrors_expect .rightParen).bind ?_
    rintro _ _ ⟨rfl, rfl⟩
    exact mirrors_pure (.some (alike_tree (.cons (alike_ofToken sameOpening) others)))

theorem mirrors_integer {token token' : Token} (same : SameBare token token') :
    Mirrors more (integer token) (integer token') Node.Alike := by
  unfold integer
  rw [(Prod.mk.inj same).2]
  exact mirrors_ite (mirrors_pure (alike_ofToken same)) mirrors_record

/-- On some amount of fuel every reader mirrors itself on any larger amount. -/
structure AllMirror (more : List (TokenKind × String)) (fuel : Nat) : Prop where
  expression {fuel' : Nat} (enough : fuel ≤ fuel') (rank : Precedence) :
    Mirrors more (expression fuel rank) (expression fuel' rank) Node.Alike
  operators {fuel' : Nat} (enough : fuel ≤ fuel') (rank : Precedence) {left left' : Node}
    (same : left.Alike left') :
    Mirrors more (operators fuel rank left) (operators fuel' rank left') Node.Alike
  operand {fuel' : Nat} (enough : fuel ≤ fuel') {token token' : Token}
    (same : SameBare token token') :
    Mirrors more (operand fuel token) (operand fuel' token') Node.Alike
  application {fuel' : Nat} (enough : fuel ≤ fuel') {left left' : Node}
    (same : left.Alike left') :
    Mirrors more (application fuel left) (application fuel' left') Node.Alike
  conditional {fuel' : Nat} (enough : fuel ≤ fuel') {token token' : Token}
    (same : SameBare token token') :
    Mirrors more (conditional fuel token) (conditional fuel' token') Node.Alike
  function {fuel' : Nat} (enough : fuel ≤ fuel') {token token' : Token}
    (same : SameBare token token') :
    Mirrors more (function fuel token) (function fuel' token') Node.Alike
  expressionList {fuel' : Nat} (enough : fuel ≤ fuel') (close : TokenKind) :
    Mirrors more (expressionList fuel close) (expressionList fuel' close) (Option.Rel AllAlike)
  expressions {fuel' : Nat} (enough : fuel ≤ fuel') :
    Mirrors more (expressions fuel) (expressions fuel') AllAlike
  pairs {fuel' : Nat} (enough : fuel ≤ fuel') :
    Mirrors more (pairs fuel) (pairs fuel') (Option.Rel AllAlike)
  block {fuel' : Nat} (enough : fuel ≤ fuel') :
    Mirrors more (block fuel) (block fuel') Node.Alike
  statements {fuel' : Nat} (enough : fuel ≤ fuel') (inBlock : Bool) :
    Mirrors more (statements fuel inBlock) (statements fuel' inBlock) AllAlike
  statement {fuel' : Nat} (enough : fuel ≤ fuel') :
    Mirrors more (statement fuel) (statement fuel') (Option.Rel Node.Alike)

section

variable {fuel fuel' : Nat} (mirrors : AllMirror more fuel) (enough : fuel ≤ fuel')

include mirrors enough

theorem mirrors_expression_succ (rank : Precedence) :
    Mirrors more (expression (fuel + 1) rank) (expression (fuel' + 1) rank) Node.Alike := by
  unfold expression
  refine mirrors_current.bind fun token token' same => ?_
  rw [(Prod.mk.inj same).1]
  refine mirrors_ite ?_ mirrors_record
  exact (mirrors.operand enough same).bind fun left left' => mirrors.operators enough rank

theorem mirrors_operators_succ (rank : Precedence) {left left' : Node}
    (same : left.Alike left') :
    Mirrors more (operators (fuel + 1) rank left) (operators (fuel' + 1) rank left')
      Node.Alike := by
  unfold operators
  refine mirrors_ahead.bind fun token token' sameToken => ?_
  rw [(Prod.mk.inj sameToken).1]
  refine mirrors_ite ?_ (mirrors_pure same)
  refine mirrors_advance.bind fun _ _ _ => ?_
  exact (mirrors.application enough same).bind fun applied applied' => mirrors.operators enough rank

theorem mirrors_operand_succ {token token' : Token} (same : SameBare token token') :
    Mirrors more (operand (fuel + 1) token) (operand (fuel' + 1) token') Node.Alike := by
  have leaf := alike_ofToken same
  unfold operand
  rw [(Prod.mk.inj same).1]
  split
  · exact mirrors_pure leaf
  · exact mirrors_pure leaf
  · exact mirrors_pure leaf
  · exact mirrors_pure leaf
  · exact mirrors_integer same
  · refine mirrors_advance.bind fun _ _ _ => ?_
    refine (mirrors.expression enough .unary).bind fun right right' sameRight => ?_
    exact mirrors_pure (alike_tree (.cons leaf (.cons sameRight .nil)))
  · refine mirrors_advance.bind fun _ _ _ => ?_
    refine (mirrors.expression enough .unary).bind fun right right' sameRight => ?_
    exact mirrors_pure (alike_tree (.cons leaf (.cons sameRight .nil)))
  · refine mirrors_advance.bind fun _ _ _ => ?_
    refine (mirrors.expression enough .lowest).bind fun inner inner' sameInner => ?_
    refine (mirrors_expect .rightParen).bind ?_
    rintro _ _ ⟨rfl, rfl⟩
    exact mirrors_pure sameInner
  · exact mirrors.conditional enough same
  · exact mirrors.function enough same
  · refine (mirrors.expressionList enough .rightBracket).bind_option (mirrors_pure rfl)
      fun elements elements' others => ?_
    exact mirrors_pure (alike_tree (.cons leaf others))
  · refine (mirrors.pairs enough).bind_option (mirrors_pure rfl) fun pairs pairs' others => ?_
    exact mirrors_pure (alike_tree (.cons leaf others))
  · exact mirrors_pure rfl

theorem mirrors_application_succ {left left' : Node} (same : left.Alike left') :
    Mirrors more (application (fuel + 1) left) (application (fuel' + 1) left') Node.Alike := by
  unfold application
  refine @Mirrors.bind _ _ _ _ _ _ _ _ _ _ _ _ ?_ mirrors_current fun token token' sameToken => ?_
  · intro token
    split <;> infer_instance
  · have leaf := alike_ofToken sameToken
    rw [(Prod.mk.inj sameToken).1]
    split
    · refine (mirrors.expressionList enough .rightParen).bind_option (mirrors_pure rfl)
        fun arguments arguments' others => ?_
      exact mirrors_pure (alike_tree (.cons leaf (.cons same others)))
    · refine mirrors_advance.bind fun _ _ _ => ?_
      refine (mirrors.expression enough .lowest).bind fun index index' sameIndex => ?_
      refine (mirrors_expect .rightBracket).bind ?_
      rintro _ _ ⟨rfl, rfl⟩
      exact mirrors_pure (alike_tree (.cons leaf (.cons same (.cons sameIndex .nil))))
    · refine mirrors_advance.bind fun _ _ _ => ?_
      refine (mirrors.expression enough _).bind fun right right' sameRight => ?_
      exact mirrors_pure (alike_tree (.cons leaf (.cons same (.cons sameRight .nil))))

set_option synthInstance.maxSize 2048 in
theorem mirrors_conditional_succ {token token' : Token} (same : SameBare token token') :
    Mirrors more (conditional (fuel + 1) token) (conditional (fuel' + 1) token') Node.Alike := by
  have word := alike_ofToken same
  unfold conditional
  refine (mirrors_expect .leftParen).bind ?_
  rintro _ _ ⟨rfl, rfl⟩
  refine mirrors_advance.bind fun _ _ _ => ?_
  refine (mirrors.expression enough .lowest).bind fun condition condition' sameCondition => ?_
  refine (mirrors_expect .rightParen).bind ?_
  rintro _ _ ⟨rfl, rfl⟩
  refine (mirrors_expect .leftBrace).bind ?_
  rintro _ _ ⟨rfl, rfl⟩
  refine (mirrors.block enough).bind fun consequence consequence' sameBlock => ?_
  refine mirrors_ahead.bind fun ahead ahead' sameAhead => ?_
  rw [(Prod.mk.inj sameAhead).1]
  refine mirrors_ite ?_ ?_
  · refine mirrors_advance.bind fun _ _ _ => ?_
    refine (mirrors_expect .leftBrace).bind ?_
    rintro _ _ ⟨rfl, rfl⟩
    refine (mirrors.block enough).bind fun alternative alternative' sameOther => ?_
    exact mirrors_pure (alike_tree
      (.cons word (.cons sameCondition (.cons sameBlock (.cons sameOther .nil)))))
  · exact mirrors_pure (alike_tree (.cons word (.cons sameCondition (.cons sameBlock .nil))))

theorem mirrors_function_succ {token token' : Token} (same : SameBare token token') :
    Mirrors more (function (fuel + 1) token) (function (fuel' + 1) token') Node.Alike := by
  have word := alike_ofToken same
  unfold function
  refine (mirrors_expect .leftParen).bind ?_
  rintro _ _ ⟨rfl, rfl⟩
  refine (mirrors_parameters enough).bind_option (mirrors_pure rfl)
    fun parameters parameters' sameParameters => ?_
  refine (mirrors_expect .leftBrace).bind ?_
  rintro _ _ ⟨rfl, rfl⟩
  refine (mirrors.block enough).bind fun body body' sameBody => ?_
  exact mirrors_pure (alike_tree (.cons word (.cons sameParameters (.cons sameBody .nil))))

theorem mirrors_expressionList_succ (close : TokenKind) :
    Mirrors more (expressionList (fuel + 1) close) (expressionList (fuel' + 1) close)
      (Option.Rel AllAlike) := by
  unfold expressionList
  refine mirrors_ahead.bind fun token token' same => ?_
  rw [(Prod.mk.inj same).1]
  refine mirrors_ite ?_ ?_
  · exact mirrors_advance.bind fun _ _ _ => mirrors_pure (.some .nil)
  · refine mirrors_advance.bind fun _ _ _ => ?_
    refine (mirrors.expressions enough).bind fun items items' others => ?_
    refine (mirrors_expect close).bind ?_
    rintro _ _ ⟨rfl, rfl⟩
    exact mirrors_pure (.some others)

theorem mirrors_expressions_succ :
    Mirrors more (expressions (fuel + 1)) (expressions (fuel' + 1)) AllAlike := by
  unfold expressions
  refine (mirrors.expression enough .lowest).bind fun first first' sameFirst => ?_
  refine mirrors_ahead.bind fun token token' same => ?_
  rw [(Prod.mk.inj same).1]
  refine mirrors_ite ?_ (mirrors_pure (.cons sameFirst .nil))
  refine mirrors_advance.bind fun _ _ _ => ?_
  refine mirrors_advance.bind fun _ _ _ => ?_
  exact (mirrors.expressions enough).bind fun rest rest' others =>
    mirrors_pure (.cons sameFirst others)

set_option synthInstance.maxSize 2048 in
theorem mirrors_pairs_succ :
    Mirrors more (pairs (fuel + 1)) (pairs (fuel' + 1)) (Option.Rel AllAlike) := by
  unfold pairs
  refine mirrors_ahead.bind fun token token' same => ?_
  rw [(Prod.mk.inj same).1]
  refine mirrors_ite ?_ ?_
  · exact mirrors_advance.bind fun _ _ _ => mirrors_pure (.some .nil)
  · refine mirrors_advance.bind fun _ _ _ => ?_
    refine (mirrors.expression enough .lowest).bind fun key key' sameKey => ?_
    refine (mirrors_expect .colon).bind ?_
    rintro _ _ ⟨rfl, rfl⟩
    refine mirrors_current.bind fun colon colon' sameColon => ?_
    refine mirrors_advance.bind fun _ _ _ => ?_
    refine (mirrors.expression enough .lowest).bind fun value value' sameValue => ?_
    have pair := @alike_tree .pair _ _
      (.cons (alike_ofToken sameColon) (.cons sameKey (.cons sameValue .nil)))
    refine mirrors_ahead.bind fun behind behind' sameBehind => ?_
    rw [(Prod.mk.inj sameBehind).1]
    refine mirrors_ite ?_ ?_
    · exact (mirrors.pairs enough).bind fun rest rest' others =>
        mirrors_pure (rel_map_cons pair others)
    · refine (mirrors_expect .comma).bind ?_
      rintro _ _ ⟨rfl, rfl⟩
      exact (mirrors.pairs enough).bind fun rest rest' others =>
        mirrors_pure (rel_map_cons pair others)

theorem mirrors_block_succ :
    Mirrors more (block (fuel + 1)) (block (fuel' + 1)) Node.Alike := by
  unfold block
  refine mirrors_current.bind fun opening opening' sameOpening => ?_
  refine mirrors_advance.bind fun _ _ _ => ?_
  refine (mirrors.statements enough true).bind fun statements statements' others => ?_
  refine mirrors_current.bind fun last last' same => ?_
  rw [(Prod.mk.inj same).1]
  refine mirrors_ite mirrors_record ?_
  exact mirrors_pure (alike_tree (.cons (alike_ofToken sameOpening) others))

theorem mirrors_statements_succ (inBlock : Bool) :
    Mirrors more (statements (fuel + 1) inBlock) (statements (fuel' + 1) inBlock) AllAlike := by
  unfold statements
  refine mirrors_current.bind fun token token' same => ?_
  rw [(Prod.mk.inj same).1]
  refine mirrors_ite (mirrors_pure .nil) ?_
  refine (mirrors.statement enough).bind fun first first' sameFirst => ?_
  refine mirrors_advance.bind fun _ _ _ => ?_
  refine (mirrors.statements enough inBlock).bind fun rest rest' others => mirrors_pure ?_
  cases sameFirst with
  | none => exact others
  | some sameFirst => exact .cons sameFirst others

theorem mirrors_statement_succ :
    Mirrors more (statement (fuel + 1)) (statement (fuel' + 1)) (Option.Rel Node.Alike) := by
  unfold statement
  refine @Mirrors.bind _ _ _ _ _ _ _ _ _ _ _ _ ?_ mirrors_current fun token token' sameToken => ?_
  · intro token
    split <;> infer_instance
  · have word := alike_ofToken sameToken
    rw [(Prod.mk.inj sameToken).1]
    split
    · refine (mirrors_expect .ident).bind ?_
      rintro _ _ ⟨rfl, rfl⟩
      refine mirrors_current.bind fun name name' sameName => ?_
      refine (mirrors_expect .assign).bind ?_
      rintro _ _ ⟨rfl, rfl⟩
      refine mirrors_advance.bind fun _ _ _ => ?_
      refine (mirrors.expression enough .lowest).bind fun value value' sameValue => ?_
      refine mirrors_skipSemicolon.bind fun _ _ _ => mirrors_pure (.some (alike_tree ?_))
      exact .cons word (.cons (alike_ofToken sameName) (.cons sameValue .nil))
    · refine mirrors_advance.bind fun _ _ _ => ?_
      refine (mirrors.expression enough .lowest).bind fun value value' sameValue => ?_
      refine mirrors_skipSemicolon.bind fun _ _ _ => mirrors_pure (.some (alike_tree ?_))
      exact .cons word (.cons sameValue .nil)
    · refine (mirrors.expression enough .lowest).bind fun value value' sameValue => ?_
      refine mirrors_skipSemicolon.bind fun _ _ _ => mirrors_pure (.some (alike_tree ?_))
      exact .cons sameValue .nil

end

theorem allMirror (more : List (TokenKind × String)) (fuel : Nat) : AllMirror more fuel := by
  induction fuel with
  | zero => constructor <;> intros <;> exact mirrors_record
  | succ fuel mirrors =>
    constructor
    all_goals
      intro fuel' larger
      obtain ⟨fuel', rfl⟩ := Nat.exists_eq_add_of_le' (Nat.le_trans (Nat.le_add_left 1 fuel) larger)
      have enough := Nat.le_of_succ_le_succ larger
    · exact mirrors_expression_succ mirrors enough
    · exact fun rank _ _ same => mirrors_operators_succ mirrors enough rank same
    · exact fun _ _ same => mirrors_operand_succ mirrors enough same
    · exact fun _ _ same => mirrors_application_succ mirrors enough same
    · exact fun _ _ same => mirrors_conditional_succ mirrors enough same
    · exact fun _ _ same => mirrors_function_succ mirrors enough same
    · exact mirrors_expressionList_succ mirrors enough
    · exact mirrors_expressions_succ mirrors enough
    · exact mirrors_pairs_succ mirrors enough
    · exact mirrors_block_succ mirrors enough
    · exact mirrors_statements_succ mirrors enough
    · exact mirrors_statement_succ mirrors enough

end Parser

end Scriptlet
