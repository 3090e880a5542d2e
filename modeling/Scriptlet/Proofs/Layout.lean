/-
This file shows that layout has no meaning. Two texts whose tokens have the same kinds and texts
may differ in white space and line breaks, in the quote that closes a last string, and in all that
stands behind a NUL. They are read as the same program, up to positions, with the same syntax
errors; and run in environments that differ in positions at most, they give the same values and
failures and leave environments that differ in positions at most. So this can be repeated, and two
sessions go on alike for as long as their texts do.

`Parser.Concurs` is the form in which the first half goes through the readers. It covers readings
that go wrong as well: the errors are recorded in the same order on both sides.
-/

import Scriptlet.Proofs.Entries

namespace Scriptlet

/-! ### Windows that show the same -/

namespace Window

/-- The tokens of the windows differ in positions at most, and the errors so far are the same. -/
structure Resembles (window other : Window) : Prop where
  tokens : window.tokens.map Token.bare = other.tokens.map Token.bare
  closing : window.closing.bare = other.closing.bare
  errors : window.errors = other.errors

variable {window other : Window}

theorem Resembles.current (same : window.Resembles other) :
    window.current.bare = other.current.bare := by
  rw [bare_current, bare_current, same.tokens, same.closing]

theorem Resembles.advance (same : window.Resembles other) :
    window.advance.Resembles other.advance := by
  refine ⟨?_, same.closing, same.errors⟩
  rw [tokens_advance, tokens_advance, List.map_tail, List.map_tail, same.tokens]

theorem Resembles.ahead (same : window.Resembles other) :
    window.ahead.bare = other.ahead.bare :=
  same.advance.current

theorem Resembles.record (same : window.Resembles other) (error : SyntaxError) :
    (window.record error).Resembles (other.record error) :=
  ⟨same.tokens, same.closing, congrArg (· ++ [error]) same.errors⟩

theorem Resembles.fuel_eq (same : window.Resembles other) : window.fuel = other.fuel := by
  have lengths := congrArg List.length same.tokens
  rw [List.length_map, List.length_map] at lengths
  rw [fuel, fuel, lengths]

end Window

namespace Parser

open Window

variable {α β γ δ : Type} {related : α → β → Prop}

/-- On windows that show the same the two readers give related results and leave windows that
show the same. -/
def Concurs (first : Parser α) (second : Parser β) (related : α → β → Prop) : Prop :=
  ∀ window other, window.Resembles other →
    related (first.run window).1 (second.run other).1 ∧
      (first.run window).2.Resembles (second.run other).2

theorem concurs_pure {result : α} {result' : β} (holds : related result result') :
    Concurs (pure result) (pure result') related :=
  fun _ _ same => ⟨holds, same⟩

theorem Concurs.bind {first : Parser α} {second : Parser β} {continuation : α → Parser γ}
    {continuation' : β → Parser δ} {last : γ → δ → Prop} (before : Concurs first second related)
    (behind : ∀ result result', related result result' →
      Concurs (continuation result) (continuation' result') last) :
    Concurs (first >>= continuation) (second >>= continuation') last := by
  intro window other same
  obtain ⟨holds, between⟩ := before window other same
  exact behind _ _ holds _ _ between

/-- The two results that an optional one can be are looked at one by one. -/
theorem Concurs.bind_option {first : Parser (Option α)} {second : Parser (Option β)}
    {continuation : Option α → Parser γ} {continuation' : Option β → Parser δ}
    {last : γ → δ → Prop} (before : Concurs first second (Option.Rel related))
    (absent : Concurs (continuation none) (continuation' none) last)
    (present : ∀ found found', related found found' →
      Concurs (continuation (some found)) (continuation' (some found')) last) :
    Concurs (first >>= continuation) (second >>= continuation') last := by
  refine before.bind fun result result' holds => ?_
  cases holds with
  | none => exact absent
  | some holds => exact present _ _ holds

theorem concurs_current : Concurs current current SameBare :=
  fun _ _ same => ⟨same.current, same⟩

theorem concurs_ahead : Concurs ahead ahead SameBare :=
  fun _ _ same => ⟨same.ahead, same⟩

theorem concurs_advance : Concurs advance advance fun _ _ => True :=
  fun _ _ same => ⟨trivial, same.advance⟩

theorem concurs_record (error : SyntaxError) :
    Concurs (record error) (record error) fun _ _ => True :=
  fun _ _ same => ⟨trivial, same.record error⟩

/-- An error is recorded on both sides. -/
theorem concurs_recorded (error : SyntaxError) {result : α} {result' : β}
    (holds : related result result') :
    Concurs (record error >>= fun _ => pure result) (record error >>= fun _ => pure result')
      related :=
  (concurs_record error).bind fun _ _ _ => concurs_pure holds

theorem concurs_ite {condition : Prop} [Decidable condition] {yes no : Parser α}
    {yes' no' : Parser β} (first : Concurs yes yes' related) (second : Concurs no no' related) :
    Concurs (if condition then yes else no) (if condition then yes' else no') related := by
  split
  · exact first
  · exact second

/-- An expectation is met on both sides or on neither. -/
theorem concurs_expect (wanted : TokenKind) : Concurs (expect wanted) (expect wanted) Eq := by
  refine concurs_ahead.bind fun token token' same => ?_
  rw [(Prod.mk.inj same).1]
  refine concurs_ite ?_ (concurs_recorded _ rfl)
  exact concurs_advance.bind fun _ _ _ => concurs_pure rfl

/-- What follows an expectation that is met, or what takes its place otherwise. -/
theorem concurs_expect_bind (wanted : TokenKind) {continuation : Bool → Parser α}
    {continuation' : Bool → Parser β}
    (met : Concurs (continuation true) (continuation' true) related)
    (unmet : Concurs (continuation false) (continuation' false) related) :
    Concurs (expect wanted >>= continuation) (expect wanted >>= continuation') related := by
  refine (concurs_expect wanted).bind ?_
  rintro found _ rfl
  cases found with
  | true => exact met
  | false => exact unmet

theorem concurs_skipSemicolon : Concurs skipSemicolon skipSemicolon fun _ _ => True := by
  refine concurs_ahead.bind fun token token' same => ?_
  rw [(Prod.mk.inj same).1]
  exact concurs_ite concurs_advance (concurs_pure trivial)

/-! ### The readers -/

theorem concurs_names (fuel : Nat) : Concurs (names fuel) (names fuel) (Option.Rel AllAlike) := by
  induction fuel with
  | zero => exact concurs_recorded _ .none
  | succ fuel inductionHypothesis =>
    unfold names
    refine concurs_expect_bind _ ?_ (concurs_pure .none)
    refine concurs_current.bind fun name name' sameName => ?_
    refine concurs_ahead.bind fun token token' same => ?_
    rw [(Prod.mk.inj same).1]
    refine concurs_ite ?_ (concurs_pure (.some (.cons (alike_ofToken sameName) .nil)))
    refine concurs_advance.bind fun _ _ _ => ?_
    refine inductionHypothesis.bind fun rest rest' others => ?_
    exact concurs_pure (rel_map_cons (alike_ofToken sameName) others)

theorem concurs_parameters (fuel : Nat) :
    Concurs (parameters fuel) (parameters fuel) (Option.Rel Node.Alike) := by
  unfold parameters
  refine concurs_current.bind fun opening opening' sameOpening => ?_
  refine concurs_ahead.bind fun token token' same => ?_
  rw [(Prod.mk.inj same).1]
  refine concurs_ite ?_ ?_
  · refine concurs_advance.bind fun _ _ _ => ?_
    exact concurs_pure (.some (alike_tree (.cons (alike_ofToken sameOpening) .nil)))
  · refine (concurs_names fuel).bind_option (concurs_pure .none) fun names names' others => ?_
    refine concurs_expect_bind _ ?_ (concurs_pure .none)
    exact concurs_pure (.some (alike_tree (.cons (alike_ofToken sameOpening) others)))

theorem concurs_integer {token token' : Token} (same : SameBare token token') :
    Concurs (integer token) (integer token') Node.Alike := by
  unfold integer
  rw [(Prod.mk.inj same).2]
  exact concurs_ite (concurs_pure (alike_ofToken same)) (concurs_recorded _ rfl)

/-- On this amount of fuel every reader concurs with itself. -/
structure AllConcur (fuel : Nat) : Prop where
  expression (rank : Precedence) :
    Concurs (expression fuel rank) (expression fuel rank) Node.Alike
  operators (rank : Precedence) {left left' : Node} (same : left.Alike left') :
    Concurs (operators fuel rank left) (operators fuel rank left') Node.Alike
  operand {token token' : Token} (same : SameBare token token') :
    Concurs (operand fuel token) (operand fuel token') Node.Alike
  application {left left' : Node} (same : left.Alike left') :
    Concurs (application fuel left) (application fuel left') Node.Alike
  conditional {token token' : Token} (same : SameBare token token') :
    Concurs (conditional fuel token) (conditional fuel token') Node.Alike
  function {token token' : Token} (same : SameBare token token') :
    Concurs (function fuel token) (function fuel token') Node.Alike
  expressionList (close : TokenKind) :
    Concurs (expressionList fuel close) (expressionList fuel close) (Option.Rel AllAlike)
  expressions : Concurs (expressions fuel) (expressions fuel) AllAlike
  pairs : Concurs (pairs fuel) (pairs fuel) (Option.Rel AllAlike)
  block : Concurs (block fuel) (block fuel) Node.Alike
  statements (inBlock : Bool) :
    Concurs (statements fuel inBlock) (statements fuel inBlock) AllAlike
  statement : Concurs (statement fuel) (statement fuel) (Option.Rel Node.Alike)

section

variable {fuel : Nat} (concur : AllConcur fuel)

include concur

theorem concurs_expression_succ (rank : Precedence) :
    Concurs (expression (fuel + 1) rank) (expression (fuel + 1) rank) Node.Alike := by
  unfold expression
  refine concurs_current.bind fun token token' same => ?_
  rw [(Prod.mk.inj same).1]
  refine concurs_ite ?_ (concurs_recorded _ rfl)
  exact (concur.operand same).bind fun left left' => concur.operators rank

theorem concurs_operators_succ (rank : Precedence) {left left' : Node}
    (same : left.Alike left') :
    Concurs (operators (fuel + 1) rank left) (operators (fuel + 1) rank left') Node.Alike := by
  unfold operators
  refine concurs_ahead.bind fun token token' sameToken => ?_
  rw [(Prod.mk.inj sameToken).1]
  refine concurs_ite ?_ (concurs_pure same)
  refine concurs_advance.bind fun _ _ _ => ?_
  exact (concur.application same).bind fun applied applied' => concur.operators rank

theorem concurs_operand_succ {token token' : Token} (same : SameBare token token') :
    Concurs (operand (fuel + 1) token) (operand (fuel + 1) token') Node.Alike := by
  have leaf := alike_ofToken same
  have unary : Concurs
      (do advance; let right ← expression fuel .unary; return .tree .unary [.ofToken token, right])
      (do advance; let right ← expression fuel .unary; return .tree .unary [.ofToken token', right])
      Node.Alike := by
    refine concurs_advance.bind fun _ _ _ => ?_
    refine (concur.expression .unary).bind fun right right' sameRight => ?_
    exact concurs_pure (alike_tree (.cons leaf (.cons sameRight .nil)))
  unfold operand
  rw [(Prod.mk.inj same).1]
  split
  · exact concurs_pure leaf
  · exact concurs_pure leaf
  · exact concurs_pure leaf
  · exact concurs_pure leaf
  · exact concurs_integer same
  · exact unary
  · exact unary
  · refine concurs_advance.bind fun _ _ _ => ?_
    refine (concur.expression .lowest).bind fun inner inner' sameInner => ?_
    exact concurs_expect_bind _ (concurs_pure sameInner) (concurs_pure rfl)
  · exact concur.conditional same
  · exact concur.function same
  · refine (concur.expressionList .rightBracket).bind_option (concurs_pure rfl)
      fun elements elements' others => ?_
    exact concurs_pure (alike_tree (.cons leaf others))
  · refine concur.pairs.bind_option (concurs_pure rfl) fun pairs pairs' others => ?_
    exact concurs_pure (alike_tree (.cons leaf others))
  · exact concurs_pure rfl

theorem concurs_application_succ {left left' : Node} (same : left.Alike left') :
    Concurs (application (fuel + 1) left) (application (fuel + 1) left') Node.Alike := by
  unfold application
  refine concurs_current.bind fun token token' sameToken => ?_
  have leaf := alike_ofToken sameToken
  rw [(Prod.mk.inj sameToken).1]
  split
  · refine (concur.expressionList .rightParen).bind_option (concurs_pure rfl)
      fun arguments arguments' others => ?_
    exact concurs_pure (alike_tree (.cons leaf (.cons same others)))
  · refine concurs_advance.bind fun _ _ _ => ?_
    refine (concur.expression .lowest).bind fun index index' sameIndex => ?_
    refine concurs_expect_bind _ ?_ (concurs_pure rfl)
    exact concurs_pure (alike_tree (.cons leaf (.cons same (.cons sameIndex .nil))))
  · refine concurs_advance.bind fun _ _ _ => ?_
    refine (concur.expression _).bind fun right right' sameRight => ?_
    exact concurs_pure (alike_tree (.cons leaf (.cons same (.cons sameRight .nil))))

theorem concurs_conditional_succ {token token' : Token} (same : SameBare token token') :
    Concurs (conditional (fuel + 1) token) (conditional (fuel + 1) token') Node.Alike := by
  have word := alike_ofToken same
  unfold conditional
  refine concurs_expect_bind _ ?_ (concurs_pure rfl)
  refine concurs_advance.bind fun _ _ _ => ?_
  refine (concur.expression .lowest).bind fun condition condition' sameCondition => ?_
  refine concurs_expect_bind _ ?_ (concurs_pure rfl)
  refine concurs_expect_bind _ ?_ (concurs_pure rfl)
  refine concur.block.bind fun consequence consequence' sameBlock => ?_
  refine concurs_ahead.bind fun ahead ahead' sameAhead => ?_
  rw [(Prod.mk.inj sameAhead).1]
  refine concurs_ite ?_ ?_
  · refine concurs_advance.bind fun _ _ _ => ?_
    refine concurs_expect_bind _ ?_ (concurs_pure rfl)
    refine concur.block.bind fun alternative alternative' sameOther => ?_
    exact concurs_pure (alike_tree
      (.cons word (.cons sameCondition (.cons sameBlock (.cons sameOther .nil)))))
  · exact concurs_pure (alike_tree (.cons word (.cons sameCondition (.cons sameBlock .nil))))

theorem concurs_function_succ {token token' : Token} (same : SameBare token token') :
    Concurs (function (fuel + 1) token) (function (fuel + 1) token') Node.Alike := by
  have word := alike_ofToken same
  unfold function
  refine concurs_expect_bind _ ?_ (concurs_pure rfl)
  refine (concurs_parameters fuel).bind_option (concurs_pure rfl)
    fun parameters parameters' sameParameters => ?_
  refine concurs_expect_bind _ ?_ (concurs_pure rfl)
  refine concur.block.bind fun body body' sameBody => ?_
  exact concurs_pure (alike_tree (.cons word (.cons sameParameters (.cons sameBody .nil))))

theorem concurs_expressionList_succ (close : TokenKind) :
    Concurs (expressionList (fuel + 1) close) (expressionList (fuel + 1) close)
      (Option.Rel AllAlike) := by
  unfold expressionList
  refine concurs_ahead.bind fun token token' same => ?_
  rw [(Prod.mk.inj same).1]
  refine concurs_ite ?_ ?_
  · exact concurs_advance.bind fun _ _ _ => concurs_pure (.some .nil)
  · refine concurs_advance.bind fun _ _ _ => ?_
    refine concur.expressions.bind fun items items' others => ?_
    exact concurs_expect_bind _ (concurs_pure (.some others)) (concurs_pure .none)

theorem concurs_expressions_succ :
    Concurs (expressions (fuel + 1)) (expressions (fuel + 1)) AllAlike := by
  unfold expressions
  refine (concur.expression .lowest).bind fun first first' sameFirst => ?_
  refine concurs_ahead.bind fun token token' same => ?_
  rw [(Prod.mk.inj same).1]
  refine concurs_ite ?_ (concurs_pure (.cons sameFirst .nil))
  refine concurs_advance.bind fun _ _ _ => ?_
  refine concurs_advance.bind fun _ _ _ => ?_
  exact concur.expressions.bind fun rest rest' others => concurs_pure (.cons sameFirst others)

theorem concurs_pairs_succ :
    Concurs (pairs (fuel + 1)) (pairs (fuel + 1)) (Option.Rel AllAlike) := by
  unfold pairs
  refine concurs_ahead.bind fun token token' same => ?_
  rw [(Prod.mk.inj same).1]
  refine concurs_ite ?_ ?_
  · exact concurs_advance.bind fun _ _ _ => concurs_pure (.some .nil)
  · refine concurs_advance.bind fun _ _ _ => ?_
    refine (concur.expression .lowest).bind fun key key' sameKey => ?_
    refine concurs_expect_bind _ ?_ (concurs_pure .none)
    refine concurs_current.bind fun colon colon' sameColon => ?_
    refine concurs_advance.bind fun _ _ _ => ?_
    refine (concur.expression .lowest).bind fun value value' sameValue => ?_
    have pair := @alike_tree .pair _ _
      (.cons (alike_ofToken sameColon) (.cons sameKey (.cons sameValue .nil)))
    refine concurs_ahead.bind fun behind behind' sameBehind => ?_
    rw [(Prod.mk.inj sameBehind).1]
    have more := concur.pairs.bind fun rest rest' others =>
      concurs_pure (rel_map_cons pair others)
    exact concurs_ite more (concurs_expect_bind _ more (concurs_pure .none))

theorem concurs_block_succ :
    Concurs (block (fuel + 1)) (block (fuel + 1)) Node.Alike := by
  unfold block
  refine concurs_current.bind fun opening opening' sameOpening => ?_
  refine concurs_advance.bind fun _ _ _ => ?_
  refine (concur.statements true).bind fun statements statements' others => ?_
  have tree := @alike_tree .block _ _ (.cons (alike_ofToken sameOpening) others)
  refine concurs_current.bind fun last last' same => ?_
  rw [(Prod.mk.inj same).1]
  exact concurs_ite (concurs_recorded _ tree) (concurs_pure tree)

theorem concurs_statements_succ (inBlock : Bool) :
    Concurs (statements (fuel + 1) inBlock) (statements (fuel + 1) inBlock) AllAlike := by
  unfold statements
  refine concurs_current.bind fun token token' same => ?_
  rw [(Prod.mk.inj same).1]
  refine concurs_ite (concurs_pure .nil) ?_
  refine concur.statement.bind fun first first' sameFirst => ?_
  refine concurs_advance.bind fun _ _ _ => ?_
  refine (concur.statements inBlock).bind fun rest rest' others => concurs_pure ?_
  cases sameFirst with
  | none => exact others
  | some sameFirst => exact .cons sameFirst others

theorem concurs_statement_succ :
    Concurs (statement (fuel + 1)) (statement (fuel + 1)) (Option.Rel Node.Alike) := by
  unfold statement
  refine concurs_current.bind fun token token' sameToken => ?_
  have word := alike_ofToken sameToken
  rw [(Prod.mk.inj sameToken).1]
  split
  · refine concurs_expect_bind _ ?_ (concurs_pure .none)
    refine concurs_current.bind fun name name' sameName => ?_
    refine concurs_expect_bind _ ?_ (concurs_pure .none)
    refine concurs_advance.bind fun _ _ _ => ?_
    refine (concur.expression .lowest).bind fun value value' sameValue => ?_
    refine concurs_skipSemicolon.bind fun _ _ _ => concurs_pure (.some (alike_tree ?_))
    exact .cons word (.cons (alike_ofToken sameName) (.cons sameValue .nil))
  · refine concurs_advance.bind fun _ _ _ => ?_
    refine (concur.expression .lowest).bind fun value value' sameValue => ?_
    refine concurs_skipSemicolon.bind fun _ _ _ => concurs_pure (.some (alike_tree ?_))
    exact .cons word (.cons sameValue .nil)
  · refine (concur.expression .lowest).bind fun value value' sameValue => ?_
    refine concurs_skipSemicolon.bind fun _ _ _ => concurs_pure (.some (alike_tree ?_))
    exact .cons sameValue .nil

end

theorem allConcur (fuel : Nat) : AllConcur fuel := by
  induction fuel with
  | zero =>
    constructor
    all_goals intros
    case expressions | statements => exact concurs_recorded _ .nil
    case expressionList | pairs | statement => exact concurs_recorded _ .none
    all_goals exact concurs_recorded _ rfl
  | succ fuel concur =>
    exact ⟨concurs_expression_succ concur, fun rank _ _ => concurs_operators_succ concur rank,
      concurs_operand_succ concur, concurs_application_succ concur,
      concurs_conditional_succ concur, concurs_function_succ concur,
      concurs_expressionList_succ concur, concurs_expressions_succ concur,
      concurs_pairs_succ concur, concurs_block_succ concur, concurs_statements_succ concur,
      concurs_statement_succ concur⟩

theorem concurs_readProgram : Concurs readProgram readProgram Node.Alike := by
  intro window other same
  rw [readProgram, fueled_run, fueled_run, same.fuel_eq]
  refine Concurs.bind ((allConcur other.fuel).statements false) ?_ window other same
  exact fun nodes nodes' inner => concurs_pure (alike_tree inner)

end Parser

/-! ### Texts with the same tokens -/

/-- The tokens of the two texts have the same kinds and the same texts. -/
def SameTokens (text other : String) : Prop :=
  (sourceTokens text).map Token.bare = (sourceTokens other).map Token.bare

instance (text other : String) : Decidable (SameTokens text other) :=
  inferInstanceAs (Decidable (_ = _))

/-- Texts with the same tokens are read as the same program, up to positions, and with the same
errors. -/
theorem SameTokens.readSource {text other : String} (same : SameTokens text other) :
    (readSource text).program.Alike (readSource other).program ∧
      (readSource text).errors = (readSource other).errors := by
  have windows : (Window.ofText text).Resembles (.ofText other) :=
    ⟨same, (Cursor.bare_closing_scan _).trans (Cursor.bare_closing_scan _).symm, rfl⟩
  obtain ⟨programs, after⟩ := Parser.concurs_readProgram _ _ windows
  exact ⟨programs, after.errors⟩

/-! ### What a session shows -/

/-- The report without the place that it points to. -/
def ErrorReport.unplaced : ErrorReport → ErrorReport
  | fault cause _ => fault cause none
  | report => report

/-- What can be told of an outcome without regard to positions: the label of the statement behind
it, the kind of its value and the text that shows it, and the report when it is an error. -/
structure Outcome.View where
  label : Option Label
  kind : Kind
  text : String
  report : Option ErrorReport
  deriving DecidableEq

/-- What can be told of an outcome. -/
def Outcome.view (outcome : Outcome) : Outcome.View where
  label := outcome.label
  kind := outcome.value.kind
  text := outcome.value.inspect
  report :=
    match outcome.value with
    | .error _ report => some report.unplaced
    | _ => none

/-- What a scope itself has for a name: the kind of the value and the text that shows it. -/
def Store.shown (store : Store) (number : Nat) (name : String) : Option (Kind × String) :=
  (store.scopes[number]?).bind fun frame =>
    (frame.get? name).map fun value => (value.kind, value.inspect)

section

open Correspondence (relocated)

theorem ErrorReport.Matches.unplaced_eq {placed : Prop} {report other : ErrorReport}
    (same : report.Matches placed other) : report.unplaced = other.unplaced := by
  cases same <;> rfl

theorem Outcome.Matches.view_eq {c : Correspondence} {outcome other : Outcome}
    (same : outcome.Matches c other) : outcome.view = other.view := by
  have value := same.value
  simp only [view, same.label, value.kind_eq, value.inspect_eq, View.mk.injEq, true_and]
  generalize outcome.value = first at value
  generalize other.value = second at value
  cases value with
  | error reports => exact congrArg some reports.unplaced_eq
  | atom | null | array | hash | function | builtin => rfl

theorem Store.Matches.shown_eq {store other : Store} (same : store.Matches relocated other)
    (number : Nat) (name : String) : store.shown number name = other.shown number name := by
  unfold Store.shown
  cases held : store.scopes[number]? with
  | none =>
    have absent : other.scopes[number]? = none := same.getElem?_eq_none held
    rw [absent]
  | some frame =>
    obtain ⟨counterpart, there, matched⟩ := same.scopes number frame held
    change other.scopes[number]? = some counterpart at there
    rw [there, Option.bind_some, Option.bind_some]
    have own := matched.bindings name trivial
    generalize frame.get? name = found at own
    generalize counterpart.get? name = found' at own
    cases own with
    | none => rfl
    | some value => simp only [Option.map_some, value.kind_eq, value.inspect_eq]

theorem Node.Alike.children {first second : Node} (same : first.Alike second) :
    Parser.AllAlike first.children second.children := by
  cases same.parallel with
  | hole | leaf => exact .nil
  | tree inner => exact inner

end

/-! ### Sessions -/

namespace Session

open Correspondence (relocated)

/-- Runs texts one after the other on one store and gives what each of them comes to. A text with
syntax errors is not run; whatever else happens, the next text is run on the store that is there
by then. -/
def replies (limit scope : Nat) :
    List String → Store → List (Except (List SyntaxError) Outcome) × Store
  | [], store => ([], store)
  | text :: rest, store =>
    match runText limit scope text store with
    | .error errors =>
      let (others, after) := replies limit scope rest store
      (.error errors :: others, after)
    | .ok (outcome, between) =>
      let (others, after) := replies limit scope rest between
      (.ok outcome :: others, after)

/-- From matching stores texts with the same tokens get replies that look the same, and leave
matching stores. -/
theorem matches_replies (limit scope : Nat) {texts others : List String}
    (same : List.Forall₂ SameTokens texts others) {store store' : Store}
    (stores : store.Matches relocated store') :
    (replies limit scope texts store).1.map (Except.map Outcome.view) =
        (replies limit scope others store').1.map (Except.map Outcome.view) ∧
      (replies limit scope texts store).2.Matches relocated
        (replies limit scope others store').2 := by
  induction same generalizing store store' with
  | nil => exact ⟨rfl, stores⟩
  | @cons text other rest rest' first _ inductionHypothesis =>
    obtain ⟨programs, errors⟩ := first.readSource
    by_cases accepted : (readSource text).errors = []
    · obtain ⟨outcomes, after⟩ := @matches_runProgram relocated id id limit scope _ _
        programs.children _ _ stores
      obtain ⟨more, last⟩ := inductionHypothesis after
      rw [replies, replies, runText_of_accepted accepted,
        runText_of_accepted (errors.symm.trans accepted)]
      refine ⟨?_, last⟩
      simp only [List.map_cons, more]
      exact congrArg (· :: _) (congrArg Except.ok outcomes.view_eq)
    · obtain ⟨more, last⟩ := inductionHypothesis stores
      rw [replies, replies, runText_of_rejected accepted,
        runText_of_rejected (errors ▸ accepted), errors]
      exact ⟨congrArg (Except.error _ :: ·) more, last⟩

/-- Take two lists of texts, one text of the second for each of the first, where the texts of a
pair have tokens of the same kinds with the same texts. Each pair is read as the same program, up
to positions, with the same list of syntax errors. And when the two lists are run one text after
the other, with any limit, in any scope of stores that differ in the positions inside functions at
most, then all the way through both sessions show the same: the same syntax errors, or values of
the same kind with the same text from the same kind of statement, or errors with the same cause.
At the end every scope binds the same names, to values of the same kind with the same text, and
the stores differ in positions at most. -/
theorem replies_of_sameTokens (texts others : List String)
    (same : List.Forall₂ SameTokens texts others) :
    List.Forall₂ (fun text other => (readSource text).program.Alike (readSource other).program ∧
      (readSource text).errors = (readSource other).errors) texts others ∧
    ∀ (limit scope : Nat) (store store' : Store), store.Matches relocated store' →
      (replies limit scope texts store).1.map (Except.map Outcome.view) =
        (replies limit scope others store').1.map (Except.map Outcome.view) ∧
      (replies limit scope texts store).2.Matches relocated
        (replies limit scope others store').2 ∧
      ∀ number name, (replies limit scope texts store).2.shown number name =
        (replies limit scope others store').2.shown number name := by
  refine ⟨same.imp fun _ _ tokens => tokens.readSource, fun limit scope store store' stores => ?_⟩
  obtain ⟨views, after⟩ := matches_replies limit scope same stores
  exact ⟨views, after, after.shown_eq⟩

theorem replies_of_sameTokens_of_layout :
    (replies 60 fresh.1 ["let f = func(a) \x7b -a \x7d; \"x\"", "[f(1), f]", "f(f)", "f("]
      fresh.2).1.map (Except.map Outcome.view) =
    (replies 60 fresh.1 ["let f=func(a)\n\x7b\n  -a\n\x7d;\"x", "[ f(1), f ] \x00 f(", "\tf(f)", "f ("]
      fresh.2).1.map (Except.map Outcome.view) :=
  ((replies_of_sameTokens _ _ (.cons (by decide +kernel) (.cons (by decide +kernel)
    (.cons (by decide +kernel) (.cons (by decide +kernel) .nil))))).2 60 fresh.1 fresh.2 fresh.2
      fresh.2.matches_self).1

end Session

end Scriptlet
