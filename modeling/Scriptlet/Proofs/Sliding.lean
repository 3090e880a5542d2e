/-
This file follows the window of a parse through any use of it. Its operations may be called in any
order and at any token: a block may be read where no brace stands, a list may be asked for behind
the end of the input. `Window.calls` keeps what was called, what was answered, and the windows
before and behind each call.

Whatever is called, the window shows two tokens of the text that stand side by side, and it never
goes back. A stream, which pulls its tokens from the text one by one, shows the same two tokens all
the way. That an expression ends in front of a token that binds loosely enough is a matter of the
operator loop alone. It does not depend on what the operands were, so it survives every error
inside them.
-/

import Mathlib.Data.List.GetD
import Scriptlet.Proofs.Progress
import Scriptlet.Proofs.Streaming

namespace Scriptlet

/-! ### The tokens of a text without end -/

/-- The token of a text at an index. Behind its last token the closing one is repeated for ever. -/
def tokenAt (text : String) (index : Nat) : Token :=
  (tokenize text).getD index (Cursor.ofText text).scan.closing

theorem tokenAt_eq (text : String) (index : Nat) :
    tokenAt text index =
      (Cursor.ofText text).scan.tokens.getD index (Cursor.ofText text).scan.closing := by
  show ((Cursor.ofText text).scan.tokens ++ [(Cursor.ofText text).scan.closing]).getD index _ = _
  rcases Nat.lt_or_ge index (Cursor.ofText text).scan.tokens.length with inside | behind
  · rw [List.getD_append _ _ _ _ inside]
  · rw [List.getD_append_right _ _ _ _ behind, List.getD_eq_default _ _ behind]
    cases index - (Cursor.ofText text).scan.tokens.length <;> rfl

/-- A cursor that is asked for one token after the other gives these tokens. -/
theorem next_afterCalls_eq_tokenAt (text : String) (index : Nat) :
    ((Cursor.ofText text).afterCalls index).next.1 = tokenAt text index := by
  obtain ⟨listed, ended⟩ := (Cursor.ofText text).next_afterCalls index
  rw [tokenAt_eq]
  rcases Nat.lt_or_ge index (Cursor.ofText text).scan.tokens.length with inside | behind
  · rw [List.getD_eq_getElem _ _ inside]
    exact listed _ (List.getElem?_eq_getElem inside)
  · rw [List.getD_eq_default _ _ behind, ended behind]

namespace Window

/-- How many tokens of the text lie behind the window. -/
def place (text : String) (window : Window) : Nat :=
  (Cursor.ofText text).scan.tokens.length - window.tokens.length

/-- The window shows two tokens of the text that stand side by side. -/
structure Shows (text : String) (window : Window) : Prop where
  current : window.current = tokenAt text (window.place text)
  ahead : window.ahead = tokenAt text (window.place text + 1)

/-- A window that was reached from the start of the text shows tokens of the text. -/
theorem shows_of_leads {text : String} {window : Window} (leads : (ofText text).Leads window) :
    window.Shows text := by
  have left : window.tokens = (Cursor.ofText text).scan.tokens.drop (window.place text) :=
    List.suffix_iff_eq_drop.mp leads.tokens
  have closing : window.closing = (Cursor.ofText text).scan.closing := leads.closing
  constructor
  · rw [tokenAt_eq, Window.current, left, closing, List.headD_eq_head?_getD, List.head?_drop,
      List.getD_eq_getElem?_getD]
  · rw [tokenAt_eq, Window.ahead, left, closing, List.tail_drop, List.headD_eq_head?_getD,
      List.head?_drop, List.getD_eq_getElem?_getD]

theorem place_le_of_leads {text : String} {first second : Window} (leads : first.Leads second) :
    first.place text ≤ second.place text :=
  Nat.sub_le_sub_left leads.tokens.length_le _

end Window

namespace Parser

/-! ### Operations -/

/-- What a parser can be asked for. -/
inductive Operation where
  | advance
  | expect (wanted : TokenKind)
  | expression (rank : Precedence)
  | statement
  | block
  | parameters
  | list (close : TokenKind)
  | program

/-- What it answers. -/
inductive Answer where
  | token (left : Token)
  | found (expected : Bool)
  | node (node : Node)
  | optional (node : Option Node)
  | list (items : Option (List Node))

/-- Does what an operation asks for. -/
def perform : Operation → Parser Answer
  | .advance => do
    let left ← current
    advance
    return .token left
  | .expect wanted => return .found (← expect wanted)
  | .expression rank => return .node (← readExpression rank)
  | .statement => return .optional (← readStatement)
  | .block => return .node (← readBlock)
  | .parameters => return .optional (← readParameters)
  | .list close => return .list (← readList close)
  | .program => return .node (← readProgram)

instance steady_fueled {α : Type} (reader : Nat → Parser α)
    [steady : ∀ fuel, Steady (reader fuel)] : Steady (fueled reader) :=
  ⟨fun window => (steady window.fuel).leads window⟩

instance steady_perform (operation : Operation) : Steady (perform operation) := by
  cases operation <;>
    dsimp only [perform, readExpression, readStatement, readBlock, readParameters, readList,
      readProgram] <;>
    infer_instance

/-- An expected token is moved onto. One that is missing is reported, and the window stays. -/
theorem run_expect (wanted : TokenKind) (window : Window) :
    (window.ahead.kind = wanted ∧ (expect wanted).run window = (true, window.advance)) ∨
      (window.ahead.kind ≠ wanted ∧ (expect wanted).run window =
        (false, window.record (.unexpected wanted window.ahead.kind))) := by
  show (_ ∧ (if window.ahead.kind = wanted then _ else _ : Parser Bool).run window = _) ∨
    (_ ∧ (if window.ahead.kind = wanted then _ else _ : Parser Bool).run window = _)
  split
  · next found => exact .inl ⟨found, rfl⟩
  · next missed => exact .inr ⟨missed, rfl⟩

/-! ### The token ahead of an expression -/

/-- The operator loop is left in front of a token that binds no tighter than its rank, unless the
fuel runs out. Every round comes back to the question that decides this, whatever was read in it. -/
theorem bounded_operators (fuel : Nat) (rank : Precedence) (left : Node) (window : Window) :
    .outOfFuel ∈ ((operators fuel rank left).run window).2.errors ∨
      Bounded rank ((operators fuel rank left).run window).2 := by
  induction fuel generalizing left window with
  | zero => exact .inl (List.mem_append_right _ List.mem_cons_self)
  | succ fuel inductionHypothesis =>
    rw [operators]
    show _ ∈ ((if rank.level < window.ahead.kind.precedence.level then _ else _ : Parser Node).run
      window).2.errors ∨ Bounded rank
        ((if rank.level < window.ahead.kind.precedence.level then _ else _ : Parser Node).run
          window).2
    split
    · exact inductionHypothesis _ _
    · next bound => exact .inr (Nat.le_of_not_lt bound)

theorem bounded_expression (fuel : Nat) (rank : Precedence) {window : Window}
    (starts : window.current.kind.startsExpression = true) :
    .outOfFuel ∈ ((expression fuel rank).run window).2.errors ∨
      Bounded rank ((expression fuel rank).run window).2 := by
  cases fuel with
  | zero => exact .inl (List.mem_append_right _ List.mem_cons_self)
  | succ fuel =>
    rw [expression]
    show _ ∈ ((if window.current.kind.startsExpression = true then _ else _ : Parser Node).run
      window).2.errors ∨ Bounded rank
        ((if window.current.kind.startsExpression = true then _ else _ : Parser Node).run window).2
    rw [if_pos starts]
    exact bounded_operators fuel rank _ _

/-! ### Enough fuel -/

/-- At the end of the input there is nothing to move onto, and the readers that look behind the
current token come back at once. -/
theorem errors_at_end {window : Window} (proper : window.Proper) (ended : window.tokens = []) :
    (readStatement.run window).2.errors = window.errors ++ [.noExpression .endOfInput] ∧
    (readBlock.run window).2.errors = window.errors ++ [.unexpected .rightBrace .endOfInput] ∧
    ∀ close, ((readList close).run window).2.errors =
      if close = .endOfInput then window.errors
      else window.errors ++ [.noExpression .endOfInput] ++ [.unexpected close .endOfInput] := by
  obtain ⟨tokens, ⟨kind, text, position⟩, errors⟩ := window
  obtain rfl : kind = .endOfInput := proper.closing
  cases ended
  refine ⟨rfl, rfl, fun close => ?_⟩
  cases close <;> rfl

end Parser

namespace Watched

variable {α : Type} {journal : Journal} {window : Window}

/-- A reader whose watched form keeps the parse going has not run out of fuel. Without limits it is
not refused. -/
theorem Ensures.fueled {watched : Watched α} {parser : Parser α} {calls : Nat}
    (ensures : Ensures watched .none journal window fun _ => Onward window)
    (erases : Erases watched parser) (fits : Fits watched calls) :
    .outOfFuel ∉ (parser.run window).2.errors := by
  have erased := erases.erased .none journal window
  have unrefused := fits.refused .none journal window
  rw [Ensures] at ensures
  generalize watched.outcome .none journal window = ended at ensures erased unrefused
  obtain ⟨⟨found, later⟩, after⟩ := ended
  cases found with
  | error refusal =>
    obtain ⟨_, _, most, limited, _⟩ := unrefused refusal trivial rfl
    exact absurd limited (Option.not_mem_none most)
  | ok result =>
    rw [erased result rfl]
    exact ensures.fueled

/-- A parse may be watched from any window on. -/
theorem fresh_nil (proper : window.Proper) (fueled : .outOfFuel ∉ window.errors) :
    Fresh ⟨[], []⟩ window where
  proper := proper
  fueled := fueled
  rounds := fun _ member => absurd member List.not_mem_nil
  order := .nil
  reached := fun _ member => absurd member List.not_mem_nil
  untried := fun _ member => absurd member List.not_mem_nil

end Watched

namespace Parser

/-- No operation runs out of fuel, wherever the window stands. -/
theorem fueled_perform {window : Window} (proper : window.Proper)
    (fueled : .outOfFuel ∉ window.errors) (operation : Operation) :
    .outOfFuel ∉ ((perform operation).run window).2.errors := by
  have fresh := Watched.fresh_nil proper fueled
  have sustains := Watched.sustains window.fuel
  have erase := Watched.allErase window.fuel
  have fit := Watched.allFit (Nat.le_refl (2 * window.fuel))
  have enough : 8 * window.tokens.length + 8 = window.fuel := rfl
  have someLeft : window.tokens = [] ∨ 0 < window.tokens.length := by
    rw [List.length_pos_iff]
    exact eq_or_ne _ _
  cases operation with
  | advance => exact fueled
  | expect wanted =>
    rcases run_expect wanted window with ⟨-, runs⟩ | ⟨-, runs⟩
    all_goals
      show _ ∉ ((expect wanted).run window).2.errors
      rw [runs]
    · exact fueled
    · simp [Window.record, fueled]
  | expression rank =>
    show _ ∉ ((expression window.fuel rank).run window).2.errors
    exact (sustains.expression rank fresh (by omega)).fueled (erase.expression rank)
      (fit.expression rank)
  | statement =>
    rcases someLeft with none | more
    · show _ ∉ (readStatement.run window).2.errors
      simp [(errors_at_end proper none).1, fueled]
    · show _ ∉ ((statement window.fuel).run window).2.errors
      exact (sustains.statement fresh more (by omega)).fueled erase.statement fit.statement
  | block =>
    rcases someLeft with none | more
    · show _ ∉ (readBlock.run window).2.errors
      simp [(errors_at_end proper none).2.1, fueled]
    · show _ ∉ ((block window.fuel).run window).2.errors
      exact (sustains.block fresh.toGoing more (by omega)).fueled erase.block fit.block
  | parameters =>
    show _ ∉ ((parameters window.fuel).run window).2.errors
    exact (Watched.ensures_parameters fresh.toGoing (by omega)).fueled (Watched.erases_parameters _)
      (Watched.fits_parameters _ 0)
  | list close =>
    rcases someLeft with none | more
    · show _ ∉ ((readList close).run window).2.errors
      rw [(errors_at_end proper none).2.2]
      split <;> simp [fueled]
    · show _ ∉ ((expressionList window.fuel close).run window).2.errors
      exact (sustains.expressionList close fresh.toGoing more (by omega)).fueled
        (erase.expressionList close) (fit.expressionList close)
  | program =>
    show _ ∉ ((statements window.fuel false).run window).2.errors
    exact ((sustains.statements false fresh (by omega)).imp fun _ _ _ => And.left).fueled
      (erase.statements false) (fit.statements false)

/-- An expression that has not run out of fuel was read as on any other fuel that suffices. -/
theorem spent_or_run_expression {window : Window} (proper : window.Proper)
    (fueled : .outOfFuel ∉ window.errors) (rank : Precedence) (fuel : Nat) :
    .outOfFuel ∈ ((expression fuel rank).run window).2.errors ∨
      (expression fuel rank).run window = (readExpression rank).run window := by
  have unspent := fueled_perform proper fueled (.expression rank)
  rw [readExpression, fueled_run]
  rcases Nat.le_total fuel window.fuel with less | more
  · exact (((allUpToFuel less).expression rank).agree window).imp_right Eq.symm
  · exact .inr ((((allUpToFuel more).expression rank).agree window).resolve_left unspent)

end Parser

namespace Window

open Scriptlet.Parser (Operation Answer perform Bounded)

/-! ### Calls -/

/-- An operation that was called, with its answer and the windows before and after it. -/
structure Call where
  before : Window
  operation : Operation
  answer : Answer
  after : Window

/-- The call of an operation. -/
def call (window : Window) (operation : Operation) : Call :=
  ⟨window, operation, ((perform operation).run window).1, ((perform operation).run window).2⟩

/-- The calls of some operations on one window, each where the one before it has left it. -/
def calls (window : Window) : List Operation → List Call
  | [] => []
  | operation :: later => window.call operation :: (window.call operation).after.calls later

/-- The window has slid over the tokens of the text, and so has a stream that was opened on the text
and has pulled as many tokens as it was moved on. The errors before the call are still there in
front of those after it. An expected token was moved onto, or else it is missing and one error
says so, with the window where it was. An expression that could start has ended in front of a token
that binds no tighter than its rank. -/
structure Call.Slides (text : String) (call : Call) : Prop where
  before : call.before.Shows text
  after : call.after.Shows text
  streamed : ∃ earlier during : List Move,
    ((Stream.ofText text).follow earlier).Simulates call.before ∧
      ((Stream.ofText text).follow (earlier ++ during)).Simulates call.after
  forward : call.before.place text ≤ call.after.place text
  errors : call.before.errors <+: call.after.errors
  fueled : .outOfFuel ∉ call.after.errors
  expected : ∀ wanted, call.operation = .expect wanted →
    (call.before.ahead.kind = wanted ∧ call.answer = .found true ∧
      call.after = call.before.advance) ∨
    (call.before.ahead.kind ≠ wanted ∧ call.answer = .found false ∧
      call.after = call.before.record (.unexpected wanted call.before.ahead.kind))
  bounded : ∀ rank, call.operation = .expression rank →
    call.before.current.kind.startsExpression = true → Bounded rank call.after

/-- A stream that was opened on the text follows the window wherever a parse takes it. -/
theorem streamed_of_leads {text : String} {first second : Window}
    (before : (ofText text).Leads first) (during : first.Leads second) :
    ∃ earlier later : List Move, ((Stream.ofText text).follow earlier).Simulates first ∧
      ((Stream.ofText text).follow (earlier ++ later)).Simulates second := by
  obtain ⟨earlier, rfl⟩ := exists_moves before
  obtain ⟨later, rfl⟩ := exists_moves during
  have started := Stream.simulates_ofText text
  refine ⟨earlier, later, started.follow earlier, ?_⟩
  rw [← List.foldl_append]
  exact started.follow (earlier ++ later)

theorem slides_call {text : String} {window : Window} (leads : (ofText text).Leads window)
    (fueled : .outOfFuel ∉ window.errors) (operation : Operation) :
    (window.call operation).Slides text := by
  have moves := (Parser.steady_perform operation).leads window
  have kept := Parser.fueled_perform ((proper_ofText text).of_leads leads) fueled operation
  refine ⟨shows_of_leads leads, shows_of_leads (leads.trans moves), streamed_of_leads leads moves,
    place_le_of_leads moves, moves.errors, kept, ?_, ?_⟩
  · rintro wanted ⟨rfl⟩
    rcases Parser.run_expect wanted window with ⟨found, runs⟩ | ⟨missed, runs⟩
    · refine .inl ⟨found, ?_, ?_⟩
      · exact congrArg (fun ended => Answer.found ended.1) runs
      · exact congrArg Prod.snd runs
    · refine .inr ⟨missed, ?_, ?_⟩
      · exact congrArg (fun ended => Answer.found ended.1) runs
      · exact congrArg Prod.snd runs
  · rintro rank ⟨rfl⟩ starts
    exact (Parser.bounded_expression window.fuel rank starts).resolve_left kept

theorem slides_calls {text : String} {window : Window} (leads : (ofText text).Leads window)
    (fueled : .outOfFuel ∉ window.errors) (operations : List Operation) :
    ∀ call ∈ window.calls operations, call.Slides text := by
  induction operations generalizing window with
  | nil => exact List.forall_mem_nil _
  | cons operation later inductionHypothesis =>
    have slides := slides_call leads fueled operation
    refine List.forall_mem_cons.mpr ⟨slides, inductionHypothesis ?_ slides.fueled⟩
    exact leads.trans ((Parser.steady_perform operation).leads window)

/-- Call the operations of a parser in any order, from the start of any text. A cursor that is asked
for one token after the other gives the tokens of the text and then the closing one for ever, and
the window slides over these. A stream that pulls a token from the cursor whenever it moves on
simulates the window all the way. The bound on the token ahead is no matter of who asks for the
expression: it holds wherever one is entered on the way, and whatever errors were recorded before.
An expression inside another one is entered on less fuel, and that makes no difference either, since
no operation runs out of it. -/
theorem calls_slide (text : String) (operations : List Operation) :
    (∀ index, ((Cursor.ofText text).afterCalls index).next.1 = tokenAt text index) ∧
    (ofText text).Shows text ∧ (ofText text).place text = 0 ∧
    (Stream.ofText text).Simulates (ofText text) ∧
    (∀ call ∈ (ofText text).calls operations, call.Slides text) ∧
    ∀ window, (ofText text).Leads window → .outOfFuel ∉ window.errors →
      window.current.kind.startsExpression = true → ∀ rank,
        Bounded rank ((Parser.readExpression rank).run window).2 ∧
        ∀ fuel, .outOfFuel ∈ ((Parser.expression fuel rank).run window).2.errors ∨
          (Parser.expression fuel rank).run window = (Parser.readExpression rank).run window := by
  refine ⟨next_afterCalls_eq_tokenAt text, shows_of_leads (.refl _), Nat.sub_self _,
    Stream.simulates_ofText text, slides_calls (.refl _) List.not_mem_nil operations, ?_⟩
  intro window leads fueled starts rank
  have entered := slides_call leads fueled (.expression rank)
  refine ⟨entered.bounded rank rfl starts, ?_⟩
  exact Parser.spent_or_run_expression ((proper_ofText text).of_leads leads) fueled rank

theorem calls_slide_of_error_inside :
    ∃ window, window = ofText "[1, )] + 2" ∧ window.current.kind.startsExpression = true ∧
      ((Parser.readExpression .sum).run window).2.errors = [.noExpression .rightParen] ∧
      Bounded .sum ((Parser.readExpression .sum).run window).2 ∧
      ∀ call ∈ window.calls [.expression .sum, .expect .rightBracket],
        call.Slides "[1, )] + 2" := by
  obtain ⟨-, -, -, -, slides, bounded⟩ :=
    calls_slide "[1, )] + 2" [.expression .sum, .expect .rightBracket]
  have starts : (ofText "[1, )] + 2").current.kind.startsExpression = true := by decide +kernel
  exact ⟨_, rfl, starts, by decide +kernel,
    (bounded _ (.refl _) List.not_mem_nil starts .sum).1, slides⟩

end Window

end Scriptlet
