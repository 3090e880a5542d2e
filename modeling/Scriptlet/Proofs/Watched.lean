/-
This file compares the watched readers with the readers of programs. Forgetting the journal gives
the readers themselves back, unless a limit is in the way: what is proved of the journal is a fact
about every parse that is not refused. With room for two calls to each unit of fuel a parse is
refused for a literal only, and without limits it is never refused.

Main statements: `outcome_readProgram` and `watchSource_none`.
-/

import Scriptlet.Proofs.CleanRun
import Scriptlet.Tree.Watched

namespace Scriptlet

namespace Watched

open Scriptlet.Parser (Steady)

variable {α β : Type}

/-! ### What readers come to -/

/-- A reader that was refused is not gone on from. -/
theorem outcome_bind (watched : Watched α) (onward : α → Watched β) (limits : Limits)
    (journal : Journal) (window : Window) :
    (watched >>= onward).outcome limits journal window =
      match watched.outcome limits journal window with
      | ((.ok result, later), after) => (onward result).outcome limits later after
      | ((.error refusal, later), after) => ((.error refusal, later), after) := by
  unfold outcome
  simp only [ReaderT.run_bind, ExceptT.run_bind, StateT.run_bind]
  rcases ((watched.run limits).run.run journal).run window with ⟨⟨found | found, later⟩, after⟩ <;>
    rfl

theorem outcome_within (calls : Nat) (watched : Watched α) (limits : Limits) (journal : Journal)
    (window : Window) :
    (within calls watched).outcome limits journal window =
      if limits.room.Holds calls then
        watched.outcome { limits with room := limits.room.inside calls } journal window
      else ((.error .depthExceeded, journal), window) := by
  show StateT.run (StateT.run (ExceptT.run (if limits.room.Holds calls then _ else _)) journal)
    window = _
  split <;> rfl

/-- A literal is refused, or else read as ever. -/
theorem outcome_integer (token : Token) (limits : Limits) (journal : Journal) (window : Window) :
    (∃ most ∈ limits.digits, most < token.text.length ∧
      (integer token).outcome limits journal window =
        ((.error (.tooManyDigits token.text.length), journal), window)) ∨
    (integer token).outcome limits journal window =
      ((.ok ((Parser.integer token).run window).1, journal),
        ((Parser.integer token).run window).2) := by
  have opened : (integer token).outcome limits journal window =
      (if limits.digits.any fun most => decide (most < token.text.length) then
        throw (.tooManyDigits token.text.length)
      else liftM (Parser.integer token) : Watched Node).outcome limits journal window := rfl
  rw [opened]
  split
  · next long =>
    obtain ⟨most, member, less⟩ := (Option.any_eq_true _ _).mp long
    exact .inl ⟨most, member, of_decide_eq_true less, rfl⟩
  · exact .inr rfl

/-! ### Forgetting the journal -/

/-- Unless it is refused, the watched reader does what the reader does, whatever the limits are and
the journal holds. In any case it only moves on and records errors. -/
class Erases (watched : Watched α) (parser : Parser α) : Prop where
  erased : ∀ limits journal window result,
    (watched.outcome limits journal window).1.1 = .ok result →
      parser.run window = (result, (watched.outcome limits journal window).2)
  leads : ∀ limits journal (window : Window), window.Leads (watched.outcome limits journal window).2

instance erases_pure (result : α) : Erases (pure result) (pure result : Parser α) where
  erased := by
    rintro limits journal window _ ⟨⟩
    rfl
  leads := fun _ _ => .refl

instance erases_lift (parser : Parser α) [steady : Steady parser] :
    Erases (liftM parser) parser where
  erased := by
    rintro limits journal window _ ⟨⟩
    rfl
  leads := fun _ _ => steady.leads

instance erases_bind (watched : Watched α) (parser : Parser α) (onward : α → Watched β)
    (continuation : α → Parser β) [first : Erases watched parser]
    [second : ∀ result, Erases (onward result) (continuation result)] :
    Erases (watched >>= onward) (parser >>= continuation) where
  erased := by
    intro limits journal window result
    have own := first.erased limits journal window
    rw [outcome_bind]
    generalize watched.outcome limits journal window = ended at own
    obtain ⟨⟨found, later⟩, after⟩ := ended
    cases found with
    | error refusal => exact nofun
    | ok found =>
      intro ended
      rw [StateT.run_bind, own found rfl]
      exact (second found).erased _ _ _ _ ended
  leads := by
    intro limits journal window
    have own := first.leads limits journal window
    rw [outcome_bind]
    generalize watched.outcome limits journal window = ended at own
    obtain ⟨⟨found, later⟩, after⟩ := ended
    cases found with
    | error refusal => exact own
    | ok found => exact own.trans ((second found).leads limits later after)

instance (priority := low) erases_bind_option (watched : Watched (Option α))
    (parser : Parser (Option α)) (onward : Option α → Watched β)
    (continuation : Option α → Parser β) [Erases watched parser]
    [Erases (onward none) (continuation none)]
    [∀ found, Erases (onward (some found)) (continuation (some found))] :
    Erases (watched >>= onward) (parser >>= continuation) := by
  have second (result : Option α) : Erases (onward result) (continuation result) := by
    cases result <;> infer_instance
  infer_instance

instance erases_ite (condition : Prop) [Decidable condition] (yes no : Watched α)
    (yes' no' : Parser α) [first : Erases yes yes'] [second : Erases no no'] :
    Erases (if condition then yes else no) (if condition then yes' else no') := by
  split
  · exact first
  · exact second

instance erases_within (calls : Nat) (watched : Watched α) (parser : Parser α)
    [inner : Erases watched parser] : Erases (within calls watched) parser where
  erased := by
    intro limits journal window result
    rw [outcome_within]
    split
    · exact inner.erased _ journal window result
    · exact nofun
  leads := by
    intro limits journal window
    rw [outcome_within]
    split
    · exact inner.leads _ journal window
    · exact .refl window

instance erases_integer (token : Token) : Erases (integer token) (Parser.integer token) where
  erased := by
    intro limits journal window result
    rcases outcome_integer token limits journal window with ⟨-, -, -, refused⟩ | ended
    · rw [refused]
      exact nofun
    · rw [ended]
      rintro ⟨⟩
      rfl
  leads := by
    intro limits journal window
    rcases outcome_integer token limits journal window with ⟨-, -, -, refused⟩ | ended
    · rw [refused]
      exact .refl window
    · rw [ended]
      exact (Parser.steady_integer token).leads window

/-- A note in the journal, which leaves the window alone and is never refused. -/
class Notes (watched : Watched α) : Prop where
  still : ∀ limits journal window, ∃ result later,
    watched.outcome limits journal window = ((.ok result, later), window)

instance notes_here : Notes here :=
  ⟨fun _ _ _ => ⟨_, _, rfl⟩⟩

instance notes_enter : Notes enter :=
  ⟨fun _ _ _ => ⟨_, _, rfl⟩⟩

instance notes_finish (loop : Loop) (start : Window) : Notes (finish loop start) :=
  ⟨fun _ _ _ => ⟨_, _, rfl⟩⟩

instance notes_finishSince (loop : Loop) (since : Option Window) :
    Notes (finishSince loop since) := by
  cases since <;> exact ⟨fun _ _ _ => ⟨_, _, rfl⟩⟩

instance erases_note_bind (watched : Watched α) (onward : α → Watched β) (parser : Parser β)
    [note : Notes watched] [rest : ∀ result, Erases (onward result) parser] :
    Erases (watched >>= onward) parser where
  erased := by
    intro limits journal window result
    obtain ⟨found, later, noted⟩ := note.still limits journal window
    rw [outcome_bind, noted]
    exact (rest found).erased limits later window result
  leads := by
    intro limits journal window
    obtain ⟨found, later, noted⟩ := note.still limits journal window
    rw [outcome_bind, noted]
    exact (rest found).leads limits later window

set_option synthInstance.maxSize 512 in
instance erases_names (since : Option Window) (fuel : Nat) :
    Erases (names since fuel) (Parser.names fuel) := by
  induction fuel generalizing since with
  | zero =>
    simp only [names, Parser.names]
    infer_instance
  | succ fuel inductionHypothesis =>
    simp only [names, Parser.names]
    infer_instance

instance erases_parameters (fuel : Nat) : Erases (parameters fuel) (Parser.parameters fuel) := by
  unfold parameters Parser.parameters
  infer_instance

/-- All readers that call each other are the watched ones without their journal, on some amount
of fuel. -/
structure AllErase (fuel : Nat) : Prop where
  expression (rank : Precedence) : Erases (expression fuel rank) (Parser.expression fuel rank)
  operators (rank : Precedence) (left : Node) :
    Erases (operators fuel rank left) (Parser.operators fuel rank left)
  operand (token : Token) : Erases (operand fuel token) (Parser.operand fuel token)
  application (left : Node) : Erases (application fuel left) (Parser.application fuel left)
  conditional (token : Token) : Erases (conditional fuel token) (Parser.conditional fuel token)
  function (token : Token) : Erases (function fuel token) (Parser.function fuel token)
  expressionList (close : TokenKind) :
    Erases (expressionList fuel close) (Parser.expressionList fuel close)
  expressions (since : Option Window) : Erases (expressions since fuel) (Parser.expressions fuel)
  pairs : Erases (pairs fuel) (Parser.pairs fuel)
  block : Erases (block fuel) (Parser.block fuel)
  statements (inBlock : Bool) : Erases (statements fuel inBlock) (Parser.statements fuel inBlock)
  statement : Erases (statement fuel) (Parser.statement fuel)

set_option synthInstance.maxSize 2048 in
theorem allErase (fuel : Nat) : AllErase fuel := by
  induction fuel with
  | zero =>
    constructor
    all_goals
      intros
      simp only [expression, operators, operand, application, conditional, function,
        expressionList, expressions, pairs, block, statements, statement, Parser.expression,
        Parser.operators, Parser.operand, Parser.application, Parser.conditional, Parser.function,
        Parser.expressionList, Parser.expressions, Parser.pairs, Parser.block, Parser.statements,
        Parser.statement]
      infer_instance
  | succ fuel inductionHypothesis =>
    obtain ⟨_, _, _, _, _, _, _, _, _, _, _, _⟩ := inductionHypothesis
    constructor
    case operand =>
      intro token
      unfold operand Parser.operand
      cases token.kind <;> dsimp only <;> infer_instance
    case application =>
      intro left
      unfold application Parser.application
      refine @erases_within _ _ _ _ (@erases_bind _ _ _ _ _ _ _ fun token => ?_)
      cases token.kind <;> dsimp only <;> infer_instance
    case statement =>
      unfold statement Parser.statement
      refine @erases_within _ _ _ _ (@erases_bind _ _ _ _ _ _ _ fun token => ?_)
      cases token.kind <;> dsimp only <;> infer_instance
    all_goals
      intros
      simp only [expression, operators, conditional, function, expressionList, expressions, pairs,
        block, statements, Parser.expression, Parser.operators, Parser.conditional,
        Parser.function, Parser.expressionList, Parser.expressions, Parser.pairs, Parser.block,
        Parser.statements]
      infer_instance

instance steady_get : Steady (get : Parser Window) :=
  ⟨.refl⟩

instance erases_readProgram : Erases readProgram Parser.readProgram := by
  have := fun fuel => (allErase fuel).statements false
  unfold readProgram Parser.readProgram Parser.fueled here
  infer_instance

/-! ### Room for every call -/

/-- With room for so many calls inside each other the reader is refused for a literal only. -/
class Fits (watched : Watched α) (calls : Nat) : Prop where
  refused : ∀ limits journal window refusal, limits.room.Holds calls →
    (watched.outcome limits journal window).1.1 = .error refusal →
      ∃ count, refusal = .tooManyDigits count ∧ ∃ most ∈ limits.digits, most < count

section

variable (calls : Nat)

instance fits_pure (result : α) : Fits (pure result) calls :=
  ⟨fun _ _ _ _ _ => nofun⟩

instance fits_lift (parser : Parser α) : Fits (liftM parser) calls :=
  ⟨fun _ _ _ _ _ => nofun⟩

instance fits_note (watched : Watched α) [note : Notes watched] : Fits watched calls := by
  constructor
  intro limits journal window refusal _
  obtain ⟨found, later, noted⟩ := note.still limits journal window
  rw [noted]
  exact nofun

instance fits_bind (watched : Watched α) (onward : α → Watched β) [first : Fits watched calls]
    [second : ∀ result, Fits (onward result) calls] : Fits (watched >>= onward) calls := by
  constructor
  intro limits journal window refusal holds
  have own := first.refused limits journal window refusal holds
  rw [outcome_bind]
  generalize watched.outcome limits journal window = ended at own
  obtain ⟨⟨found, later⟩, after⟩ := ended
  cases found with
  | error refusal =>
    rintro ⟨⟩
    exact own rfl
  | ok found => exact (second found).refused limits later after refusal holds

instance (priority := low) fits_bind_option (watched : Watched (Option α))
    (onward : Option α → Watched β) [Fits watched calls] [Fits (onward none) calls]
    [∀ found, Fits (onward (some found)) calls] : Fits (watched >>= onward) calls := by
  have second (result : Option α) : Fits (onward result) calls := by
    cases result <;> infer_instance
  infer_instance

instance fits_ite (condition : Prop) [Decidable condition] (yes no : Watched α)
    [first : Fits yes calls] [second : Fits no calls] :
    Fits (if condition then yes else no) calls := by
  split
  · exact first
  · exact second

instance fits_integer (token : Token) : Fits (integer token) calls := by
  constructor
  intro limits journal window refusal _
  rcases outcome_integer token limits journal window with ⟨most, member, less, refused⟩ | ended
  · rw [refused]
    rintro ⟨⟩
    exact ⟨_, rfl, most, member, less⟩
  · rw [ended]
    exact nofun

end

/-- Calls outside take room of their own. -/
theorem fits_within {outer inner calls : Nat} {watched : Watched α} (fits : Fits watched inner)
    (total : calls = outer + inner) : Fits (within outer watched) calls := by
  subst total
  constructor
  intro limits journal window refusal holds
  obtain ⟨own, rest⟩ := (limits.room.holds_add outer inner).mp holds
  rw [outcome_within, if_pos own]
  exact fits.refused { limits with room := limits.room.inside outer } journal window refusal rest

theorem fits_call {calls : Nat} {watched : Watched α} (fits : Fits watched calls) :
    Fits (within 1 watched) (calls + 1) :=
  fits_within fits (Nat.add_comm _ _)

set_option synthInstance.maxSize 512 in
instance fits_names (since : Option Window) (fuel calls : Nat) :
    Fits (names since fuel) calls := by
  induction fuel generalizing since with
  | zero =>
    simp only [names]
    infer_instance
  | succ fuel inductionHypothesis =>
    simp only [names]
    infer_instance

theorem fits_parameters (fuel calls : Nat) : Fits (parameters fuel) (calls + 1) := by
  unfold parameters
  refine fits_call ?_
  infer_instance

/-- With room for so many calls all readers that call each other fit, on some amount of fuel. -/
structure AllFit (fuel calls : Nat) : Prop where
  expression (rank : Precedence) : Fits (expression fuel rank) calls
  operators (rank : Precedence) (left : Node) : Fits (operators fuel rank left) calls
  operand (token : Token) : Fits (operand fuel token) calls
  application (left : Node) : Fits (application fuel left) calls
  conditional (token : Token) : Fits (conditional fuel token) calls
  function (token : Token) : Fits (function fuel token) calls
  expressionList (close : TokenKind) : Fits (expressionList fuel close) calls
  expressions (since : Option Window) : Fits (expressions since fuel) calls
  pairs : Fits (pairs fuel) calls
  block : Fits (block fuel) calls
  statements (inBlock : Bool) : Fits (statements fuel inBlock) calls
  statement : Fits (statement fuel) calls

set_option synthInstance.maxSize 2048 in
/-- A unit of fuel stands for two calls at most. -/
theorem allFit {fuel calls : Nat} (enough : 2 * fuel ≤ calls) : AllFit fuel calls := by
  induction fuel generalizing calls with
  | zero =>
    constructor
    all_goals
      intros
      simp only [expression, operators, operand, application, conditional, function,
        expressionList, expressions, pairs, block, statements, statement]
      infer_instance
  | succ fuel inductionHypothesis =>
    obtain ⟨calls, rfl⟩ : ∃ inner, calls = inner + 2 := ⟨calls - 2, by omega⟩
    have parameters := fits_parameters fuel (calls + 1)
    -- A reader makes no call of its own, one, or two, before it goes on to others.
    have outer : AllFit fuel (calls + 2) := inductionHypothesis (by omega)
    have inner : AllFit fuel (calls + 1) := inductionHypothesis (by omega)
    have innermost : AllFit fuel calls := inductionHypothesis (by omega)
    obtain ⟨_, _, _, _, _, _, _, _, _, _, _, _⟩ := outer
    constructor
    case expression =>
      obtain ⟨_, _, _, _, _, _, _, _, _, _, _, _⟩ := inner
      intro rank
      simp only [expression]
      refine fits_call ?_
      infer_instance
    case operand =>
      obtain ⟨_, _, _, _, _, _, _, _, _, _, _, _⟩ := inner
      intro token
      unfold operand
      refine fits_call ?_
      cases token.kind <;> dsimp only <;> infer_instance
    case application =>
      obtain ⟨_, _, _, _, _, _, _, _, _, _, _, _⟩ := inner
      intro left
      unfold application
      refine fits_call ?_
      refine @fits_bind _ _ _ _ _ _ fun token => ?_
      cases token.kind <;> dsimp only <;> infer_instance
    case expressionList =>
      obtain ⟨_, _, _, _, _, _, _, _, _, _, _, _⟩ := inner
      intro close
      simp only [expressionList]
      refine fits_call ?_
      infer_instance
    case block =>
      obtain ⟨_, _, _, _, _, _, _, _, _, _, _, _⟩ := inner
      simp only [block]
      refine fits_call ?_
      infer_instance
    case statement =>
      obtain ⟨_, _, _, _, _, _, _, _, _, _, _, _⟩ := innermost
      unfold statement
      refine fits_within (show Fits _ calls from ?_) (Nat.add_comm _ _)
      refine @fits_bind _ _ _ _ _ _ fun token => ?_
      cases token.kind <;> dsimp only <;> infer_instance
    all_goals
      intros
      simp only [operators, conditional, function, expressions, pairs, statements]
      infer_instance

/-- The calls that suffice to read a program. -/
theorem refused_readProgram {limits : Limits} {journal : Journal} {window : Window}
    {refusal : Refusal} (holds : limits.room.Holds (2 * window.fuel + 1))
    (refused : (readProgram.outcome limits journal window).1.1 = .error refusal) :
    ∃ count, refusal = .tooManyDigits count ∧ ∃ most ∈ limits.digits, most < count := by
  have := (allFit (Nat.le_refl (2 * window.fuel))).statements false
  have fits : Fits (within 1 do return Node.tree .program (← statements window.fuel false))
      (2 * window.fuel + 1) :=
    fits_call (by infer_instance)
  refine fits.refused limits journal window refusal holds ?_
  rw [← refused, readProgram, outcome_within, outcome_within, outcome_bind here]
  rfl

end Watched

/-! ### The parse of a text -/

/-- Without its journal the watched parse is the parse itself, unless it was refused. -/
theorem watchSource_erased {limits : Limits} {text : String} {program : Node}
    (read : (watchSource limits text).1.1 = .ok program) :
    Parser.readProgram.run (Window.ofText text) = (program, (watchSource limits text).2) :=
  Watched.erases_readProgram.erased _ _ _ _ read

theorem readSource_of_watched {limits : Limits} {text : String} {program : Node}
    (read : (watchSource limits text).1.1 = .ok program) :
    readSource text = ⟨program, (watchSource limits text).2.errors⟩ := by
  show Reading.mk (Parser.readProgram.run (Window.ofText text)).1
    (Parser.readProgram.run (Window.ofText text)).2.errors = _
  rw [watchSource_erased read]

/-- Without limits no parse is refused. -/
theorem watchSource_none (text : String) :
    (watchSource .none text).1.1 = .ok (readSource text).program := by
  cases read : (watchSource .none text).1.1 with
  | ok program => rw [readSource_of_watched read]
  | error refusal =>
    have holds : Limits.none.room.Holds (2 * (Window.ofText text).fuel + 1) := trivial
    obtain ⟨_, _, most, limited, _⟩ := Watched.refused_readProgram holds read
    exact absurd limited (Option.not_mem_none most)

-- A list that is cut off behind an operator. The last expression is started on the end of the text.
example : (watchSource .none "[1, (2 +").1.2.entries.map (fun window => window.current.text) =
    ["", "2", "(", "1", "["] := by
  decide +kernel

example : (watchSource .none "[1, (2 +").1.2.rounds.map (fun round =>
      (round.loop, round.start.current.text, round.finish.current.text)) =
    [(.program, "[", ""), (.expressions, "1", ""), (.operators, "2", "")] := by
  decide +kernel

-- The same parse, under limits that are too narrow for it.
example : (watchSource ⟨.frames 8, none⟩ "[1, (2 +").1.1 = .error .depthExceeded ∧
    (watchSource ⟨.endless, some 2⟩ "[1, (200 +").1.1 = .error (.tooManyDigits 3) :=
  ⟨by cbv, by cbv⟩

end Scriptlet
