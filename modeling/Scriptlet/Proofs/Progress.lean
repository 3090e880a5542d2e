/-
This file proves that the parser ends. It follows the watched readers through a parse of any
tokens, whether they are a program or not, and keeps up what is said by `Going`: the fuel has not
run out, every round of a loop so far has passed a token, and expressions were started on tokens
further and further to the right.

The end of the input is where such an argument can fail, since moving on changes nothing there. So
a reader that expects something behind the current token asks that this is not the end, and a
reader that starts an expression asks that the current token was not tried before (`Fresh`), which
moving on always gives. The fuel that a reader needs is eight times the number of tokens that are
left, and a little more for the readers between two tokens.
-/

import Scriptlet.Proofs.Soundness
import Scriptlet.Proofs.Watched

namespace Scriptlet

open Scriptlet.Parser (current ahead advance record expect skipSemicolon)

/-- At least one token lies between the two windows. -/
def Window.Passes (first second : Window) : Prop :=
  ∃ token passed, first.tokens = token :: passed ++ second.tokens

theorem Window.passes_of_suffix {first second : Window} (more : 0 < first.tokens.length)
    (behind : second.tokens <:+ first.advance.tokens) : first.Passes second := by
  obtain ⟨passed, split⟩ := behind
  obtain ⟨token, rest, listed⟩ := List.exists_cons_of_length_pos more
  refine ⟨token, passed, ?_⟩
  rw [tokens_advance, listed, List.tail_cons] at split
  rw [listed, ← split, List.cons_append]

theorem Window.advance_suffix {first second : Window} (behind : second.tokens <:+ first.tokens) :
    second.advance.tokens <:+ first.advance.tokens := by
  obtain ⟨passed, split⟩ := behind
  rw [tokens_advance, tokens_advance, ← split]
  cases passed with
  | nil => exact List.suffix_rfl
  | cons token rest => exact (List.tail_suffix _).trans (List.suffix_append _ _)

theorem Window.length_advance (window : Window) (more : 0 < window.tokens.length) :
    window.advance.tokens.length + 1 = window.tokens.length := by
  rw [tokens_advance, List.length_tail]
  omega

theorem Window.Passes.onward {first second third : Window} (passes : first.Passes second)
    (behind : third.tokens <:+ second.tokens) : first.Passes third := by
  obtain ⟨token, passed, split⟩ := passes
  obtain ⟨more, rest⟩ := behind
  exact ⟨token, passed ++ more, by simp [split, ← rest]⟩

namespace Watched

variable {α β : Type} {limits : Limits} {journal : Journal} {window : Window}

/-! ### What a parse keeps up -/

/-- So far the fuel has not run out, every round of a loop has passed a token, and expressions
were started further and further to the right, up to the current token at most. -/
structure Going (journal : Journal) (window : Window) : Prop where
  proper : window.Proper
  fueled : SyntaxError.outOfFuel ∉ window.errors
  rounds : ∀ round ∈ journal.rounds, round.start.Passes round.finish
  order : journal.entries.Pairwise fun later earlier => later.tokens <:+ earlier.advance.tokens
  reached : ∀ entry ∈ journal.entries, window.tokens <:+ entry.tokens

/-- The parse was given up while it was on course. If that was for a literal, it stands on one that
has too many digits. -/
structure Refused (digits : Option Nat) (refusal : Refusal) (journal : Journal) (window : Window) :
    Prop extends Going journal window where
  literal : ∀ count, refusal = .tooManyDigits count →
    window.current.kind = .int ∧ window.current.text.length = count ∧
      ∃ most ∈ digits, most < count

/-! ### What a watched reader ensures -/

/-- The reader ends on a result, a journal and a window of which the given is true, unless it is
refused. -/
def Ensures (watched : Watched α) (limits : Limits) (journal : Journal) (window : Window)
    (post : α → Journal → Window → Prop) : Prop :=
  match watched.outcome limits journal window with
  | ((.ok result, later), after) => post result later after
  | ((.error refusal, later), after) => Refused limits.digits refusal later after

section

variable {post : β → Journal → Window → Prop}

theorem Ensures.bind {watched : Watched α} {onward : α → Watched β}
    {middle : α → Journal → Window → Prop} (first : Ensures watched limits journal window middle)
    (second : ∀ result later after, middle result later after →
      Ensures (onward result) limits later after post) :
    Ensures (watched >>= onward) limits journal window post := by
  unfold Ensures at first ⊢
  rw [outcome_bind]
  generalize watched.outcome limits journal window = ended at first
  obtain ⟨⟨found, later⟩, after⟩ := ended
  cases found with
  | error refusal => exact first
  | ok found => exact second found later after first

theorem Ensures.imp {watched : Watched α} {weaker stronger : α → Journal → Window → Prop}
    (ensures : Ensures watched limits journal window stronger)
    (implies : ∀ result later after, stronger result later after → weaker result later after) :
    Ensures watched limits journal window weaker := by
  unfold Ensures at ensures ⊢
  generalize watched.outcome limits journal window = ended at ensures
  obtain ⟨⟨found, later⟩, after⟩ := ended
  cases found with
  | error refusal => exact ensures
  | ok found => exact implies found later after ensures

/-- A call for which there is no room leaves everything as it is. -/
theorem ensures_within {watched : Watched β} {calls : Nat} (going : Going journal window)
    (inside : Ensures watched { limits with room := limits.room.inside calls } journal window
      post) :
    Ensures (within calls watched) limits journal window post := by
  by_cases fits : limits.room.Holds calls
  · rw [Ensures, outcome_within, if_pos fits]
    exact inside
  · rw [Ensures, outcome_within, if_neg fits]
    exact ⟨going, fun _ => nofun⟩

theorem ensures_here_bind {onward : Window → Watched β} :
    Ensures (here >>= onward) limits journal window post ↔
      Ensures (onward window) limits journal window post :=
  Iff.rfl

theorem ensures_enter_bind {onward : Unit → Watched β} :
    Ensures (enter >>= onward) limits journal window post ↔
      Ensures (onward ()) limits (journal.entered window) window post :=
  Iff.rfl

theorem ensures_finish_bind {loop : Loop} {start : Window} {onward : Unit → Watched β} :
    Ensures (finish loop start >>= onward) limits journal window post ↔
      Ensures (onward ()) limits (journal.finished ⟨loop, start, window⟩) window post :=
  Iff.rfl

theorem ensures_current_bind {onward : Token → Watched β} :
    Ensures (liftM current >>= onward) limits journal window post ↔
      Ensures (onward window.current) limits journal window post :=
  Iff.rfl

theorem ensures_ahead_bind {onward : Token → Watched β} :
    Ensures (liftM ahead >>= onward) limits journal window post ↔
      Ensures (onward window.ahead) limits journal window post :=
  Iff.rfl

theorem ensures_advance_bind {onward : Unit → Watched β} :
    Ensures (liftM advance >>= onward) limits journal window post ↔
      Ensures (onward ()) limits journal window.advance post :=
  Iff.rfl

theorem ensures_record_bind {error : SyntaxError} {onward : Unit → Watched β} :
    Ensures (liftM (record error) >>= onward) limits journal window post ↔
      Ensures (onward ()) limits journal (window.record error) post :=
  Iff.rfl

theorem ensures_ite {condition : Prop} [Decidable condition] {yes no : Watched β} :
    Ensures (if condition then yes else no) limits journal window post ↔
      (condition → Ensures yes limits journal window post) ∧
        (¬ condition → Ensures no limits journal window post) := by
  by_cases holds : condition <;> simp [holds]

theorem ensures_expect_bind {wanted : TokenKind} {onward : Bool → Watched β} :
    Ensures (liftM (expect wanted) >>= onward) limits journal window post ↔
      (window.ahead.kind = wanted → Ensures (onward true) limits journal window.advance post) ∧
        (window.ahead.kind ≠ wanted → Ensures (onward false) limits journal
          (window.record (.unexpected wanted window.ahead.kind)) post) := by
  have runs : (expect wanted).run window =
      if window.ahead.kind = wanted then (true, window.advance)
      else (false, window.record (.unexpected wanted window.ahead.kind)) := by
    show (if window.ahead.kind = wanted then _ else _ : Parser Bool).run window = _
    split <;> rfl
  show Ensures (onward ((expect wanted).run window).1) limits journal
    ((expect wanted).run window).2 post ↔
    _
  by_cases found : window.ahead.kind = wanted <;> simp [runs, found]

theorem ensures_skipSemicolon_bind {onward : Unit → Watched β} :
    Ensures (liftM skipSemicolon >>= onward) limits journal window post ↔
      Ensures (onward ()) limits journal window.behindSemicolon post := by
  have runs : skipSemicolon.run window = ((), window.behindSemicolon) := by
    show (if window.ahead.kind = .semicolon then advance else pure () : Parser Unit).run window = _
    unfold Window.behindSemicolon
    split <;> rfl
  show Ensures (onward ()) limits journal (skipSemicolon.run window).2 post ↔ _
  rw [runs]

end

/-! ### Steps of a parse -/

/-- No expression was started at the current token, unless it is the end of the input. -/
structure Fresh (journal : Journal) (window : Window) : Prop extends Going journal window where
  untried : ∀ entry ∈ journal.entries, window.tokens <:+ entry.advance.tokens

/-- The parse has come from one window to another, and goes on. -/
structure Onward (start : Window) (journal : Journal) (window : Window) : Prop
    extends Going journal window where
  behind : window.tokens <:+ start.tokens

theorem Going.onward (going : Going journal window) : Onward window journal window :=
  ⟨going, List.suffix_rfl⟩

theorem Going.advance (going : Going journal window) : Fresh journal window.advance where
  proper := going.proper.advance
  fueled := going.fueled
  rounds := going.rounds
  order := going.order
  reached := fun entry member =>
    (List.tail_suffix _).trans (going.reached entry member)
  untried := fun entry member => Window.advance_suffix (going.reached entry member)

theorem Going.record (going : Going journal window) {error : SyntaxError}
    (other : error ≠ .outOfFuel) : Going journal (window.record error) where
  proper := going.proper.of_leads (window.leads_record error)
  fueled := by simp [Window.record, going.fueled, other.symm]
  rounds := going.rounds
  order := going.order
  reached := going.reached

theorem Fresh.enter (fresh : Fresh journal window) : Going (journal.entered window) window where
  proper := fresh.proper
  fueled := fresh.fueled
  rounds := fresh.rounds
  order := List.pairwise_cons.mpr ⟨fresh.untried, fresh.order⟩
  reached := List.forall_mem_cons.mpr ⟨List.suffix_rfl, fresh.reached⟩

theorem Going.finish (going : Going journal window) {loop : Loop} {start : Window}
    (passes : start.Passes window) : Going (journal.finished ⟨loop, start, window⟩) window where
  proper := going.proper
  fueled := going.fueled
  rounds := List.forall_mem_cons.mpr ⟨passes, going.rounds⟩
  order := going.order
  reached := going.reached

theorem Fresh.finish (fresh : Fresh journal window) {loop : Loop} {start : Window}
    (passes : start.Passes window) : Fresh (journal.finished ⟨loop, start, window⟩) window :=
  ⟨fresh.toGoing.finish passes, fresh.untried⟩

namespace Onward

variable {start : Window}

theorem advance (onward : Onward start journal window) : Onward start journal window.advance :=
  ⟨onward.toGoing.advance.toGoing, (List.tail_suffix _).trans onward.behind⟩

theorem record (onward : Onward start journal window) {error : SyntaxError}
    (other : error ≠ .outOfFuel) : Onward start journal (window.record error) :=
  ⟨onward.toGoing.record other, onward.behind⟩

theorem behindSemicolon (onward : Onward start journal window) :
    Onward start journal window.behindSemicolon := by
  unfold Window.behindSemicolon
  split
  · exact onward.advance
  · exact onward

theorem trans {later : Journal} {after : Window} (first : Onward start journal window)
    (second : Onward window later after) : Onward start later after :=
  ⟨second.toGoing, second.behind.trans first.behind⟩

theorem length_le (onward : Onward start journal window) :
    window.tokens.length ≤ start.tokens.length :=
  onward.behind.length_le

end Onward

/-- A current token that is not the end of the input stands in the list. -/
theorem Going.length_pos (going : Going journal window)
    (more : window.current.kind ≠ .endOfInput) : 0 < window.tokens.length := by
  rw [going.proper.tokens_eq more]
  exact Nat.succ_pos _

/-- A token ahead that is not the end of the input stands in the list, and so does the current
one. -/
theorem Going.length_of_ahead (going : Going journal window)
    (more : window.ahead.kind ≠ .endOfInput) :
    0 < window.advance.tokens.length ∧ window.advance.tokens.length + 1 = window.tokens.length := by
  have listed := congrArg List.length (going.proper.behind_eq more)
  have fewer := window.length_advance
  rw [List.length_cons] at listed
  rw [Window.tokens_advance, List.length_tail] at listed ⊢
  omega

/-- A reader that ends with a last expected token. -/
theorem ensures_expect_last {start : Window} (onward : Onward start journal window)
    (wanted : TokenKind) (found missed : α) :
    Ensures
      (liftM (expect wanted) >>= fun given => if given = true then pure found else pure missed)
      limits journal window fun _ => Onward start := by
  simp only [ensures_expect_bind]
  exact ⟨fun _ => onward.advance, fun _ => onward.record (by simp)⟩

/-- A reader that gives up where a token is missing. -/
theorem ensures_unless_expect {start : Window} (onward : Onward start journal window)
    {wanted : TokenKind} {missed : α} {rest : Watched α}
    (found : window.ahead.kind = wanted →
      Ensures rest limits journal window.advance fun _ => Onward start) :
    Ensures (liftM (expect wanted) >>= fun given => if (!given) = true then pure missed else rest)
      limits journal window fun _ => Onward start := by
  simp only [ensures_expect_bind]
  exact ⟨found, fun _ => onward.record (by simp)⟩

theorem ensures_integer (going : Going journal window) (kind : window.current.kind = .int) :
    Ensures (integer window.current) limits journal window fun _ => Onward window := by
  unfold Ensures
  rcases outcome_integer window.current limits journal window with
    ⟨most, limited, less, refused⟩ | read
  · rw [refused]
    refine ⟨going, ?_⟩
    rintro count ⟨rfl⟩
    exact ⟨kind, rfl, most, limited, less⟩
  · rw [read]
    show Onward window journal ((Parser.integer window.current).run window).2
    unfold Parser.integer
    split
    · exact going.onward
    · exact going.onward.record (by simp)

/-! ### The readers -/

/-- With so much fuel every reader keeps the parse going, given the fuel that it needs. -/
structure Sustains (fuel : Nat) : Prop where
  expression (rank : Precedence) {limits : Limits} {journal : Journal} {window : Window}
    (fresh : Fresh journal window) (enough : 8 * window.tokens.length + 2 ≤ fuel) :
    Ensures (expression fuel rank) limits journal window fun _ => Onward window
  operators (rank : Precedence) (left : Node) {limits : Limits} {journal : Journal}
    {window : Window} (going : Going journal window)
    (enough : 8 * window.tokens.length + 1 ≤ fuel) :
    Ensures (operators fuel rank left) limits journal window fun _ => Onward window
  operand {limits : Limits} {journal : Journal} {window : Window} (going : Going journal window)
    (more : 0 < window.tokens.length) (enough : 8 * window.tokens.length + 1 ≤ fuel) :
    Ensures (operand fuel window.current) limits journal window fun _ => Onward window
  application (left : Node) {limits : Limits} {journal : Journal} {window : Window}
    (going : Going journal window) (more : 0 < window.tokens.length)
    (enough : 8 * window.tokens.length ≤ fuel) :
    Ensures (application fuel left) limits journal window fun _ => Onward window
  conditional (token : Token) {limits : Limits} {journal : Journal} {window : Window}
    (going : Going journal window) (more : 0 < window.tokens.length)
    (enough : 8 * window.tokens.length ≤ fuel) :
    Ensures (conditional fuel token) limits journal window fun _ => Onward window
  function (token : Token) {limits : Limits} {journal : Journal} {window : Window}
    (going : Going journal window) (more : 0 < window.tokens.length)
    (enough : 8 * window.tokens.length ≤ fuel) :
    Ensures (function fuel token) limits journal window fun _ => Onward window
  expressionList (close : TokenKind) {limits : Limits} {journal : Journal} {window : Window}
    (going : Going journal window) (more : 0 < window.tokens.length)
    (enough : 8 * window.tokens.length ≤ fuel + 4) :
    Ensures (expressionList fuel close) limits journal window fun _ => Onward window
  expressions (since : Option Window) {limits : Limits} {journal : Journal} {window : Window}
    (fresh : Fresh journal window) (passes : ∀ start ∈ since, start.Passes window)
    (enough : 8 * window.tokens.length + 3 ≤ fuel) :
    Ensures (expressions since fuel) limits journal window fun _ => Onward window
  pairs {limits : Limits} {journal : Journal} {window : Window} (going : Going journal window)
    (more : 0 < window.tokens.length) (enough : 8 * window.tokens.length ≤ fuel) :
    Ensures (pairs fuel) limits journal window fun _ => Onward window
  block {limits : Limits} {journal : Journal} {window : Window} (going : Going journal window)
    (more : 0 < window.tokens.length) (enough : 8 * window.tokens.length ≤ fuel) :
    Ensures (block fuel) limits journal window fun _ => Onward window
  statements (inBlock : Bool) {limits : Limits} {journal : Journal} {window : Window}
    (fresh : Fresh journal window) (enough : 8 * window.tokens.length + 4 ≤ fuel) :
    Ensures (statements fuel inBlock) limits journal window fun _ later after =>
      Onward window later after ∧ (after.current.kind = .endOfInput ∨
        (inBlock = true ∧ after.current.kind = .rightBrace))
  statement {limits : Limits} {journal : Journal} {window : Window} (fresh : Fresh journal window)
    (more : 0 < window.tokens.length) (enough : 8 * window.tokens.length + 3 ≤ fuel) :
    Ensures (statement fuel) limits journal window fun _ => Onward window

variable {fuel : Nat}

theorem Sustains.expression_succ (sustains : Sustains fuel) (rank : Precedence)
    (fresh : Fresh journal window) (enough : 8 * window.tokens.length + 2 ≤ fuel + 1) :
    Ensures (Watched.expression (fuel + 1) rank) limits journal window fun _ => Onward window := by
  rw [Watched.expression]
  apply ensures_within fresh.toGoing
  simp only [ensures_enter_bind, ensures_current_bind, ensures_ite, ensures_record_bind]
  have going := fresh.enter
  refine ⟨fun starts => ?_, fun _ => going.onward.record (by simp)⟩
  have more := going.length_pos fun ended => by simp [ended, TokenKind.startsExpression] at starts
  refine (sustains.operand going more (by omega)).bind fun left later after onward => ?_
  have shorter := onward.length_le
  exact (sustains.operators rank left onward.toGoing (by omega)).imp fun _ _ _ => onward.trans

theorem Sustains.operators_succ (sustains : Sustains fuel) (rank : Precedence) (left : Node)
    (going : Going journal window) (enough : 8 * window.tokens.length + 1 ≤ fuel + 1) :
    Ensures (Watched.operators (fuel + 1) rank left) limits journal window
      fun _ => Onward window := by
  simp only [Watched.operators, ensures_ahead_bind, ensures_ite, ensures_here_bind,
    ensures_advance_bind]
  refine ⟨fun tighter => ?_, fun _ => going.onward⟩
  obtain ⟨more, listed⟩ := going.length_of_ahead fun ended => by
    rw [ended] at tighter
    exact absurd rank.one_le_level (Nat.not_le_of_lt tighter)
  refine (sustains.application left going.advance.toGoing more (by omega)).bind
    fun applied later after onward => ?_
  rw [ensures_finish_bind]
  have passes : window.Passes after :=
    Window.passes_of_suffix (by omega) onward.behind
  have shorter := onward.length_le
  refine (sustains.operators rank applied (onward.toGoing.finish passes) (by omega)).imp
    fun _ _ _ rest => ?_
  exact going.onward.advance.trans (onward.trans rest)

/-- An expression behind the current token has fuel to spare. -/
theorem Sustains.expression_behind (sustains : Sustains fuel) (rank : Precedence) {start : Window}
    (reached : Onward start journal window) (more : 0 < start.tokens.length)
    (enough : 8 * start.tokens.length ≤ fuel + 6) :
    Ensures (Watched.expression fuel rank) limits journal window.advance fun _ => Onward start := by
  have shorter := reached.length_le
  have fewer : window.advance.tokens.length = window.tokens.length - 1 := by
    rw [Window.tokens_advance, List.length_tail]
  exact (sustains.expression rank reached.toGoing.advance (by omega)).imp
    fun _ _ _ => reached.advance.trans

/-- So has a block whose opening brace is ahead. -/
theorem Sustains.block_ahead (sustains : Sustains fuel) {start : Window}
    (reached : Onward start journal window) (begins : window.ahead.kind = .leftBrace)
    (enough : 8 * start.tokens.length ≤ fuel + 8) :
    Ensures (Watched.block fuel) limits journal window.advance fun _ => Onward start := by
  have shorter := reached.length_le
  obtain ⟨more, fewer⟩ := reached.toGoing.length_of_ahead (by simp [begins])
  exact (sustains.block reached.advance.toGoing more (by omega)).imp
    fun _ _ _ => reached.advance.trans

theorem Sustains.operand_succ (sustains : Sustains fuel) (going : Going journal window)
    (more : 0 < window.tokens.length) (enough : 8 * window.tokens.length + 1 ≤ fuel + 1) :
    Ensures (Watched.operand (fuel + 1) window.current) limits journal window
      fun _ => Onward window := by
  have behind (rank : Precedence) (limits : Limits) :
      Ensures (Watched.expression fuel rank) limits journal window.advance fun _ => Onward window :=
    sustains.expression_behind rank going.onward more (by omega)
  unfold Watched.operand
  apply ensures_within going
  split
  · exact going.onward
  · exact going.onward
  · exact going.onward
  · exact going.onward
  · next kind => exact ensures_integer going kind
  · rw [ensures_advance_bind]
    exact (behind .unary _).bind fun _ _ _ onward => onward
  · rw [ensures_advance_bind]
    exact (behind .unary _).bind fun _ _ _ onward => onward
  · rw [ensures_advance_bind]
    exact (behind .lowest _).bind fun _ _ _ onward => ensures_expect_last onward _ _ _
  · exact sustains.conditional _ going more (by omega)
  · exact sustains.function _ going more (by omega)
  · refine (sustains.expressionList _ going more (by omega)).bind fun found _ _ onward => ?_
    cases found <;> exact onward
  · refine (sustains.pairs going more (by omega)).bind fun found _ _ onward => ?_
    cases found <;> exact onward
  · exact going.onward

theorem Sustains.application_succ (sustains : Sustains fuel) (left : Node)
    (going : Going journal window) (more : 0 < window.tokens.length)
    (enough : 8 * window.tokens.length ≤ fuel + 1) :
    Ensures (Watched.application (fuel + 1) left) limits journal window fun _ => Onward window := by
  have behind (rank : Precedence) (limits : Limits) :
      Ensures (Watched.expression fuel rank) limits journal window.advance fun _ => Onward window :=
    sustains.expression_behind rank going.onward more (by omega)
  rw [Watched.application]
  apply ensures_within going
  rw [ensures_current_bind]
  split
  · refine (sustains.expressionList _ going more (by omega)).bind fun found _ _ onward => ?_
    cases found <;> exact onward
  · rw [ensures_advance_bind]
    exact (behind _ _).bind fun _ _ _ onward => ensures_expect_last onward _ _ _
  · rw [ensures_advance_bind]
    exact (behind _ _).bind fun _ _ _ onward => onward

theorem Sustains.conditional_succ (sustains : Sustains fuel) (token : Token)
    (going : Going journal window) (more : 0 < window.tokens.length)
    (enough : 8 * window.tokens.length ≤ fuel + 1) :
    Ensures (Watched.conditional (fuel + 1) token) limits journal window
      fun _ => Onward window := by
  simp only [Watched.conditional]
  refine ensures_unless_expect going.onward fun _ => ?_
  rw [ensures_advance_bind]
  refine (sustains.expression_behind _ going.onward.advance more (by omega)).bind
    fun condition _ _ read => ?_
  refine ensures_unless_expect read fun _ => ?_
  refine ensures_unless_expect read.advance fun begins => ?_
  refine (sustains.block_ahead read.advance begins (by omega)).bind
    fun consequence _ _ read => ?_
  simp only [ensures_ahead_bind, ensures_ite, ensures_advance_bind]
  refine ⟨fun _ => ?_, fun _ => read⟩
  refine ensures_unless_expect read.advance fun continues => ?_
  exact (sustains.block_ahead read.advance continues (by omega)).bind fun _ _ _ read => read

theorem ensures_finishSince_bind {loop : Loop} {since : Option Window} {onward : Unit → Watched β}
    {post : β → Journal → Window → Prop} (going : Going journal window)
    (passes : ∀ start ∈ since, start.Passes window)
    (rest : ∀ later, Going later window → Ensures (onward ()) limits later window post) :
    Ensures (finishSince loop since >>= onward) limits journal window post := by
  cases since with
  | none => exact rest journal going
  | some start => exact rest _ (going.finish (passes start rfl))

theorem ensures_names (since : Option Window) (going : Going journal window)
    (passes : ∀ start ∈ since, start.Passes window) (enough : window.tokens.length < fuel) :
    Ensures (names since fuel) limits journal window fun _ => Onward window := by
  induction fuel generalizing since journal window with
  | zero => exact absurd enough (Nat.not_lt_zero _)
  | succ fuel inductionHypothesis =>
    simp only [names, ensures_expect_bind]
    refine ⟨fun found => ?_, fun _ => going.onward.record (by simp)⟩
    have name := going.onward.advance
    refine ensures_finishSince_bind name.toGoing
      (fun start member => (passes start member).onward name.behind) fun later noted => ?_
    replace name : Onward window later window.advance := ⟨noted, name.behind⟩
    simp only [ensures_current_bind, ensures_ahead_bind, ensures_ite, ensures_here_bind,
      ensures_advance_bind]
    refine ⟨fun comma => ?_, fun _ => name⟩
    obtain ⟨more, fewer⟩ := going.length_of_ahead (by simp [found])
    have shorter := name.advance.advance.length_le
    refine (inductionHypothesis _ name.advance.toGoing ?_ ?_).bind
      fun _ _ _ rest => name.advance.trans rest
    · rintro _ ⟨rfl⟩
      exact Window.passes_of_suffix more List.suffix_rfl
    · have := window.advance.length_advance more
      omega

theorem ensures_parameters (going : Going journal window) (enough : window.tokens.length < fuel) :
    Ensures (parameters fuel) limits journal window fun _ => Onward window := by
  unfold parameters
  apply ensures_within going
  simp only [ensures_current_bind, ensures_ahead_bind, ensures_ite, ensures_advance_bind]
  refine ⟨fun _ => going.onward.advance, fun _ => ?_⟩
  refine (ensures_names none going nofun enough).bind fun found _ _ onward => ?_
  cases found with
  | none => exact onward
  | some names => exact ensures_expect_last onward _ _ _

theorem Sustains.function_succ (sustains : Sustains fuel) (token : Token)
    (going : Going journal window) (more : 0 < window.tokens.length)
    (enough : 8 * window.tokens.length ≤ fuel + 1) :
    Ensures (Watched.function (fuel + 1) token) limits journal window fun _ => Onward window := by
  simp only [Watched.function]
  refine ensures_unless_expect going.onward fun opens => ?_
  have inside := going.onward.advance
  have fewer := window.length_advance more
  refine (ensures_parameters inside.toGoing (by omega)).bind fun found _ _ read => ?_
  replace read := inside.trans read
  cases found with
  | none => exact read
  | some parameters =>
    refine ensures_unless_expect read fun begins => ?_
    exact (sustains.block_ahead read begins (by omega)).bind fun _ _ _ read => read

theorem Sustains.expressionList_succ (sustains : Sustains fuel) (close : TokenKind)
    (going : Going journal window) (more : 0 < window.tokens.length)
    (enough : 8 * window.tokens.length ≤ fuel + 1 + 4) :
    Ensures (Watched.expressionList (fuel + 1) close) limits journal window
      fun _ => Onward window := by
  rw [Watched.expressionList]
  apply ensures_within going
  simp only [ensures_ahead_bind, ensures_ite, ensures_advance_bind]
  refine ⟨fun _ => going.onward.advance, fun _ => ?_⟩
  have fewer := window.length_advance more
  have noStart : ∀ start ∈ (none : Option Window), start.Passes window.advance :=
    fun start member => absurd member (Option.not_mem_none start)
  refine (sustains.expressions none going.advance noStart (by omega)).bind
    fun items _ _ read => ?_
  exact ensures_expect_last (going.onward.advance.trans read) _ _ _

theorem Sustains.expressions_succ (sustains : Sustains fuel) (since : Option Window)
    (fresh : Fresh journal window) (passes : ∀ start ∈ since, start.Passes window)
    (enough : 8 * window.tokens.length + 3 ≤ fuel + 1) :
    Ensures (Watched.expressions since (fuel + 1)) limits journal window
      fun _ => Onward window := by
  simp only [Watched.expressions]
  refine (sustains.expression _ fresh (by omega)).bind fun first _ after read => ?_
  refine ensures_finishSince_bind read.toGoing
    (fun start member => (passes start member).onward read.behind) fun later noted => ?_
  replace read : Onward window later after := ⟨noted, read.behind⟩
  simp only [ensures_ahead_bind, ensures_ite, ensures_here_bind, ensures_advance_bind]
  refine ⟨fun comma => ?_, fun _ => read⟩
  obtain ⟨more, fewer⟩ := noted.length_of_ahead (by simp [comma])
  have shorter := read.length_le
  have fewerBehind := after.advance.length_advance more
  refine (sustains.expressions _ read.advance.toGoing.advance ?_ (by omega)).bind
    fun _ _ _ rest => read.advance.advance.trans rest
  rintro _ ⟨rfl⟩
  exact Window.passes_of_suffix (by omega) (List.tail_suffix _)

theorem Sustains.pairs_succ (sustains : Sustains fuel) (going : Going journal window)
    (more : 0 < window.tokens.length) (enough : 8 * window.tokens.length ≤ fuel + 1) :
    Ensures (Watched.pairs (fuel + 1)) limits journal window fun _ => Onward window := by
  simp only [Watched.pairs, ensures_ahead_bind, ensures_ite, ensures_here_bind,
    ensures_advance_bind]
  refine ⟨fun _ => going.onward.advance, fun _ => ?_⟩
  have fewer := window.length_advance more
  -- A round that comes back to the start of the loop has passed the current token.
  have again {later : Journal} {after : Window} {pair : Node}
      (read : Onward window.advance later after) (more : 0 < after.tokens.length) :
      Ensures (finish .pairs window >>= fun _ => Watched.pairs fuel >>= fun others =>
        pure (others.map (pair :: ·))) limits later after fun _ => Onward window.advance := by
    have shorter := read.length_le
    have passes := Window.passes_of_suffix (by omega) read.behind
    rw [ensures_finish_bind]
    exact (sustains.pairs (read.toGoing.finish passes) more (by omega)).bind
      fun _ _ _ rest => read.trans rest
  refine Ensures.imp ?_ fun _ _ _ => going.onward.advance.trans
  refine (sustains.expression _ going.advance (by omega)).bind fun key _ _ read => ?_
  refine ensures_unless_expect read fun colon => ?_
  obtain ⟨moreValue, fewerValue⟩ := read.toGoing.length_of_ahead (by simp [colon])
  have shorter := read.length_le
  rw [ensures_current_bind, ensures_advance_bind]
  refine (sustains.expression_behind _ read.advance (by omega) (by omega)).bind
    fun value _ after read => ?_
  rw [ensures_ahead_bind, ensures_ite, ensures_expect_bind]
  refine ⟨fun closes => ?_, fun _ => ⟨fun comma => ?_, fun _ => read.record (by simp)⟩⟩
  · obtain ⟨moreBehind, fewerBehind⟩ := read.toGoing.length_of_ahead (by simp [closes])
    exact again read (by omega)
  · exact again read.advance (read.toGoing.length_of_ahead (by simp [comma])).1

theorem Sustains.block_succ (sustains : Sustains fuel) (going : Going journal window)
    (more : 0 < window.tokens.length) (enough : 8 * window.tokens.length ≤ fuel + 1) :
    Ensures (Watched.block (fuel + 1)) limits journal window fun _ => Onward window := by
  rw [Watched.block]
  apply ensures_within going
  simp only [ensures_current_bind, ensures_advance_bind]
  have fewer := window.length_advance more
  refine (sustains.statements true going.advance (by omega)).bind fun statements _ _ read => ?_
  replace read := going.onward.advance.trans read.1
  simp only [ensures_current_bind, ensures_ite, ensures_record_bind]
  exact ⟨fun _ => read.record (by simp), fun _ => read⟩

theorem Sustains.statements_succ (sustains : Sustains fuel) (inBlock : Bool)
    (fresh : Fresh journal window) (enough : 8 * window.tokens.length + 4 ≤ fuel + 1) :
    Ensures (Watched.statements (fuel + 1) inBlock) limits journal window fun _ later after =>
      Onward window later after ∧ (after.current.kind = .endOfInput ∨
        (inBlock = true ∧ after.current.kind = .rightBrace)) := by
  simp only [Watched.statements, ensures_current_bind, ensures_ite, ensures_here_bind]
  refine ⟨fun ended => ⟨fresh.toGoing.onward, ended⟩, fun unfinished => ?_⟩
  have more := fresh.toGoing.length_pos fun ended => unfinished (.inl ended)
  refine (sustains.statement fresh more (by omega)).bind fun first _ after read => ?_
  rw [ensures_advance_bind, ensures_finish_bind]
  have passes := Window.passes_of_suffix more (Window.advance_suffix read.behind)
  have shorter := (Window.advance_suffix read.behind).length_le
  have fewer := window.length_advance more
  refine (sustains.statements inBlock (read.toGoing.advance.finish passes) (by omega)).bind
    fun _ _ _ rest => ?_
  exact ⟨read.advance.trans rest.1, rest.2⟩

theorem Sustains.statement_succ (sustains : Sustains fuel) (fresh : Fresh journal window)
    (more : 0 < window.tokens.length) (enough : 8 * window.tokens.length + 3 ≤ fuel + 1) :
    Ensures (Watched.statement (fuel + 1)) limits journal window fun _ => Onward window := by
  have onward := fresh.toGoing.onward
  rw [Watched.statement]
  apply ensures_within fresh.toGoing
  rw [ensures_current_bind]
  split
  · refine ensures_unless_expect onward fun _ => ?_
    rw [ensures_current_bind]
    refine ensures_unless_expect onward.advance fun _ => ?_
    rw [ensures_advance_bind]
    refine (sustains.expression_behind _ onward.advance.advance more (by omega)).bind
      fun value _ _ read => ?_
    rw [ensures_skipSemicolon_bind]
    exact read.behindSemicolon
  · rw [ensures_advance_bind]
    refine (sustains.expression_behind _ onward more (by omega)).bind fun value _ _ read => ?_
    rw [ensures_skipSemicolon_bind]
    exact read.behindSemicolon
  · refine (sustains.expression _ fresh (by omega)).bind fun value _ _ read => ?_
    rw [ensures_skipSemicolon_bind]
    exact read.behindSemicolon

/-- Every reader keeps a parse going on the fuel that it needs. -/
theorem sustains (fuel : Nat) : Sustains fuel := by
  induction fuel with
  | zero => constructor <;> intros <;> omega
  | succ fuel inductionHypothesis =>
    exact ⟨fun rank => inductionHypothesis.expression_succ rank,
      fun rank left => inductionHypothesis.operators_succ rank left,
      inductionHypothesis.operand_succ,
      fun left => inductionHypothesis.application_succ left,
      fun token => inductionHypothesis.conditional_succ token,
      fun token => inductionHypothesis.function_succ token,
      fun close => inductionHypothesis.expressionList_succ close,
      fun since => inductionHypothesis.expressions_succ since,
      inductionHypothesis.pairs_succ, inductionHypothesis.block_succ,
      fun inBlock => inductionHypothesis.statements_succ inBlock,
      inductionHypothesis.statement_succ⟩

end Watched

/-! ### More fuel changes nothing -/

namespace Parser

variable {α β : Type}

/-- The second reader does what the first one does, unless that has run out of fuel. -/
class UpToFuel (less more : Parser α) : Prop where
  agree : ∀ window : Window,
    .outOfFuel ∈ (less.run window).2.errors ∨ more.run window = less.run window

instance upToFuel_refl (parser : Parser α) : UpToFuel parser parser :=
  ⟨fun _ => .inr rfl⟩

instance upToFuel_bind (less more : Parser α) (continuation onward : α → Parser β)
    [first : UpToFuel less more] [second : ∀ result, UpToFuel (continuation result) (onward result)]
    [steady : ∀ result, Steady (continuation result)] :
    UpToFuel (less >>= continuation) (more >>= onward) := by
  constructor
  intro window
  rcases first.agree window with out | same
  · -- An error that was recorded is never taken back.
    exact .inl (((steady _).leads (less.run window).2).errors.subset out)
  · show _ ∨ (onward (more.run window).1).run (more.run window).2 = _
    rw [same]
    exact (second _).agree _

instance (priority := high) upToFuel_bind_same (parser : Parser α)
    (continuation onward : α → Parser β)
    [second : ∀ result, UpToFuel (continuation result) (onward result)] :
    UpToFuel (parser >>= continuation) (parser >>= onward) :=
  ⟨fun window => (second (parser.run window).1).agree (parser.run window).2⟩

instance (priority := low) upToFuel_bind_option (less more : Parser (Option α))
    (continuation onward : Option α → Parser β) [UpToFuel less more]
    [UpToFuel (continuation none) (onward none)]
    [∀ found, UpToFuel (continuation (some found)) (onward (some found))]
    [Steady (continuation none)] [∀ found, Steady (continuation (some found))] :
    UpToFuel (less >>= continuation) (more >>= onward) := by
  have second (result : Option α) : UpToFuel (continuation result) (onward result) := by
    cases result <;> infer_instance
  have steady (result : Option α) : Steady (continuation result) := by
    cases result <;> infer_instance
  infer_instance

instance upToFuel_ite (condition : Prop) [Decidable condition] (yes no yes' no' : Parser α)
    [first : UpToFuel yes yes'] [second : UpToFuel no no'] :
    UpToFuel (if condition then yes else no) (if condition then yes' else no') := by
  split
  · exact first
  · exact second

instance upToFuel_out (result : α) (more : Parser α) :
    UpToFuel (record .outOfFuel >>= fun _ => pure result) more :=
  ⟨fun window => .inl (List.mem_append_right window.errors List.mem_cons_self)⟩

theorem upToFuel_names {fuel more : Nat} (enough : fuel ≤ more) :
    UpToFuel (names fuel) (names more) := by
  induction fuel generalizing more with
  | zero =>
    simp only [names]
    infer_instance
  | succ fuel inductionHypothesis =>
    obtain ⟨more, rfl⟩ := Nat.exists_eq_add_of_le' (Nat.le_trans (Nat.le_add_left 1 fuel) enough)
    have := inductionHypothesis (Nat.le_of_succ_le_succ enough)
    simp only [names]
    infer_instance

/-- With more fuel every reader does what it does with less, unless that runs out. -/
structure AllUpToFuel (fuel more : Nat) : Prop where
  expression (rank : Precedence) : UpToFuel (expression fuel rank) (expression more rank)
  operators (rank : Precedence) (left : Node) :
    UpToFuel (operators fuel rank left) (operators more rank left)
  operand (token : Token) : UpToFuel (operand fuel token) (operand more token)
  application (left : Node) : UpToFuel (application fuel left) (application more left)
  conditional (token : Token) : UpToFuel (conditional fuel token) (conditional more token)
  function (token : Token) : UpToFuel (function fuel token) (function more token)
  expressionList (close : TokenKind) :
    UpToFuel (expressionList fuel close) (expressionList more close)
  expressions : UpToFuel (expressions fuel) (expressions more)
  pairs : UpToFuel (pairs fuel) (pairs more)
  block : UpToFuel (block fuel) (block more)
  statements (inBlock : Bool) : UpToFuel (statements fuel inBlock) (statements more inBlock)
  statement : UpToFuel (statement fuel) (statement more)

set_option synthInstance.maxSize 4096 in
theorem allUpToFuel {fuel more : Nat} (enough : fuel ≤ more) : AllUpToFuel fuel more := by
  induction fuel generalizing more with
  | zero =>
    constructor
    all_goals
      intros
      simp only [expression, operators, operand, application, conditional, function,
        expressionList, expressions, pairs, block, statements, statement]
      infer_instance
  | succ fuel inductionHypothesis =>
    obtain ⟨more, rfl⟩ := Nat.exists_eq_add_of_le' (Nat.le_trans (Nat.le_add_left 1 fuel) enough)
    have names := upToFuel_names (Nat.le_of_succ_le_succ enough)
    obtain ⟨_, _, _, _, _, _, _, _, _, _, _, _⟩ :=
      inductionHypothesis (Nat.le_of_succ_le_succ enough)
    constructor
    case operand =>
      intro token
      unfold operand
      cases token.kind <;> dsimp only <;> infer_instance
    case application =>
      intro left
      unfold application
      refine @upToFuel_bind_same _ _ _ _ _ fun token => ?_
      cases token.kind <;> dsimp only <;> infer_instance
    case statement =>
      unfold statement
      refine @upToFuel_bind_same _ _ _ _ _ fun token => ?_
      cases token.kind <;> dsimp only <;> infer_instance
    all_goals
      intros
      simp only [expression, operators, conditional, function, parameters, expressionList,
        expressions, pairs, block, statements]
      infer_instance

end Parser

/-! ### The parse of a text -/

theorem Watched.fresh_ofText (text : String) : Fresh ⟨[], []⟩ (Window.ofText text) where
  proper := Window.proper_ofText text
  fueled := List.not_mem_nil
  rounds := fun _ member => absurd member List.not_mem_nil
  order := .nil
  reached := fun _ member => absurd member List.not_mem_nil
  untried := fun _ member => absurd member List.not_mem_nil

/-- The parse of a text under watch stays on course and stops at the end of the input, unless it is
refused. -/
theorem ensures_readProgram (limits : Limits) (text : String) :
    Watched.Ensures Watched.readProgram limits ⟨[], []⟩ (Window.ofText text) fun _ later after =>
      Watched.Going later after ∧ after.tokens = [] := by
  have fresh := Watched.fresh_ofText text
  refine Watched.ensures_within fresh.toGoing ?_
  rw [Watched.ensures_here_bind]
  refine ((Watched.sustains _).statements false fresh
    (Nat.add_le_add_left (by decide : 4 ≤ 8) _)).bind fun statements later after read => ?_
  obtain ⟨onward, ended⟩ := read
  refine ⟨onward.toGoing, onward.proper.current_of_endOfInput (ended.resolve_right ?_)⟩
  rintro ⟨inBlock, -⟩
  cases inBlock

/-- A parse that was not refused. -/
theorem going_of_read {limits : Limits} {text : String} {program : Node}
    (read : (watchSource limits text).1.1 = .ok program) :
    Watched.Going (watchSource limits text).1.2 (watchSource limits text).2 ∧
      (watchSource limits text).2.tokens = [] := by
  have ensures := ensures_readProgram limits text
  rw [Watched.Ensures] at ensures
  rw [watchSource] at read ⊢
  generalize Watched.readProgram.outcome limits ⟨[], []⟩ (Window.ofText text) = ended
    at read ensures
  obtain ⟨⟨found, later⟩, after⟩ := ended
  cases read
  exact ensures

/-- A parse that was refused. -/
theorem refused_of_watchSource {limits : Limits} {text : String} {refusal : Refusal}
    (refused : (watchSource limits text).1.1 = .error refusal) :
    Watched.Refused limits.digits refusal (watchSource limits text).1.2
      (watchSource limits text).2 := by
  have ensures := ensures_readProgram limits text
  rw [Watched.Ensures] at ensures
  rw [watchSource] at refused ⊢
  generalize Watched.readProgram.outcome limits ⟨[], []⟩ (Window.ofText text) = ended
    at refused ensures
  obtain ⟨⟨found, later⟩, after⟩ := ended
  cases refused
  exact ensures

/-- With or without a refusal the parse was on course. -/
theorem going_watchSource (limits : Limits) (text : String) :
    Watched.Going (watchSource limits text).1.2 (watchSource limits text).2 := by
  cases ended : (watchSource limits text).1.1 with
  | ok program => exact (going_of_read ended).1
  | error refusal => exact (refused_of_watchSource ended).toGoing

/-- No parse runs out of fuel. -/
theorem outOfFuel_not_mem_errors (text : String) :
    SyntaxError.outOfFuel ∉ (readSource text).errors := by
  rw [readSource_of_watched (watchSource_none text)]
  exact (going_watchSource .none text).fueled

/-- With any fuel from what a text calls for on, its statements are read in the same way. -/
theorem run_statements_of_fuel_le {text : String} {program : Node} {final : Window}
    (read : Parser.readProgram.run (Window.ofText text) = (program, final)) {fuel : Nat}
    (enough : (Window.ofText text).fuel ≤ fuel) :
    (Parser.statements fuel false).run (Window.ofText text) = (program.children, final) := by
  have own : (Parser.statements (Window.ofText text).fuel false).run (Window.ofText text) =
      (program.children, final) := by
    obtain ⟨rfl, rfl⟩ := Prod.mk.inj read
    rfl
  have fueled : SyntaxError.outOfFuel ∉ final.errors := by
    have spent := outOfFuel_not_mem_errors text
    rwa [readSource, read] at spent
  have same := ((Parser.allUpToFuel enough).statements false).agree (Window.ofText text)
  rw [own] at same
  exact same.resolve_left fueled

/-- Take any text and any limits, and follow its parse with a journal. Every round of a loop that
does not leave the loop has passed at least one token, and behind an expression that was started on
a token every other one is started on a later token or on the end of the input.

A parse that is not refused is the parse of the text. It ends on the fuel that it is given, more
fuel would change nothing, and at its end the parser stands behind the last token, on the end of the
input. A parse is refused for two reasons only. Either it stands on a literal of the text that has
more digits than are converted, or there was no room for another call; room for two calls to each
unit of fuel, sixteen to each token, is enough. -/
theorem readSource_ends (limits : Limits) (text : String) :
    ∃ result journal final, watchSource limits text = ((result, journal), final) ∧
      (∀ round ∈ journal.rounds, round.start.Passes round.finish) ∧
      (journal.entries.Pairwise fun later earlier =>
        earlier.tokens ≠ [] → earlier.Passes later) ∧
      (∀ program, result = .ok program → readSource text = ⟨program, final.errors⟩ ∧
        Parser.readProgram.run (Window.ofText text) = (program, final) ∧
        final.tokens = [] ∧ final.current.kind = .endOfInput ∧
        SyntaxError.outOfFuel ∉ final.errors ∧
        ∀ fuel, (Window.ofText text).fuel ≤ fuel →
          (Parser.statements fuel false).run (Window.ofText text) = (program.children, final)) ∧
      (∀ count, result = .error (.tooManyDigits count) →
        final.current ∈ (Window.ofText text).tokens ∧ final.current.kind = .int ∧
          final.current.text.length = count ∧ ∃ most ∈ limits.digits, most < count) ∧
      (result = .error .depthExceeded →
        ¬ limits.room.Holds (2 * (Window.ofText text).fuel + 1)) := by
  have going := going_watchSource limits text
  refine ⟨(watchSource limits text).1.1, (watchSource limits text).1.2, (watchSource limits text).2,
    rfl, going.rounds, ?_, fun program read => ?_, fun count refused => ?_, fun refused holds => ?_⟩
  · refine going.order.imp fun behind started => ?_
    exact Window.passes_of_suffix (List.length_pos_iff.mpr started) behind
  · have ended := (going_of_read read).2
    have ran := watchSource_erased read
    refine ⟨readSource_of_watched read, ran, ended, ?_, going.fueled,
      fun fuel => run_statements_of_fuel_le ran⟩
    rw [Window.current, ended, List.headD_nil]
    exact going.proper.closing
  · obtain ⟨kind, length, limited⟩ := (refused_of_watchSource refused).literal count rfl
    refine ⟨?_, kind, length, limited⟩
    have leads : (Window.ofText text).Leads (watchSource limits text).2 :=
      Watched.erases_readProgram.leads limits ⟨[], []⟩ (Window.ofText text)
    refine leads.tokens.subset ?_
    have more : (watchSource limits text).2.current.kind ≠ .endOfInput := by simp [kind]
    rw [going.proper.tokens_eq more]
    exact List.mem_cons_self
  · obtain ⟨count, other, -⟩ := Watched.refused_readProgram holds refused
    cases other

end Scriptlet
