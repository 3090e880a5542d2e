/-
This file follows a parse that pulls its tokens one by one. A `Stream` has the two tokens of the
window and the cursor behind them, and to move on it asks the cursor for another token. No list of
tokens is there beforehand.

A stream simulates a window when they show the same two tokens and the cursor has yet to give what
stands in the window behind these. Moving on and recording an error keep that. Whatever a parse does
comes down to these two moves (`Window.exists_moves`), so a stream can follow every parse.
-/

import Scriptlet.Proofs.CleanRun
import Scriptlet.Proofs.Lossless

namespace Scriptlet

/-! ### Tokens on demand -/

namespace Cursor

theorem next_fst_eq (cursor : Cursor) :
    cursor.next.1 = cursor.scan.tokens.headD cursor.scan.closing := by
  rw [scan]
  split <;> rfl

/-- Behind a token stand the tokens that stood behind it before, and past the end nothing moves. -/
theorem scan_next (cursor : Cursor) :
    cursor.next.2.scan.tokens = cursor.scan.tokens.tail ∧
      cursor.next.2.scan.closing = cursor.scan.closing := by
  rw [scan.eq_def cursor]
  split
  · next ended =>
    have again := next_next_of_ended ended
    rw [scan.eq_def cursor.next.2, again, if_pos ended]
    exact ⟨rfl, rfl⟩
  · exact ⟨rfl, rfl⟩

end Cursor

/-- The state of a parse that pulls its tokens from a cursor. -/
structure Stream where
  /-- The cursor, which stands behind the token ahead. -/
  cursor : Cursor
  current : Token
  ahead : Token
  /-- The errors so far, the oldest first. -/
  errors : List SyntaxError

namespace Stream

/-- The stream at the start of a text, for which two tokens are pulled. -/
def ofText (text : String) : Stream :=
  let (current, behind) := (Cursor.ofText text).next
  let (ahead, cursor) := behind.next
  ⟨cursor, current, ahead, []⟩

/-- Moves on by one token, for which another one is pulled. -/
def advance (stream : Stream) : Stream :=
  let (pulled, cursor) := stream.cursor.next
  { stream with cursor, current := stream.ahead, ahead := pulled }

/-- Records an error. -/
def record (stream : Stream) (error : SyntaxError) : Stream :=
  { stream with errors := stream.errors ++ [error] }

/-- The stream shows what the window shows, and the cursor has yet to give the tokens of the window
behind that. -/
structure Simulates (stream : Stream) (window : Window) : Prop where
  current : stream.current = window.current
  ahead : stream.ahead = window.ahead
  errors : stream.errors = window.errors
  unread : stream.cursor.scan.tokens = window.tokens.tail.tail
  closing : stream.cursor.scan.closing = window.closing

theorem simulates_ofText (text : String) : (ofText text).Simulates (.ofText text) := by
  obtain ⟨unread, closing⟩ := (Cursor.ofText text).scan_next
  obtain ⟨unread', closing'⟩ := (Cursor.ofText text).next.2.scan_next
  -- Only the stream is unfolded: to compare the fields the cursor must not be run.
  dsimp only [ofText]
  refine ⟨(Cursor.ofText text).next_fst_eq, ?_, rfl, ?_, closing'.trans closing⟩
  · dsimp only
    rw [Cursor.next_fst_eq, unread, closing]
    rfl
  · dsimp only
    rw [unread', unread]
    rfl

section

variable {stream : Stream} {window : Window} (simulates : stream.Simulates window)

include simulates

theorem Simulates.advance : stream.advance.Simulates window.advance := by
  obtain ⟨unread, closing⟩ := stream.cursor.scan_next
  refine ⟨simulates.ahead, ?_, simulates.errors, ?_, closing.trans simulates.closing⟩
  · show stream.cursor.next.1 = _
    rw [Cursor.next_fst_eq, simulates.unread, simulates.closing]
    rfl
  · show stream.cursor.next.2.scan.tokens = _
    rw [unread, simulates.unread]
    rfl

theorem Simulates.record (error : SyntaxError) :
    (stream.record error).Simulates (window.record error) :=
  ⟨simulates.current, simulates.ahead, congrArg (· ++ [error]) simulates.errors, simulates.unread,
    simulates.closing⟩

end

end Stream

/-! ### Moves -/

/-- What a parse can do to its state. -/
inductive Move where
  | advance
  | record (error : SyntaxError)

/-- Makes a move. -/
def Window.move (window : Window) : Move → Window
  | .advance => window.advance
  | .record error => window.record error

/-- Makes a move, for which a token may have to be pulled. -/
def Stream.move (stream : Stream) : Move → Stream
  | .advance => stream.advance
  | .record error => stream.record error

/-- Makes one move after the other. -/
def Stream.follow (stream : Stream) (moves : List Move) : Stream :=
  moves.foldl move stream

theorem Stream.Simulates.follow {stream : Stream} {window : Window}
    (simulates : stream.Simulates window) (moves : List Move) :
    (stream.follow moves).Simulates (moves.foldl Window.move window) := by
  induction moves generalizing stream window with
  | nil => exact simulates
  | cons move later inductionHypothesis =>
    cases move with
    | advance => exact inductionHypothesis simulates.advance
    | record error => exact inductionHypothesis (simulates.record error)

namespace Window

theorem foldl_advance (window : Window) (count : Nat) :
    (List.replicate count Move.advance).foldl move window =
      { window with tokens := window.tokens.drop count } := by
  induction count generalizing window with
  | zero => rfl
  | succ count inductionHypothesis =>
    rw [List.replicate_succ, List.foldl_cons, inductionHypothesis]
    simp [move]

theorem foldl_record (window : Window) (errors : List SyntaxError) :
    (errors.map Move.record).foldl move window =
      { window with errors := window.errors ++ errors } := by
  induction errors generalizing window with
  | nil => simp
  | cons error later inductionHypothesis =>
    rw [List.map_cons, List.foldl_cons, inductionHypothesis]
    simp [move, record]

/-- A window is reached by moves. -/
theorem exists_moves {first second : Window} (leads : first.Leads second) :
    ∃ moves : List Move, second = moves.foldl move first := by
  obtain ⟨more, errors⟩ := leads.errors
  have tokens := List.suffix_iff_eq_drop.mp leads.tokens
  refine ⟨List.replicate (first.tokens.length - second.tokens.length) .advance ++
    more.map .record, ?_⟩
  rw [List.foldl_append, foldl_advance, foldl_record, ← tokens]
  dsimp only
  rw [errors, ← leads.closing]

end Window

end Scriptlet
