/-
This file follows a cursor through any use of it. Its operations may be called in any order and at
any place: readers where there is nothing for them to read, moves past the end, moves that are
refused, and a scan of all tokens in the middle. `Cursor.calls` keeps what was called, what was
answered, and the cursors before and behind each call.

All that a call has to preserve is that the cursor stands behind what it has read. Its offset, line
and column follow from that, and so do the places of the tokens.
-/

import Scriptlet.Proofs.Cutting

namespace Scriptlet

namespace Cursor

/-! ### Calls -/

/-- What a cursor can be asked for. -/
inductive Operation where
  | next
  | peek (distance : Nat)
  | advance (count : Int)
  | skipLayout
  | readWord
  | readNumber
  | readString
  | tokenize

/-- What it answers. -/
inductive Answer where
  | nothing
  | character (c : Char)
  | text (text : String)
  | tokens (tokens : List Token)
  | refused (error : MoveError)

/-- The tokens of an answer. -/
def Answer.given : Answer → List Token
  | tokens listed => listed
  | _ => []

/-- The answer to an operation and the cursor after it. A refused move leaves the cursor where it
was. -/
def perform (cursor : Cursor) : Operation → Answer × Cursor
  | .next => (.tokens [cursor.next.1], cursor.next.2)
  | .peek distance => (.character (cursor.peek distance), cursor)
  | .advance count =>
    match cursor.read? count with
    | .ok read => (.text read.1, read.2)
    | .error error => (.refused error, cursor)
  | .skipLayout => (.nothing, cursor.skipLayout)
  | .readWord => (.text cursor.readWord.1, cursor.readWord.2)
  | .readNumber => (.text cursor.readNumber.1, cursor.readNumber.2)
  | .readString => (.text cursor.readString.1, cursor.readString.2)
  | .tokenize => (.tokens (cursor.scan.tokens ++ [cursor.scan.closing]), cursor.scan.cursor)

/-- An operation that was called, with its answer and the cursors before and after it. -/
structure Call where
  before : Cursor
  operation : Operation
  answer : Answer
  after : Cursor

/-- The call of an operation. -/
def call (cursor : Cursor) (operation : Operation) : Call :=
  ⟨cursor, operation, (cursor.perform operation).1, (cursor.perform operation).2⟩

/-- The calls of some operations on one cursor, each where the one before it has left it. -/
def calls (cursor : Cursor) : List Operation → List Call
  | [] => []
  | operation :: later =>
    cursor.call operation :: (cursor.call operation).after.calls later

/-! ### Exact places -/

/-- The offset of the cursor lies in the source and its line and column are those of the offset. -/
structure Exact (source : List Char) (cursor : Cursor) : Prop where
  inside : cursor.offset ≤ source.length
  unread : cursor.rest = source.drop cursor.offset
  line : cursor.position.line = 1 + (source.take cursor.offset).count '\n'
  column : cursor.position.column =
    1 + ((source.take cursor.offset).reverse.takeWhile (· ≠ '\n')).length

/-- Some tokens, the closing one apart, lie in the source one behind the other, from behind what was
read up to an offset at most. -/
def Lie (source read : List Char) (limit : Nat) (tokens : List Token) : Prop :=
  ∃ cuts reached, Cuts source read cuts reached ∧ reached.length ≤ limit ∧
    cuts.map Cut.token = tokens.filter (·.kind ≠ .endOfInput)

/-- The cursor is exact before and after the call and has not gone back. The tokens that were given
lie between the two places, the closing token stands where reading stopped, and a negative count is
refused without a move. -/
structure Call.Exact (source : List Char) (call : Call) : Prop where
  before : call.before.Exact source
  after : call.after.Exact source
  forward : call.before.offset ≤ call.after.offset
  tokens : Lie source (source.take call.before.offset) call.after.offset call.answer.given
  closing : ∀ token ∈ call.answer.given, token.kind = .endOfInput →
    token.position = call.after.position
  refusal : ∀ count < 0, call.operation = .advance count →
    call.answer = .refused (.negativeCount count) ∧ call.after = call.before

variable {read rest : List Char}

theorem exact_behind (read rest : List Char) : (behind read rest).Exact (read ++ rest) := by
  have front : (read ++ rest).take (behind read rest).offset = read := List.take_left
  refine ⟨?_, List.drop_left.symm, ?_, ?_⟩
  · rw [List.length_append]
    exact Nat.le_add_right _ _
  · rw [front]
    rfl
  · rw [front]
    rfl

/-! ### What one call does -/

/-- The cursor has come from behind some characters to behind more of them. -/
def MovedOn (read rest : List Char) (cursor : Cursor) : Prop :=
  ∃ passed left, rest = passed ++ left ∧ cursor = behind (read ++ passed) left

theorem movedOn_self : MovedOn read rest (behind read rest) :=
  ⟨[], rest, rfl, by rw [List.append_nil]⟩

theorem movedOn_advance (count : Nat) : MovedOn read rest ((behind read rest).advance count) :=
  ⟨rest.take count, rest.drop count, (List.take_append_drop count rest).symm,
    advance_behind read rest count⟩

theorem movedOn_scan : MovedOn read rest (behind read rest).scan.cursor := by
  obtain ⟨cuts, reached, gap, unread, divided, -⟩ := divided_scan read rest
  obtain ⟨passed, reaches⟩ := divided.chain.read_isPrefix
  have split := divided.split
  rw [← reaches, List.append_assoc, List.append_assoc, List.append_cancel_left_eq] at split
  refine ⟨passed ++ gap, unread, by rw [split, List.append_assoc], ?_⟩
  rw [divided.cursor, ← reaches, List.append_assoc]

theorem movedOn_perform (read rest : List Char) (operation : Operation) :
    MovedOn read rest ((behind read rest).perform operation).2 := by
  cases operation with
  | next =>
    obtain ⟨count, moved⟩ := (behind read rest).exists_next_eq_advance
    show MovedOn read rest (behind read rest).next.2
    rw [moved]
    exact movedOn_advance count
  | peek distance => exact movedOn_self
  | advance count =>
    cases count with
    | ofNat count => exact movedOn_advance count
    | negSucc less => exact movedOn_self
  | skipLayout => exact movedOn_advance _
  | readWord => exact movedOn_advance _
  | readNumber => exact movedOn_advance _
  | readString =>
    show MovedOn read rest (behind read rest).readString.2
    rw [cursor_readString]
    exact movedOn_advance _
  | tokenize => exact movedOn_scan

theorem lie_nil {source : List Char} {limit : Nat} (inside : read.length ≤ limit) :
    Lie source read limit [] :=
  ⟨[], read, .none, inside, rfl⟩

/-- The token of one reading lies before the place that is reached. -/
theorem lie_next : Lie (read ++ rest) read (behind read rest).next.2.offset
    [(behind read rest).next.1] := by
  by_cases ended : (behind read rest).next.1.kind = .endOfInput
  · obtain ⟨passed, left, -, moved⟩ := movedOn_perform read rest .next
    refine ⟨[], read, .none, ?_, ?_⟩
    · rw [show (behind read rest).next.2 = _ from moved]
      exact (List.prefix_append read passed).length_le
    · rw [List.filter_cons_of_neg (by simp [ended])]
      rfl
  · obtain ⟨cut, rfl, of, -, reads⟩ := exists_cut ended
    rw [reads] at ended ⊢
    refine ⟨[cut], cut.stop, .next of .none, Nat.le_refl _, ?_⟩
    rw [List.filter_cons_of_pos (by simpa using ended)]
    rfl

/-- So do the tokens of a scan. -/
theorem lie_scan : Lie (read ++ rest) read (behind read rest).scan.cursor.offset
    ((behind read rest).scan.tokens ++ [(behind read rest).scan.closing]) := by
  obtain ⟨cuts, reached, gap, unread, divided, -⟩ := divided_scan read rest
  refine ⟨cuts, reached, divided.chain, ?_, ?_⟩
  · rw [divided.cursor]
    exact (List.prefix_append reached gap).length_le
  · have before : (behind read rest).scan.tokens.filter (·.kind ≠ .endOfInput) =
        (behind read rest).scan.tokens := by
      rw [List.filter_eq_self]
      exact fun token member => decide_eq_true ((behind read rest).kind_of_mem_scan token member)
    rw [List.filter_append, before, divided.tokens,
      List.filter_cons_of_neg (by simp [kind_closing_scan]), List.filter_nil, List.append_nil]

theorem offset_le_perform (read rest : List Char) (operation : Operation) :
    read.length ≤ ((behind read rest).perform operation).2.offset := by
  obtain ⟨passed, left, -, moved⟩ := movedOn_perform read rest operation
  rw [moved]
  exact (List.prefix_append read passed).length_le

/-- Only reading a token and a scan give tokens. -/
theorem lie_perform (read rest : List Char) (operation : Operation) :
    Lie (read ++ rest) read ((behind read rest).perform operation).2.offset
      ((behind read rest).perform operation).1.given := by
  have inside := offset_le_perform read rest operation
  cases operation with
  | next => exact lie_next
  | tokenize => exact lie_scan
  | advance count => cases count <;> exact lie_nil inside
  | _ => exact lie_nil inside

/-- The closing token has the place on which the cursor comes to stand. -/
theorem position_of_given (read rest : List Char) (operation : Operation) :
    ∀ token ∈ ((behind read rest).perform operation).1.given, token.kind = .endOfInput →
      token.position = ((behind read rest).perform operation).2.position := by
  intro token given ended
  cases operation with
  | next =>
    obtain rfl := List.mem_singleton.mp given
    show _ = (behind read rest).next.2.position
    rw [position_next, (next_of_ended ended).1]
  | tokenize =>
    obtain ⟨cuts, reached, gap, unread, divided, -⟩ := divided_scan read rest
    rcases List.mem_append.mp given with before | last
    · exact absurd ended ((behind read rest).kind_of_mem_scan token before)
    · obtain rfl := List.mem_singleton.mp last
      show _ = (behind read rest).scan.cursor.position
      rw [divided.closing, divided.cursor]
      rfl
  | advance count => cases count <;> cases given
  | _ => cases given

theorem exact_call (read rest : List Char) (operation : Operation) :
    ((behind read rest).call operation).Exact (read ++ rest) := by
  refine ⟨exact_behind read rest, ?_, offset_le_perform read rest operation, ?_,
    position_of_given read rest operation, ?_⟩
  · obtain ⟨passed, left, split, moved⟩ := movedOn_perform read rest operation
    show ((behind read rest).perform operation).2.Exact (read ++ rest)
    rw [moved, split, ← List.append_assoc]
    exact exact_behind _ _
  · show Lie (read ++ rest) ((read ++ rest).take read.length) _ _
    rw [List.take_left]
    exact lie_perform read rest operation
  · intro count negative isAdvance
    obtain rfl : operation = .advance count := isAdvance
    obtain ⟨less, rfl⟩ := Int.eq_negSucc_of_lt_zero negative
    exact ⟨rfl, rfl⟩

/-- Every call is exact, wherever the calls before it have left the cursor. -/
theorem exact_calls (operations : List Operation) (read rest : List Char) :
    ∀ call ∈ (behind read rest).calls operations, call.Exact (read ++ rest) := by
  induction operations generalizing read rest with
  | nil => exact List.forall_mem_nil _
  | cons operation later inductionHypothesis =>
    obtain ⟨passed, left, split, moved⟩ := movedOn_perform read rest operation
    refine List.forall_mem_cons.mpr ⟨exact_call read rest operation, ?_⟩
    show ∀ call ∈ ((behind read rest).perform operation).2.calls later, _
    rw [moved, split, ← List.append_assoc]
    exact inductionHypothesis _ _

/-- Call the operations of a cursor in any order and at any place of a source. -/
theorem calls_exact (source : String) (operations : List Operation) :
    (ofText source).Exact source.toList ∧
      ∀ call ∈ (ofText source).calls operations, call.Exact source.toList :=
  ⟨exact_behind [] source.toList, exact_calls operations [] source.toList⟩

end Cursor

end Scriptlet
