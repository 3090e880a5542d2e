/-
This file holds the reading place in a source text and its moves. A cursor knows
the text that is still unread, how many characters were read, and the line and
column of the next one. Every move is an `advance` over some number of characters,
so offset, line and column stay in step with the text.

A string literal runs from a double quote to the next double quote that no
backslash hides, or to the end of the text. `quotedBody` gives what stands between.
-/

import Scriptlet.Token

namespace Scriptlet

/-- The letters of names and keywords: ASCII letters and the underscore. -/
def isLetter (c : Char) : Bool :=
  ('a' ≤ c && c ≤ 'z') || ('A' ≤ c && c ≤ 'Z') || c == '_'

/-- The digits of numbers: the ten ASCII digits. -/
def isDigit (c : Char) : Bool :=
  '0' ≤ c && c ≤ '9'

/-- The white space between tokens. -/
def isLayout (c : Char) : Bool :=
  c == ' ' || c == '\t' || c == '\r' || c == '\n'

/-- What stands before the first double quote that is not hidden. A backslash hides the
character after it; a backslash that ends the text hides nothing. -/
def quotedBody : List Char → List Char
  | [] => []
  | '\"' :: _ => []
  | '\\' :: c :: rest => '\\' :: c :: quotedBody rest
  | c :: rest => c :: quotedBody rest

/-- A reading place in a source text. -/
structure Cursor where
  /-- The text that is still unread. -/
  rest : List Char
  /-- How many characters were read. -/
  offset : Nat
  /-- The place of the next character. -/
  position : Position
  deriving DecidableEq

namespace Cursor

/-- The cursor at the start of a text. -/
def ofText (text : String) : Cursor :=
  ⟨text.toList, 0, .first⟩

/-- The character `distance` places ahead, or a NUL past the end. -/
def peek (cursor : Cursor) (distance : Nat) : Char :=
  (cursor.rest.drop distance).headD '\x00'

/-- Moves over `count` characters, or to the end when fewer are left. -/
def advance (cursor : Cursor) (count : Nat) : Cursor :=
  let taken := cursor.rest.take count
  ⟨cursor.rest.drop count, cursor.offset + taken.length, cursor.position.afterAll taken⟩

/-- Reads the next `count` characters. -/
def read (cursor : Cursor) (count : Nat) : String × Cursor :=
  (String.ofList (cursor.rest.take count), cursor.advance count)

/-- A cursor never moves back. -/
inductive MoveError where
  | negativeCount (count : Int)
  deriving DecidableEq

/-- The wording of a refused move. -/
def MoveError.message : MoveError → String
  | negativeCount count => "advance() requires n >= 0, got " ++ toString count

/-- Reads the next `count` characters, and refuses a negative count. -/
def read? (cursor : Cursor) : Int → Except MoveError (String × Cursor)
  | .ofNat count => .ok (cursor.read count)
  | .negSucc less => .error (.negativeCount (.negSucc less))

/-- Reads the longest run of characters of a class. -/
def readWhile (cursor : Cursor) (inRun : Char → Bool) : String × Cursor :=
  cursor.read (cursor.rest.takeWhile inRun).length

/-- Moves over the white space between tokens. -/
def skipLayout (cursor : Cursor) : Cursor :=
  cursor.advance (cursor.rest.takeWhile isLayout).length

/-- Reads a run of letters, which may be empty. -/
def readWord (cursor : Cursor) : String × Cursor :=
  cursor.readWhile isLetter

/-- Reads a run of digits, which may be empty. -/
def readNumber (cursor : Cursor) : String × Cursor :=
  cursor.readWhile isDigit

/-- Takes the next character for an opening quote and reads the text up to the closing
quote, which is passed over when it is there. -/
def readString (cursor : Cursor) : String × Cursor :=
  let opened := cursor.advance 1
  let (body, closing) := opened.read (quotedBody opened.rest).length
  (body, closing.advance 1)

/-! ### The unread text after a move -/

@[simp] theorem rest_advance (cursor : Cursor) (count : Nat) :
    (cursor.advance count).rest = cursor.rest.drop count := rfl

@[simp] theorem position_advance (cursor : Cursor) (count : Nat) :
    (cursor.advance count).position = cursor.position.afterAll (cursor.rest.take count) := rfl

@[simp] theorem rest_read (cursor : Cursor) (count : Nat) :
    (cursor.read count).2.rest = cursor.rest.drop count := rfl

theorem rest_skipLayout (cursor : Cursor) :
    cursor.skipLayout.rest = cursor.rest.dropWhile isLayout := by
  rw [skipLayout, rest_advance]
  generalize cursor.rest = chars
  induction chars with
  | nil => rfl
  | cons c rest inductionHypothesis =>
    by_cases layout : isLayout c <;> simp [layout, inductionHypothesis]

theorem length_rest_advance_le (cursor : Cursor) (count : Nat) :
    (cursor.advance count).rest.length ≤ cursor.rest.length := by
  simp

/-- A move over at least one character of a text that is not used up shortens it. -/
theorem length_rest_advance_lt (cursor : Cursor) {count : Nat} (positive : 0 < count)
    (unread : cursor.rest ≠ []) :
    (cursor.advance count).rest.length < cursor.rest.length := by
  have := List.length_pos_iff.mpr unread
  simp only [rest_advance, List.length_drop]
  omega

end Cursor

end Scriptlet
