/-
This file cuts a source text into tokens. `Cursor.next` skips white space and reads
one token by longest match; `Cursor.scan` repeats it up to the end of the input.

A NUL outside a string ends the input where it stands. It is not read, so a cursor
that has met the end keeps answering the same closing token.
-/

import Scriptlet.Token.Cursor

namespace Scriptlet

/-- The operators and punctuation marks. A mark that begins another one stands behind it. -/
def marks : List (List Char × TokenKind) :=
  [(['=', '='], .equal), (['!', '='], .notEqual), (['&', '&'], .and), (['|', '|'], .or),
    (['='], .assign), (['!'], .bang), (['+'], .plus), (['-'], .minus), (['*'], .asterisk),
    (['/'], .slash), (['<'], .less), (['>'], .greater), ([','], .comma), ([';'], .semicolon),
    ([':'], .colon), (['('], .leftParen), ([')'], .rightParen), (['\x7b'], .leftBrace),
    (['\x7d'], .rightBrace), (['['], .leftBracket), ([']'], .rightBracket)]

/-- The mark at the front of a text with its kind. Of two marks that fit, one of which
begins the other, the longer one is taken. -/
def markAt? (chars : List Char) : Option (List Char × TokenKind) :=
  marks.find? fun mark => mark.1.isPrefixOf chars

/-- A mark at the front of a text is one of the table and begins the text. -/
theorem markAt?_eq_some {chars : List Char} {mark : List Char × TokenKind}
    (found : markAt? chars = some mark) : mark ∈ marks ∧ mark.1 <+: chars := by
  unfold markAt? at found
  constructor
  · exact List.mem_of_find?_eq_some found
  · have fits := List.find?_some found
    exact List.isPrefixOf_iff_prefix.mp fits

namespace Cursor

/-- Reads the token whose first character `c` stands at the cursor: a mark, a string, a word,
a number, or one character that starts no token. -/
def readToken (cursor : Cursor) (c : Char) : Token × Cursor :=
  let token (kind : TokenKind) (read : String × Cursor) : Token × Cursor :=
    (⟨kind, read.1, cursor.position⟩, read.2)
  match markAt? cursor.rest with
  | some (mark, kind) => token kind (cursor.read mark.length)
  | none =>
    if c = '\"' then
      token .string cursor.readString
    else if isLetter c then
      let word := cursor.readWord
      token (.ofWord word.1) word
    else if isDigit c then
      token .int cursor.readNumber
    else
      token .illegal (cursor.read 1)

/-- Skips white space and reads one token; at a NUL or the end of the text it gives the
closing token and stays. -/
def next (cursor : Cursor) : Token × Cursor :=
  let start := cursor.skipLayout
  match start.rest with
  | [] => (⟨.endOfInput, "", start.position⟩, start)
  | c :: _ =>
    if c = '\x00' then
      (⟨.endOfInput, "", start.position⟩, start)
    else
      start.readToken c

/-! ### Every token but the closing one uses up text -/

theorem markAt?_length_pos {chars : List Char} {mark : List Char × TokenKind}
    (found : markAt? chars = some mark) : 0 < mark.1.length := by
  have all : ∀ mark ∈ marks, 0 < mark.1.length := by decide
  exact all mark (markAt?_eq_some found).1

theorem length_rest_readWhile_lt (cursor : Cursor) (inRun : Char → Bool) (c : Char)
    (following : List Char) (front : cursor.rest = c :: following) (member : inRun c = true) :
    (cursor.readWhile inRun).2.rest.length < cursor.rest.length := by
  apply length_rest_advance_lt
  · simp [front, member]
  · simp [front]

theorem length_rest_readString_lt (cursor : Cursor) (unread : cursor.rest ≠ []) :
    cursor.readString.2.rest.length < cursor.rest.length := by
  have opening := length_rest_advance_lt cursor Nat.one_pos unread
  simp only [readString, read, rest_advance, List.length_drop] at opening ⊢
  omega

theorem length_rest_readToken_lt (cursor : Cursor) (c : Char) (following : List Char)
    (front : cursor.rest = c :: following) :
    (cursor.readToken c).2.rest.length < cursor.rest.length := by
  have unread : cursor.rest ≠ [] := by simp [front]
  unfold readToken
  dsimp only
  split
  · next mark kind found =>
    exact length_rest_advance_lt cursor (markAt?_length_pos found) unread
  · split
    · exact length_rest_readString_lt cursor unread
    · split
      · next letter => exact length_rest_readWhile_lt cursor isLetter c following front letter
      · split
        · next digit => exact length_rest_readWhile_lt cursor isDigit c following front digit
        · exact length_rest_advance_lt cursor (by omega) unread

/-- After a token other than the closing one less text is unread. -/
theorem length_rest_next_lt (cursor : Cursor) (more : cursor.next.1.kind ≠ .endOfInput) :
    cursor.next.2.rest.length < cursor.rest.length := by
  have skipped : cursor.skipLayout.rest.length ≤ cursor.rest.length :=
    length_rest_advance_le cursor _
  unfold next at more ⊢
  dsimp only at more ⊢
  split at more
  · simp at more
  · next c following front =>
    split at more
    · simp at more
    · next notNul =>
      rw [if_neg notNul]
      exact Nat.lt_of_lt_of_le (length_rest_readToken_lt _ c following front) skipped

/-! ### All tokens of a text -/

/-- The tokens from a cursor on: those before the closing token, the closing token, and
the cursor that stands on it. -/
structure Scan where
  tokens : List Token
  closing : Token
  cursor : Cursor

/-- Reads tokens up to the end of the input. -/
def scan (cursor : Cursor) : Scan :=
  if cursor.next.1.kind = .endOfInput then
    ⟨[], cursor.next.1, cursor.next.2⟩
  else
    let later := scan cursor.next.2
    ⟨cursor.next.1 :: later.tokens, later.closing, later.cursor⟩
termination_by cursor.rest.length
decreasing_by exact length_rest_next_lt cursor ‹_›

theorem kind_closing_scan (cursor : Cursor) : cursor.scan.closing.kind = .endOfInput := by
  fun_induction scan cursor with
  | case1 cursor ended => exact ended
  | case2 cursor more later inductionHypothesis => exact inductionHypothesis

theorem kind_of_mem_scan (cursor : Cursor) :
    ∀ token ∈ cursor.scan.tokens, token.kind ≠ .endOfInput := by
  fun_induction scan cursor with
  | case1 cursor ended => exact nofun
  | case2 cursor more later inductionHypothesis =>
    intro token member
    rcases List.mem_cons.mp member with rfl | member
    · exact more
    · exact inductionHypothesis token member

end Cursor

/-- The tokens of a text, the closing one last. -/
def tokenize (text : String) : List Token :=
  let scan := (Cursor.ofText text).scan
  scan.tokens ++ [scan.closing]

/-- The token listing of a text, one line for each token before the closing one. -/
def tokenListing (text : String) : List String :=
  (Cursor.ofText text).scan.tokens.map Token.listing

end Scriptlet
