/-
This file joins texts by a line feed. No token but a string reaches across a line feed, so the
tokens of the joined text are those of its parts, up to their places, provided that the first
part does not end in a string that was not closed and has no NUL at which reading would end.
-/

import Mathlib.Data.List.Find
import Mathlib.Data.List.TakeWhile
import Scriptlet.Proofs.Places

namespace Scriptlet

section

variable {chars more : List Char}

theorem isPrefixOf_append_newline {mark : List Char} (plain : '\n' ∉ mark) :
    mark.isPrefixOf (chars ++ '\n' :: more) = mark.isPrefixOf chars := by
  induction mark generalizing chars with
  | nil => simp
  | cons c others inductionHypothesis =>
    rw [List.mem_cons, not_or] at plain
    cases chars with
    | nil => simp [List.isPrefixOf, Ne.symm plain.1]
    | cons d rest =>
      rw [List.cons_append, List.isPrefixOf_cons_cons, List.isPrefixOf_cons_cons,
        inductionHypothesis plain.2]

theorem markAt?_append_newline : markAt? (chars ++ '\n' :: more) = markAt? chars := by
  have plain : ∀ mark ∈ marks, '\n' ∉ mark.1 := by decide
  exact List.find?_congr fun mark listed => isPrefixOf_append_newline (plain mark listed)

theorem takeWhile_append_newline {inRun : Char → Bool} (apart : inRun '\n' = false) :
    (chars ++ '\n' :: more).takeWhile inRun = chars.takeWhile inRun := by
  induction chars with
  | nil => simp [apart]
  | cons c rest inductionHypothesis =>
    rw [List.cons_append, List.takeWhile_cons, List.takeWhile_cons, inductionHypothesis]

/-- A string that is closed does not look at what stands behind it. -/
theorem quotedBody_append (closed : (quotedBody chars).length < chars.length) :
    quotedBody (chars ++ more) = quotedBody chars := by
  fun_induction quotedBody chars with
  | case1 => simp at closed
  | case2 rest => rfl
  | case3 c rest inductionHypothesis =>
    simp only [List.length_cons, Nat.add_lt_add_iff_right] at closed
    rw [List.cons_append, List.cons_append, quotedBody, inductionHypothesis closed]
  | case4 c rest notQuote notHiding inductionHypothesis =>
    simp only [List.length_cons, Nat.add_lt_add_iff_right] at closed
    have plain : c ≠ '\\' := by
      rintro rfl
      cases rest with
      | nil => simp at closed
      | cons d others => exact notHiding d others rfl rfl
    rw [List.cons_append, quotedBody_cons notQuote plain, inductionHypothesis closed]

end

theorem Token.Spelled.kind_ne_endOfInput {token : Token} (spelled : token.Spelled) :
    token.kind ≠ .endOfInput := by
  cases spelled with
  | mark listed =>
    have all : ∀ mark ∈ marks, mark.2 ≠ .endOfInput := by decide
    exact all _ listed
  | word kind =>
    rw [kind]
    exact TokenKind.ofWord_ne (by decide) (by decide)
  | string kind | number kind | stray kind =>
    rw [kind]
    decide

namespace Cursor

variable {cursor longer : Cursor} {more : List Char}

/-- Reading characters that are there does not look at what stands behind them. -/
theorem read_append (split : longer.rest = cursor.rest ++ more) {count : Nat}
    (enough : count ≤ cursor.rest.length) :
    (longer.read count).1 = (cursor.read count).1 ∧
      (longer.read count).2.rest = (cursor.read count).2.rest ++ more := by
  rw [read, read, rest_advance, rest_advance, split, List.take_append_of_le_length enough,
    List.drop_append_of_le_length enough]
  exact ⟨rfl, rfl⟩

theorem readToken_append (split : longer.rest = cursor.rest ++ '\n' :: more) {c : Char}
    {following : List Char} (front : cursor.rest = c :: following)
    (closed : (cursor.readToken c).1.kind = .string → (cursor.readToken c).2.rest ≠ []) :
    (longer.readToken c).1.bare = (cursor.readToken c).1.bare ∧
      (longer.readToken c).2.rest = (cursor.readToken c).2.rest ++ '\n' :: more := by
  have runs {inRun : Char → Bool} (apart : inRun '\n' = false) :
      (longer.readWhile inRun).1 = (cursor.readWhile inRun).1 ∧
        (longer.readWhile inRun).2.rest = (cursor.readWhile inRun).2.rest ++ '\n' :: more := by
    rw [readWhile, readWhile, split, takeWhile_append_newline apart]
    exact read_append split (List.takeWhile_prefix inRun).length_le
  unfold readToken at closed ⊢
  dsimp only at closed ⊢
  rw [split, markAt?_append_newline]
  split
  · next mark kind found =>
    obtain ⟨text, rest⟩ := read_append split (markAt?_eq_some found).2.length_le
    exact ⟨congrArg (Prod.mk kind) text, rest⟩
  · next unmarked =>
    simp only [unmarked] at closed
    split
    · next quote =>
      rw [if_pos quote, cursor_readString, rest_advance, front] at closed
      have ends : (quotedBody following).length < following.length := by
        have some := closed rfl
        rw [Ne, List.drop_eq_nil_iff] at some
        simp only [List.drop_one, List.tail_cons, List.length_cons] at some
        omega
      have body : quotedBody (longer.rest.drop 1) = quotedBody (cursor.rest.drop 1) := by
        rw [split, front, List.cons_append, List.drop_one, List.tail_cons, List.drop_one,
          List.tail_cons, quotedBody_append ends]
      have enough : 1 + (quotedBody (cursor.rest.drop 1)).length + 1 ≤ cursor.rest.length := by
        rw [front, List.drop_one, List.tail_cons, List.length_cons]
        omega
      rw [Token.bare, Token.bare, text_readString, text_readString, cursor_readString,
        cursor_readString, body, rest_advance, rest_advance, split,
        List.drop_append_of_le_length enough]
      exact ⟨rfl, rfl⟩
    · split
      · obtain ⟨text, rest⟩ := runs (show isLetter '\n' = false by decide)
        exact ⟨by rw [readWord, readWord, Token.bare, Token.bare, text], rest⟩
      · split
        · obtain ⟨text, rest⟩ := runs (show isDigit '\n' = false by decide)
          exact ⟨congrArg (Prod.mk _) text, rest⟩
        · have enough : 1 ≤ cursor.rest.length := by simp [front]
          obtain ⟨text, rest⟩ := read_append split enough
          exact ⟨congrArg (Prod.mk _) text, rest⟩

/-- A token that does not reach the end of the text is read the same when a line feed and more
text stand behind. -/
theorem next_append (split : longer.rest = cursor.rest ++ '\n' :: more)
    (goesOn : cursor.next.1.kind ≠ .endOfInput)
    (closed : cursor.next.1.kind = .string → cursor.next.2.rest ≠ []) :
    longer.next.1.bare = cursor.next.1.bare ∧
      longer.next.2.rest = cursor.next.2.rest ++ '\n' :: more := by
  have skipped : longer.skipLayout.rest =
      if cursor.skipLayout.rest.isEmpty then ('\n' :: more).dropWhile isLayout
      else cursor.skipLayout.rest ++ '\n' :: more := by
    rw [rest_skipLayout, rest_skipLayout, split, List.dropWhile_append]
  unfold next at goesOn closed ⊢
  dsimp only at goesOn closed ⊢
  split at goesOn
  · exact absurd rfl goesOn
  · next c following front =>
    rw [front, List.isEmpty_cons, if_neg Bool.false_ne_true] at skipped
    rw [skipped]
    split at goesOn
    · exact absurd rfl goesOn
    · next notNul =>
      simp only [front, if_neg notNul] at closed
      simp only [List.cons_append, if_neg notNul]
      refine readToken_append ?_ front closed
      rw [skipped, front]

theorem layout_of_ended (noNul : '\x00' ∉ cursor.rest)
    (ended : cursor.next.1.kind = .endOfInput) : ∀ c ∈ cursor.rest, isLayout c = true := by
  rw [← List.dropWhile_eq_nil_iff, ← rest_skipLayout]
  unfold next at ended
  dsimp only at ended
  split at ended
  · assumption
  · next c following front =>
    have member : c ∈ cursor.rest := by
      refine (List.dropWhile_suffix isLayout).subset ?_
      rw [← rest_skipLayout, front]
      exact List.mem_cons_self
    have notNul : c ≠ '\x00' := fun nul => noNul (nul ▸ member)
    rw [if_neg notNul] at ended
    exact absurd ended (spelled_readToken front).kind_ne_endOfInput

theorem bare_next_of_ended (ended : cursor.next.1.kind = .endOfInput) :
    cursor.next.1.bare = (.endOfInput, "") := by
  unfold next at ended ⊢
  dsimp only at ended ⊢
  split at ended
  · rfl
  · next c following front =>
    split at ended
    · next isNul => rw [if_pos isNul, Token.bare]
    · exact absurd ended (spelled_readToken front).kind_ne_endOfInput

theorem bare_closing_scan (cursor : Cursor) : cursor.scan.closing.bare = (.endOfInput, "") := by
  fun_induction scan cursor with
  | case1 cursor ended => exact bare_next_of_ended ended
  | case2 cursor goesOn later inductionHypothesis => exact inductionHypothesis

/-! ### The same text at another place -/

theorem readToken_of_rest_eq {other : Cursor} (same : other.rest = cursor.rest) (c : Char) :
    (other.readToken c).1.bare = (cursor.readToken c).1.bare ∧
      (other.readToken c).2.rest = (cursor.readToken c).2.rest := by
  unfold readToken
  dsimp only
  rw [same]
  split
  · simp only [Token.bare, read, rest_advance, same, and_self]
  · split
    · simp only [Token.bare, text_readString, cursor_readString, rest_advance, same, and_self]
    · split
      · simp only [Token.bare, readWord, readWhile, read, rest_advance, same, and_self]
      · split
        · simp only [Token.bare, readNumber, readWhile, read, rest_advance, same, and_self]
        · simp only [Token.bare, read, rest_advance, same, and_self]

theorem next_of_rest_eq {other : Cursor} (same : other.rest = cursor.rest) :
    other.next.1.bare = cursor.next.1.bare ∧ other.next.2.rest = cursor.next.2.rest := by
  have skipped : other.skipLayout.rest = cursor.skipLayout.rest := by
    rw [rest_skipLayout, rest_skipLayout, same]
  unfold next
  dsimp only
  rw [skipped]
  split
  · exact ⟨rfl, skipped⟩
  · split
    · exact ⟨rfl, skipped⟩
    · exact readToken_of_rest_eq skipped _

end Cursor

theorem scansTo_scan (cursor : Cursor) : ScansTo cursor.rest cursor.scan.tokens := by
  fun_induction Cursor.scan cursor with
  | case1 cursor ended =>
    intro other same
    have kind : other.next.1.kind = .endOfInput := by
      rw [(Prod.mk.inj (Cursor.next_of_rest_eq same).1).1, ended]
    rw [Cursor.scan, if_pos kind]
  | case2 cursor goesOn later inductionHypothesis =>
    intro other same
    obtain ⟨bare, rest⟩ := Cursor.next_of_rest_eq same
    have kind : other.next.1.kind ≠ .endOfInput := by
      rw [(Prod.mk.inj bare).1]
      exact goesOn
    rw [Cursor.scan, if_neg kind]
    exact congrArg₂ List.cons bare (inductionHypothesis _ rest)

/-! ### Texts that are joined -/

/-- The tokens of a text come before those of the text behind a line feed. -/
theorem scansTo_joined (cursor : Cursor) (noNul : '\x00' ∉ cursor.rest)
    (closed : ∀ token ∈ cursor.scan.tokens.getLast?, token.kind ≠ .string) {more : List Char}
    {tokens : List Token} (later : ScansTo more tokens) :
    ScansTo (cursor.rest ++ '\n' :: more) (cursor.scan.tokens ++ tokens) := by
  fun_induction Cursor.scan cursor with
  | case1 cursor ended =>
    have layout := Cursor.layout_of_ended noNul ended
    exact scansTo_allLayout layout (scansTo_layout (by decide) later)
  | case2 cursor goesOn rest inductionHypothesis =>
    intro longer split
    have unended : cursor.next.1.kind = .string → cursor.next.2.rest ≠ [] := by
      intro string nothing
      have last : rest.tokens = [] := Cursor.scan_of_rest_nil nothing
      rw [last] at closed
      exact closed cursor.next.1 rfl string
    obtain ⟨bare, remaining⟩ := Cursor.next_append split goesOn unended
    have closedRest : ∀ token ∈ rest.tokens.getLast?, token.kind ≠ .string := by
      intro token last
      refine closed token ?_
      rw [List.getLast?_cons, Option.mem_def.mp last]
      rfl
    have noNulRest : '\x00' ∉ cursor.next.2.rest := by
      obtain ⟨count, moved⟩ := cursor.exists_next_eq_advance
      rw [moved, Cursor.rest_advance]
      exact fun member => noNul (List.mem_of_mem_drop member)
    have kind : longer.next.1.kind ≠ .endOfInput := by
      rw [(Prod.mk.inj bare).1]
      exact goesOn
    rw [Cursor.scan, if_neg kind]
    exact congrArg₂ List.cons bare (inductionHypothesis noNulRest closedRest _ remaining)

end Scriptlet
