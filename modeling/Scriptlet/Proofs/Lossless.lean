/-
This file takes a source apart along its tokens. A `Piece` is a token with the white space in
front of it, `written` puts pieces one behind the other. Every source is its pieces, some white
space and what is left unread; nothing is lost and nothing is read twice. Reading stops at the
end of the text or at a NUL, and the closing token is then given again and again.

One source is not quite its pieces: a string that runs to the end of the text has no closing
quote. Then the source is its pieces without their last character.
-/

import Mathlib.Logic.Function.Iterate
import Scriptlet.Proofs.Seam

namespace Scriptlet

/-- The characters that a token is written with: its text, in quotes when it is a string. -/
def lexeme (kind : TokenKind) (text : String) : List Char :=
  if kind = .string then '\"' :: (text.toList ++ ['\"']) else text.toList

/-- A token without its place, and the white space in front of it. -/
structure Piece where
  gap : List Char
  layout : ∀ c ∈ gap, isLayout c = true
  kind : TokenKind
  text : String

/-- The kind and the text of a piece. -/
def Piece.bare (piece : Piece) : TokenKind × String :=
  (piece.kind, piece.text)

/-- The characters of a list of pieces. -/
def written (pieces : List Piece) : List Char :=
  pieces.flatMap fun piece => piece.gap ++ lexeme piece.kind piece.text

theorem written_cons (piece : Piece) (pieces : List Piece) :
    written (piece :: pieces) =
      piece.gap ++ (lexeme piece.kind piece.text ++ written pieces) := by
  rw [written, List.flatMap_cons, List.append_assoc]
  rfl

/-- Behind the body of a string stands its closing quote, or nothing. -/
theorem quotedBody_split (chars : List Char) :
    quotedBody chars = chars ∨ ∃ following, chars = quotedBody chars ++ '\"' :: following := by
  fun_induction quotedBody chars with
  | case1 => exact .inl rfl
  | case2 rest => exact .inr ⟨rest, rfl⟩
  | case3 c rest inductionHypothesis =>
    rcases inductionHypothesis with whole | ⟨following, split⟩
    · exact .inl (by rw [whole])
    · exact .inr ⟨following, congrArg (fun rest => '\\' :: c :: rest) split⟩
  | case4 c rest notQuote notHiding inductionHypothesis =>
    rcases inductionHypothesis with whole | ⟨following, split⟩
    · exact .inl (by rw [whole])
    · exact .inr ⟨following, congrArg (List.cons c) split⟩

namespace Cursor

/-! ### One token -/

/-- The token and the text behind it make up the text, up to the closing quote of a string at
the very end. -/
def Splits (chars : List Char) (read : Token × Cursor) : Prop :=
  chars = lexeme read.1.kind read.1.text ++ read.2.rest ∨
    (read.1.kind = .string ∧ read.2.rest = [] ∧
      chars ++ ['\"'] = lexeme read.1.kind read.1.text)

variable {cursor : Cursor} {c : Char} {following : List Char}

theorem splits_of_read {count : Nat} {read : Token × Cursor} (notString : read.1.kind ≠ .string)
    (text : read.1.text = (cursor.read count).1) (rest : read.2 = (cursor.read count).2) :
    Splits cursor.rest read := by
  left
  rw [lexeme, if_neg notString, text, rest, rest_read, Cursor.read, String.toList_ofList,
    List.take_append_drop]

theorem splits_of_string (front : cursor.rest = '\"' :: following) (position : Position) :
    Splits cursor.rest (⟨.string, String.ofList (quotedBody following), position⟩,
      cursor.advance (1 + (quotedBody following).length + 1)) := by
  have tail : (cursor.advance (1 + (quotedBody following).length + 1)).rest =
      following.drop ((quotedBody following).length + 1) := by
    rw [rest_advance, front, Nat.add_assoc, Nat.add_comm 1, List.drop_succ_cons]
  simp only [Splits, lexeme, if_true, String.toList_ofList, tail]
  rcases quotedBody_split following with whole | ⟨more, split⟩
  · refine .inr ⟨trivial, ?_, ?_⟩
    · rw [whole, List.drop_eq_nil_of_le (Nat.le_succ _)]
    · rw [front, whole, List.cons_append]
  · left
    have behind : following.drop ((quotedBody following).length + 1) = more := calc
      following.drop ((quotedBody following).length + 1)
        = (quotedBody following ++ '\"' :: more).drop ((quotedBody following).length + 1) := by
          rw [← split]
      _ = more := by rw [← List.drop_drop, List.drop_left, List.drop_one, List.tail_cons]
    rw [behind, front, List.cons_append, List.append_assoc]
    exact congrArg (List.cons _) split

theorem splits_readToken (front : cursor.rest = c :: following) :
    Splits cursor.rest (cursor.readToken c) := by
  by_cases kind : (cursor.readToken c).1.kind = .string
  · obtain ⟨rfl, read⟩ := readToken_of_string front kind
    rw [read]
    exact splits_of_string front _
  · revert kind
    unfold readToken
    dsimp only
    split
    · exact fun kind => splits_of_read kind rfl rfl
    · split
      · exact fun impossible => absurd rfl impossible
      · split
        · exact fun kind => splits_of_read kind rfl rfl
        · split <;> exact fun kind => splits_of_read kind rfl rfl

theorem rest_eq_takeWhile_append (cursor : Cursor) :
    cursor.rest = cursor.rest.takeWhile isLayout ++ cursor.skipLayout.rest := by
  rw [rest_skipLayout, List.takeWhile_append_dropWhile]

/-- A token stands behind white space and is not empty. -/
theorem splits_next (more : cursor.next.1.kind ≠ .endOfInput) :
    Splits cursor.skipLayout.rest cursor.next ∧
      lexeme cursor.next.1.kind cursor.next.1.text ≠ [] := by
  unfold next at more ⊢
  dsimp only at more ⊢
  split at more
  · exact absurd rfl more
  · next c following front =>
    split at more
    · exact absurd rfl more
    · next notNul =>
      rw [if_neg notNul]
      have splits := splits_readToken front
      refine ⟨splits, ?_⟩
      rcases splits with split | ⟨-, -, split⟩
      · intro nothing
        have shorter := length_rest_readToken_lt _ c following front
        rw [nothing, List.nil_append] at split
        rw [← split] at shorter
        exact absurd shorter (Nat.lt_irrefl _)
      · rw [← split]
        exact List.append_ne_nil_of_right_ne_nil _ (List.cons_ne_nil _ _)

/-! ### The closing token -/

theorem skipLayout_skipLayout (cursor : Cursor) :
    cursor.skipLayout.skipLayout = cursor.skipLayout := by
  have nothing : cursor.skipLayout.rest.takeWhile isLayout = [] := by
    rw [rest_skipLayout, List.takeWhile_eq_nil_iff]
    exact List.dropWhile_get_zero_not isLayout cursor.rest
  have moves : cursor.skipLayout.skipLayout =
      cursor.skipLayout.advance (cursor.skipLayout.rest.takeWhile isLayout).length := rfl
  rw [moves, nothing]
  rfl

/-- The closing token is given at the end of the text or at a NUL, which is not read. -/
theorem next_of_ended (ended : cursor.next.1.kind = .endOfInput) :
    cursor.next = (⟨.endOfInput, "", cursor.skipLayout.position⟩, cursor.skipLayout) ∧
      ∀ c ∈ cursor.skipLayout.rest.head?, c = '\x00' := by
  unfold next at ended ⊢
  dsimp only at ended ⊢
  split at ended
  · next nothing => exact ⟨rfl, by rw [nothing]; exact nofun⟩
  · next c following front =>
    split at ended
    · next isNul => exact ⟨if_pos isNul, by rw [front]; rintro d ⟨rfl⟩; exact isNul⟩
    · exact absurd ended (spelled_readToken front).kind_ne_endOfInput

/-- Where the closing token was given it is given again. -/
theorem next_next_of_ended (ended : cursor.next.1.kind = .endOfInput) :
    cursor.next.2.next = cursor.next := by
  rw [(next_of_ended ended).1]
  have again : cursor.skipLayout.next = cursor.next := by
    rw [next, next, skipLayout_skipLayout]
  rw [again, (next_of_ended ended).1]

/-! ### All tokens -/

/-- The pieces, the white space behind them and the unread text make up a text, up to the
closing quote of a string at the very end. -/
def Divides (chars : List Char) (pieces : List Piece) (gap unread : List Char) : Prop :=
  chars = written pieces ++ gap ++ unread ∨
    (gap = [] ∧ unread = [] ∧ (∃ last ∈ pieces.getLast?, last.kind = .string) ∧
      chars ++ ['\"'] = written pieces)

theorem divides_cons {token : Token} {after : Cursor} {piece : Piece} {pieces : List Piece}
    {chars gap unread : List Char} (same : piece.bare = token.bare)
    (splits : Splits chars (token, after)) (divides : Divides after.rest pieces gap unread)
    (last : after.rest = [] → pieces = []) :
    Divides (piece.gap ++ chars) (piece :: pieces) gap unread := by
  obtain ⟨kind, text⟩ := Prod.mk.inj same
  simp only [Divides, written_cons, kind, text]
  rcases splits with split | ⟨string, nothing, split⟩
  · rcases divides with whole | ⟨noGap, allRead, ⟨last, isLast, string⟩, cut⟩
    · left
      rw [split, whole]
      simp only [List.append_assoc]
    · right
      refine ⟨noGap, allRead, ⟨last, ?_, string⟩, ?_⟩
      · rw [Option.mem_def] at isLast ⊢
        rw [List.getLast?_cons, isLast, Option.getD_some]
      · rw [split, ← cut]
        simp only [List.append_assoc]
  · obtain rfl := last nothing
    obtain ⟨noGap, allRead⟩ : gap = [] ∧ unread = [] := by
      rcases divides with whole | ⟨noGap, allRead, -⟩
      · rw [show after.rest = [] from nothing] at whole
        simpa [written] using whole
      · exact ⟨noGap, allRead⟩
    right
    refine ⟨noGap, allRead, ⟨piece, rfl, kind.trans string⟩, ?_⟩
    rw [List.append_assoc, split, written, List.flatMap_nil, List.append_nil]

/-- Every text is divided into the pieces of its tokens. -/
theorem divides_scan (cursor : Cursor) :
    ∃ pieces gap, pieces.map Piece.bare = cursor.scan.tokens.map Token.bare ∧
      (∀ piece ∈ pieces, lexeme piece.kind piece.text ≠ []) ∧
      (∀ c ∈ gap, isLayout c = true) ∧ (∀ c ∈ cursor.scan.cursor.rest.head?, c = '\x00') ∧
      Divides cursor.rest pieces gap cursor.scan.cursor.rest := by
  fun_induction scan cursor with
  | case1 cursor ended =>
    obtain ⟨stays, stops⟩ := next_of_ended ended
    refine ⟨[], cursor.rest.takeWhile isLayout, rfl, List.forall_mem_nil _,
      fun c => List.mem_takeWhile_imp, ?_, .inl ?_⟩
    · rw [stays]
      exact stops
    · rw [stays]
      exact cursor.rest_eq_takeWhile_append
  | case2 cursor more later inductionHypothesis =>
    obtain ⟨pieces, gap, same, some, layout, stops, divides⟩ := inductionHypothesis
    obtain ⟨splits, visible⟩ := splits_next more
    let piece : Piece := ⟨cursor.rest.takeWhile isLayout, fun c => List.mem_takeWhile_imp,
      cursor.next.1.kind, cursor.next.1.text⟩
    refine ⟨piece :: pieces, gap, congrArg (List.cons _) same,
      List.forall_mem_cons.mpr ⟨visible, some⟩, layout, stops, ?_⟩
    rw [cursor.rest_eq_takeWhile_append]
    refine divides_cons (show piece.bare = cursor.next.1.bare from rfl) splits divides ?_
    intro nothing
    have none : later.tokens = [] := scan_of_rest_nil nothing
    rw [none] at same
    exact List.map_eq_nil_iff.mp same

/-! ### Call after call -/

/-- The cursor after some tokens were asked for. -/
def afterCalls (cursor : Cursor) (calls : Nat) : Cursor :=
  (fun cursor => cursor.next.2)^[calls] cursor

theorem afterCalls_succ (cursor : Cursor) (calls : Nat) :
    cursor.afterCalls (calls + 1) = cursor.next.2.afterCalls calls :=
  Function.iterate_succ_apply _ _ _

theorem next_afterCalls_of_ended (ended : cursor.next.1.kind = .endOfInput) (calls : Nat) :
    (cursor.afterCalls calls).next = cursor.next := by
  induction calls generalizing cursor with
  | zero => rfl
  | succ calls inductionHypothesis =>
    have again := next_next_of_ended ended
    rw [afterCalls_succ, inductionHypothesis (by rw [again]; exact ended), again]

/-- The calls give the tokens of the scan one after the other, and then the closing token without
end, from a cursor that does not move any more. -/
theorem next_afterCalls (cursor : Cursor) (calls : Nat) :
    (∀ token, cursor.scan.tokens[calls]? = some token →
      (cursor.afterCalls calls).next.1 = token) ∧
    (cursor.scan.tokens.length ≤ calls →
      (cursor.afterCalls calls).next = (cursor.scan.closing, cursor.scan.cursor)) := by
  fun_induction scan cursor generalizing calls with
  | case1 cursor ended =>
    refine ⟨fun token given => ?_, fun _ => next_afterCalls_of_ended ended calls⟩
    rw [List.getElem?_nil] at given
    cases given
  | case2 cursor more later inductionHypothesis =>
    cases calls with
    | zero =>
      refine ⟨?_, fun none => absurd none (Nat.not_succ_le_zero _)⟩
      rintro token ⟨rfl⟩
      rfl
    | succ calls =>
      rw [afterCalls_succ, List.getElem?_cons_succ, List.length_cons, Nat.succ_le_succ_iff]
      exact inductionHypothesis calls

end Cursor

/-- No character of a source is lost or read twice, and the closing token stays. -/
theorem tokenize_lossless (source : String) :
    ∃ (tokens : List Token) (closing : Token) (final : Cursor) (pieces : List Piece)
      (gap : List Char),
      tokenize source = tokens ++ [closing] ∧ (∀ token ∈ tokens, token.kind ≠ .endOfInput) ∧
      closing.bare = (.endOfInput, "") ∧
      pieces.map Piece.bare = tokens.map Token.bare ∧
      (∀ piece ∈ pieces, lexeme piece.kind piece.text ≠ []) ∧
      (∀ c ∈ gap, isLayout c = true) ∧ (∀ c ∈ final.rest.head?, c = '\x00') ∧
      (source.toList = written pieces ++ gap ++ final.rest ∨
        gap = [] ∧ final.rest = [] ∧ (∃ last ∈ pieces.getLast?, last.kind = .string) ∧
          source.toList ++ ['\"'] = written pieces) ∧
      (∀ calls token, tokens[calls]? = some token →
        ((Cursor.ofText source).afterCalls calls).next.1 = token) ∧
      ∀ calls, tokens.length ≤ calls →
        ((Cursor.ofText source).afterCalls calls).next = (closing, final) := by
  obtain ⟨pieces, gap, same, some, layout, stops, divides⟩ := (Cursor.ofText source).divides_scan
  exact ⟨_, _, _, pieces, gap, rfl, Cursor.kind_of_mem_scan _, Cursor.bare_closing_scan _, same,
    some, layout, stops, divides, fun calls => (Cursor.next_afterCalls _ calls).1,
    fun calls => (Cursor.next_afterCalls _ calls).2⟩

end Scriptlet
