/-
This file compares the tokens of a source with a grammar of lexemes. `Lexeme` says what a lexeme can
be and which kind it has, and not how one is found. A token is read from the longest lexeme at the
front of the text that is left, and has the one kind of that lexeme.

Which text stands behind a lexeme matters for one form only. A string that is not closed is a lexeme
where nothing stands behind it.
-/

import Scriptlet.Proofs.Cutting
import Scriptlet.Proofs.Spellable

namespace Scriptlet

/-! ### The grammar of lexemes -/

/-- The lexemes with their kinds, where some text stands behind them: what a token can be written
with, and a string that nothing closes up to the end of the text. The last character of such a
string may be a backslash that hides nothing. -/
inductive Lexeme (behind : List Char) : TokenKind → List Char → Prop where
  | written {kind : TokenKind} {text : String} (spellable : Spellable kind text) :
      Lexeme behind kind (lexeme kind text)
  | unclosed {body : List Char} (ends : behind = []) (bare : quotable body = true) :
      Lexeme behind .string ('\"' :: body)
  | unpaired {body : List Char} (ends : behind = []) (bare : quotable body = true) :
      Lexeme behind .string ('\"' :: (body ++ ['\\']))

theorem Lexeme.of_text {behind chars : List Char} {kind : TokenKind} (notString : kind ≠ .string)
    (spellable : Spellable kind (String.ofList chars)) : Lexeme behind kind chars := by
  have written := @Lexeme.written behind _ _ spellable
  rwa [lexeme, if_neg notString, String.toList_ofList] at written

theorem Lexeme.illegal_iff {behind chars : List Char} :
    Lexeme behind .illegal chars ↔ ∃ c, chars = [c] ∧ isStray c = true := by
  have unlisted : (∀ word ∈ keywords, word.2 ≠ .illegal) ∧ ∀ mark ∈ marks, mark.2 ≠ .illegal := by
    decide
  constructor
  · rintro (spellable | _ | _)
    cases spellable with
    | keyword listed => exact absurd rfl (unlisted.1 _ listed)
    | mark listed => exact absurd rfl (unlisted.2 _ listed)
    | @stray _ c single alone =>
      refine ⟨c, ?_, alone⟩
      rw [lexeme, if_neg (by decide), single, String.toList_singleton]
    | name isName | number isNumber | string isString => contradiction
  · rintro ⟨c, rfl, alone⟩
    exact .of_text (by decide) (.stray rfl rfl alone)

/-! ### The body of a string -/

theorem quotedBody_append_of_quotable {body : List Char} (bare : quotable body = true)
    (rest : List Char) : quotedBody (body ++ rest) = body ++ quotedBody rest := by
  fun_induction quotable body with
  | case1 => rfl
  | case2 => cases bare
  | case3 c others inductionHypothesis =>
    rw [List.cons_append, List.cons_append, quotedBody, inductionHypothesis bare]
    rfl
  | case4 others => cases bare
  | case5 c others notLast notHiding notQuote inductionHypothesis =>
    have plain : c ≠ '\\' := by
      rintro rfl
      cases others with
      | nil => exact notLast rfl rfl
      | cons d more => exact notHiding d more rfl rfl
    rw [List.cons_append, quotedBody_cons notQuote plain, inductionHypothesis bare,
      List.cons_append]

/-- What no quote closes is quotable, up to a last backslash that hides nothing. -/
theorem quotable_or_unpaired {chars : List Char} (whole : quotedBody chars = chars) :
    quotable chars = true ∨ ∃ body, quotable body = true ∧ chars = body ++ ['\\'] := by
  fun_induction quotable chars with
  | case1 => exact .inl rfl
  | case2 => exact .inr ⟨[], rfl, rfl⟩
  | case3 c rest inductionHypothesis =>
    rw [quotedBody, List.cons.injEq, List.cons.injEq] at whole
    rcases inductionHypothesis whole.2.2 with bare | ⟨body, bare, rfl⟩
    · exact .inl bare
    · exact .inr ⟨'\\' :: c :: body, bare, rfl⟩
  | case4 rest => cases whole
  | case5 c rest notLast notHiding notQuote inductionHypothesis =>
    have plain : c ≠ '\\' := by
      rintro rfl
      cases rest with
      | nil => exact notLast rfl rfl
      | cons d more => exact notHiding d more rfl rfl
    rw [quotedBody_cons notQuote plain, List.cons.injEq] at whole
    rcases inductionHypothesis whole.2 with bare | ⟨body, bare, rfl⟩
    · exact .inl bare
    · refine .inr ⟨c :: body, ?_, rfl⟩
      rw [quotable]
      · exact bare
      · exact fun hides _ => plain hides
      · exact fun _ _ hides _ => plain hides
      · exact notQuote

/-! ### The kind of a lexeme -/

/-- A lexeme that stands alone is read as a token of its kind. -/
theorem Lexeme.kind_next {behind chars : List Char} {kind : TokenKind}
    (isLexeme : Lexeme behind kind chars) : (Cursor.behind [] chars).next.1.kind = kind := by
  have quoted (following : List Char) :
      (Cursor.behind [] ('\"' :: following)).next.1.kind = .string := by
    rw [Cursor.next_of_front rfl (by decide) (by decide)]
    rfl
  cases isLexeme with
  | @written kind text spellable =>
    let token : Token := ⟨kind, text, .first⟩
    have alone : ScansTo (lexeme kind text ++ []) [token] :=
      @scansTo_lexeme [] [] token spellable (fun _ first => by cases first) scansTo_nil
    have scans := alone (Cursor.behind [] (lexeme kind text)) (List.append_nil _).symm
    rw [Cursor.scan] at scans
    split at scans
    · cases scans
    · exact (Prod.mk.inj (List.cons.inj scans).1).1
  | unclosed => exact quoted _
  | unpaired => exact quoted _

theorem Lexeme.kind_unique {behind chars : List Char} {kind other : TokenKind}
    (first : Lexeme behind kind chars) (second : Lexeme behind other chars) : kind = other :=
  first.kind_next.symm.trans second.kind_next

/-! ### What a token is read from -/

namespace Cut

variable {cut : Cut} {source : List Char}

/-- The first character of the lexeme decides how it is read. -/
theorem Read.readToken (isRead : cut.Read) {c : Char} {following : List Char}
    (front : cut.onward = c :: following) :
    cut.cursor.readToken c = (cut.token, .behind cut.stop cut.behind) := by
  obtain ⟨visible, notNul⟩ := isRead.visible c (by rw [front]; rfl)
  rw [← Cursor.next_of_front front visible notNul]
  exact isRead.reads

/-- The lexeme is as long as the move that reads it. -/
theorem Read.lexeme_eq_take (isRead : cut.Read) {count : Nat}
    (moves : cut.cursor.next.2 = cut.cursor.advance count) :
    cut.lexeme = cut.onward.take count := by
  rw [isRead.reads] at moves
  have left : cut.behind = cut.onward.drop count := congrArg Cursor.rest moves
  refine @List.append_cancel_right _ _ cut.behind _ ?_
  rw [left, List.take_append_drop, ← left]
  rfl

/-- A letter and a digit start a run, and the whole run is read. -/
theorem Read.lexeme_of_run (isRead : cut.Read) {inRun : Char → Bool}
    (runs : inRun = isLetter ∨ inRun = isDigit) {c : Char} {following : List Char}
    (front : cut.onward = c :: following) (member : inRun c = true) :
    cut.lexeme = cut.onward.takeWhile inRun := by
  have moves : cut.cursor.next.2 = (cut.cursor.readWhile inRun).2 := by
    rcases runs with rfl | rfl
    · rw [Cursor.next_of_plain front (not_mem_fences_of_isLetter member), if_pos member]
      rfl
    · have noLetter : ¬ isLetter c = true := by
        rw [isLetter_of_isDigit member]
        exact Bool.false_ne_true
      rw [Cursor.next_of_plain front (not_mem_fences_of_isDigit member), if_neg noLetter,
        if_pos member]
      rfl
  rw [isRead.lexeme_eq_take moves]
  exact (List.prefix_iff_eq_take.mp (List.takeWhile_prefix inRun)).symm

theorem Read.lexeme_of_quote (isRead : cut.Read) {following : List Char}
    (front : cut.onward = '\"' :: following) :
    cut.lexeme = '\"' :: following.take ((quotedBody following).length + 1) := by
  have string : (cut.cursor.readToken '\"').1.kind = .string := by
    rw [Cursor.readToken, show cut.cursor.rest = _ from front]
    rfl
  have moves : cut.cursor.next.2 =
      cut.cursor.advance (1 + (quotedBody following).length + 1) := by
    rw [isRead.reads, ← isRead.readToken front, (Cursor.readToken_of_string front string).2]
  rw [isRead.lexeme_eq_take moves, front, Nat.add_assoc, Nat.add_comm 1, List.take_succ_cons]

/-- The mark that is found is read. -/
theorem Read.lexeme_of_mark (isRead : cut.Read) {mark : List Char × TokenKind}
    (found : markAt? cut.onward = some mark) :
    cut.lexeme = mark.1 ∧ cut.token.kind = mark.2 := by
  obtain ⟨-, fits⟩ := markAt?_eq_some found
  obtain ⟨c, following, front⟩ : ∃ c following, cut.onward = c :: following := by
    refine List.exists_cons_of_length_pos (Nat.lt_of_lt_of_le ?_ fits.length_le)
    exact Cursor.markAt?_length_pos found
  have reads := isRead.readToken front
  rw [Cursor.readToken, show markAt? cut.cursor.rest = _ from found, ← isRead.reads] at reads
  constructor
  · rw [isRead.lexeme_eq_take (congrArg Prod.snd reads.symm)]
    exact (List.prefix_iff_eq_take.mp fits).symm
  · rw [isRead.reads] at reads
    exact congrArg (fun read => read.1.kind) reads.symm

/-! ### The longest lexeme -/

/-- A run that begins the text is no longer than the one that was read. -/
theorem Read.length_le_of_run (isRead : cut.Read) {inRun : Char → Bool}
    (runs : inRun = isLetter ∨ inRun = isDigit) {chars left : List Char}
    (split : cut.onward = chars ++ left) (some : chars ≠ [])
    (all : ∀ c ∈ chars, inRun c = true) : chars.length ≤ cut.lexeme.length := by
  obtain ⟨c, others, rfl⟩ := List.exists_cons_of_ne_nil some
  rw [isRead.lexeme_of_run runs split (all c List.mem_cons_self), split,
    List.takeWhile_append_of_pos all]
  exact (List.prefix_append _ _).length_le

/-- Of a string no more is written than its body and the closing quote. -/
theorem Read.length_le_of_quote (isRead : cut.Read) {chars left : List Char}
    (split : cut.onward = '\"' :: (chars ++ left))
    (within : chars.length ≤ (quotedBody (chars ++ left)).length + 1) :
    ('\"' :: chars).length ≤ cut.lexeme.length := by
  rw [isRead.lexeme_of_quote split, List.length_cons, List.length_cons, List.length_take,
    List.length_append]
  exact Nat.succ_le_succ (Nat.le_min.mpr ⟨within, Nat.le_add_right _ _⟩)

/-- A mark of two characters is read whole. -/
theorem Read.lexeme_of_doubled (isRead : cut.Read) {mark : List Char × TokenKind}
    (listed : mark ∈ marks) (doubled : mark.1.length = 2) (fits : mark.1 <+: cut.onward) :
    cut.lexeme = mark.1 ∧ cut.token.kind = mark.2 := by
  obtain ⟨following, front⟩ := fits
  refine isRead.lexeme_of_mark ?_
  rw [← front]
  refine markAt?_append listed fun short => ?_
  have single : ∀ chars ∈ [['='], ['!']], chars.length = 1 := by decide
  rw [single _ short] at doubled
  cases doubled

theorem Read.length_le_of_mark (of : cut.Of source) (isRead : cut.Read)
    {mark : List Char × TokenKind} (listed : mark ∈ marks) (fits : mark.1 <+: cut.onward) :
    mark.1.length ≤ cut.lexeme.length := by
  have lengths : ∀ mark ∈ marks, mark.1.length = 1 ∨ mark.1.length = 2 := by decide
  rcases lengths mark listed with single | doubled
  · rw [single]
    exact List.length_pos_iff.mpr of.some
  · rw [(isRead.lexeme_of_doubled listed doubled fits).1]

/-- No lexeme at the front of the text is longer than the one that was read. -/
theorem Read.length_le (of : cut.Of source) (isRead : cut.Read) {kind : TokenKind}
    {chars left : List Char} (split : cut.onward = chars ++ left)
    (isLexeme : Lexeme left kind chars) : chars.length ≤ cut.lexeme.length := by
  cases isLexeme with
  | @written kind text spellable =>
    have asText (notString : kind ≠ .string) : Scriptlet.lexeme kind text = text.toList := by
      rw [Scriptlet.lexeme, if_neg notString]
    cases spellable with
    | name isName some letters free =>
      rw [asText (by rw [isName]; decide)] at split ⊢
      exact isRead.length_le_of_run (.inl rfl) split (mt String.toList_eq_nil_iff.mp some) letters
    | keyword listed =>
      obtain ⟨-, some, letters⟩ := ofWord_of_mem_keywords _ listed
      rw [asText (kind_ne_string_of_mem_keywords _ listed)] at split ⊢
      exact isRead.length_le_of_run (.inl rfl) split (mt String.toList_eq_nil_iff.mp some)
        (List.all_eq_true.mp letters)
    | number isNumber some digits =>
      rw [asText (by rw [isNumber]; decide)] at split ⊢
      exact isRead.length_le_of_run (.inr rfl) split (mt String.toList_eq_nil_iff.mp some) digits
    | mark listed =>
      rw [asText (kind_ne_string_of_mem_marks _ listed)] at split ⊢
      exact isRead.length_le_of_mark of listed ⟨left, split.symm⟩
    | stray isIllegal single alone =>
      rw [asText (by rw [isIllegal]; decide), single, String.toList_singleton]
      exact List.length_pos_iff.mpr of.some
    | string isString closes =>
      obtain ⟨body, paired⟩ := (quotable_iff _).mp closes
      rw [Scriptlet.lexeme, if_pos isString] at split ⊢
      refine isRead.length_le_of_quote split ?_
      rw [List.append_assoc, List.singleton_append, quotedBody_closed body paired,
        List.length_append, List.length_singleton]
  | @unclosed body ends bare =>
    refine isRead.length_le_of_quote split ?_
    rw [ends, List.append_nil, ((quotable_iff _).mp bare).1]
    exact Nat.le_succ _
  | @unpaired body ends bare =>
    refine isRead.length_le_of_quote split ?_
    rw [ends, List.append_nil, quotedBody_append_of_quotable bare]
    exact Nat.le_succ _

/-! ### The one kind of the longest lexeme -/

theorem Read.more (of : cut.Of source) (isRead : cut.Read) : cut.token.kind ≠ .endOfInput := by
  obtain ⟨c, others, first⟩ := List.exists_cons_of_ne_nil of.some
  have front : cut.onward = c :: (others ++ cut.behind) := by
    rw [onward, first, List.cons_append]
  have token : (cut.cursor.readToken c).1 = cut.token :=
    congrArg Prod.fst (isRead.readToken front)
  rw [← token]
  exact (Cursor.spelled_readToken front).kind_ne_endOfInput

/-- From a quote a string is read, and it is a lexeme whether it is closed or not. -/
theorem Read.isLexeme_of_quote (isRead : cut.Read) {following : List Char}
    (front : cut.onward = '\"' :: following) : Lexeme cut.behind .string cut.lexeme := by
  have read := isRead.lexeme_of_quote front
  rcases quotedBody_split following with whole | ⟨more, split⟩
  · rw [whole, List.take_of_length_le (Nat.le_succ _)] at read
    have ends : cut.behind = [] := by
      refine List.append_cancel_left (Eq.trans ?_ (List.append_nil cut.lexeme).symm)
      exact front.trans read.symm
    rw [read]
    rcases quotable_or_unpaired whole with bare | ⟨body, bare, rfl⟩
    · exact .unclosed ends bare
    · exact .unpaired ends bare
  · have body : following.take ((quotedBody following).length + 1) =
        quotedBody following ++ ['\"'] := by
      conv_lhs => arg 2; rw [split]
      rw [List.take_length_add_append]
      rfl
    have closes : quotable (quotedBody following) = true := by
      refine (quotable_iff _).mpr ⟨quotedBody_quotedBody following, ?_⟩
      refine Bool.eq_false_iff.mpr fun unpaired => ?_
      rw [quotedBody_eq_of_endsUnpaired unpaired] at split
      simp at split
    have written := @Lexeme.written cut.behind .string (String.ofList (quotedBody following))
      (.string rfl (by rwa [String.toList_ofList]))
    rwa [Scriptlet.lexeme, if_pos rfl, String.toList_ofList, ← body, ← read] at written

/-- What was read is a lexeme of the kind of its token. -/
theorem Read.isLexeme (of : cut.Of source) (isRead : cut.Read) :
    Lexeme cut.behind cut.token.kind cut.lexeme := by
  by_cases string : cut.token.kind = .string
  · rw [string]
    rcases of.written with written | ⟨-, -, written⟩
    · rw [Scriptlet.lexeme, if_pos string] at written
      exact isRead.isLexeme_of_quote (congrArg (· ++ cut.behind) written)
    · exact isRead.isLexeme_of_quote (congrArg (· ++ cut.behind) written)
  · have spellable := @Cursor.spellable_next cut.cursor (by rw [isRead.reads]; exact isRead.more of)
    rw [isRead.reads] at spellable
    rcases of.written with written | ⟨impossible, -⟩
    · rw [written]
      rcases spellable with spellable | ⟨impossible, -⟩
      · exact .written spellable
      · exact absurd impossible string
    · exact absurd impossible string

theorem Read.kind_iff (of : cut.Of source) (isRead : cut.Read) (kind : TokenKind) :
    Lexeme cut.behind kind cut.lexeme ↔ kind = cut.token.kind := by
  constructor
  · exact fun isLexeme => isLexeme.kind_unique (isRead.isLexeme of)
  · rintro rfl
    exact isRead.isLexeme of

/-- A run of letters is a keyword when the whole run is in the table, and a name otherwise. -/
theorem Read.kind_of_letters (of : cut.Of source) (isRead : cut.Read)
    (letters : ∀ c ∈ cut.lexeme, isLetter c = true) :
    (cut.token.kind = .ident ∧ String.ofList cut.lexeme ∉ keywords.map Prod.fst) ∨
      (String.ofList cut.lexeme, cut.token.kind) ∈ keywords := by
  by_cases listed : String.ofList cut.lexeme ∈ keywords.map Prod.fst
  · obtain ⟨⟨word, kind⟩, listed, same⟩ := List.mem_map.mp listed
    obtain rfl : word = String.ofList cut.lexeme := same
    have isLexeme : Lexeme cut.behind kind cut.lexeme :=
      .of_text (kind_ne_string_of_mem_keywords _ listed) (.keyword listed)
    rw [← (isRead.kind_iff of kind).mp isLexeme]
    exact .inr listed
  · have isLexeme : Lexeme cut.behind .ident cut.lexeme := by
      refine .of_text (by decide) (.name rfl ?_ ?_ listed)
      · simpa using of.some
      · rwa [String.toList_ofList]
    exact .inl ⟨((isRead.kind_iff of .ident).mp isLexeme).symm, listed⟩

/-- Only half a mark that stands alone and what starts no token is illegal. -/
theorem Read.illegal_iff (of : cut.Of source) (isRead : cut.Read) :
    cut.token.kind = .illegal ↔ cut.lexeme = ['&'] ∨ cut.lexeme = ['|'] ∨
      ∃ c, cut.lexeme = [c] ∧ startsToken c = false := by
  rw [eq_comm, ← isRead.kind_iff of, Lexeme.illegal_iff]
  constructor
  · rintro ⟨c, single, alone⟩
    rcases isStray_cases alone with half | ⟨plain, -⟩
    · simp only [List.mem_cons, List.not_mem_nil, or_false] at half
      rcases half with rfl | rfl
      · exact .inl single
      · exact .inr (.inl single)
    · exact .inr (.inr ⟨c, single, plain⟩)
  · rintro (single | single | ⟨c, single, plain⟩)
    · exact ⟨'&', single, by decide⟩
    · exact ⟨'|', single, by decide⟩
    · obtain ⟨visible, notNul⟩ := isRead.visible c (by rw [onward, single]; rfl)
      exact ⟨c, single, by simp [isStray, plain, visible, notNul]⟩

/-- The token of a cut is the longest one. -/
structure Longest (cut : Cut) : Prop where
  kind : ∀ kind, Lexeme cut.behind kind cut.lexeme ↔ kind = cut.token.kind
  longest : ∀ kind chars left, cut.onward = chars ++ left → Lexeme left kind chars →
    chars.length ≤ cut.lexeme.length
  word : (∀ c ∈ cut.lexeme, isLetter c = true) →
    (cut.token.kind = .ident ∧ String.ofList cut.lexeme ∉ keywords.map Prod.fst) ∨
      (String.ofList cut.lexeme, cut.token.kind) ∈ keywords
  doubled : ∀ mark ∈ marks, mark.1.length = 2 → mark.1 <+: cut.onward →
    cut.lexeme = mark.1 ∧ cut.token.kind = mark.2
  illegal : cut.token.kind = .illegal ↔ cut.lexeme = ['&'] ∨ cut.lexeme = ['|'] ∨
    ∃ c, cut.lexeme = [c] ∧ startsToken c = false

theorem Read.isLongest (of : cut.Of source) (isRead : cut.Read) : cut.Longest :=
  ⟨isRead.kind_iff of, fun _ _ _ split isLexeme => isRead.length_le of split isLexeme,
    isRead.kind_of_letters of,
    fun _ listed doubled fits => isRead.lexeme_of_doubled listed doubled fits,
    isRead.illegal_iff of⟩

end Cut

/-- Every token of a source is read from the longest lexeme at the front of what is left, and has
the kind of that lexeme. -/
theorem tokenize_longest (source : String) :
    ∃ cuts reached closing, tokenize source = cuts.map Cut.token ++ [closing] ∧
      closing.kind = .endOfInput ∧ Cuts source.toList [] cuts reached ∧
      ∀ cut ∈ cuts, cut.token.kind ≠ .endOfInput ∧ cut.Longest := by
  obtain ⟨cuts, reached, gap, unread, divided, areRead⟩ := Cursor.divided_scan [] source.toList
  refine ⟨cuts, reached, (Cursor.ofText source).scan.closing, ?_, Cursor.kind_closing_scan _,
    divided.chain, fun cut member => ?_⟩
  · rw [divided.tokens]
    rfl
  · have of := divided.chain.forall_of cut member
    exact ⟨(areRead cut member).more of, (areRead cut member).isLongest of⟩

end Scriptlet
