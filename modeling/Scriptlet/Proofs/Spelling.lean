/-
This file says how tokens are written. Every token that a scan finds is spelled as the
language asks for: `Token.Spelled` lists the ways. In the other direction a spelled
token is found again wherever its text is written down, as long as the text behind it
does not extend it; `ScansTo` collects these facts one token at a time, from the end of
a text to its start.

A string is the one token that may not be found again. When its text ends in a
backslash that hides nothing, a quote written behind it would be hidden. Such a string
was not closed where it was read either: it ran to the end of its source.
-/

import Scriptlet.Token.Lexer

namespace Scriptlet

/-! ### The text of a string -/

/-- Whether a text ends in a backslash that hides nothing. -/
def endsUnpaired : List Char → Bool
  | [] => false
  | ['\\'] => true
  | '\\' :: _ :: rest => endsUnpaired rest
  | _ :: rest => endsUnpaired rest

theorem quotedBody_cons {c : Char} {rest : List Char} (notQuote : c ≠ '\"') (plain : c ≠ '\\') :
    quotedBody (c :: rest) = c :: quotedBody rest := by
  rw [quotedBody]
  · exact notQuote
  · exact fun _ _ hides _ => plain hides

theorem quotedBody_isPrefix (chars : List Char) : quotedBody chars <+: chars := by
  fun_induction quotedBody chars with
  | case1 => exact List.prefix_rfl
  | case2 rest => exact List.nil_prefix
  | case3 c rest inductionHypothesis =>
    exact (List.prefix_cons_inj _).mpr ((List.prefix_cons_inj _).mpr inductionHypothesis)
  | case4 c rest notQuote notHiding inductionHypothesis =>
    exact (List.prefix_cons_inj _).mpr inductionHypothesis

theorem quotedBody_quotedBody (chars : List Char) :
    quotedBody (quotedBody chars) = quotedBody chars := by
  fun_induction quotedBody chars with
  | case1 => rfl
  | case2 rest => rfl
  | case3 c rest inductionHypothesis => rw [quotedBody, inductionHypothesis]
  | case4 c rest notQuote notHiding inductionHypothesis =>
    rw [quotedBody, inductionHypothesis]
    · exact notQuote
    · rintro d others rfl listed
      obtain ⟨first, rfl⟩ : ∃ first, rest = d :: first := by
        obtain ⟨more, whole⟩ := quotedBody_isPrefix rest
        rw [listed] at whole
        exact ⟨_, whole.symm⟩
      exact notHiding d first rfl rfl

/-- A string that ends in an unpaired backslash was not closed. -/
theorem quotedBody_eq_of_endsUnpaired {chars : List Char}
    (unpaired : endsUnpaired (quotedBody chars) = true) : quotedBody chars = chars := by
  fun_induction quotedBody chars with
  | case1 => rfl
  | case2 rest => cases unpaired
  | case3 c rest inductionHypothesis => rw [inductionHypothesis unpaired]
  | case4 c rest notQuote notHiding inductionHypothesis =>
    by_cases hides : c = '\\'
    · subst hides
      cases rest with
      | nil => rfl
      | cons d others => exact absurd rfl (notHiding d others rfl)
    · rw [endsUnpaired] at unpaired
      · rw [inductionHypothesis unpaired]
      · exact fun impossible _ => hides impossible
      · exact fun _ _ impossible _ => hides impossible

/-- A quote written behind a text closes it, unless its last backslash is unpaired. -/
theorem quotedBody_closed {chars : List Char} (body : quotedBody chars = chars)
    (paired : endsUnpaired chars = false) (following : List Char) :
    quotedBody (chars ++ '\"' :: following) = chars := by
  fun_induction endsUnpaired chars with
  | case1 => rfl
  | case2 => cases paired
  | case3 c rest inductionHypothesis =>
    rw [quotedBody, List.cons.injEq, List.cons.injEq] at body
    rw [List.cons_append, List.cons_append, quotedBody, inductionHypothesis body.2.2 paired]
  | case4 c rest notLast notHiding inductionHypothesis =>
    have plain : c ≠ '\\' := by
      rintro rfl
      cases rest with
      | nil => exact notLast rfl rfl
      | cons d others => exact notHiding d others rfl rfl
    have notQuote : c ≠ '\"' := by
      rintro rfl
      cases body
    rw [quotedBody_cons notQuote plain, List.cons.injEq] at body
    rw [List.cons_append, quotedBody_cons notQuote plain, inductionHypothesis body.2 paired]

/-! ### How tokens are spelled -/

/-- The ways in which a token can be spelled. -/
inductive Token.Spelled (token : Token) : Prop where
  | mark (listed : (token.text.toList, token.kind) ∈ marks)
  | string (kind : token.kind = .string) (body : quotedBody token.text.toList = token.text.toList)
  | word (kind : token.kind = .ofWord token.text) (some : token.text ≠ "")
      (letters : ∀ c ∈ token.text.toList, isLetter c = true)
  | number (kind : token.kind = .int) (some : token.text ≠ "")
      (digits : ∀ c ∈ token.text.toList, isDigit c = true)
  | stray (kind : token.kind = .illegal)

namespace Cursor

theorem text_read {cursor : Cursor} {chars : List Char} (front : chars <+: cursor.rest) :
    (cursor.read chars.length).1 = String.ofList chars := by
  rw [read, ← List.prefix_iff_eq_take.mp front]

theorem text_readWhile (cursor : Cursor) (inRun : Char → Bool) :
    (cursor.readWhile inRun).1 = String.ofList (cursor.rest.takeWhile inRun) :=
  text_read (List.takeWhile_prefix inRun)

theorem text_readString (cursor : Cursor) :
    cursor.readString.1 = String.ofList (quotedBody (cursor.rest.drop 1)) :=
  text_read (quotedBody_isPrefix _)

/-- A run that starts with a character of the class is not empty. -/
theorem readWhile_spells {cursor : Cursor} {inRun : Char → Bool} {c : Char}
    {following : List Char} (front : cursor.rest = c :: following) (member : inRun c = true) :
    (cursor.readWhile inRun).1 ≠ "" ∧
      ∀ d ∈ (cursor.readWhile inRun).1.toList, inRun d = true := by
  rw [text_readWhile]
  constructor
  · rw [front, List.takeWhile_cons_of_pos member]
    simp
  · intro d listed
    rw [String.toList_ofList] at listed
    exact List.all_eq_true.mp List.all_takeWhile d listed

theorem spelled_readToken {cursor : Cursor} {c : Char} {following : List Char}
    (front : cursor.rest = c :: following) : (cursor.readToken c).1.Spelled := by
  unfold readToken
  dsimp only
  split
  · next mark kind found =>
    obtain ⟨listed, fits⟩ := markAt?_eq_some found
    refine .mark ?_
    rw [text_read fits, String.toList_ofList]
    exact listed
  · split
    · refine .string rfl ?_
      rw [text_readString, String.toList_ofList, quotedBody_quotedBody]
    · split
      · next letter =>
        obtain ⟨some, letters⟩ := readWhile_spells front letter
        exact .word rfl some letters
      · split
        · next digit =>
          obtain ⟨some, digits⟩ := readWhile_spells front digit
          exact .number rfl some digits
        · exact .stray rfl

theorem spelled_next {cursor : Cursor} (more : cursor.next.1.kind ≠ .endOfInput) :
    cursor.next.1.Spelled := by
  unfold next at more ⊢
  dsimp only at more ⊢
  split at more
  · simp at more
  · next c following front =>
    split at more
    · simp at more
    · next notNul =>
      rw [if_neg notNul]
      exact spelled_readToken front

/-- Every token of a scan is spelled. -/
theorem spelled_of_mem_scan (cursor : Cursor) : ∀ token ∈ cursor.scan.tokens, token.Spelled := by
  fun_induction scan cursor with
  | case1 cursor ended =>
    intro token member
    cases member
  | case2 cursor more later inductionHypothesis =>
    intro token member
    rcases List.mem_cons.mp member with rfl | member
    · exact spelled_next more
    · exact inductionHypothesis token member

end Cursor

/-- The text of a kind that is always written the same way. -/
def TokenKind.fixedText? : TokenKind → Option String
  | illegal | endOfInput | ident | int | string => none
  | assign => some "="
  | plus => some "+"
  | minus => some "-"
  | bang => some "!"
  | asterisk => some "*"
  | slash => some "/"
  | less => some "<"
  | greater => some ">"
  | equal => some "=="
  | notEqual => some "!="
  | and => some "&&"
  | or => some "||"
  | comma => some ","
  | semicolon => some ";"
  | colon => some ":"
  | leftParen => some "("
  | rightParen => some ")"
  | leftBrace => some "\x7b"
  | rightBrace => some "\x7d"
  | leftBracket => some "["
  | rightBracket => some "]"
  | funcWord => some "func"
  | letWord => some "let"
  | trueWord => some "true"
  | falseWord => some "false"
  | ifWord => some "if"
  | elseWord => some "else"
  | returnWord => some "return"
  | elseifWord => some "elseif"
  | forWord => some "for"
  | inWord => some "in"
  | whileWord => some "while"
  | rangeWord => some "range"
  | containsWord => some "contains"

theorem TokenKind.ofWord_cases (word : String) :
    ofWord word = ident ∨ (word, ofWord word) ∈ keywords := by
  rw [ofWord]
  cases found : keywords.lookup word with
  | none => exact .inl rfl
  | some kind =>
    obtain ⟨first, others, split, -⟩ := List.lookup_eq_some_iff.mp found
    rw [split]
    exact .inr (List.mem_append_right _ List.mem_cons_self)

theorem TokenKind.ofWord_ne {word : String} {kind : TokenKind} (notName : kind ≠ ident)
    (unlisted : ∀ word ∈ keywords, word.2 ≠ kind) : ofWord word ≠ kind := by
  rcases ofWord_cases word with name | listed
  · rw [name]
    exact notName.symm
  · exact unlisted _ listed

theorem fixedText?_of_mem_marks : ∀ mark ∈ marks,
    mark.2.fixedText? = some (String.ofList mark.1) := by
  decide

/-- A spelled token of such a kind has that text. -/
theorem Token.Spelled.text_eq {token : Token} (spelled : token.Spelled) {text : String}
    (fixed : token.kind.fixedText? = some text) : token.text = text := by
  cases spelled with
  | mark listed =>
    have same := (fixedText?_of_mem_marks _ listed).symm.trans fixed
    rw [String.ofList_toList] at same
    exact Option.some.inj same
  | word kind some letters =>
    have all : ∀ word ∈ keywords, word.2.fixedText? = Option.some word.1 := by decide
    rcases TokenKind.ofWord_cases token.text with name | listed
    · rw [kind, name] at fixed
      cases fixed
    · rw [← kind] at listed
      exact Option.some.inj ((all _ listed).symm.trans fixed)
  | string kind | number kind | stray kind =>
    rw [kind] at fixed
    cases fixed

/-- A spelled token whose kind is that of a mark is that mark. -/
theorem Token.Spelled.mem_marks {token : Token} (spelled : token.Spelled)
    (isMark : ∃ mark ∈ marks, mark.2 = token.kind) :
    (token.text.toList, token.kind) ∈ marks := by
  obtain ⟨⟨chars, kind⟩, listed, rfl⟩ := isMark
  have text := spelled.text_eq (fixedText?_of_mem_marks _ listed)
  rw [text, String.toList_ofList]
  exact listed

/-! ### Strings that were not closed -/

/-- A string token that runs from its opening quote to the end of the source. -/
def Token.Unclosed (token : Token) (source : String) : Prop :=
  token.kind = .string ∧ ∃ front, source.toList = front ++ '\"' :: token.text.toList ∧
    Position.first.afterAll front = token.position

namespace Cursor

theorem advance_advance (cursor : Cursor) (first second : Nat) :
    (cursor.advance first).advance second = cursor.advance (first + second) := by
  simp only [advance, List.take_add, List.drop_drop, List.length_append, Position.afterAll_append,
    Nat.add_assoc]

theorem cursor_readString (cursor : Cursor) :
    cursor.readString.2 =
      cursor.advance (1 + (quotedBody (cursor.rest.drop 1)).length + 1) := by
  rw [← advance_advance, ← advance_advance]
  rfl

/-- Reading a token is a move over some characters. -/
theorem exists_next_eq_advance (cursor : Cursor) :
    ∃ count, cursor.next.2 = cursor.advance count := by
  unfold next
  dsimp only
  split
  · exact ⟨_, rfl⟩
  · split
    · exact ⟨_, rfl⟩
    · unfold readToken
      dsimp only
      split
      · exact ⟨_, advance_advance ..⟩
      · split
        · rw [cursor_readString]
          exact ⟨_, advance_advance ..⟩
        · split
          · exact ⟨_, advance_advance ..⟩
          · split <;> exact ⟨_, advance_advance ..⟩

theorem kind_ne_string_of_mark {chars : List Char} {mark : List Char × TokenKind}
    (found : markAt? chars = some mark) : mark.2 ≠ .string := by
  have all : ∀ mark ∈ marks, mark.2 ≠ .string := by decide
  exact all mark (markAt?_eq_some found).1

/-- A string token comes from a quote. -/
theorem readToken_of_string {cursor : Cursor} {c : Char} {following : List Char}
    (front : cursor.rest = c :: following) (kind : (cursor.readToken c).1.kind = .string) :
    c = '\"' ∧ cursor.readToken c =
      (⟨.string, String.ofList (quotedBody following), cursor.position⟩,
        cursor.advance (1 + (quotedBody following).length + 1)) := by
  unfold readToken at kind ⊢
  dsimp only at kind ⊢
  split at kind
  · next mark markKind found => exact absurd kind (kind_ne_string_of_mark found)
  · split at kind
    · next quote =>
      refine ⟨quote, ?_⟩
      rw [if_pos quote, text_readString, cursor_readString, front, List.drop_one, List.tail_cons]
    · split at kind
      · exact absurd kind (TokenKind.ofWord_ne (by decide) (by decide))
      · split at kind <;> cases kind

theorem next_of_string {cursor : Cursor} (kind : cursor.next.1.kind = .string) :
    ∃ front following, cursor.rest = front ++ '\"' :: following ∧
      cursor.next.1 =
        ⟨.string, String.ofList (quotedBody following), cursor.position.afterAll front⟩ ∧
      cursor.next.2.rest = following.drop ((quotedBody following).length + 1) := by
  unfold next at kind ⊢
  dsimp only at kind ⊢
  split at kind
  · cases kind
  · next c following front =>
    split at kind
    · cases kind
    · next notNul =>
      obtain ⟨rfl, read⟩ := readToken_of_string front kind
      refine ⟨cursor.rest.takeWhile isLayout, following, ?_, ?_, ?_⟩
      · rw [← front, rest_skipLayout, List.takeWhile_append_dropWhile]
      · rw [if_neg notNul, read, skipLayout, position_advance,
          ← List.prefix_iff_eq_take.mp (List.takeWhile_prefix isLayout)]
      · rw [if_neg notNul, read, rest_advance, front, Nat.add_assoc, Nat.add_comm 1,
          List.drop_succ_cons]

theorem scan_of_rest_nil {cursor : Cursor} (ended : cursor.rest = []) :
    cursor.scan.tokens = [] := by
  rw [scan, if_pos]
  rw [next]
  simp [skipLayout, ended]

theorem rest_next_of_endsUnpaired {cursor : Cursor} (kind : cursor.next.1.kind = .string)
    (unpaired : endsUnpaired cursor.next.1.text.toList = true) : cursor.next.2.rest = [] := by
  obtain ⟨front, following, -, read, rest⟩ := next_of_string kind
  rw [read, String.toList_ofList] at unpaired
  rw [rest, quotedBody_eq_of_endsUnpaired unpaired, List.drop_eq_nil_of_le (Nat.le_succ _)]

/-- A string whose last backslash is unpaired is the last token and runs to the end. -/
theorem unclosed_of_mem_scan (cursor : Cursor) :
    ∀ token ∈ cursor.scan.tokens, token.kind = .string →
      endsUnpaired token.text.toList = true →
      cursor.scan.tokens.getLast? = some token ∧
        ∃ front, cursor.rest = front ++ '\"' :: token.text.toList ∧
          cursor.position.afterAll front = token.position := by
  fun_induction scan cursor with
  | case1 cursor ended =>
    intro token member
    cases member
  | case2 cursor more later inductionHypothesis =>
    intro token member kind unpaired
    rcases List.mem_cons.mp member with rfl | member
    · obtain ⟨front, following, split, read, -⟩ := next_of_string kind
      have ended : later.tokens = [] :=
        scan_of_rest_nil (rest_next_of_endsUnpaired kind unpaired)
      have whole : quotedBody following = following := by
        rw [read, String.toList_ofList] at unpaired
        exact quotedBody_eq_of_endsUnpaired unpaired
      refine ⟨by rw [ended, List.getLast?_singleton], front, ?_, ?_⟩
      · rw [read, String.toList_ofList, whole, split]
      · rw [read]
    · obtain ⟨last, front, split, position⟩ := inductionHypothesis token member kind unpaired
      refine ⟨by rw [List.getLast?_cons, last, Option.getD_some], ?_⟩
      obtain ⟨count, moved⟩ := cursor.exists_next_eq_advance
      rw [moved, rest_advance] at split
      rw [moved, position_advance] at position
      refine ⟨cursor.rest.take count ++ front, ?_, ?_⟩
      · rw [List.append_assoc, ← split, List.take_append_drop]
      · rw [Position.afterAll_append, position]

end Cursor

/-! ### Text that scans to given tokens -/

/-- The kind and the text of a token, without its place. -/
def Token.bare (token : Token) : TokenKind × String :=
  (token.kind, token.text)

/-- Wherever a text is read to its end, it gives these tokens up to their places. -/
def ScansTo (chars : List Char) (tokens : List Token) : Prop :=
  ∀ cursor : Cursor, cursor.rest = chars →
    cursor.scan.tokens.map Token.bare = tokens.map Token.bare

/-- The characters that stand in no word and no number but start a token or keep tokens
apart. -/
def fences : List Char :=
  [' ', '\t', '\r', '\n', '\x00', '\"', '=', '!', '&', '|', '+', '-', '*', '/', '<', '>', ',', ';',
    ':', '(', ')', '\x7b', '\x7d', '[', ']']

section

variable {chars following : List Char} {tokens : List Token} {token : Token} {c : Char}
  {cursor : Cursor} {inRun : Char → Bool}

namespace Cursor

theorem scan_congr {first second : Cursor} (same : first.next = second.next) :
    first.scan = second.scan := by
  unfold scan
  rw [same]

theorem next_of_front (front : cursor.rest = c :: following) (visible : isLayout c = false)
    (notNul : c ≠ '\x00') : cursor.next = cursor.readToken c := by
  have start : cursor.skipLayout = cursor := by
    rw [skipLayout, front, List.takeWhile_cons_of_neg (by simp [visible])]
    rfl
  rw [next, start, front]
  exact if_neg notNul

/-- A run of characters of a class is read up to the first character outside it. -/
theorem readWhile_of_front (front : cursor.rest = chars ++ following)
    (all : ∀ c ∈ chars, inRun c = true) (apart : ∀ c ∈ following.head?, inRun c = false) :
    cursor.readWhile inRun = (String.ofList chars, cursor.advance chars.length) := by
  have run : cursor.rest.takeWhile inRun = chars := by
    rw [front, List.takeWhile_append_of_pos all]
    cases following with
    | nil => simp
    | cons d others => rw [List.takeWhile_cons_of_neg (by simp [apart d rfl]), List.append_nil]
  rw [readWhile, run, read, front, List.take_left]

end Cursor

theorem scansTo_nil : ScansTo [] [] := by
  intro cursor ended
  rw [Cursor.scan_of_rest_nil ended]

theorem scansTo_layout (layout : isLayout c = true) (later : ScansTo following tokens) :
    ScansTo (c :: following) tokens := by
  intro cursor front
  have skipped : cursor.skipLayout = (cursor.advance 1).skipLayout := by
    rw [Cursor.skipLayout, Cursor.skipLayout, Cursor.advance_advance, Cursor.rest_advance, front,
      List.takeWhile_cons_of_pos layout, List.drop_one, List.tail_cons, List.length_cons,
      Nat.add_comm]
  have same : cursor.next = (cursor.advance 1).next := by
    rw [Cursor.next, Cursor.next, skipped]
  rw [Cursor.scan_congr same]
  refine later _ ?_
  rw [Cursor.rest_advance, front, List.drop_one, List.tail_cons]

theorem scansTo_allLayout (layout : ∀ c ∈ chars, isLayout c = true)
    (later : ScansTo following tokens) : ScansTo (chars ++ following) tokens := by
  induction chars with
  | nil => exact later
  | cons c rest inductionHypothesis =>
    rw [List.forall_mem_cons] at layout
    exact scansTo_layout layout.1 (inductionHypothesis layout.2)

/-- A token that is read at the front of a text comes before the tokens of the rest. -/
theorem scansTo_cons (later : ScansTo following tokens) (more : token.kind ≠ .endOfInput)
    (reads : ∀ cursor : Cursor, cursor.rest = chars ++ following →
      cursor.next = (⟨token.kind, token.text, cursor.position⟩, cursor.advance chars.length)) :
    ScansTo (chars ++ following) (token :: tokens) := by
  intro cursor front
  have read := reads cursor front
  rw [Cursor.scan, if_neg (by rw [read]; exact more), read]
  rw [List.map_cons, List.map_cons]
  refine congrArg _ (later _ ?_)
  rw [Cursor.rest_advance, front, List.drop_left]

/-- A mark is found unless the text behind it makes it a longer one. -/
theorem markAt?_append {mark : List Char × TokenKind} (listed : mark ∈ marks)
    (apart : mark.1 ∈ [['='], ['!']] → following.head? ≠ some '=') :
    markAt? (mark.1 ++ following) = some mark := by
  have longer : mark.1 ∈ [['='], ['!']] → ['='].isPrefixOf following = false := by
    intro short
    cases following with
    | nil => rfl
    | cons d others =>
      have other : d ≠ '=' := fun same => apart short (congrArg some same)
      simp [List.isPrefixOf, other.symm]
  simp only [marks, List.mem_cons, List.not_mem_nil, or_false] at listed
  rcases listed with rfl | rfl | rfl | rfl | rfl | rfl | rfl | rfl | rfl | rfl | rfl |
    rfl | rfl | rfl | rfl | rfl | rfl | rfl | rfl | rfl | rfl <;>
    simp [markAt?, marks] <;> exact longer (by decide)

/-- No mark starts with a character that is none of the fences. -/
theorem markAt?_of_not_mem_fences (plain : c ∉ fences) : markAt? (c :: following) = none := by
  have all : ∀ mark ∈ marks, mark.1.head?.any fences.contains = true := by decide
  rw [markAt?, List.find?_eq_none]
  intro mark listed fits
  have fenced := all mark listed
  cases front : mark.1 with
  | nil => simp [front] at fenced
  | cons d others =>
    rw [front, List.isPrefixOf_cons_cons, Bool.and_eq_true, beq_iff_eq] at fits
    simp [front, fits.1, plain] at fenced

theorem isLayout_of_not_mem_fences (plain : c ∉ fences) : isLayout c = false := by
  simp only [fences, List.mem_cons, not_or] at plain
  simp [isLayout, plain]

theorem mem_fences_of_isLayout (layout : isLayout c = true) : c ∈ fences ∧ c ≠ '=' := by
  simp only [isLayout, Bool.or_eq_true, beq_iff_eq] at layout
  rcases layout with ((rfl | rfl) | rfl) | rfl <;> decide

theorem scansTo_mark (listed : (token.text.toList, token.kind) ∈ marks)
    (apart : token.text.toList ∈ [['='], ['!']] → following.head? ≠ some '=')
    (later : ScansTo following tokens) :
    ScansTo (token.text.toList ++ following) (token :: tokens) := by
  have all : ∀ mark ∈ marks, mark.2 ≠ .endOfInput ∧
      mark.1.head?.any (fun c => !isLayout c && c != '\x00') = true := by decide
  obtain ⟨more, starts⟩ := all _ listed
  refine scansTo_cons later more fun cursor front => ?_
  have found := markAt?_append listed apart
  obtain ⟨c, others, chars⟩ : ∃ c others, token.text.toList = c :: others := by
    cases chars : token.text.toList with
    | nil => simp [chars] at starts
    | cons c others => exact ⟨c, others, rfl⟩
  simp only [chars, List.head?_cons, Option.any_some, Bool.and_eq_true, Bool.not_eq_true',
    bne_iff_ne] at starts
  have step : cursor.next = cursor.readToken c :=
    Cursor.next_of_front (by rw [front, chars, List.cons_append]) starts.1 starts.2
  rw [step, Cursor.readToken, front, found]
  dsimp only
  rw [Cursor.text_read (by rw [front]; exact List.prefix_append _ _), String.ofList_toList]
  rfl

/-- The fences are neither letters nor digits. -/
theorem fences_outside (fenced : c ∈ fences) : isLetter c = false ∧ isDigit c = false := by
  have all : fences.all (fun c => !isLetter c && !isDigit c) = true := by decide
  simpa using List.all_eq_true.mp all c fenced

theorem not_mem_fences_of_isLetter (letter : isLetter c = true) : c ∉ fences := by
  intro fenced
  rw [(fences_outside fenced).1] at letter
  cases letter

theorem not_mem_fences_of_isDigit (digit : isDigit c = true) : c ∉ fences := by
  intro fenced
  rw [(fences_outside fenced).2] at digit
  cases digit

theorem isLetter_of_isDigit (digit : isDigit c = true) : isLetter c = false := by
  simp only [isDigit, isLetter, Bool.and_eq_true, decide_eq_true_eq, Char.le_def,
    UInt32.le_iff_toNat_le, Bool.or_eq_false_iff, Bool.and_eq_false_iff, decide_eq_false_iff_not,
    beq_eq_false_iff_ne] at digit ⊢
  have below : ∀ {least : Nat}, 58 ≤ least → ¬ least ≤ c.val.toNat := fun large =>
    Nat.not_le_of_lt (Nat.lt_of_le_of_lt digit.2 large)
  refine ⟨⟨.inl (below (by decide)), .inl (below (by decide))⟩, ?_⟩
  rintro rfl
  exact absurd digit.2 (by decide)

namespace Cursor

/-- A character that is no fence starts a word, a number or a stray character. -/
theorem next_of_plain (front : cursor.rest = c :: following) (plain : c ∉ fences) :
    cursor.next =
      if isLetter c then
        (⟨.ofWord cursor.readWord.1, cursor.readWord.1, cursor.position⟩, cursor.readWord.2)
      else if isDigit c then
        (⟨.int, cursor.readNumber.1, cursor.position⟩, cursor.readNumber.2)
      else
        (⟨.illegal, (cursor.read 1).1, cursor.position⟩, (cursor.read 1).2) := by
  have notNul : c ≠ '\x00' := by
    rintro rfl
    exact plain (by decide)
  have notQuote : c ≠ '\"' := by
    rintro rfl
    exact plain (by decide)
  rw [next_of_front front (isLayout_of_not_mem_fences plain) notNul, readToken, front,
    markAt?_of_not_mem_fences plain]
  exact if_neg notQuote

end Cursor

theorem scansTo_word (kind : token.kind = .ofWord token.text) (some : token.text ≠ "")
    (letters : ∀ c ∈ token.text.toList, isLetter c = true)
    (apart : ∀ c ∈ following.head?, isLetter c = false) (later : ScansTo following tokens) :
    ScansTo (token.text.toList ++ following) (token :: tokens) := by
  have more : token.kind ≠ .endOfInput := by
    rw [kind]
    exact TokenKind.ofWord_ne (by decide) (by decide)
  refine scansTo_cons later more fun cursor front => ?_
  obtain ⟨c, others, chars⟩ := List.exists_cons_of_ne_nil (mt String.toList_eq_nil_iff.mp some)
  have letter : isLetter c = true := letters c (by rw [chars]; exact List.mem_cons_self)
  have first : cursor.rest = c :: (others ++ following) := by
    rw [front, chars, List.cons_append]
  rw [Cursor.next_of_plain first (not_mem_fences_of_isLetter letter), if_pos letter,
    Cursor.readWord, Cursor.readWhile_of_front front letters apart, String.ofList_toList, kind]

theorem scansTo_number (kind : token.kind = .int) (some : token.text ≠ "")
    (digits : ∀ c ∈ token.text.toList, isDigit c = true)
    (apart : ∀ c ∈ following.head?, isDigit c = false) (later : ScansTo following tokens) :
    ScansTo (token.text.toList ++ following) (token :: tokens) := by
  refine scansTo_cons later (by rw [kind]; decide) fun cursor front => ?_
  obtain ⟨c, others, chars⟩ := List.exists_cons_of_ne_nil (mt String.toList_eq_nil_iff.mp some)
  have digit : isDigit c = true := digits c (by rw [chars]; exact List.mem_cons_self)
  have first : cursor.rest = c :: (others ++ following) := by
    rw [front, chars, List.cons_append]
  rw [Cursor.next_of_plain first (not_mem_fences_of_isDigit digit),
    if_neg (by simp [isLetter_of_isDigit digit]), if_pos digit, Cursor.readNumber,
    Cursor.readWhile_of_front front digits apart, String.ofList_toList, kind]

theorem scansTo_string (kind : token.kind = .string)
    (body : quotedBody token.text.toList = token.text.toList)
    (paired : endsUnpaired token.text.toList = false) (later : ScansTo following tokens) :
    ScansTo ('\"' :: (token.text.toList ++ '\"' :: following)) (token :: tokens) := by
  have written : '\"' :: (token.text.toList ++ '\"' :: following) =
      ('\"' :: (token.text.toList ++ ['\"'])) ++ following := by simp
  rw [written]
  refine scansTo_cons later (by rw [kind]; decide) fun cursor front => ?_
  rw [← written] at front
  have inside : quotedBody (cursor.rest.drop 1) = token.text.toList := by
    rw [front, List.drop_one, List.tail_cons, quotedBody_closed body paired]
  have step : cursor.next = cursor.readToken '\"' :=
    Cursor.next_of_front front (by decide) (by decide)
  have unmarked : markAt? cursor.rest = none := by
    rw [front]
    rfl
  have length : ('\"' :: (token.text.toList ++ ['\"'])).length =
      1 + token.text.toList.length + 1 := by
    rw [List.length_cons, List.length_append, List.length_singleton, Nat.add_comm 1]
  rw [step, Cursor.readToken, unmarked]
  dsimp only
  rw [if_pos rfl, Cursor.text_readString, Cursor.cursor_readString, inside, String.ofList_toList,
    kind, length]

end

end Scriptlet
