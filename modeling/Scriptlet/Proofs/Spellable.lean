/-
This file shows that reading undoes writing. `Spellable` lists the kinds and texts that a token
can have, without looking at how tokens are read. Written down with white space between them,
spellable pairs are read back as they are. And every token that is read is spellable, with one
exception: a string whose last backslash is unpaired. It was not closed, so it is the last token,
and no quote behind its text would close it.
-/

import Scriptlet.Proofs.Lossless

namespace Scriptlet

/-! ### The pairs that can be written -/

/-- Read from left to right, with each backslash hiding the next character, a text has no bare
quote and does not end right behind an unpaired backslash. -/
def quotable : List Char → Bool
  | [] => true
  | ['\\'] => false
  | '\\' :: _ :: rest => quotable rest
  | '\"' :: _ => false
  | _ :: rest => quotable rest

/-- The characters that a token can start with. -/
def startsToken (c : Char) : Bool :=
  c == '\"' || isLetter c || isDigit c || marks.any fun mark => mark.1.head? == some c

/-- The characters that are no token and stand alone: the two halves of marks that are no marks,
and those that no token starts with. -/
def isStray (c : Char) : Bool :=
  c == '&' || c == '|' || (!startsToken c && !isLayout c && c != '\x00')

/-- The kinds with their texts. -/
inductive Spellable (kind : TokenKind) (text : String) : Prop where
  | name (isName : kind = .ident) (some : text ≠ "")
      (letters : ∀ c ∈ text.toList, isLetter c = true) (free : text ∉ keywords.map Prod.fst)
  | keyword (listed : (text, kind) ∈ keywords)
  | number (isNumber : kind = .int) (some : text ≠ "")
      (digits : ∀ c ∈ text.toList, isDigit c = true)
  | mark (listed : (text.toList, kind) ∈ marks)
  | stray (isIllegal : kind = .illegal) {c : Char} (single : text = String.singleton c)
      (alone : isStray c = true)
  | string (isString : kind = .string) (closes : quotable text.toList = true)

theorem quotable_iff (chars : List Char) :
    quotable chars = true ↔ quotedBody chars = chars ∧ endsUnpaired chars = false := by
  fun_induction quotable chars with
  | case1 => decide
  | case2 => decide
  | case3 c rest inductionHypothesis => simp [quotedBody, endsUnpaired, inductionHypothesis]
  | case4 rest => simp [quotedBody]
  | case5 c rest notLast notHiding notQuote inductionHypothesis =>
    have plain : c ≠ '\\' := by
      rintro rfl
      cases rest with
      | nil => exact notLast rfl rfl
      | cons d others => exact notHiding d others rfl rfl
    rw [quotedBody_cons notQuote plain, endsUnpaired, inductionHypothesis, List.cons.injEq]
    · simp
    · exact notLast
    · exact notHiding

theorem not_mem_fences_of_not_startsToken {c : Char} (plain : startsToken c = false)
    (visible : isLayout c = false) (notNul : c ≠ '\x00') : c ∉ fences := by
  have all : fences.all (fun c => startsToken c || isLayout c || c == '\x00') = true := by decide
  intro fenced
  have known := List.all_eq_true.mp all c fenced
  simp [plain, visible, notNul] at known

theorem ofWord_of_mem_keywords : ∀ word ∈ keywords,
    word.2 = .ofWord word.1 ∧ word.1 ≠ "" ∧ word.1.toList.all isLetter = true := by
  decide

theorem kind_ne_string_of_mem_keywords : ∀ word ∈ keywords, word.2 ≠ .string := by
  decide

theorem kind_ne_string_of_mem_marks : ∀ mark ∈ marks, mark.2 ≠ .string := by
  decide

theorem ofWord_of_not_mem_keywords {text : String} (free : text ∉ keywords.map Prod.fst) :
    TokenKind.ofWord text = .ident := by
  rcases TokenKind.ofWord_cases text with name | listed
  · exact name
  · exact absurd (List.mem_map_of_mem listed) free

/-! ### From pairs to tokens -/

section

variable {following : List Char} {tokens : List Token} {token : Token} {c : Char}

theorem isStray_cases (alone : isStray c = true) :
    c ∈ ['&', '|'] ∨ (startsToken c = false ∧ isLayout c = false ∧ c ≠ '\x00') := by
  simp only [isStray, Bool.or_eq_true, Bool.and_eq_true, beq_iff_eq, Bool.not_eq_true',
    bne_iff_ne] at alone
  rcases alone with (rfl | rfl) | ⟨⟨plain, visible⟩, notNul⟩
  · exact .inl (by decide)
  · exact .inl (by decide)
  · exact .inr ⟨plain, visible, notNul⟩

theorem plain_of_isStray (alone : isStray c = true) :
    c ≠ '\"' ∧ isLetter c = false ∧ isDigit c = false ∧ isLayout c = false ∧ c ≠ '\x00' := by
  rcases isStray_cases alone with half | ⟨plain, visible, notNul⟩
  · have all : ['&', '|'].all (fun c => c != '\"' && !isLetter c && !isDigit c && !isLayout c &&
        c != '\x00') = true := by decide
    simpa [and_assoc] using List.all_eq_true.mp all c half
  · simp only [startsToken, Bool.or_eq_false_iff, beq_eq_false_iff_ne] at plain
    exact ⟨plain.1.1.1, plain.1.1.2, plain.1.2, visible, notNul⟩

/-- White space keeps half a mark from becoming one. -/
theorem markAt?_of_isStray (alone : isStray c = true)
    (apart : ∀ d ∈ following.head?, isLayout d = true) : markAt? (c :: following) = none := by
  rcases isStray_cases alone with half | ⟨plain, visible, notNul⟩
  · have all : ∀ mark ∈ marks, mark.1.head?.any ['&', '|'].contains = true →
        mark.1[1]?.any (fun d => !isLayout d) = true := by decide
    cases found : markAt? (c :: following) with
    | none => rfl
    | some mark =>
      obtain ⟨listed, others, fits⟩ := markAt?_eq_some found
      have first : mark.1.head? = some c := by
        cases chars : mark.1 with
        | nil => exact absurd (Cursor.markAt?_length_pos found) (by simp [chars])
        | cons d rest =>
          rw [chars, List.cons_append] at fits
          rw [List.head?_cons, (List.cons.inj fits).1]
      have visible := all mark listed (by rw [first]; simpa using half)
      obtain ⟨d, second, visible⟩ := (Option.any_eq_true _ _).mp visible
      have follows : d ∈ following.head? := by
        obtain ⟨inside, -⟩ := List.getElem?_eq_some_iff.mp second
        rw [List.head?_eq_getElem?, ← List.getElem?_cons_succ (a := c), ← fits,
          List.getElem?_append_left inside]
        exact second
      simp [apart d follows] at visible
  · exact markAt?_of_not_mem_fences (not_mem_fences_of_not_startsToken plain visible notNul)

theorem scansTo_stray (kind : token.kind = .illegal) (text : token.text = String.singleton c)
    (alone : isStray c = true) (apart : ∀ d ∈ following.head?, isLayout d = true)
    (later : ScansTo following tokens) :
    ScansTo (token.text.toList ++ following) (token :: tokens) := by
  rw [text, String.toList_singleton]
  refine scansTo_cons later (by rw [kind]; decide) fun cursor front => ?_
  obtain ⟨notQuote, noLetter, noDigit, visible, notNul⟩ := plain_of_isStray alone
  rw [Cursor.next_of_front front visible notNul, Cursor.readToken, front]
  rw [List.singleton_append, markAt?_of_isStray alone apart]
  simp only [notQuote, noLetter, noDigit, if_false, Bool.false_eq_true, kind, text]
  rw [Cursor.read, front]
  rfl

/-- A spellable pair is read back where white space or nothing follows. -/
theorem scansTo_lexeme (spellable : Spellable token.kind token.text)
    (apart : ∀ d ∈ following.head?, isLayout d = true) (later : ScansTo following tokens) :
    ScansTo (lexeme token.kind token.text ++ following) (token :: tokens) := by
  have outside : (∀ d ∈ following.head?, isLetter d = false) ∧
      ∀ d ∈ following.head?, isDigit d = false :=
    forall₂_and.mp fun d first => fences_outside (mem_fences_of_isLayout (apart d first)).1
  have asText (notString : token.kind ≠ .string)
      (scans : ScansTo (token.text.toList ++ following) (token :: tokens)) :
      ScansTo (lexeme token.kind token.text ++ following) (token :: tokens) := by
    rw [lexeme, if_neg notString]
    exact scans
  cases spellable with
  | name isName some letters free =>
    refine asText (by rw [isName]; decide) (scansTo_word ?_ some letters outside.1 later)
    rw [isName, ofWord_of_not_mem_keywords free]
  | keyword listed =>
    obtain ⟨kind, some, letters⟩ := ofWord_of_mem_keywords _ listed
    exact asText (kind_ne_string_of_mem_keywords _ listed)
      (scansTo_word kind some (List.all_eq_true.mp letters) outside.1 later)
  | number isNumber some digits =>
    exact asText (by rw [isNumber]; decide)
      (scansTo_number isNumber some digits outside.2 later)
  | mark listed =>
    refine asText (kind_ne_string_of_mem_marks _ listed)
      (scansTo_mark listed (fun _ first => ?_) later)
    exact (mem_fences_of_isLayout (apart '=' first)).2 rfl
  | stray isIllegal single alone =>
    exact asText (by rw [isIllegal]; decide) (scansTo_stray isIllegal single alone apart later)
  | string isString closes =>
    obtain ⟨body, paired⟩ := (quotable_iff _).mp closes
    have scans := scansTo_string isString body paired later
    rw [lexeme, if_pos isString, List.cons_append, List.append_assoc]
    exact scans

end

/-- Pieces that are kept apart by white space are read back. -/
theorem scansTo_written {pieces : List Piece} {gap : List Char} (position : Position)
    (spellable : ∀ piece ∈ pieces, Spellable piece.kind piece.text)
    (apart : ∀ piece ∈ pieces.tail, piece.gap ≠ []) (layout : ∀ c ∈ gap, isLayout c = true) :
    ScansTo (written pieces ++ gap)
      (pieces.map fun piece => ⟨piece.kind, piece.text, position⟩) := by
  induction pieces with
  | nil =>
    have scans := scansTo_allLayout layout scansTo_nil
    rwa [List.append_nil] at scans
  | cons piece rest inductionHypothesis =>
    rw [List.forall_mem_cons] at spellable
    rw [List.tail_cons] at apart
    have later := inductionHypothesis spellable.2 fun other member =>
      apart other (List.mem_of_mem_tail member)
    rw [written_cons, List.append_assoc, List.append_assoc]
    let token : Token := ⟨piece.kind, piece.text, position⟩
    show ScansTo (piece.gap ++ (lexeme token.kind token.text ++ _)) (token :: _)
    refine scansTo_allLayout piece.layout (scansTo_lexeme spellable.1 ?_ later)
    cases rest with
    | nil => exact fun d first => layout d (List.mem_of_mem_head? first)
    | cons next others =>
      obtain ⟨c, more, chars⟩ := List.exists_cons_of_ne_nil (apart next List.mem_cons_self)
      rw [written_cons, chars]
      rintro d ⟨rfl⟩
      exact next.layout c (by rw [chars]; exact List.mem_cons_self)

/-! ### From tokens to pairs -/

namespace Cursor

variable {cursor : Cursor} {c : Char} {following : List Char}

/-- A character at which no token starts and no mark stands is stray. -/
theorem isStray_of_unmarked (unmarked : markAt? (c :: following) = none) (notQuote : c ≠ '\"')
    (noLetter : isLetter c = false) (noDigit : isDigit c = false) (visible : isLayout c = false)
    (notNul : c ≠ '\x00') : isStray c = true := by
  have all : ∀ mark ∈ marks,
      mark.1.head?.all (fun c => isStray c || (marks.map Prod.fst).contains [c]) = true := by
    decide
  cases starts : startsToken c with
  | false => simp [isStray, starts, visible, notNul]
  | true =>
    simp only [startsToken, Bool.or_eq_true, beq_iff_eq, notQuote, noLetter, noDigit,
      Bool.false_eq_true, false_or, List.any_eq_true] at starts
    obtain ⟨mark, listed, first⟩ := starts
    have known := all mark listed
    rw [first, Option.all_some, Bool.or_eq_true, List.contains_iff_mem] at known
    rcases known with alone | single
    · exact alone
    · obtain ⟨⟨chars, kind⟩, listed, rfl⟩ := List.mem_map.mp single
      have unfit := List.find?_eq_none.mp unmarked _ listed
      simp at unfit

theorem readToken_of_illegal (front : cursor.rest = c :: following) (visible : isLayout c = false)
    (notNul : c ≠ '\x00') (kind : (cursor.readToken c).1.kind = .illegal) :
    (cursor.readToken c).1.text = String.singleton c ∧ isStray c = true := by
  unfold readToken at kind ⊢
  dsimp only at kind ⊢
  split at kind
  · next mark markKind found =>
    have all : ∀ mark ∈ marks, mark.2 ≠ .illegal := by decide
    exact absurd kind (all _ (markAt?_eq_some found).1)
  · next unmarked =>
    rw [front] at unmarked
    split at kind
    · cases kind
    · next notQuote =>
      split at kind
      · exact absurd kind (TokenKind.ofWord_ne (by decide) (by decide))
      · next noLetter =>
        split at kind
        · cases kind
        · next noDigit =>
          rw [if_neg notQuote, if_neg noLetter, if_neg noDigit, read, front]
          rw [Bool.not_eq_true] at noLetter noDigit
          exact ⟨rfl, isStray_of_unmarked unmarked notQuote noLetter noDigit visible notNul⟩

theorem next_of_illegal (kind : cursor.next.1.kind = .illegal) :
    ∃ c, cursor.next.1.text = String.singleton c ∧ isStray c = true := by
  unfold next at kind ⊢
  dsimp only at kind ⊢
  split at kind
  · cases kind
  · next c following front =>
    split at kind
    · cases kind
    · next notNul =>
      have visible : isLayout c = false := by
        have outside := List.head?_dropWhile_not isLayout cursor.rest
        rw [← rest_skipLayout, front] at outside
        exact outside
      rw [if_neg notNul]
      exact ⟨c, readToken_of_illegal front visible notNul kind⟩

/-- What is read is spellable, or a string that no quote would close. -/
theorem spellable_next (more : cursor.next.1.kind ≠ .endOfInput) :
    Spellable cursor.next.1.kind cursor.next.1.text ∨
      (cursor.next.1.kind = .string ∧ endsUnpaired cursor.next.1.text.toList = true) := by
  cases spelled_next more with
  | mark listed => exact .inl (.mark listed)
  | string kind body =>
    cases unpaired : endsUnpaired cursor.next.1.text.toList with
    | false => exact .inl (.string kind ((quotable_iff _).mpr ⟨body, unpaired⟩))
    | true => exact .inr ⟨kind, rfl⟩
  | word kind some letters =>
    left
    by_cases free : cursor.next.1.text ∈ keywords.map Prod.fst
    · obtain ⟨⟨text, listedKind⟩, listed, same⟩ := List.mem_map.mp free
      refine .keyword ?_
      rw [kind, ← same, ← (ofWord_of_mem_keywords _ listed).1]
      exact listed
    · exact .name (by rw [kind, ofWord_of_not_mem_keywords free]) some letters free
  | number kind some digits => exact .inl (.number kind some digits)
  | stray kind =>
    obtain ⟨c, single, alone⟩ := next_of_illegal kind
    exact .inl (.stray kind single alone)

/-- Every token is spellable; only the last one may be a string that no quote would close. -/
theorem spellable_scan (cursor : Cursor) :
    (∀ token ∈ cursor.scan.tokens.dropLast, Spellable token.kind token.text) ∧
      ∀ token ∈ cursor.scan.tokens.getLast?, Spellable token.kind token.text ∨
        (token.kind = .string ∧ endsUnpaired token.text.toList = true) := by
  fun_induction scan cursor with
  | case1 cursor ended =>
    refine ⟨List.forall_mem_nil _, fun token last => ?_⟩
    cases last
  | case2 cursor more later inductionHypothesis =>
    have read := spellable_next more
    cases others : later.tokens with
    | nil =>
      refine ⟨List.forall_mem_nil _, ?_⟩
      rintro token ⟨rfl⟩
      exact read
    | cons second rest =>
      have first : Spellable cursor.next.1.kind cursor.next.1.text := by
        rcases read with spellable | ⟨kind, unpaired⟩
        · exact spellable
        · have ended : later.tokens = [] :=
            scan_of_rest_nil (rest_next_of_endsUnpaired kind unpaired)
          rw [others] at ended
          cases ended
      rw [others] at inductionHypothesis
      rw [List.dropLast_cons_cons, List.getLast?_cons_cons, List.forall_mem_cons]
      exact ⟨⟨first, inductionHypothesis.1⟩, inductionHypothesis.2⟩

end Cursor

/-- Reading undoes writing, and what is read can be written. -/
theorem tokenize_written :
    (∀ (pieces : List Piece) (gap : List Char),
      (∀ piece ∈ pieces, Spellable piece.kind piece.text) →
      (∀ piece ∈ pieces.tail, piece.gap ≠ []) → (∀ c ∈ gap, isLayout c = true) →
      (tokenize (String.ofList (written pieces ++ gap))).map Token.bare =
        pieces.map Piece.bare ++ [(.endOfInput, "")]) ∧
    ∀ source : String, ∃ tokens closing, tokenize source = tokens ++ [closing] ∧
      closing.bare = (.endOfInput, "") ∧
      (∀ token ∈ tokens.dropLast, Spellable token.kind token.text) ∧
      ∀ token ∈ tokens.getLast?, Spellable token.kind token.text ∨
        (token.Unclosed source ∧ endsUnpaired token.text.toList = true) := by
  constructor
  · intro pieces gap spellable apart layout
    have scans := scansTo_written .first spellable apart layout
    rw [tokenize, List.map_append, scans _ (String.toList_ofList), List.map_map]
    exact congrArg _ (congrArg (fun bare => [bare]) (Cursor.bare_closing_scan _))
  · intro source
    obtain ⟨earlier, last⟩ := (Cursor.ofText source).spellable_scan
    refine ⟨_, _, rfl, Cursor.bare_closing_scan _, earlier, fun token isLast => ?_⟩
    rcases last token isLast with spellable | ⟨kind, unpaired⟩
    · exact .inl spellable
    · have member := List.mem_of_getLast? isLast
      obtain ⟨-, unclosed⟩ := (Cursor.ofText source).unclosed_of_mem_scan token member kind unpaired
      exact .inr ⟨⟨kind, unclosed⟩, unpaired⟩

/-- A keyword, a name, half a mark and a string with a hidden quote are read back. -/
theorem tokenize_written_of_strayed_let :
    let pieces : List Piece :=
      [⟨[], List.all_eq_true.mp rfl, .letWord, "let"⟩,
        ⟨[' '], List.all_eq_true.mp rfl, .ident, "a_b"⟩,
        ⟨['\t', '\n'], List.all_eq_true.mp rfl, .illegal, "&"⟩,
        ⟨['\r'], List.all_eq_true.mp rfl, .string, "x\\\"\\\\"⟩]
    (tokenize "let a_b\t\n&\r\"x\\\"\\\\\" ").map Token.bare =
      pieces.map Piece.bare ++ [(.endOfInput, "")] := by
  intro pieces
  refine tokenize_written.1 pieces [' '] ?_ (by simp [pieces]) (List.all_eq_true.mp rfl)
  simp only [pieces, List.forall_mem_cons]
  refine ⟨.keyword (by decide), .name rfl (by decide) (List.all_eq_true.mp rfl) (by decide),
    .stray rfl (c := '&') rfl (by decide), .string rfl (by decide), nofun⟩

end Scriptlet
