/-
This file cuts a source along its tokens and keeps the places of the cuts. A `Cut` is a token with
the characters that it was read from, the white space in front of them, and all that stands before
and behind. The cuts of a source follow one another: each begins where the one before it stops, and
behind the last one there is only white space up to the place where reading stops.

Lines and columns are counted here by `Position.behind`, out of all the characters that stand
before a place. A cursor that moves on counts them one character at a time and comes to the same
place, so wherever it stands it is the cursor behind what it has read.
-/

import Scriptlet.Proofs.Lossless

namespace Scriptlet

/-! ### Places -/

/-- The place behind some characters at the front of a text: one line more than there are line
feeds, and one column more than there are characters behind the last line feed. -/
def Position.behind (chars : List Char) : Position :=
  ⟨1 + chars.count '\n', 1 + (chars.reverse.takeWhile (· ≠ '\n')).length⟩

example : Position.behind ['a', '\n', 'b', 'c'] = ⟨2, 3⟩ := by decide

theorem Position.after_behind (chars : List Char) (c : Char) :
    (behind chars).after c = behind (chars ++ [c]) := by
  unfold after behind
  rw [List.count_append, List.reverse_append, List.reverse_singleton, List.singleton_append]
  by_cases feed : c = '\n'
  · rw [if_pos feed, feed, List.takeWhile_cons_of_neg (by decide), List.count_singleton_self]
    rfl
  · rw [if_neg feed, List.takeWhile_cons_of_pos (by simpa using feed), List.length_cons,
      List.count_eq_zero_of_not_mem (mt List.mem_singleton.mp (Ne.symm feed))]
    rfl

theorem Position.afterAll_behind (front chars : List Char) :
    (behind front).afterAll chars = behind (front ++ chars) := by
  induction chars generalizing front with
  | nil => rw [afterAll_nil, List.append_nil]
  | cons c rest inductionHypothesis =>
    show ((behind front).after c).afterAll rest = _
    rw [after_behind, inductionHypothesis, List.append_assoc, List.singleton_append]

namespace Cursor

/-- The cursor that has read some characters of a text and has others before it. -/
def behind (read rest : List Char) : Cursor :=
  ⟨rest, read.length, .behind read⟩

theorem advance_behind (read rest : List Char) (count : Nat) :
    (behind read rest).advance count = behind (read ++ rest.take count) (rest.drop count) := by
  simp only [advance, behind, Position.afterAll_behind, List.length_append]

theorem skipLayout_behind (read rest : List Char) :
    (behind read rest).skipLayout =
      behind (read ++ rest.takeWhile isLayout) (rest.dropWhile isLayout) := by
  have skipped : rest.take (rest.takeWhile isLayout).length = rest.takeWhile isLayout :=
    (List.prefix_iff_eq_take.mp (List.takeWhile_prefix isLayout)).symm
  have left : rest.drop (rest.takeWhile isLayout).length = rest.dropWhile isLayout :=
    (behind read rest).rest_skipLayout
  show (behind read rest).advance (rest.takeWhile isLayout).length = _
  rw [advance_behind, skipped, left]

/-- A token has the place that white space leaves the cursor on. -/
theorem position_next (cursor : Cursor) : cursor.next.1.position = cursor.skipLayout.position := by
  unfold next
  dsimp only
  split
  · rfl
  · split
    · rfl
    · unfold readToken
      dsimp only
      split
      · rfl
      · split
        · rfl
        · split
          · rfl
          · split <;> rfl

end Cursor

/-! ### Cuts -/

/-- A token with the characters that it was read from, between all that stands before and behind
them. -/
structure Cut where
  before : List Char
  gap : List Char
  lexeme : List Char
  behind : List Char
  token : Token

namespace Cut

/-- What stands before the lexeme. -/
def start (cut : Cut) : List Char :=
  cut.before ++ cut.gap

/-- What stands before the place where the lexeme ends. -/
def stop (cut : Cut) : List Char :=
  cut.start ++ cut.lexeme

/-- The text from the lexeme on. -/
def onward (cut : Cut) : List Char :=
  cut.lexeme ++ cut.behind

/-- The cursor that stands before the lexeme. -/
def cursor (cut : Cut) : Cursor :=
  .behind cut.start cut.onward

/-- The lexeme of the token stands in the source at the place of the token, behind white space. It
is the text of the token, and for a string the quotes around it; only at the end of the source may
the closing one be missing. -/
structure Of (source : List Char) (cut : Cut) : Prop where
  split : source = cut.stop ++ cut.behind
  layout : ∀ c ∈ cut.gap, isLayout c = true
  some : cut.lexeme ≠ []
  written : cut.lexeme = Scriptlet.lexeme cut.token.kind cut.token.text ∨
    (cut.token.kind = .string ∧ cut.behind = [] ∧ cut.lexeme = '\"' :: cut.token.text.toList)
  place : cut.token.position = .behind cut.start

/-- The token is what a cursor reads at the lexeme, and the cursor then stands behind it. -/
structure Read (cut : Cut) : Prop where
  visible : ∀ c ∈ cut.onward.head?, isLayout c = false ∧ c ≠ '\x00'
  reads : cut.cursor.next = (cut.token, .behind cut.stop cut.behind)

end Cut

/-- Cuts that follow one another in a source, from one place to another. -/
inductive Cuts (source : List Char) : List Char → List Cut → List Char → Prop where
  | none {read : List Char} : Cuts source read [] read
  | next {cut : Cut} {later : List Cut} {reached : List Char} (of : cut.Of source)
      (others : Cuts source cut.stop later reached) :
      Cuts source cut.before (cut :: later) reached

theorem Cuts.forall_of {source read reached : List Char} {cuts : List Cut}
    (chain : Cuts source read cuts reached) : ∀ cut ∈ cuts, cut.Of source := by
  induction chain with
  | none => exact List.forall_mem_nil _
  | next of _ inductionHypothesis => exact List.forall_mem_cons.mpr ⟨of, inductionHypothesis⟩

theorem Cuts.read_isPrefix {source read reached : List Char} {cuts : List Cut}
    (chain : Cuts source read cuts reached) : read <+: reached := by
  induction chain with
  | none => exact List.prefix_rfl
  | @next cut _ _ _ _ inductionHypothesis =>
    have behind : cut.before <+: cut.stop := by
      rw [Cut.stop, Cut.start, List.append_assoc]
      exact List.prefix_append _ _
    exact behind.trans inductionHypothesis

/-! ### The tokens of a source -/

/-- The cuts of a source from a place on: they give the tokens of a scan, and behind the last one
there is white space up to the end of the source or to a NUL, where the closing token is. -/
structure Divided (source read : List Char) (scan : Cursor.Scan) (cuts : List Cut)
    (reached gap unread : List Char) : Prop where
  chain : Cuts source read cuts reached
  tokens : cuts.map Cut.token = scan.tokens
  split : source = reached ++ gap ++ unread
  layout : ∀ c ∈ gap, isLayout c = true
  stops : ∀ c ∈ unread.head?, c = '\x00'
  closing : scan.closing = ⟨.endOfInput, "", .behind (reached ++ gap)⟩
  cursor : scan.cursor = .behind (reached ++ gap) unread

namespace Cursor

variable {cursor : Cursor} {read rest : List Char}

/-- The characters between the white space and what is left are those of the token. A string that
is not closed has run to the end. -/
theorem exists_lexeme (more : cursor.next.1.kind ≠ .endOfInput) :
    ∃ chars, cursor.skipLayout.rest = chars ++ cursor.next.2.rest ∧ chars ≠ [] ∧
      (chars = lexeme cursor.next.1.kind cursor.next.1.text ∨
        (cursor.next.1.kind = .string ∧ cursor.next.2.rest = [] ∧
          chars = '\"' :: cursor.next.1.text.toList)) := by
  obtain ⟨closed | ⟨string, ends, unclosed⟩, visible⟩ := splits_next more
  · exact ⟨_, closed, visible, .inl rfl⟩
  · refine ⟨_, ?_, List.cons_ne_nil _ _, .inr ⟨string, ends, rfl⟩⟩
    rw [ends, List.append_nil]
    refine @List.append_cancel_right _ _ ['\"'] _ (unclosed.trans ?_)
    rw [lexeme, if_pos string, List.cons_append]

/-- Where reading a token ends is known from what is left. -/
theorem next_behind {stop : List Char}
    (split : read ++ rest = stop ++ (behind read rest).next.2.rest) :
    (behind read rest).next.2 = behind stop (behind read rest).next.2.rest := by
  obtain ⟨count, moved⟩ := (behind read rest).exists_next_eq_advance
  rw [moved, advance_behind] at split ⊢
  have reached : read ++ rest.take count = stop := by
    refine List.append_cancel_right (Eq.trans ?_ split)
    rw [List.append_assoc]
    exact congrArg (read ++ ·) (List.take_append_drop count rest)
  rw [reached]
  rfl

theorem next_skipLayout (cursor : Cursor) : cursor.skipLayout.next = cursor.next := by
  rw [next, next, skipLayout_skipLayout]

/-- A token that is not the closing one starts with neither white space nor a NUL. -/
theorem visible_of_more (more : cursor.next.1.kind ≠ .endOfInput) :
    ∀ c ∈ cursor.skipLayout.rest.head?, isLayout c = false ∧ c ≠ '\x00' := by
  intro c first
  constructor
  · have outside := List.head?_dropWhile_not isLayout cursor.rest
    rw [← rest_skipLayout, Option.mem_def.mp first] at outside
    exact outside
  · rintro rfl
    obtain ⟨following, front⟩ := List.head?_eq_some_iff.mp first
    refine more ?_
    rw [next, front]
    rfl

/-- Every token but the closing one makes a cut. -/
theorem exists_cut (more : (behind read rest).next.1.kind ≠ .endOfInput) :
    ∃ cut : Cut, cut.before = read ∧ cut.Of (read ++ rest) ∧ cut.Read ∧
      (behind read rest).next = (cut.token, .behind cut.stop cut.behind) := by
  obtain ⟨chars, onward, some, written⟩ := exists_lexeme more
  have visible := visible_of_more more
  rw [onward] at visible
  have start := skipLayout_behind read rest
  rw [show rest.dropWhile isLayout = _ from (rest_skipLayout _).symm.trans onward] at start
  have split : read ++ rest =
      read ++ rest.takeWhile isLayout ++ chars ++ (behind read rest).next.2.rest := by
    rw [List.append_assoc, List.append_assoc, ← onward, rest_skipLayout]
    exact congrArg (read ++ ·) List.takeWhile_append_dropWhile.symm
  have place : (behind read rest).next.1.position = .behind (read ++ rest.takeWhile isLayout) := by
    rw [position_next, skipLayout_behind]
    rfl
  have reads : (behind read rest).next = ((behind read rest).next.1,
      .behind (read ++ rest.takeWhile isLayout ++ chars) (behind read rest).next.2.rest) :=
    Prod.ext rfl (next_behind split)
  refine ⟨⟨read, rest.takeWhile isLayout, chars, (behind read rest).next.2.rest,
    (behind read rest).next.1⟩, rfl,
    ⟨split, fun c => List.mem_takeWhile_imp, some, written, place⟩, ⟨visible, ?_⟩, reads⟩
  show (behind (read ++ rest.takeWhile isLayout)
    (chars ++ (behind read rest).next.2.rest)).next = _
  rw [← start, next_skipLayout]
  exact reads

/-- Every source is cut along its tokens. -/
theorem divided_scan (read rest : List Char) :
    ∃ cuts reached gap unread,
      Divided (read ++ rest) read (behind read rest).scan cuts reached gap unread ∧
        ∀ cut ∈ cuts, cut.Read := by
  generalize same : behind read rest = cursor
  fun_induction scan cursor generalizing read rest with
  | case1 cursor ended =>
    subst same
    obtain ⟨stays, stops⟩ := next_of_ended ended
    rw [skipLayout_behind] at stays stops
    refine ⟨[], read, rest.takeWhile isLayout, rest.dropWhile isLayout, ?_,
      List.forall_mem_nil _⟩
    refine ⟨.none, rfl, ?_, fun c => List.mem_takeWhile_imp, stops, ?_, ?_⟩
    · rw [List.append_assoc, List.takeWhile_append_dropWhile]
    · rw [stays]
      rfl
    · rw [stays]
  | case2 cursor more later inductionHypothesis =>
    subst same
    obtain ⟨cut, rfl, of, isRead, reads⟩ := exists_cut more
    have source : cut.before ++ rest = cut.stop ++ cut.behind := of.split
    obtain ⟨cuts, reached, gap, unread, divided, areRead⟩ :=
      inductionHypothesis cut.stop cut.behind (by rw [reads])
    rw [← source] at divided
    refine ⟨cut :: cuts, reached, gap, unread,
      ⟨.next of divided.chain, ?_, divided.split, divided.layout, divided.stops, divided.closing,
        divided.cursor⟩, List.forall_mem_cons.mpr ⟨isRead, areRead⟩⟩
    rw [List.map_cons, divided.tokens]
    exact congrArg (· :: later.tokens) (congrArg Prod.fst reads).symm

end Cursor

end Scriptlet
