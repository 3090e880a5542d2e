/-
This file shows that colouring changes nothing but the colour. The highlighter does not follow the
cursor that reads the tokens: it finds each token again from its column and the length of its text,
and guesses whether the closing quote of a string is there. On a text of one line the places that it
finds are those of the cuts, so the fragments are the lexemes with the white space between them.

A document keeps the lines that it has coloured. What it keeps is what colouring them again would
give, and so it does not matter in which order and how often its lines are asked for.
-/

import Mathlib.Data.List.Basic
import Scriptlet.Highlight
import Scriptlet.Proofs.Cutting

namespace Scriptlet.Highlight

/-! ### Fragments of a cut -/

/-- The text of some fragments, without their styles. -/
def joined (fragments : List Fragment) : String :=
  String.join (fragments.map Fragment.text)

/-- Text without a style. Where there is none there is no fragment. -/
def unstyled (chars : List Char) : List Fragment :=
  if chars = [] then [] else [⟨"", String.ofList chars⟩]

/-- The lexeme of a cut in the style of its token, behind the white space before it. -/
def ofCut (cut : Cut) : List Fragment :=
  unstyled cut.gap ++ [⟨(group cut.token).style, String.ofList cut.lexeme⟩]

theorem slice_append (front middle back : List Char) :
    slice (front ++ middle ++ back) front.length (front ++ middle).length =
      String.ofList middle := by
  rw [slice, List.take_left, List.drop_left]

/-- Text between two places is unstyled, and left out when the places are the same. -/
theorem unstyled_slice (front middle back : List Char) :
    (if front.length < (front ++ middle).length then
      [⟨"", slice (front ++ middle ++ back) front.length (front ++ middle).length⟩] else []) =
      unstyled middle := by
  rw [slice_append, unstyled]
  by_cases nothing : middle = []
  · rw [if_neg (by rw [nothing, List.append_nil]; exact Nat.lt_irrefl _), if_pos nothing]
  · rw [if_neg nothing, if_pos]
    rw [List.length_append]
    exact Nat.lt_add_of_pos_right (List.length_pos_iff.mpr nothing)

/-! ### The places of tokens -/

theorem column_behind {chars : List Char} (oneLine : '\n' ∉ chars) :
    (Position.behind chars).column = chars.length + 1 := by
  have whole : chars.reverse.takeWhile (· ≠ '\n') = chars.reverse := by
    rw [List.takeWhile_eq_self_iff]
    intro c member
    refine decide_eq_true fun feed => oneLine ?_
    rw [← feed]
    exact List.mem_reverse.mp member
  show 1 + (chars.reverse.takeWhile (· ≠ '\n')).length = _
  rw [whole, List.length_reverse, Nat.add_comm]

/-- On one line a token starts where its column says. -/
theorem column_cut {chars : List Char} {cut : Cut} (oneLine : '\n' ∉ chars) (of : cut.Of chars) :
    cut.token.position.column - 1 = cut.start.length := by
  have before : '\n' ∉ cut.start := by
    intro member
    refine oneLine ?_
    rw [of.split, Cut.stop, List.append_assoc]
    exact List.mem_append_left _ member
  rw [of.place, column_behind before, Nat.add_sub_cancel]

/-- The place that the highlighter finds for a token is that of its lexeme. -/
theorem extent_cut {chars : List Char} {cut : Cut} (oneLine : '\n' ∉ chars) (of : cut.Of chars) :
    extent chars cut.token = (cut.start.length, cut.stop.length) := by
  have inner : cut.start.length + cut.token.text.length + 1 =
      (cut.start ++ '\"' :: cut.token.text.toList).length := by
    rw [List.length_append, List.length_cons, String.length_toList, Nat.add_assoc]
  unfold extent
  dsimp only
  rw [column_cut oneLine of]
  rcases of.written with written | ⟨string, ends, written⟩
  · rw [lexeme] at written
    split at written
    · next string =>
      have closed : cut.stop = cut.start ++ '\"' :: cut.token.text.toList ++ ['\"'] := by
        rw [Cut.stop, written, List.append_assoc, List.cons_append]
      have quote : chars[(cut.start ++ '\"' :: cut.token.text.toList).length]? = some '\"' := by
        rw [of.split, closed, List.append_assoc, List.getElem?_append_right (Nat.le_refl _),
          Nat.sub_self]
        rfl
      rw [if_pos string, inner, if_pos quote, closed, @List.length_append _ _ ['\"'],
        List.length_singleton]
    · next notString =>
      rw [if_neg notString, Cut.stop, written, List.length_append, String.length_toList]
  · -- Nothing stands behind a string that is not closed, so there is no quote to find.
    have missing : chars[(cut.start ++ '\"' :: cut.token.text.toList).length]? ≠ some '\"' := by
      rw [of.split, ends, List.append_nil, Cut.stop, written, List.getElem?_eq_none (Nat.le_refl _)]
      exact (Option.some_ne_none _).symm
    rw [if_pos string, inner, if_neg missing, Cut.stop, written]

/-- The fragments from a place on are those of the cuts from there on. -/
theorem fragmentsFrom_cuts {chars read reached tail : List Char} {cuts : List Cut}
    (oneLine : '\n' ∉ chars) (chain : Cuts chars read cuts reached)
    (split : chars = reached ++ tail) :
    fragmentsFrom chars read.length (cuts.map Cut.token) =
      cuts.flatMap ofCut ++ unstyled tail := by
  induction chain with
  | @none read =>
    rw [split]
    have last := unstyled_slice read tail []
    rw [List.append_nil] at last
    exact last
  | @next cut later reached of others inductionHypothesis =>
    have gap := unstyled_slice cut.before cut.gap (cut.lexeme ++ cut.behind)
    have lexeme := slice_append cut.start cut.lexeme cut.behind
    have onLine : cut.before ++ cut.gap ++ (cut.lexeme ++ cut.behind) = chars := by
      rw [of.split, Cut.stop, Cut.start, List.append_assoc _ cut.lexeme]
    rw [onLine] at gap
    rw [← Cut.stop, ← of.split] at lexeme
    rw [List.map_cons, fragmentsFrom, extent_cut oneLine of]
    dsimp only
    rw [inductionHypothesis split, lexeme]
    show _ = (ofCut cut ++ _) ++ _
    rw [ofCut, ← gap, List.append_assoc, List.append_assoc]
    rfl

/-! ### Nothing is lost -/

theorem joined_append (first second : List Fragment) :
    (joined (first ++ second)).toList = (joined first).toList ++ (joined second).toList := by
  rw [joined, joined, joined, List.map_append, String.toList_join, String.toList_join,
    String.toList_join, List.flatMap_append]

theorem joined_singleton (fragment : Fragment) : joined [fragment] = fragment.text := by
  refine String.toList_inj.mp ?_
  rw [joined, List.map_singleton, String.toList_join, List.flatMap_singleton]

theorem joined_unstyled (chars : List Char) : (joined (unstyled chars)).toList = chars := by
  rw [unstyled]
  by_cases nothing : chars = []
  · rw [if_pos nothing, nothing]
    rfl
  · rw [if_neg nothing, joined_singleton, String.toList_ofList]

/-- What was read and the fragments of the cuts make up what is reached. -/
theorem joined_cuts {chars read reached : List Char} {cuts : List Cut}
    (chain : Cuts chars read cuts reached) :
    read ++ (joined (cuts.flatMap ofCut)).toList = reached := by
  induction chain with
  | none => exact List.append_nil _
  | @next cut later reached of others inductionHypothesis =>
    have colours : (joined (ofCut cut)).toList = cut.gap ++ cut.lexeme := by
      rw [ofCut, joined_append, joined_unstyled, joined_singleton, String.toList_ofList]
    rw [List.flatMap_cons, joined_append, colours, ← List.append_assoc, ← List.append_assoc]
    exact inductionHypothesis

/-- The fragments of one line that is not empty: those of its cuts, and one for what stands behind
them. -/
theorem line_eq {text : String} {cuts : List Cut} {reached gap unread : List Char}
    (oneLine : '\n' ∉ text.toList) (some : text ≠ "")
    (divided : Divided text.toList [] (Cursor.ofText text).scan cuts reached gap unread) :
    line text = cuts.flatMap ofCut ++ unstyled (gap ++ unread) := by
  have split : text.toList = reached ++ (gap ++ unread) := by
    rw [divided.split, List.append_assoc]
  have fragments := fragmentsFrom_cuts oneLine divided.chain split
  rw [divided.tokens] at fragments
  rw [line, if_neg (by simpa using some), show 0 = ([] : List Char).length from rfl, fragments]
  split
  · next none =>
    -- Without a fragment there is nothing in the text.
    have whole := joined_cuts divided.chain
    rw [List.append_eq_nil_iff] at none
    rw [none.1, List.nil_append] at whole
    have tail := joined_unstyled (gap ++ unread)
    rw [none.2] at tail
    refine absurd (String.toList_eq_nil_iff.mp ?_) some
    rw [split, ← whole, ← tail]
    rfl
  · rfl

theorem joined_line {text : String} (oneLine : '\n' ∉ text.toList) : joined (line text) = text := by
  by_cases none : text = ""
  · rw [none]
    rfl
  · obtain ⟨cuts, reached, gap, unread, divided, -⟩ := Cursor.divided_scan [] text.toList
    refine String.toList_inj.mp ?_
    rw [line_eq oneLine none divided, joined_append, joined_unstyled]
    have whole := joined_cuts divided.chain
    rw [List.nil_append] at whole
    rw [whole, ← List.append_assoc]
    exact divided.split.symm

/-! ### Documents -/

/-- What a document knows is what colouring gives. -/
def Document.Faithful (document : Document) : Prop :=
  ∀ entry ∈ document.known, entry.2 = documentLine document.text entry.1

theorem Document.faithful_ofText (text : String) : (ofText text).Faithful :=
  List.forall_mem_nil _

theorem Document.ask_of_faithful {document : Document} (faithful : document.Faithful)
    (number : Nat) :
    (document.ask number).1 = documentLine document.text number ∧
      (document.ask number).2.Faithful ∧ (document.ask number).2.text = document.text := by
  unfold ask
  split
  · next fragments found =>
    obtain ⟨first, others, listed, -⟩ := List.lookup_eq_some_iff.mp found
    refine ⟨faithful (number, fragments) ?_, faithful, rfl⟩
    rw [listed]
    exact List.mem_append_right _ List.mem_cons_self
  · exact ⟨rfl, List.forall_mem_cons.mpr ⟨rfl, faithful⟩, rfl⟩

theorem Document.askAll_of_faithful {document : Document} (faithful : document.Faithful)
    (numbers : List Nat) : document.askAll numbers = numbers.map (documentLine document.text) := by
  induction numbers generalizing document with
  | nil => rfl
  | cons number later inductionHypothesis =>
    obtain ⟨answer, stays, same⟩ := ask_of_faithful faithful number
    rw [askAll, inductionHypothesis stays, answer, same, List.map_cons]

theorem documentLine_of_getElem? {text : String} {number : Nat} {chars : List Char}
    (isLine : (Text.splitLines text.toList)[number]? = some chars) :
    documentLine text number = line (String.ofList chars) := by
  rw [documentLine, isLine]

/-- The lines of a document, each coloured, in their order. -/
theorem map_documentLine (text : String) :
    (List.range (Text.splitLines text.toList).length).map (documentLine text) =
      (Text.splitLines text.toList).map fun chars => line (String.ofList chars) := by
  refine List.ext_getElem? fun number => ?_
  rw [List.getElem?_map, List.getElem?_map]
  cases isLine : (Text.splitLines text.toList)[number]? with
  | none =>
    have outside : (Text.splitLines text.toList).length ≤ number :=
      List.getElem?_eq_none_iff.mp isLine
    rw [List.getElem?_eq_none (by rwa [List.length_range])]
    rfl
  | some chars =>
    obtain ⟨inside, -⟩ := List.getElem?_eq_some_iff.mp isLine
    rw [List.getElem?_range inside, Option.map_some, Option.map_some,
      documentLine_of_getElem? isLine]

/-- The coloured lines, joined by line feeds, are the document. -/
theorem intercalate_documentLine (text : String) :
    "\n".intercalate ((List.range (Text.splitLines text.toList).length).map
      fun number => joined (documentLine text number)) = text := by
  have plain : (List.range (Text.splitLines text.toList).length).map
      (fun number => joined (documentLine text number)) =
      (Text.splitLines text.toList).map String.ofList := calc
    _ = ((List.range (Text.splitLines text.toList).length).map (documentLine text)).map joined :=
      List.map_map.symm
    _ = (Text.splitLines text.toList).map fun chars => joined (line (String.ofList chars)) := by
      rw [map_documentLine, List.map_map]
      rfl
    _ = (Text.splitLines text.toList).map String.ofList := by
      refine List.map_congr_left fun chars isLine => joined_line ?_
      rw [String.toList_ofList]
      exact Text.not_mem_of_mem_splitLines chars isLine
  have undone : String.toList ∘ String.ofList = id := funext fun _ => String.toList_ofList
  refine String.toList_inj.mp ?_
  rw [plain, String.toList_intercalate, List.map_map, undone, List.map_id]
  exact Text.intercalate_splitLines text.toList

/-- Colouring gives back a line and a document, and agrees with the tokens. -/
theorem colours_lossless :
    (∀ text : String, '\n' ∉ text.toList → joined (line text) = text ∧
      (text ≠ "" → ∃ cuts reached gap unread,
        tokenize text = cuts.map Cut.token ++ [⟨.endOfInput, "", .behind (reached ++ gap)⟩] ∧
        (∀ cut ∈ cuts, cut.token.kind ≠ .endOfInput) ∧
        Cuts text.toList [] cuts reached ∧ text.toList = reached ++ gap ++ unread ∧
        (∀ c ∈ gap, isLayout c = true) ∧ (∀ c ∈ unread.head?, c = '\x00') ∧
        line text = cuts.flatMap ofCut ++ unstyled (gap ++ unread))) ∧
    ∀ text : String,
      (∀ (numbers : List Nat) (index number : Nat) (chars : List Char),
        numbers[index]? = some number → (Text.splitLines text.toList)[number]? = some chars →
        ((Document.ofText text).askAll numbers)[index]? = some (line (String.ofList chars))) ∧
      "\n".intercalate (((Document.ofText text).askAll
        (List.range (Text.splitLines text.toList).length)).map joined) = text := by
  constructor
  · refine fun text oneLine => ⟨joined_line oneLine, fun some => ?_⟩
    obtain ⟨cuts, reached, gap, unread, divided, -⟩ := Cursor.divided_scan [] text.toList
    have tokens : cuts.map Cut.token = (Cursor.ofText text).scan.tokens := divided.tokens
    refine ⟨cuts, reached, gap, unread, ?_, fun cut member => ?_, divided.chain, divided.split,
      divided.layout, divided.stops, line_eq oneLine some divided⟩
    · rw [tokens, ← divided.closing]
      rfl
    · refine (Cursor.ofText text).kind_of_mem_scan cut.token ?_
      rw [← tokens]
      exact List.mem_map_of_mem member
  · intro text
    have answers := Document.askAll_of_faithful (Document.faithful_ofText text)
    constructor
    · intro numbers index number chars asked isLine
      rw [answers, List.getElem?_map, asked, Option.map_some]
      exact congrArg some (documentLine_of_getElem? isLine)
    · rw [answers, List.map_map]
      exact intercalate_documentLine text

/-- A built-in function, a name and a string that is not closed; and a document whose second line
is asked for twice. -/
theorem colours_lossless_of_unclosed :
    joined (line "len(x) \"a\\\"") = "len(x) \"a\\\"" ∧
      ((Document.ofText "1\nlen").askAll [1, 0, 1])[2]? = some (line "len") :=
  ⟨(colours_lossless.1 "len(x) \"a\\\"" (by decide)).1,
    (colours_lossless.2 "1\nlen").1 [1, 0, 1] 2 1 ['l', 'e', 'n'] rfl (by decide)⟩

end Scriptlet.Highlight
