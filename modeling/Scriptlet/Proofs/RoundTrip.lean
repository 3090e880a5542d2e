/-
This file proves that printing and reading are inverse to each other. The canonical text
of a tree that was read is read again without errors and gives the tree back up to
places. There is one exception, which is described exactly: the source may end in a
string that was not closed and whose last backslash is unpaired. In canonical text that
backslash hides the quote that should close the string, so the string is lost.

That the exception is one needs a look at the end of a canonical text. A string with an
unpaired backslash can only be read at the very end of a text, and canonical text does
not end in a backslash.
-/

import Scriptlet.Proofs.Canonical
import Scriptlet.Proofs.Completeness
import Scriptlet.Proofs.Printing
import Scriptlet.Proofs.TokenUse

namespace Scriptlet

open Grammar

/-! ### Canonical text does not end in a backslash -/

/-- The text does not end in a backslash. -/
def ClosesPlainly (text : String) : Prop :=
  text.toList.getLast? ≠ some '\\'

theorem ClosesPlainly.append {first second : String} (before : ClosesPlainly first)
    (after : ClosesPlainly second) : ClosesPlainly (first ++ second) := by
  rw [ClosesPlainly, String.toList_append, List.getLast?_append]
  cases last : second.toList.getLast? with
  | none => exact before
  | some c =>
    rw [ClosesPlainly, last] at after
    exact after

/-- A text with a mark at its end does not end in a backslash. -/
theorem closesPlainly_append_mark {text mark : String}
    (plain : mark.toList.getLast?.any (· != '\\') = true) : ClosesPlainly (text ++ mark) := by
  rw [ClosesPlainly, String.toList_append, List.getLast?_append]
  cases last : mark.toList.getLast? with
  | none => simp [last] at plain
  | some c => simpa [last] using plain

theorem closesPlainly_leaf {token : Token} (member : token.kind ∈ leafKinds)
    (spelled : token.Spelled) : ClosesPlainly (Node.ofToken token).render := by
  cases spelled with
  | mark listed => exact absurd member (not_mem_leafKinds_of_mem_marks _ listed)
  | string kind body =>
    rw [render_ofToken_string kind]
    exact closesPlainly_append_mark rfl
  | word kind some letters =>
    rw [render_ofToken (by rw [kind]; exact TokenKind.ofWord_ne (by decide) (by decide))]
    exact fun last => absurd (letters _ (List.mem_of_getLast? last)) (by decide)
  | number kind some digits =>
    rw [render_ofToken (by rw [kind]; decide)]
    exact fun last => absurd (digits _ (List.mem_of_getLast? last)) (by decide)
  | stray kind =>
    rw [kind] at member
    exact absurd member (by decide)

namespace Grammar

/-- The canonical text of a phrase that can stand at the end of a program. -/
def Closes : Phrase → List Node → Prop
  | .expression _, [node] | .block, [node] | .statement, [node] => ClosesPlainly node.render
  | .alternative, nodes => ClosesPlainly (Node.renderAlternative nodes)
  | .statements, nodes => ClosesPlainly (" ".intercalate (Node.renderProgram nodes))
  | _, _ => True

theorem closesPlainly_program {statement : Node} {rest : List Node}
    (first : ClosesPlainly statement.render)
    (others : ClosesPlainly (" ".intercalate (Node.renderProgram rest))) :
    ClosesPlainly (" ".intercalate (Node.renderProgram (statement :: rest))) := by
  cases rest with
  | nil =>
    rw [Node.renderProgram_singleton, String.intercalate_singleton]
    exact first
  | cons second more =>
    rw [Node.renderProgram_cons, String.intercalate_cons_of_ne_nil Node.renderProgram_ne_nil]
    exact (closesPlainly_append_mark rfl).append others

theorem Derives.closes {separation : Separation} {phrase : Phrase} {tokens : List Token}
    {nodes : List Node} (derivation : Derives separation phrase tokens nodes)
    (spelled : ∀ token ∈ tokens, token.Spelled) : Closes phrase nodes := by
  induction derivation with
  | tighten _ _ inner => exact inner spelled
  | binary | unary | call | index | array | hash | letStatement | returnStatement =>
    simp only [Closes, Node.render_binary, Node.render_unary, Node.render_call, Node.render_index,
      Node.render_array, Node.render_hash, Node.render_letStatement, Node.render_returnStatement]
    exact closesPlainly_append_mark rfl
  | leaf member =>
    exact closesPlainly_leaf (List.mem_cons_of_mem _ member) (spelled _ List.mem_cons_self)
  | integer kind _ =>
    exact closesPlainly_leaf (by rw [kind]; decide) (spelled _ List.mem_cons_self)
  | group _ _ _ inner =>
    exact inner fun token member =>
      spelled token (List.mem_cons_of_mem _ (List.mem_append_left _ member))
  | conditional _ _ _ _ _ _ _ block other =>
    simp only [List.forall_mem_cons, List.forall_mem_append] at spelled
    obtain ⟨-, -, -, -, blockSpelled, otherSpelled⟩ := spelled
    rw [Closes, Node.render_conditional]
    exact ((closesPlainly_append_mark rfl).append (block blockSpelled)).append (other otherSpelled)
  | function _ _ _ _ block =>
    simp only [List.forall_mem_cons, List.forall_mem_append] at spelled
    rw [Closes, Node.render_function]
    exact (closesPlainly_append_mark rfl).append (block spelled.2.2)
  | oneExpression | moreExpressions | noItems | someItems | oneName | moreNames | noParameters
  | someParameters | noPairs | lastPair | morePairs => trivial
  | noAlternative | noStatements => exact nofun
  | someAlternative _ derived inner =>
    have closes := inner (List.forall_mem_cons.mp spelled).2
    obtain ⟨children, rfl⟩ := derived.exists_block
    have word : ClosesPlainly " else " := by simp [ClosesPlainly]
    rw [Closes, Node.renderAlternative_tree]
    exact word.append closes
  | @block _ _ _ statements =>
    cases statements with
    | nil => simp [Closes, Node.render_block_nil, ClosesPlainly]
    | cons first rest =>
      rw [Closes, Node.render_block_cons]
      exact closesPlainly_append_mark rfl
  | expressionStatement _ inner =>
    rw [Closes, Node.render_expressionStatement]
    exact inner spelled
  | terminated _ _ _ inner others =>
    simp only [List.forall_mem_cons, List.forall_mem_append] at spelled
    exact closesPlainly_program (inner spelled.1) (others spelled.2.2)
  | unterminated _ _ _ inner others =>
    simp only [List.forall_mem_append] at spelled
    exact closesPlainly_program (inner spelled.1) (others spelled.2)

end Grammar

/-! ### Trees that are alike have the same leaves -/

namespace Node

theorem leaves_unplaced (node : Node) : node.unplaced.leaves = node.leaves.map Leaf.unplaced := by
  induction node using Node.induction with
  | hole => rfl
  | leaf token => rfl
  | tree label children inductionHypothesis =>
    rw [unplaced, leaves, leaves]
    induction children with
    | nil => rfl
    | cons first rest restHypothesis =>
      rw [unplacedAll, leavesAll, leavesAll, List.map_append,
        inductionHypothesis first List.mem_cons_self, restHypothesis]
      exact fun child member => inductionHypothesis child (List.mem_cons_of_mem _ member)

/-- A leaf of one of two trees that are alike is in the other one up to its place. -/
theorem Alike.exists_leaf {first second : Node} (alike : first.Alike second) {leaf : Leaf}
    (member : leaf ∈ second.leaves) : ∃ other ∈ first.leaves, other.unplaced = leaf.unplaced := by
  have same : first.leaves.map Leaf.unplaced = second.leaves.map Leaf.unplaced := by
    rw [← leaves_unplaced, ← leaves_unplaced, alike]
  have listed := List.mem_map_of_mem (f := Leaf.unplaced) member
  rw [← same] at listed
  exact List.mem_map.mp listed

end Node

theorem getLast?_of_endsUnpaired {chars : List Char} (unpaired : endsUnpaired chars = true) :
    chars.getLast? = some '\\' := by
  fun_induction endsUnpaired chars with
  | case1 => cases unpaired
  | case2 => rfl
  | case3 c rest inductionHypothesis =>
    rw [List.getLast?_cons, List.getLast?_cons, inductionHypothesis unpaired]
    rfl
  | case4 c rest notLast notHiding inductionHypothesis =>
    rw [List.getLast?_cons, inductionHypothesis unpaired]
    rfl

/-! ### Reading back what was printed -/

/-- The last token of the source is a string that was not closed and whose text ends in an
unpaired backslash. -/
def EndsInUnpairedString (source : String) : Prop :=
  ∃ token, (sourceTokens source).getLast? = some token ∧ token.Unclosed source ∧
    endsUnpaired token.text.toList = true

/-- A string with an unpaired backslash at its end stands at the end of its source. -/
theorem endsInUnpairedString_of_mem {source : String} {token : Token}
    (member : token ∈ sourceTokens source) (kind : token.kind = .string)
    (unpaired : endsUnpaired token.text.toList = true) : EndsInUnpairedString source := by
  obtain ⟨last, unclosed⟩ :=
    (Cursor.ofText source).unclosed_of_mem_scan token member kind unpaired
  exact ⟨token, last, ⟨kind, unclosed⟩, unpaired⟩

theorem legible_sourceTokens {source : String} (closed : ¬ EndsInUnpairedString source) :
    Legible (sourceTokens source) := by
  intro token member
  refine ⟨Cursor.spelled_of_mem_scan _ token member, fun kind => ?_⟩
  rw [← Bool.not_eq_true]
  exact fun unpaired => closed (endsInUnpairedString_of_mem member kind unpaired)

/-- Statements are read back from a text that they are written as. -/
theorem readSource_of_writtenAs {statements : List Node} {text : String}
    (written : WrittenAs .statements statements text) :
    (readSource text).errors = [] ∧
      (readSource text).program.Alike (.tree .program statements) := by
  obtain ⟨tokens, derived, scans⟩ := written
  have resembles : Resembles (sourceTokens text) tokens := by
    have whole := scans [] [] rfl scansTo_nil
    rw [List.append_nil, List.append_nil] at whole
    exact whole (Cursor.ofText _) rfl
  obtain ⟨moved, relocated, alike⟩ := derived.relocates _ resembles
  rw [readSource_of_program ⟨moved, rfl, relocated⟩]
  refine ⟨rfl, ?_⟩
  rw [Node.Alike, Node.unplaced, Node.unplaced, alike]

/-- A program whose strings are all closed is read back from its canonical text. -/
theorem readSource_render {source : String} {tree : Node}
    (program : Program .optional (sourceTokens source) tree)
    (closed : ¬ EndsInUnpairedString source) :
    (readSource tree.render).errors = [] ∧ (readSource tree.render).program.Alike tree := by
  obtain ⟨statements, rfl, derived⟩ := program
  rw [Node.render_program]
  exact readSource_of_writtenAs (derived.rewrites (legible_sourceTokens closed)).2

/-- A string with an unpaired backslash is not read back from the canonical text. -/
theorem not_alike_of_endsInUnpairedString {source : String} {tree : Node}
    (program : Program .optional (sourceTokens source) tree)
    (unpaired : EndsInUnpairedString source)
    (accepted : (readSource tree.render).errors = []) :
    ¬ (readSource tree.render).program.Alike tree := by
  intro alike
  obtain ⟨token, last, ⟨kind, -⟩, unpaired⟩ := unpaired
  have kept : Leaf.ofToken token ∈ tree.leaves := by
    obtain ⟨dropped, punctuated, permuted⟩ := program.accounts
    have listed := permuted.mem_iff.mp (List.mem_map_of_mem (List.mem_of_getLast? last))
    refine (List.mem_append.mp listed).resolve_right fun isDropped => ?_
    obtain ⟨other, member, same⟩ := List.mem_map.mp isDropped
    have otherKind : other.kind = token.kind := LeafKind.own.inj (congrArg Leaf.kind same)
    have punctuation := punctuated other member
    rw [otherKind, kind] at punctuation
    exact absurd punctuation (by decide)
  obtain ⟨leaf, inTree, leafSame⟩ := alike.exists_leaf kept
  obtain ⟨found, member, same⟩ : ∃ found ∈ sourceTokens tree.render, Leaf.ofToken found = leaf := by
    obtain ⟨dropped, -, permuted⟩ := (program_of_readSource accepted).accounts
    exact List.mem_map.mp (permuted.mem_iff.mpr (List.mem_append_left _ inTree))
  rw [← same] at leafSame
  have foundKind : found.kind = .string := by
    rw [← kind]
    exact LeafKind.own.inj (congrArg Leaf.kind leafSame)
  have foundText : found.text = token.text := congrArg Leaf.text leafSame
  rw [← foundText] at unpaired
  obtain ⟨-, front, split, -⟩ :=
    (Cursor.ofText tree.render).unclosed_of_mem_scan found member foundKind unpaired
  have lastCharacter : tree.render.toList.getLast? = some '\\' := by
    have whole : tree.render.toList = front ++ '\"' :: found.text.toList := split
    rw [whole, List.getLast?_append, List.getLast?_cons, getLast?_of_endsUnpaired unpaired]
    rfl
  obtain ⟨statements, rfl, derived⟩ := program
  have plain := derived.closes (Cursor.spelled_of_mem_scan _)
  rw [Node.render_program] at lastCharacter
  exact plain lastCharacter

/-- Take a text that is read without errors. Its program has a canonical text, and reading
that text gives the program back, without errors and up to places, unless the last token of
the original text is a string that was not closed and ends in an unpaired backslash. -/
theorem readSource_print_iff (text : String) (accepted : (readSource text).errors = []) :
    ∃ printed, (readSource text).program.print = .ok printed ∧
      (((readSource printed).errors = [] ∧
        (readSource printed).program.Alike (readSource text).program) ↔
        ¬ EndsInUnpairedString text) := by
  have program := program_of_readSource accepted
  refine ⟨(readSource text).program.render, ?_, ?_, readSource_render program⟩
  · obtain ⟨statements, tree, regular⟩ := exists_regular text
    rw [tree]
    exact Node.prints_program (fun statement member => (regular statement member).prints) .endless
  · rintro ⟨errors, alike⟩ unpaired
    exact not_alike_of_endsInUnpairedString program unpaired errors alike

theorem readSource_print_iff_of_unclosed :
    (readSource "let a = \"\\").errors = [] ∧ EndsInUnpairedString "let a = \"\\" ∧
      ∃ printed, (readSource "let a = \"\\").program.print = .ok printed ∧
        ¬ ((readSource printed).errors = [] ∧
          (readSource printed).program.Alike (readSource "let a = \"\\").program) := by
  have accepted : (readSource "let a = \"\\").errors = [] := by decide +kernel
  have unpaired : EndsInUnpairedString "let a = \"\\" :=
    ⟨⟨.string, "\\", ⟨1, 9⟩⟩, by decide +kernel, ⟨rfl, "let a = ".toList, by decide, by decide⟩,
      by decide⟩
  obtain ⟨printed, print, reads⟩ := readSource_print_iff _ accepted
  exact ⟨accepted, unpaired, printed, print, fun again => reads.mp again unpaired⟩

end Scriptlet
