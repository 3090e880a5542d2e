/-
This file turns the derivation of a source into the derivation of its canonical text, in
which every operator stands in parentheses and semicolons keep the statements apart. The
tree stays the same, and with the derivation comes the fact that the canonical text is
cut into exactly the tokens of that derivation.

`WrittenAs` says this of one phrase and the text that it is written as. A text behind the
phrase must not extend its last token; the texts that follow a phrase in canonical text
are all `Detached` from it.
-/

import Scriptlet.Tree.Render
import Scriptlet.Proofs.Places

namespace Scriptlet

open Grammar

/-! ### Pieces of canonical text -/

/-- A text that extends no token in front of it. -/
def Detached (following : List Char) : Prop :=
  following.head?.all (fun c => fences.contains c && c != '=') = true

/-- Tokens that are spelled so that they are found again where they are written. -/
def Legible (tokens : List Token) : Prop :=
  ∀ token ∈ tokens, token.Spelled ∧
    (token.kind = .string → endsUnpaired token.text.toList = false)

@[simp] theorem legible_nil : Legible [] :=
  nofun

@[simp] theorem legible_cons {token : Token} {tokens : List Token} :
    Legible (token :: tokens) ↔ (token.Spelled ∧
      (token.kind = .string → endsUnpaired token.text.toList = false)) ∧ Legible tokens :=
  List.forall_mem_cons

@[simp] theorem legible_append {tokens others : List Token} :
    Legible (tokens ++ others) ↔ Legible tokens ∧ Legible others :=
  List.forall_mem_append

/-- A token of a kind that is always written the same way. -/
def Token.made (kind : TokenKind) : Token :=
  ⟨kind, kind.fixedText?.getD "", .first⟩

section

variable {following : List Char} {tokens : List Token} {token : Token}

theorem Detached.apart {c : Char} (detached : Detached following) (member : c ∈ following.head?) :
    isLetter c = false ∧ isDigit c = false ∧ c ≠ '=' := by
  rw [Option.mem_def] at member
  rw [Detached, member, Option.all_some, Bool.and_eq_true, bne_iff_ne,
    List.contains_iff_mem] at detached
  obtain ⟨notLetter, notDigit⟩ := fences_outside detached.1
  exact ⟨notLetter, notDigit, detached.2⟩

theorem Detached.head_ne (detached : Detached following) : following.head? ≠ some '=' :=
  fun same => (detached.apart same).2.2 rfl

theorem Detached.behind_layout {gap : List Char} (detached : Detached following)
    (layout : ∀ c ∈ gap, isLayout c = true) : Detached (gap ++ following) := by
  cases gap with
  | nil => exact detached
  | cons c rest =>
    obtain ⟨fenced, other⟩ := mem_fences_of_isLayout (layout c List.mem_cons_self)
    simp [Detached, fenced, other]

/-- A token whose kind is a mark of one character that begins no longer mark. -/
theorem scansTo_char {c : Char} (spelled : token.Spelled) (listed : ([c], token.kind) ∈ marks)
    (single : c ≠ '=' ∧ c ≠ '!') (later : ScansTo following tokens) :
    ScansTo (c :: following) (token :: tokens) := by
  have text : token.text.toList = [c] := by
    rw [spelled.text_eq (fixedText?_of_mem_marks _ listed), String.toList_ofList]
  have written : c :: following = token.text.toList ++ following := by rw [text]; rfl
  rw [written]
  refine scansTo_mark (by rw [text]; exact listed) ?_ later
  rw [text]
  simp [single]

theorem scansTo_made {c : Char} {kind : TokenKind} (listed : ([c], kind) ∈ marks)
    (single : c ≠ '=' ∧ c ≠ '!') (later : ScansTo following tokens) :
    ScansTo (c :: following) (.made kind :: tokens) := by
  refine scansTo_char (.mark ?_) listed single later
  rw [Token.made, fixedText?_of_mem_marks _ listed, Option.getD_some, String.toList_ofList]
  exact listed

/-- A keyword in front of a text that does not extend it. -/
theorem scansTo_keyword {chars : List Char} (text : token.text = String.ofList chars)
    (kind : token.kind = .ofWord (String.ofList chars))
    (letters : chars ≠ [] ∧ chars.all isLetter = true)
    (detached : Detached following) (later : ScansTo following tokens) :
    ScansTo (chars ++ following) (token :: tokens) := by
  have written : token.text.toList = chars := by rw [text, String.toList_ofList]
  rw [← written] at letters ⊢
  refine scansTo_word (by rw [kind, text]) ?_ (List.all_eq_true.mp letters.2)
    (fun c member => (detached.apart member).1) later
  intro empty
  exact letters.1 (String.toList_eq_nil_iff.mpr empty)

theorem render_ofToken (notString : token.kind ≠ .string) :
    (Node.ofToken token).render = token.text := by
  simp [Node.ofToken, Node.render_leaf, Leaf.render, Leaf.ofToken, notString]

theorem render_ofToken_string (kind : token.kind = .string) :
    (Node.ofToken token).render = "\"" ++ token.text ++ "\"" := by
  simp [Node.ofToken, Node.render_leaf, Leaf.render, Leaf.ofToken, kind]

/-- The kinds of token that are expressions by themselves. -/
def leafKinds : List TokenKind :=
  .int :: plainLeaves

theorem not_mem_leafKinds_of_mem_marks : ∀ mark ∈ marks, mark.2 ∉ leafKinds := by
  decide

/-- A leaf of an expression in front of a text that does not extend it. -/
theorem scansTo_leaf (member : token.kind ∈ leafKinds) (legible : Legible [token])
    (detached : Detached following) (later : ScansTo following tokens) :
    ScansTo ((Node.ofToken token).render.toList ++ following) (token :: tokens) := by
  obtain ⟨⟨spelled, paired⟩, -⟩ := legible_cons.mp legible
  cases spelled with
  | mark listed => exact absurd member (not_mem_leafKinds_of_mem_marks _ listed)
  | string kind body =>
    rw [render_ofToken_string kind]
    simp only [String.toList_append, String.reduceToList, List.cons_append, List.nil_append,
      List.append_assoc]
    exact scansTo_string kind body (paired kind) later
  | word kind some letters =>
    rw [render_ofToken (by rw [kind]; exact TokenKind.ofWord_ne (by decide) (by decide))]
    exact scansTo_word kind some letters (fun c member => (detached.apart member).1) later
  | number kind some digits =>
    rw [render_ofToken (by rw [kind]; decide)]
    exact scansTo_number kind some digits (fun c member => (detached.apart member).2.1) later
  | stray kind =>
    rw [kind] at member
    exact absurd member (by decide)

theorem head?_leaf_ne (member : token.kind ∈ leafKinds) (legible : Legible [token]) :
    (Node.ofToken token).render.toList.head? ≠ some '=' := by
  obtain ⟨⟨spelled, -⟩, -⟩ := legible_cons.mp legible
  intro head
  cases spelled with
  | mark listed => exact absurd member (not_mem_leafKinds_of_mem_marks _ listed)
  | string kind body => simp [render_ofToken_string kind] at head
  | word kind some letters =>
    rw [render_ofToken (by rw [kind]; exact TokenKind.ofWord_ne (by decide) (by decide))] at head
    exact absurd (letters _ (List.mem_of_head? head)) (by decide)
  | number kind some digits =>
    rw [render_ofToken (by rw [kind]; decide)] at head
    exact absurd (digits _ (List.mem_of_head? head)) (by decide)
  | stray kind =>
    rw [kind] at member
    exact absurd member (by decide)

end

/-! ### Phrases and their canonical texts -/

namespace Grammar

/-- The nodes of a phrase can be written as a text: with semicolons between statements the
phrase has a derivation from the tokens that the text is cut into. -/
def WrittenAs (phrase : Phrase) (nodes : List Node) (text : String) : Prop :=
  ∃ tokens, Derives .required phrase tokens nodes ∧
    ∀ following later, Detached following → ScansTo following later →
      ScansTo (text.toList ++ following) (tokens ++ later)

theorem head?_append_ne {first second : List Char} (before : first.head? ≠ some '=')
    (after : second.head? ≠ some '=') : (first ++ second).head? ≠ some '=' := by
  cases first with
  | nil => exact after
  | cons c rest => exact before

section

variable {rank tighter : Precedence} {token operator opening word name colon : Token}
  {node operand left right inside callee condition parameters key value block body : Node}
  {nodes names rest alternative : List Node} {text otherText : String} {texts : List String}

/-! #### Expressions -/

theorem WrittenAs.loosen {stratum : Precedence}
    (written : WrittenAs (.expression stratum) [node] text) (looser : rank.level ≤ stratum.level) :
    WrittenAs (.expression rank) [node] text := by
  obtain ⟨tokens, derived, scans⟩ := written
  exact ⟨tokens, derived.loosen looser, scans⟩

theorem WrittenAs.group (written : WrittenAs (.expression rank) [node] text) :
    WrittenAs (.expression .call) [node] ("(" ++ text ++ ")") := by
  obtain ⟨tokens, derived, scans⟩ := written
  refine ⟨.made .leftParen :: (tokens ++ [.made .rightParen]),
    .group rfl rfl (derived.loosen (Precedence.level_lowest_le rank)),
    fun following later detached others => ?_⟩
  simp only [String.toList_append, String.reduceToList, List.cons_append, List.nil_append,
    List.append_assoc]
  refine scansTo_made (by decide) (by decide) (scans _ _ rfl ?_)
  exact scansTo_made (by decide) (by decide) others

theorem writtenAs_leaf (derived : Derives .required (.expression .call) [token] [.ofToken token])
    (member : token.kind ∈ leafKinds) (legible : Legible [token]) :
    WrittenAs (.expression .call) [.ofToken token] (Node.ofToken token).render :=
  ⟨[token], derived, fun _ _ detached others => scansTo_leaf member legible detached others⟩

/-- An operator in front of its operand, without parentheses. -/
theorem writtenAs_signed (member : operator.kind ∈ unaryOperators) (spelled : operator.Spelled)
    (starts : text.toList.head? ≠ some '=')
    (written : WrittenAs (.expression .call) [operand] text) :
    WrittenAs (.expression .unary) [.tree .unary [.ofToken operator, operand]]
      (operator.text ++ text) := by
  have isMark : ∀ kind ∈ unaryOperators, ∃ mark ∈ marks, mark.2 = kind := by decide
  obtain ⟨tokens, derived, scans⟩ := written
  refine ⟨operator :: tokens, .unary member (.tighten rfl derived),
    fun following later detached others => ?_⟩
  rw [String.toList_append, List.append_assoc, List.cons_append]
  refine scansTo_mark (spelled.mem_marks (isMark _ member)) (fun _ => ?_)
    (scans _ _ detached others)
  exact head?_append_ne starts detached.head_ne

theorem writtenAs_unary (member : operator.kind ∈ unaryOperators) (spelled : operator.Spelled)
    (starts : operand.render.toList.head? ≠ some '=')
    (written : WrittenAs (.expression .call) [operand] operand.render) :
    WrittenAs (.expression .call) [.tree .unary [.ofToken operator, operand]]
      (Node.tree .unary [.ofToken operator, operand]).render := by
  have rendered : (Node.tree .unary [.ofToken operator, operand]).render =
      "(" ++ (operator.text ++ operand.render) ++ ")" :=
    String.toList_inj.mp (by simp [Node.render_unary, Node.ofToken, Node.leafText, Leaf.ofToken])
  rw [rendered]
  exact (writtenAs_signed member spelled starts written).group

theorem writtenAs_binary (member : operator.kind ∈ binaryOperators rank)
    (next : rank.tighter? = some tighter) (spelled : operator.Spelled)
    (leftWritten : WrittenAs (.expression .call) [left] left.render)
    (rightWritten : WrittenAs (.expression .call) [right] right.render) :
    WrittenAs (.expression .call) [.tree .binary [.ofToken operator, left, right]]
      (Node.tree .binary [.ofToken operator, left, right]).render := by
  have isMark : ∀ kind ∈ binaryOperators rank, ∃ mark ∈ marks, mark.2 = kind := by
    cases rank <;> decide
  obtain ⟨leftTokens, leftDerived, leftScans⟩ := leftWritten
  obtain ⟨rightTokens, rightDerived, rightScans⟩ := rightWritten
  have inner : WrittenAs (.expression rank) [.tree .binary [.ofToken operator, left, right]]
      (left.render ++ (" " ++ (operator.text ++ (" " ++ right.render)))) := by
    refine ⟨leftTokens ++ operator :: rightTokens, .binary member next
      (leftDerived.loosen (Precedence.level_le_call _))
      (rightDerived.loosen (Precedence.level_le_call _)), fun following later detached others => ?_⟩
    simp only [String.toList_append, String.reduceToList, List.cons_append, List.nil_append,
      List.append_assoc]
    refine leftScans _ _ rfl (scansTo_layout rfl ?_)
    refine scansTo_mark (spelled.mem_marks (isMark _ member)) (by simp) ?_
    exact scansTo_layout rfl (rightScans _ _ detached others)
  have rendered : (Node.tree .binary [.ofToken operator, left, right]).render =
      "(" ++ (left.render ++ (" " ++ (operator.text ++ (" " ++ right.render)))) ++ ")" :=
    String.toList_inj.mp (by simp [Node.render_binary, Node.ofToken, Node.leafText, Leaf.ofToken])
  rw [rendered]
  exact inner.group

theorem writtenAs_index (opens : opening.kind = .leftBracket) (spelled : opening.Spelled)
    (leftWritten : WrittenAs (.expression .call) [left] left.render)
    (written : WrittenAs (.expression .call) [inside] inside.render) :
    WrittenAs (.expression .call) [.tree .index [.ofToken opening, left, inside]]
      (Node.tree .index [.ofToken opening, left, inside]).render := by
  obtain ⟨leftTokens, leftDerived, leftScans⟩ := leftWritten
  obtain ⟨tokens, derived, scans⟩ := written
  have inner : WrittenAs (.expression .call) [.tree .index [.ofToken opening, left, inside]]
      (left.render ++ ("[" ++ (inside.render ++ "]"))) := by
    refine ⟨leftTokens ++ opening :: (tokens ++ [.made .rightBracket]), .index opens rfl leftDerived
      (derived.loosen (Precedence.level_le_call _)), fun following later detached others => ?_⟩
    simp only [String.toList_append, String.reduceToList, List.cons_append, List.nil_append,
      List.append_assoc]
    refine leftScans _ _ rfl (scansTo_char spelled (by rw [opens]; decide) (by decide) ?_)
    exact scans _ _ rfl (scansTo_made (by decide) (by decide) others)
  have rendered : (Node.tree .index [.ofToken opening, left, inside]).render =
      "(" ++ (left.render ++ ("[" ++ (inside.render ++ "]"))) ++ ")" :=
    String.toList_inj.mp (by simp [Node.render_index])
  rw [rendered]
  exact inner.group

theorem writtenAs_call (opens : opening.kind = .leftParen) (spelled : opening.Spelled)
    (calleeWritten : WrittenAs (.expression .call) [callee] callee.render)
    (written : WrittenAs .items nodes (", ".intercalate (Node.renderAll nodes))) :
    WrittenAs (.expression .call) [.tree .call (.ofToken opening :: callee :: nodes)]
      (Node.tree .call (.ofToken opening :: callee :: nodes)).render := by
  obtain ⟨calleeTokens, calleeDerived, calleeScans⟩ := calleeWritten
  obtain ⟨tokens, derived, scans⟩ := written
  refine ⟨calleeTokens ++ opening :: (tokens ++ [.made .rightParen]),
    .call opens rfl calleeDerived derived, fun following later detached others => ?_⟩
  simp only [Node.render_call, String.toList_append, String.reduceToList, List.cons_append,
    List.nil_append, List.append_assoc]
  refine calleeScans _ _ rfl (scansTo_char spelled (by rw [opens]; decide) (by decide) ?_)
  exact scans _ _ rfl (scansTo_made (by decide) (by decide) others)

theorem writtenAs_array (opens : opening.kind = .leftBracket) (spelled : opening.Spelled)
    (written : WrittenAs .items nodes text) :
    WrittenAs (.expression .call) [.tree .array (.ofToken opening :: nodes)]
      ("[" ++ text ++ "]") := by
  obtain ⟨tokens, derived, scans⟩ := written
  refine ⟨opening :: (tokens ++ [.made .rightBracket]), .array opens rfl derived,
    fun following later detached others => ?_⟩
  simp only [String.toList_append, String.reduceToList, List.cons_append, List.nil_append,
    List.append_assoc]
  refine scansTo_char spelled (by rw [opens]; decide) (by decide) (scans _ _ rfl ?_)
  exact scansTo_made (by decide) (by decide) others

theorem writtenAs_hash (opens : opening.kind = .leftBrace) (spelled : opening.Spelled)
    (written : WrittenAs .pairs nodes text) :
    WrittenAs (.expression .call) [.tree .hash (.ofToken opening :: nodes)]
      ("\x7b" ++ text ++ "\x7d") := by
  obtain ⟨tokens, derived, scans⟩ := written
  refine ⟨opening :: (tokens ++ [.made .rightBrace]), .hash opens rfl derived,
    fun following later detached others => ?_⟩
  simp only [String.toList_append, String.reduceToList, List.cons_append, List.nil_append,
    List.append_assoc]
  refine scansTo_char spelled (by rw [opens]; decide) (by decide) (scans _ _ rfl ?_)
  exact scansTo_made (by decide) (by decide) others

theorem writtenAs_conditional (kind : word.kind = .ifWord) (spelled : word.Spelled)
    (conditionWritten : WrittenAs (.expression .call) [condition] condition.render)
    (blockWritten : WrittenAs .block [block] block.render)
    (detachedOther : ∀ following, Detached following →
      Detached ((Node.renderAlternative alternative).toList ++ following))
    (otherWritten : WrittenAs .alternative alternative (Node.renderAlternative alternative)) :
    WrittenAs (.expression .call)
      [.tree .conditional (.ofToken word :: condition :: block :: alternative)]
      (Node.tree .conditional (.ofToken word :: condition :: block :: alternative)).render := by
  obtain ⟨conditionTokens, conditionDerived, conditionScans⟩ := conditionWritten
  obtain ⟨blockTokens, blockDerived, blockScans⟩ := blockWritten
  obtain ⟨otherTokens, otherDerived, otherScans⟩ := otherWritten
  refine ⟨word :: .made .leftParen :: (conditionTokens ++ .made .rightParen ::
    (blockTokens ++ otherTokens)), .conditional kind rfl rfl
    (conditionDerived.loosen (Precedence.level_le_call _)) blockDerived otherDerived,
    fun following later detached others => ?_⟩
  simp only [Node.render_conditional, String.toList_append, String.reduceToList, List.cons_append,
    List.nil_append, List.append_assoc]
  have text : word.text = String.ofList ['i', 'f'] := spelled.text_eq (by rw [kind]; rfl)
  refine scansTo_keyword text (by rw [kind]; rfl) (by decide) rfl ?_
  refine scansTo_layout rfl (scansTo_made (by decide) (by decide) (conditionScans _ _ rfl ?_))
  refine scansTo_made (by decide) (by decide) (scansTo_layout rfl ?_)
  exact blockScans _ _ (detachedOther _ detached) (otherScans _ _ detached others)

theorem writtenAs_function (kind : word.kind = .funcWord) (spelled : word.Spelled)
    (parametersWritten : WrittenAs .parameters [parameters] ("(" ++ text ++ ")"))
    (blockWritten : WrittenAs .block [body] otherText) :
    WrittenAs (.expression .call) [.tree .function [.ofToken word, parameters, body]]
      ("func(" ++ text ++ ") " ++ otherText) := by
  obtain ⟨parameterTokens, parametersDerived, parametersScan⟩ := parametersWritten
  obtain ⟨blockTokens, blockDerived, blockScans⟩ := blockWritten
  refine ⟨word :: (parameterTokens ++ blockTokens), .function kind parametersDerived blockDerived,
    fun following later detached others => ?_⟩
  simp only [String.toList_append, String.reduceToList, List.cons_append, List.nil_append,
    List.append_assoc] at parametersScan ⊢
  have text : word.text = String.ofList ['f', 'u', 'n', 'c'] := spelled.text_eq (by rw [kind]; rfl)
  refine scansTo_keyword text (by rw [kind]; rfl) (by decide) rfl ?_
  exact parametersScan _ _ rfl (scansTo_layout rfl (blockScans _ _ detached others))

/-! #### Lists -/

/-- A phrase with commas in it is written with a comma and a space between its parts. -/
theorem toList_intercalate_cons (some : texts ≠ []) :
    (", ".intercalate (text :: texts)).toList =
      text.toList ++ ',' :: ' ' :: (", ".intercalate texts).toList := by
  simp [String.intercalate_cons_of_ne_nil some]

theorem length_renderAll (nodes : List Node) : (Node.renderAll nodes).length = nodes.length := by
  induction nodes with
  | nil => rfl
  | cons first rest inductionHypothesis =>
    rw [Node.renderAll_cons, List.length_cons, List.length_cons, inductionHypothesis]

theorem renderAll_ne_nil (some : nodes ≠ []) : Node.renderAll nodes ≠ [] := by
  rw [Ne, ← List.length_eq_zero_iff, length_renderAll, List.length_eq_zero_iff]
  exact some

theorem writtenAs_oneExpression (written : WrittenAs (.expression rank) [node] text) :
    WrittenAs .expressions [node] (", ".intercalate [text]) := by
  obtain ⟨tokens, derived, scans⟩ := written
  rw [String.intercalate_singleton]
  exact ⟨tokens, .oneExpression (derived.loosen (Precedence.level_lowest_le _)), scans⟩

theorem writtenAs_moreExpressions (some : texts ≠ [])
    (written : WrittenAs (.expression rank) [node] text)
    (othersWritten : WrittenAs .expressions rest (", ".intercalate texts)) :
    WrittenAs .expressions (node :: rest) (", ".intercalate (text :: texts)) := by
  obtain ⟨tokens, derived, scans⟩ := written
  obtain ⟨restTokens, restDerived, restScans⟩ := othersWritten
  refine ⟨tokens ++ .made .comma :: restTokens, .moreExpressions rfl
    (derived.loosen (Precedence.level_lowest_le _)) restDerived,
    fun following later detached others => ?_⟩
  simp only [toList_intercalate_cons some, List.cons_append, List.append_assoc]
  refine scans _ _ rfl (scansTo_made (by decide) (by decide) (scansTo_layout rfl ?_))
  exact restScans _ _ detached others

theorem writtenAs_noItems : WrittenAs .items [] (", ".intercalate []) :=
  ⟨[], .noItems, fun _ _ _ others => others⟩

theorem WrittenAs.items (written : WrittenAs .expressions nodes text) :
    WrittenAs .items nodes text := by
  obtain ⟨tokens, derived, scans⟩ := written
  exact ⟨tokens, .someItems derived, scans⟩

theorem writtenAs_oneName (kind : name.kind = .ident) (legible : Legible [name]) :
    WrittenAs .names [.ofToken name] (", ".intercalate (Node.renderAll [.ofToken name])) := by
  rw [Node.renderAll_cons, Node.renderAll_nil, String.intercalate_singleton]
  have leaf : name.kind ∈ leafKinds := by rw [kind]; decide
  exact ⟨[name], .oneName kind, fun _ _ detached others =>
    scansTo_leaf leaf legible detached others⟩

theorem writtenAs_moreNames (some : rest ≠ []) (kind : name.kind = .ident)
    (legible : Legible [name])
    (othersWritten : WrittenAs .names rest (", ".intercalate (Node.renderAll rest))) :
    WrittenAs .names (.ofToken name :: rest)
      (", ".intercalate (Node.renderAll (.ofToken name :: rest))) := by
  obtain ⟨restTokens, restDerived, restScans⟩ := othersWritten
  have leaf : name.kind ∈ leafKinds := by rw [kind]; decide
  refine ⟨name :: .made .comma :: restTokens, .moreNames kind rfl restDerived,
    fun following later detached others => ?_⟩
  simp only [Node.renderAll_cons, toList_intercalate_cons (renderAll_ne_nil some),
    List.cons_append, List.append_assoc]
  refine scansTo_leaf leaf legible rfl ?_
  exact scansTo_made (by decide) (by decide) (scansTo_layout rfl (restScans _ _ detached others))

theorem writtenAs_noParameters (opens : opening.kind = .leftParen) (spelled : opening.Spelled) :
    WrittenAs .parameters [.tree .parameters [.ofToken opening]]
      ("(" ++ (Node.tree .parameters [.ofToken opening]).render ++ ")") := by
  refine ⟨[opening, .made .rightParen], .noParameters opens rfl,
    fun following later detached others => ?_⟩
  simp only [Node.render_parameters, Node.renderAll_nil, String.intercalate_nil,
    String.toList_append, String.reduceToList, List.cons_append, List.nil_append]
  refine scansTo_char spelled (by rw [opens]; decide) (by decide) ?_
  exact scansTo_made (by decide) (by decide) others

theorem writtenAs_someParameters (opens : opening.kind = .leftParen) (spelled : opening.Spelled)
    (written : WrittenAs .names names (", ".intercalate (Node.renderAll names))) :
    WrittenAs .parameters [.tree .parameters (.ofToken opening :: names)]
      ("(" ++ (Node.tree .parameters (.ofToken opening :: names)).render ++ ")") := by
  obtain ⟨tokens, derived, scans⟩ := written
  refine ⟨opening :: (tokens ++ [.made .rightParen]), .someParameters opens rfl derived,
    fun following later detached others => ?_⟩
  simp only [Node.render_parameters, String.toList_append, String.reduceToList, List.cons_append,
    List.nil_append, List.append_assoc]
  refine scansTo_char spelled (by rw [opens]; decide) (by decide) (scans _ _ rfl ?_)
  exact scansTo_made (by decide) (by decide) others

theorem writtenAs_noPairs : WrittenAs .pairs [] (", ".intercalate []) :=
  ⟨[], .noPairs, fun _ _ _ others => others⟩

/-- The pairs of a hash lose a comma behind the last one. -/
theorem writtenAs_pairs (kind : colon.kind = .colon) (spelled : colon.Spelled)
    (keyWritten : WrittenAs (.expression rank) [key] text)
    (valueWritten : WrittenAs (.expression tighter) [value] otherText)
    (sameLength : texts.length = rest.length)
    (othersWritten : WrittenAs .pairs rest (", ".intercalate texts)) :
    WrittenAs .pairs (.tree .pair [.ofToken colon, key, value] :: rest)
      (", ".intercalate ((text ++ ": " ++ otherText) :: texts)) := by
  obtain ⟨keyTokens, keyDerived, keyScans⟩ := keyWritten
  obtain ⟨valueTokens, valueDerived, valueScans⟩ := valueWritten
  obtain ⟨restTokens, restDerived, restScans⟩ := othersWritten
  have keyLowest := keyDerived.loosen (Precedence.level_lowest_le rank)
  have valueLowest := valueDerived.loosen (Precedence.level_lowest_le tighter)
  have pairScans (following : List Char) (later : List Token) (detached : Detached following)
      (others : ScansTo following later) :
      ScansTo ((text ++ ": " ++ otherText).toList ++ following)
        (keyTokens ++ colon :: (valueTokens ++ later)) := by
    simp only [String.toList_append, String.reduceToList, List.cons_append, List.nil_append,
      List.append_assoc]
    refine keyScans _ _ rfl (scansTo_char spelled (by rw [kind]; decide) (by decide) ?_)
    exact scansTo_layout rfl (valueScans _ _ detached others)
  cases texts with
  | nil =>
    obtain rfl := List.length_eq_zero_iff.mp sameLength.symm
    rw [String.intercalate_singleton]
    refine ⟨keyTokens ++ colon :: valueTokens, .lastPair kind keyLowest valueLowest,
      fun following later detached others => ?_⟩
    rw [List.append_assoc, List.cons_append]
    exact pairScans following later detached others
  | cons second others =>
    refine ⟨keyTokens ++ colon :: (valueTokens ++ .made .comma :: restTokens),
      .morePairs kind rfl keyLowest valueLowest restDerived,
      fun following later detached others => ?_⟩
    simp only [toList_intercalate_cons (List.cons_ne_nil _ _), List.cons_append,
      List.append_assoc]
    refine pairScans _ _ rfl (scansTo_made (by decide) (by decide) (scansTo_layout rfl ?_))
    exact restScans _ _ detached others

/-! #### Blocks and statements -/

theorem writtenAs_noAlternative : WrittenAs .alternative [] (Node.renderAlternative []) :=
  ⟨[], .noAlternative, fun _ _ _ others => others⟩

theorem writtenAs_someAlternative
    (written : WrittenAs .block [.tree .block nodes] (Node.tree .block nodes).render) :
    WrittenAs .alternative [.tree .block nodes]
      (Node.renderAlternative [.tree .block nodes]) := by
  obtain ⟨tokens, derived, scans⟩ := written
  refine ⟨.made .elseWord :: tokens, .someAlternative rfl derived,
    fun following later detached others => ?_⟩
  simp only [Node.renderAlternative_tree, String.toList_append, String.reduceToList,
    List.cons_append, List.nil_append]
  refine scansTo_layout rfl ?_
  show ScansTo (['e', 'l', 's', 'e'] ++ _) _
  refine scansTo_keyword rfl rfl (by decide) rfl ?_
  exact scansTo_layout rfl (scans _ _ detached others)

/-- A block is written with white space on the inner side of its braces. -/
theorem writtenAs_block {before after : String} (opens : opening.kind = .leftBrace)
    (spelled : opening.Spelled) (layoutBefore : before.toList.all isLayout = true)
    (layoutAfter : after.toList.all isLayout = true)
    (written : WrittenAs .statements nodes text) :
    WrittenAs .block [.tree .block (.ofToken opening :: nodes)]
      ("\x7b" ++ before ++ text ++ after ++ "\x7d") := by
  obtain ⟨tokens, derived, scans⟩ := written
  refine ⟨opening :: (tokens ++ [.made .rightBrace]), .block opens rfl derived,
    fun following later detached others => ?_⟩
  simp only [String.toList_append, String.reduceToList, List.cons_append, List.nil_append,
    List.append_assoc]
  rw [List.all_eq_true] at layoutBefore layoutAfter
  refine scansTo_char spelled (by rw [opens]; decide) (by decide) ?_
  refine scansTo_allLayout layoutBefore ?_
  refine scans _ _ (Detached.behind_layout rfl layoutAfter) (scansTo_allLayout layoutAfter ?_)
  exact scansTo_made (by decide) (by decide) others

theorem writtenAs_renderedBlock (opens : opening.kind = .leftBrace) (spelled : opening.Spelled)
    (written : WrittenAs .statements nodes (" ".intercalate (Node.renderTerms nodes))) :
    WrittenAs .block [.tree .block (.ofToken opening :: nodes)]
      (Node.tree .block (.ofToken opening :: nodes)).render := by
  cases nodes with
  | nil =>
    have rendered : (Node.tree .block [.ofToken opening]).render =
        "\x7b" ++ " " ++ " ".intercalate (Node.renderTerms []) ++ "" ++ "\x7d" :=
      String.toList_inj.mp (by simp [Node.render_block_nil, Node.renderTerms])
    rw [rendered]
    exact writtenAs_block opens spelled (by decide) (by decide) written
  | cons first rest =>
    have rendered : (Node.tree .block (.ofToken opening :: first :: rest)).render =
        "\x7b" ++ " " ++ " ".intercalate (Node.renderTerms (first :: rest)) ++ " " ++ "\x7d" :=
      String.toList_inj.mp (by simp [Node.render_block_cons])
    rw [rendered]
    exact writtenAs_block opens spelled (by decide) (by decide) written

/-- A statement can be written without a semicolon. As a term of a block it has one, and by
itself it may have one. -/
def WrittenStatement (statement : Node) : Prop :=
  ∃ text, WrittenAs .statement [statement] text ∧
    (statement.render ++ if statement.label? = some .expressionStatement then ";" else "") =
      text ++ ";" ∧
    (statement.render = text ∨ statement.render = text ++ ";")

theorem writtenStatement_let (kind : word.kind = .letWord) (spelled : word.Spelled)
    (nameKind : name.kind = .ident) (legible : Legible [name])
    (written : WrittenAs (.expression .call) [value] value.render) :
    WrittenStatement (.tree .letStatement [.ofToken word, .ofToken name, value]) := by
  obtain ⟨tokens, derived, scans⟩ := written
  refine ⟨"let " ++ (Node.ofToken name).render ++ " = " ++ value.render,
    ⟨word :: name :: .made .assign :: tokens, .letStatement kind nameKind rfl
      (derived.loosen (Precedence.level_le_call _)), fun following later detached others => ?_⟩,
    by simp [Node.render_letStatement, Node.label?], .inr rfl⟩
  have text : word.text = String.ofList ['l', 'e', 't'] := spelled.text_eq (by rw [kind]; rfl)
  have leaf : name.kind ∈ leafKinds := by rw [nameKind]; decide
  simp only [String.toList_append, String.reduceToList, List.cons_append, List.nil_append,
    List.append_assoc]
  refine scansTo_keyword text (by rw [kind]; rfl) (by decide) rfl (scansTo_layout rfl ?_)
  refine scansTo_leaf leaf legible rfl (scansTo_layout rfl ?_)
  show ScansTo ((Token.made .assign).text.toList ++ _) _
  refine scansTo_mark (by decide) (by simp) (scansTo_layout rfl ?_)
  exact scans _ _ detached others

theorem writtenStatement_return (kind : word.kind = .returnWord) (spelled : word.Spelled)
    (written : WrittenAs (.expression .call) [value] value.render) :
    WrittenStatement (.tree .returnStatement [.ofToken word, value]) := by
  obtain ⟨tokens, derived, scans⟩ := written
  refine ⟨"return " ++ value.render,
    ⟨word :: tokens, .returnStatement kind (derived.loosen (Precedence.level_le_call _)),
      fun following later detached others => ?_⟩,
    by simp [Node.render_returnStatement, Node.label?], .inr rfl⟩
  have text : word.text = String.ofList ['r', 'e', 't', 'u', 'r', 'n'] :=
    spelled.text_eq (by rw [kind]; rfl)
  simp only [String.toList_append, String.reduceToList, List.cons_append, List.nil_append]
  refine scansTo_keyword text (by rw [kind]; rfl) (by decide) rfl (scansTo_layout rfl ?_)
  exact scans _ _ detached others

theorem writtenStatement_expression
    (written : WrittenAs (.expression .call) [value] value.render) :
    WrittenStatement (.tree .expressionStatement [value]) := by
  obtain ⟨tokens, derived, scans⟩ := written
  exact ⟨value.render,
    ⟨tokens, .expressionStatement (derived.loosen (Precedence.level_le_call _)), scans⟩,
    by simp [Node.render_expressionStatement, Node.label?], .inl rfl⟩

theorem WrittenAs.last (written : WrittenAs .statement [node] text) :
    WrittenAs .statements [node] text := by
  obtain ⟨tokens, derived, scans⟩ := written
  rw [← List.append_nil tokens] at scans
  exact ⟨tokens ++ [], .unterminated (.inr rfl) derived .noStatements, scans⟩

theorem WrittenAs.lastTerminated (written : WrittenAs .statement [node] text) :
    WrittenAs .statements [node] (text ++ ";") := by
  obtain ⟨tokens, derived, scans⟩ := written
  refine ⟨tokens ++ [.made .semicolon], .terminated rfl derived .noStatements,
    fun following later detached others => ?_⟩
  simp only [String.toList_append, String.reduceToList, List.cons_append, List.nil_append,
    List.append_assoc]
  exact scans _ _ rfl (scansTo_made (by decide) (by decide) others)

theorem WrittenAs.terminated (written : WrittenAs .statement [node] text)
    {gap : String} (layout : gap.toList.all isLayout = true)
    (othersWritten : WrittenAs .statements rest otherText) :
    WrittenAs .statements (node :: rest) (text ++ ";" ++ gap ++ otherText) := by
  obtain ⟨tokens, derived, scans⟩ := written
  obtain ⟨restTokens, restDerived, restScans⟩ := othersWritten
  refine ⟨tokens ++ .made .semicolon :: restTokens, .terminated rfl derived restDerived,
    fun following later detached others => ?_⟩
  simp only [String.toList_append, String.reduceToList, List.cons_append, List.nil_append,
    List.append_assoc]
  rw [List.all_eq_true] at layout
  refine scans _ _ rfl (scansTo_made (by decide) (by decide) (scansTo_allLayout layout ?_))
  exact restScans _ _ detached others

/-- Some statements can be written as the body of a block, whatever white space stands between
them, and as a program. -/
def WrittenStatements (statements : List Node) : Prop :=
  (∀ gap : String, gap.toList.all isLayout = true →
    WrittenAs .statements statements (gap.intercalate (Node.renderTerms statements))) ∧
  WrittenAs .statements statements (" ".intercalate (Node.renderProgram statements))

theorem writtenStatements_nil : WrittenStatements [] :=
  ⟨fun _ _ => ⟨[], .noStatements, fun _ _ _ others => others⟩,
    ⟨[], .noStatements, fun _ _ _ others => others⟩⟩

theorem writtenStatements_cons (written : WrittenStatement node)
    (othersWritten : WrittenStatements rest) : WrittenStatements (node :: rest) := by
  obtain ⟨text, written, term, alone⟩ := written
  cases rest with
  | nil =>
    simp only [WrittenStatements, Node.renderTerms_cons, Node.renderProgram_singleton, term,
      String.intercalate_singleton]
    refine ⟨fun _ _ => written.lastTerminated, ?_⟩
    rcases alone with bare | terminated
    · rw [bare]
      exact written.last
    · rw [terminated]
      exact written.lastTerminated
  | cons second others =>
    have terms : Node.renderTerms (second :: others) ≠ [] := List.cons_ne_nil _ _
    have program : Node.renderProgram (second :: others) ≠ [] :=
      Node.renderProgram_ne_nil
    obtain ⟨inBlock, inProgram⟩ := othersWritten
    rw [WrittenStatements, Node.renderTerms_cons, Node.renderProgram_cons, term,
      String.intercalate_cons_of_ne_nil program]
    refine ⟨fun gap layout => ?_, written.terminated (by decide) inProgram⟩
    rw [String.intercalate_cons_of_ne_nil terms]
    exact written.terminated layout (inBlock gap layout)

end

/-! ### Derivations are rewritten -/

/-- What the canonical text makes of a phrase. -/
def Rewrites : Phrase → List Node → Prop
  | .expression _, [node] => node.render.toList.head? ≠ some '=' ∧
      WrittenAs (.expression .call) [node] node.render
  | .expressions, nodes => WrittenAs .expressions nodes (", ".intercalate (Node.renderAll nodes))
  | .items, nodes => WrittenAs .items nodes (", ".intercalate (Node.renderAll nodes))
  | .names, nodes => WrittenAs .names nodes (", ".intercalate (Node.renderAll nodes))
  | .parameters, [node] => WrittenAs .parameters [node] ("(" ++ node.render ++ ")")
  | .pairs, nodes => WrittenAs .pairs nodes (", ".intercalate (Node.renderAll nodes))
  | .alternative, nodes => WrittenAs .alternative nodes (Node.renderAlternative nodes) ∧
      ∀ following, Detached following →
        Detached ((Node.renderAlternative nodes).toList ++ following)
  | .block, [node] => WrittenAs .block [node] node.render
  | .statement, [node] => WrittenStatement node
  | .statements, nodes => WrittenStatements nodes
  | _, _ => False

theorem Derives.expressions_ne_nil {separation : Separation} {tokens : List Token}
    {nodes : List Node} (derivation : Derives separation .expressions tokens nodes) :
    nodes ≠ [] := by
  cases derivation <;> exact List.cons_ne_nil _ _

theorem Derives.names_ne_nil {separation : Separation} {tokens : List Token}
    {nodes : List Node} (derivation : Derives separation .names tokens nodes) : nodes ≠ [] := by
  cases derivation <;> exact List.cons_ne_nil _ _

theorem Derives.exists_block {separation : Separation} {tokens : List Token} {node : Node}
    (derivation : Derives separation .block tokens [node]) :
    ∃ children, node = .tree .block children := by
  cases derivation
  exact ⟨_, rfl⟩

theorem Derives.rewrites {separation : Separation} {phrase : Phrase} {tokens : List Token}
    {nodes : List Node} (derivation : Derives separation phrase tokens nodes)
    (legible : Legible tokens) : Rewrites phrase nodes := by
  induction derivation with
  | tighten next _ inner => exact inner legible
  | binary member next _ _ left right =>
    simp only [legible_append, legible_cons] at legible
    refine ⟨by simp [Node.render_binary], ?_⟩
    exact writtenAs_binary member next legible.2.1.1 (left legible.1).2 (right legible.2.2).2
  | unary member _ inner =>
    simp only [legible_cons] at legible
    obtain ⟨starts, written⟩ := inner legible.2
    exact ⟨by simp [Node.render_unary], writtenAs_unary member legible.1.1 starts written⟩
  | call opens _ _ _ callee inner =>
    simp only [legible_append, legible_cons] at legible
    obtain ⟨starts, written⟩ := callee legible.1
    refine ⟨?_, writtenAs_call opens legible.2.1.1 written (inner legible.2.2.1)⟩
    simp only [Node.render_call, String.toList_append, List.append_assoc]
    exact head?_append_ne starts (by simp)
  | index opens _ _ _ left inner =>
    simp only [legible_append, legible_cons] at legible
    refine ⟨by simp [Node.render_index], ?_⟩
    exact writtenAs_index opens legible.2.1.1 (left legible.1).2 (inner legible.2.2.1).2
  | leaf member =>
    have leaf := List.mem_cons_of_mem TokenKind.int member
    exact ⟨head?_leaf_ne leaf legible, writtenAs_leaf (.leaf member) leaf legible⟩
  | @integer token kind fits =>
    have leaf : token.kind ∈ leafKinds := by rw [kind]; decide
    exact ⟨head?_leaf_ne leaf legible, writtenAs_leaf (.integer kind fits) leaf legible⟩
  | group _ _ _ inner =>
    simp only [legible_append, legible_cons] at legible
    exact inner legible.2.1
  | array opens _ _ inner =>
    simp only [legible_append, legible_cons] at legible
    exact ⟨by simp [Node.render_array], writtenAs_array opens legible.1.1 (inner legible.2.1)⟩
  | hash opens _ _ inner =>
    simp only [legible_append, legible_cons] at legible
    exact ⟨by simp [Node.render_hash], writtenAs_hash opens legible.1.1 (inner legible.2.1)⟩
  | conditional kind _ _ _ _ _ condition block other =>
    simp only [legible_append, legible_cons] at legible
    obtain ⟨word, -, legibleCondition, -, legibleBlock, legibleOther⟩ := legible
    obtain ⟨otherWritten, detached⟩ := other legibleOther
    refine ⟨by simp [Node.render_conditional], ?_⟩
    exact writtenAs_conditional kind word.1 (condition legibleCondition).2 (block legibleBlock)
      detached otherWritten
  | function kind _ _ parameters block =>
    simp only [legible_append, legible_cons] at legible
    obtain ⟨word, legibleParameters, legibleBlock⟩ := legible
    refine ⟨by simp [Node.render_function], ?_⟩
    exact writtenAs_function kind word.1 (parameters legibleParameters) (block legibleBlock)
  | oneExpression _ inner => exact writtenAs_oneExpression (inner legible).2
  | moreExpressions _ _ derived inner others =>
    simp only [legible_append, legible_cons] at legible
    exact writtenAs_moreExpressions (renderAll_ne_nil derived.expressions_ne_nil)
      (inner legible.1).2 (others legible.2.2)
  | noItems => exact writtenAs_noItems
  | someItems _ inner => exact (inner legible).items
  | oneName kind => exact writtenAs_oneName kind legible
  | moreNames kind _ derived others =>
    simp only [legible_cons] at legible
    exact writtenAs_moreNames derived.names_ne_nil kind (by simpa using legible.1)
      (others legible.2.2)
  | noParameters opens _ =>
    simp only [legible_cons] at legible
    exact writtenAs_noParameters opens legible.1.1
  | someParameters opens _ _ inner =>
    simp only [legible_append, legible_cons] at legible
    exact writtenAs_someParameters opens legible.1.1 (inner legible.2.1)
  | noPairs => exact writtenAs_noPairs
  | lastPair kind _ _ key value =>
    simp only [legible_append, legible_cons] at legible
    rw [Rewrites, Node.renderAll_cons, Node.render_pair]
    exact writtenAs_pairs kind legible.2.1.1 (key legible.1).2 (value legible.2.2).2 rfl
      writtenAs_noPairs
  | morePairs kind _ _ _ _ key value others =>
    simp only [legible_append, legible_cons] at legible
    obtain ⟨legibleKey, colon, legibleValue, -, legibleOthers⟩ := legible
    rw [Rewrites, Node.renderAll_cons, Node.render_pair]
    exact writtenAs_pairs kind colon.1 (key legibleKey).2 (value legibleValue).2
      (length_renderAll _) (others legibleOthers)
  | noAlternative => exact ⟨writtenAs_noAlternative, fun _ detached => detached⟩
  | someAlternative _ derived inner =>
    simp only [legible_cons] at legible
    have written := inner legible.2
    obtain ⟨children, rfl⟩ := derived.exists_block
    refine ⟨writtenAs_someAlternative written, fun following _ => ?_⟩
    simp only [Node.renderAlternative_tree, String.toList_append, String.reduceToList,
      List.cons_append, List.nil_append]
    rfl
  | block opens _ _ inner =>
    simp only [legible_append, legible_cons] at legible
    exact writtenAs_renderedBlock opens legible.1.1 ((inner legible.2.1).1 " " (by decide))
  | letStatement kind nameKind _ _ inner =>
    simp only [legible_cons] at legible
    exact writtenStatement_let kind legible.1.1 nameKind (by simpa using legible.2.1)
      (inner legible.2.2.2).2
  | returnStatement kind _ inner =>
    simp only [legible_cons] at legible
    exact writtenStatement_return kind legible.1.1 (inner legible.2).2
  | expressionStatement _ inner => exact writtenStatement_expression (inner legible).2
  | noStatements => exact writtenStatements_nil
  | terminated _ _ _ inner others =>
    simp only [legible_append, legible_cons] at legible
    exact writtenStatements_cons (inner legible.1) (others legible.2.2)
  | unterminated _ _ _ inner others =>
    simp only [legible_append] at legible
    exact writtenStatements_cons (inner legible.1) (others legible.2)

end Grammar

end Scriptlet
