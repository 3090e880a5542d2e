/-
This file proves that the grammar does not look at places. Tokens that agree with those
of a derivation in kind and text have a derivation of the same phrase, and the trees of
the two derivations are alike.
-/

import Scriptlet.Proofs.Grammar
import Scriptlet.Proofs.Spelling

namespace Scriptlet

open Grammar

/-- Two lists of tokens agree in kinds and texts. -/
def Resembles (read tokens : List Token) : Prop :=
  read.map Token.bare = tokens.map Token.bare

namespace Resembles

theorem nil {read : List Token} (same : Resembles read []) : read = [] :=
  List.map_eq_nil_iff.mp same

/-- The first tokens agree, and so do the leaves that they become. -/
theorem cons {read tokens : List Token} {token : Token} (same : Resembles read (token :: tokens)) :
    ∃ first rest, read = first :: rest ∧ first.kind = token.kind ∧ first.text = token.text ∧
      (Node.ofToken first).unplaced = (Node.ofToken token).unplaced ∧ Resembles rest tokens := by
  obtain ⟨first, rest, rfl, bare, others⟩ := List.map_eq_cons_iff.mp same
  obtain ⟨kind, text⟩ := Prod.mk.inj bare
  refine ⟨first, rest, rfl, kind, text, ?_, others⟩
  simp only [Node.ofToken, Node.unplaced, Leaf.unplaced, Leaf.ofToken, kind, text]

theorem append {read tokens others : List Token} (same : Resembles read (tokens ++ others)) :
    ∃ first second, read = first ++ second ∧ Resembles first tokens ∧ Resembles second others := by
  rw [Resembles, List.map_append] at same
  obtain ⟨first, second, rfl, before, after⟩ := List.map_eq_append_iff.mp same
  exact ⟨first, second, rfl, before, after⟩

theorem singleton {read : List Token} {token : Token} (same : Resembles read [token]) :
    ∃ first, read = [first] ∧ first.kind = token.kind ∧ first.text = token.text ∧
      (Node.ofToken first).unplaced = (Node.ofToken token).unplaced := by
  obtain ⟨first, rest, rfl, kind, text, alike, others⟩ := same.cons
  rw [others.nil]
  exact ⟨first, rfl, kind, text, alike⟩

/-- What stands between brackets that agree. -/
theorem enclosed {read tokens : List Token} {opening closing : Token}
    (same : Resembles read (opening :: (tokens ++ [closing]))) :
    ∃ first inside last, read = first :: (inside ++ [last]) ∧ first.kind = opening.kind ∧
      (Node.ofToken first).unplaced = (Node.ofToken opening).unplaced ∧
      last.kind = closing.kind ∧ Resembles inside tokens := by
  obtain ⟨first, rest, rfl, kind, -, alike, others⟩ := same.cons
  obtain ⟨inside, behind, rfl, between, ending⟩ := others.append
  obtain ⟨last, rfl, closes, -⟩ := ending.singleton
  exact ⟨first, inside, last, rfl, kind, alike, closes, between⟩

end Resembles

namespace Grammar

/-- The phrase can be derived from any tokens that resemble the given ones. -/
def Relocates (separation : Separation) (phrase : Phrase) (tokens : List Token)
    (nodes : List Node) : Prop :=
  ∀ read, Resembles read tokens → ∃ moved, Derives separation phrase read moved ∧
    Node.unplacedAll moved = Node.unplacedAll nodes

theorem Relocates.single {separation : Separation} {phrase : Phrase} {tokens read : List Token}
    {node : Node} (relocates : Relocates separation phrase tokens [node])
    (same : Resembles read tokens) :
    ∃ moved, Derives separation phrase read [moved] ∧ moved.unplaced = node.unplaced := by
  obtain ⟨nodes, derived, alike⟩ := relocates read same
  rw [Node.unplacedAll_eq_map, Node.unplacedAll_eq_map] at alike
  obtain ⟨moved, rest, rfl, first, others⟩ := List.map_eq_cons_iff.mp alike
  rw [List.map_eq_nil_iff.mp others] at derived
  exact ⟨moved, derived, first⟩

/-! ### Productions of one form -/

section

variable {separation : Separation} {phrase inner outer : Phrase} {tokens leftTokens : List Token}
  {nodes : List Node} {node left : Node} {label : Label}

theorem Relocates.empty (production : Derives separation phrase [] []) :
    Relocates separation phrase [] [] := by
  intro read same
  rw [same.nil]
  exact ⟨[], production, rfl⟩

theorem Relocates.token {token : Token}
    (production : ∀ {moved : Token}, moved.kind = token.kind → moved.text = token.text →
      Derives separation phrase [moved] [.ofToken moved]) :
    Relocates separation phrase [token] [.ofToken token] := by
  intro read same
  obtain ⟨moved, rfl, kind, text, alike⟩ := same.singleton
  exact ⟨_, production kind text, by simp only [Node.unplacedAll, alike]⟩

/-- A production that makes one phrase out of another and keeps its node. -/
theorem Relocates.promoted (inside : Relocates separation inner tokens [node])
    (production : ∀ {tokens : List Token} {node : Node}, Derives separation inner tokens [node] →
      Derives separation outer tokens [node]) :
    Relocates separation outer tokens [node] := by
  intro read same
  obtain ⟨moved, derived, alike⟩ := inside.single same
  exact ⟨_, production derived, by simp only [Node.unplacedAll, alike]⟩

/-- A production with a token in front that becomes the first child. -/
theorem Relocates.headed {first : Token} (inside : Relocates separation inner tokens [node])
    (production : ∀ {moved : Token} {tokens : List Token} {node : Node},
      moved.kind = first.kind → Derives separation inner tokens [node] →
      Derives separation outer (moved :: tokens) [.tree label [.ofToken moved, node]]) :
    Relocates separation outer (first :: tokens) [.tree label [.ofToken first, node]] := by
  intro read same
  obtain ⟨moved, rest, rfl, kind, -, firstAlike, others⟩ := same.cons
  obtain ⟨movedNode, derived, alike⟩ := inside.single others
  refine ⟨_, production kind derived, ?_⟩
  simp only [Node.unplacedAll, Node.unplaced, firstAlike, alike]

/-- A production with a token in the middle that becomes the first child. -/
theorem Relocates.between {middle : Token} {leftPhrase rightPhrase : Phrase}
    (before : Relocates separation leftPhrase leftTokens [left])
    (behind : Relocates separation rightPhrase tokens [node])
    (production : ∀ {moved : Token} {leftTokens tokens : List Token} {left node : Node},
      moved.kind = middle.kind → Derives separation leftPhrase leftTokens [left] →
      Derives separation rightPhrase tokens [node] →
      Derives separation outer (leftTokens ++ moved :: tokens)
        [.tree label [.ofToken moved, left, node]]) :
    Relocates separation outer (leftTokens ++ middle :: tokens)
      [.tree label [.ofToken middle, left, node]] := by
  intro read same
  obtain ⟨leftRead, more, rfl, leftSame, moreSame⟩ := same.append
  obtain ⟨moved, rightRead, rfl, kind, -, middleAlike, rightSame⟩ := moreSame.cons
  obtain ⟨leftNode, leftDerived, leftAlike⟩ := before.single leftSame
  obtain ⟨rightNode, rightDerived, rightAlike⟩ := behind.single rightSame
  refine ⟨_, production kind leftDerived rightDerived, ?_⟩
  simp only [Node.unplacedAll, Node.unplaced, middleAlike, leftAlike, rightAlike]

/-- A production with brackets, of which the opening one becomes the first child. -/
theorem Relocates.bracketed {opening closing : Token}
    (inside : Relocates separation inner tokens nodes)
    (production : ∀ {first last : Token} {tokens : List Token} {nodes : List Node},
      first.kind = opening.kind → last.kind = closing.kind →
      Derives separation inner tokens nodes →
      Derives separation outer (first :: (tokens ++ [last]))
        [.tree label (.ofToken first :: nodes)]) :
    Relocates separation outer (opening :: (tokens ++ [closing]))
      [.tree label (.ofToken opening :: nodes)] := by
  intro read same
  obtain ⟨first, between, last, rfl, opened, firstAlike, closed, betweenSame⟩ := same.enclosed
  obtain ⟨moved, derived, alike⟩ := inside between betweenSame
  refine ⟨_, production opened closed derived, ?_⟩
  simp only [Node.unplacedAll, Node.unplaced, firstAlike, alike]

/-- A production that puts one more phrase and a separator in front of a list. -/
theorem Relocates.listed {separator : Token} {restTokens : List Token}
    (first : Relocates separation inner tokens [node])
    (others : Relocates separation outer restTokens nodes)
    (production : ∀ {moved : Token} {tokens restTokens : List Token} {node : Node}
      {nodes : List Node}, moved.kind = separator.kind → Derives separation inner tokens [node] →
      Derives separation outer restTokens nodes →
      Derives separation outer (tokens ++ moved :: restTokens) (node :: nodes)) :
    Relocates separation outer (tokens ++ separator :: restTokens) (node :: nodes) := by
  intro read same
  obtain ⟨firstRead, more, rfl, firstSame, moreSame⟩ := same.append
  obtain ⟨moved, rest, rfl, kind, -, -, restSame⟩ := moreSame.cons
  obtain ⟨movedNode, derived, alike⟩ := first.single firstSame
  obtain ⟨movedRest, othersDerived, othersAlike⟩ := others rest restSame
  refine ⟨_, production kind derived othersDerived, ?_⟩
  simp only [Node.unplacedAll, alike, othersAlike]

end

/-! ### Derivations are moved -/

theorem Derives.relocates {separation : Separation} {phrase : Phrase} {tokens : List Token}
    {nodes : List Node} (derivation : Derives separation phrase tokens nodes) :
    Relocates separation phrase tokens nodes := by
  induction derivation with
  | tighten next _ inner => exact inner.promoted (.tighten next)
  | binary member next _ _ left right =>
    exact left.between right fun kind => .binary (by rw [kind]; exact member) next
  | unary member _ inner =>
    exact inner.headed fun kind => .unary (by rw [kind]; exact member)
  | call opens closes _ _ callee inner =>
    intro read same
    obtain ⟨calleeRead, more, rfl, calleeSame, moreSame⟩ := same.append
    obtain ⟨opening, inside, closing, rfl, kind, openingAlike, ends, insideSame⟩ :=
      moreSame.enclosed
    obtain ⟨calleeNode, calleeDerived, calleeAlike⟩ := callee.single calleeSame
    obtain ⟨arguments, derived, alike⟩ := inner inside insideSame
    refine ⟨_, .call (kind.trans opens) (ends.trans closes) calleeDerived derived, ?_⟩
    simp only [Node.unplacedAll, Node.unplaced, openingAlike, calleeAlike, alike]
  | index opens closes _ _ left inner =>
    intro read same
    obtain ⟨leftRead, more, rfl, leftSame, moreSame⟩ := same.append
    obtain ⟨opening, inside, closing, rfl, kind, openingAlike, ends, insideSame⟩ :=
      moreSame.enclosed
    obtain ⟨leftNode, leftDerived, leftAlike⟩ := left.single leftSame
    obtain ⟨node, derived, alike⟩ := inner.single insideSame
    refine ⟨_, .index (kind.trans opens) (ends.trans closes) leftDerived derived, ?_⟩
    simp only [Node.unplacedAll, Node.unplaced, openingAlike, leftAlike, alike]
  | leaf member => exact .token fun kind _ => .leaf (by rw [kind]; exact member)
  | integer isInteger fits =>
    exact .token fun kind text => .integer (kind.trans isInteger) (by rw [text]; exact fits)
  | group opens closes _ inner =>
    intro read same
    obtain ⟨opening, inside, closing, rfl, kind, -, ends, insideSame⟩ := same.enclosed
    obtain ⟨node, derived, alike⟩ := inner.single insideSame
    refine ⟨_, .group (kind.trans opens) (ends.trans closes) derived, ?_⟩
    simp only [Node.unplacedAll, alike]
  | array opens closes _ inner =>
    exact inner.bracketed fun opened closed => .array (opened.trans opens) (closed.trans closes)
  | hash opens closes _ inner =>
    exact inner.bracketed fun opened closed => .hash (opened.trans opens) (closed.trans closes)
  | conditional isIf opens closes _ _ _ condition block other =>
    intro read same
    obtain ⟨word, more, rfl, kind, -, wordAlike, moreSame⟩ := same.cons
    obtain ⟨opening, between, rfl, opened, -, -, betweenSame⟩ := moreSame.cons
    obtain ⟨conditionRead, behind, rfl, conditionSame, behindSame⟩ := betweenSame.append
    obtain ⟨closing, rest, rfl, ends, -, -, restSame⟩ := behindSame.cons
    obtain ⟨blockRead, otherRead, rfl, blockSame, otherSame⟩ := restSame.append
    obtain ⟨conditionNode, conditionDerived, conditionAlike⟩ := condition.single conditionSame
    obtain ⟨blockNode, blockDerived, blockAlike⟩ := block.single blockSame
    obtain ⟨otherNodes, otherDerived, otherAlike⟩ := other otherRead otherSame
    refine ⟨_, .conditional (kind.trans isIf) (opened.trans opens) (ends.trans closes)
      conditionDerived blockDerived otherDerived, ?_⟩
    simp only [Node.unplacedAll, Node.unplaced, wordAlike, conditionAlike, blockAlike, otherAlike]
  | function isFunction _ _ parameters block =>
    intro read same
    obtain ⟨word, rest, rfl, kind, -, wordAlike, others⟩ := same.cons
    obtain ⟨parametersRead, blockRead, rfl, parametersSame, blockSame⟩ := others.append
    obtain ⟨parametersNode, parametersDerived, parametersAlike⟩ :=
      parameters.single parametersSame
    obtain ⟨blockNode, blockDerived, blockAlike⟩ := block.single blockSame
    refine ⟨_, .function (kind.trans isFunction) parametersDerived blockDerived, ?_⟩
    simp only [Node.unplacedAll, Node.unplaced, wordAlike, parametersAlike, blockAlike]
  | oneExpression _ inner => exact inner.promoted .oneExpression
  | moreExpressions separates _ _ inner others =>
    exact inner.listed others fun kind => .moreExpressions (kind.trans separates)
  | noItems => exact .empty .noItems
  | someItems _ inner =>
    intro read same
    obtain ⟨nodes, derived, alike⟩ := inner read same
    exact ⟨_, .someItems derived, alike⟩
  | oneName isName => exact .token fun kind _ => .oneName (kind.trans isName)
  | moreNames isName separates _ others =>
    intro read same
    obtain ⟨name, more, rfl, kind, -, alike, moreSame⟩ := same.cons
    obtain ⟨comma, rest, rfl, commaKind, -, -, restSame⟩ := moreSame.cons
    obtain ⟨names, derived, othersAlike⟩ := others rest restSame
    refine ⟨_, .moreNames (kind.trans isName) (commaKind.trans separates) derived, ?_⟩
    simp only [Node.unplacedAll, alike, othersAlike]
  | noParameters opens closes =>
    intro read same
    obtain ⟨opening, rest, rfl, kind, -, openingAlike, others⟩ := same.cons
    obtain ⟨closing, rfl, ends, -, -⟩ := others.singleton
    refine ⟨_, .noParameters (kind.trans opens) (ends.trans closes), ?_⟩
    simp only [Node.unplacedAll, Node.unplaced, openingAlike]
  | someParameters opens closes _ inner =>
    exact inner.bracketed fun opened closed =>
      .someParameters (opened.trans opens) (closed.trans closes)
  | noPairs => exact .empty .noPairs
  | lastPair isColon _ _ key value =>
    exact key.between value fun kind => .lastPair (kind.trans isColon)
  | morePairs isColon separates _ _ _ key value others =>
    intro read same
    obtain ⟨keyRead, more, rfl, keySame, moreSame⟩ := same.append
    obtain ⟨colon, behind, rfl, kind, -, colonAlike, behindSame⟩ := moreSame.cons
    obtain ⟨valueRead, rest, rfl, valueSame, restSame⟩ := behindSame.append
    obtain ⟨comma, othersRead, rfl, commaKind, -, -, othersSame⟩ := restSame.cons
    obtain ⟨keyNode, keyDerived, keyAlike⟩ := key.single keySame
    obtain ⟨valueNode, valueDerived, valueAlike⟩ := value.single valueSame
    obtain ⟨nodes, othersDerived, othersAlike⟩ := others othersRead othersSame
    refine ⟨_, .morePairs (kind.trans isColon) (commaKind.trans separates) keyDerived valueDerived
      othersDerived, ?_⟩
    simp only [Node.unplacedAll, Node.unplaced, colonAlike, keyAlike, valueAlike, othersAlike]
  | noAlternative => exact .empty .noAlternative
  | someAlternative isElse _ inner =>
    intro read same
    obtain ⟨word, rest, rfl, kind, -, -, others⟩ := same.cons
    obtain ⟨block, derived, alike⟩ := inner.single others
    exact ⟨_, .someAlternative (kind.trans isElse) derived, by simp only [Node.unplacedAll, alike]⟩
  | block opens closes _ inner =>
    exact inner.bracketed fun opened closed => .block (opened.trans opens) (closed.trans closes)
  | letStatement isLet isName isEquals _ inner =>
    intro read same
    obtain ⟨word, more, rfl, kind, -, wordAlike, moreSame⟩ := same.cons
    obtain ⟨name, behind, rfl, nameKind, -, nameAlike, behindSame⟩ := moreSame.cons
    obtain ⟨equals, rest, rfl, equalsKind, -, -, restSame⟩ := behindSame.cons
    obtain ⟨value, derived, alike⟩ := inner.single restSame
    refine ⟨_, .letStatement (kind.trans isLet) (nameKind.trans isName)
      (equalsKind.trans isEquals) derived, ?_⟩
    simp only [Node.unplacedAll, Node.unplaced, wordAlike, nameAlike, alike]
  | returnStatement isReturn _ inner =>
    exact inner.headed fun kind => .returnStatement (kind.trans isReturn)
  | expressionStatement _ inner =>
    intro read same
    obtain ⟨value, derived, alike⟩ := inner.single same
    refine ⟨_, .expressionStatement derived, ?_⟩
    simp only [Node.unplacedAll, Node.unplaced, alike]
  | noStatements => exact .empty .noStatements
  | terminated ends _ _ inner others =>
    exact inner.listed others fun kind => .terminated (kind.trans ends)
  | unterminated apart _ _ inner others =>
    intro read same
    obtain ⟨firstRead, rest, rfl, firstSame, restSame⟩ := same.append
    obtain ⟨statement, derived, alike⟩ := inner.single firstSame
    obtain ⟨nodes, othersDerived, othersAlike⟩ := others rest restSame
    have stillApart : separation = .optional ∨ rest = [] := by
      refine apart.imp_right ?_
      rintro rfl
      exact restSame.nil
    refine ⟨_, .unterminated stillApart derived othersDerived, ?_⟩
    simp only [Node.unplacedAll, alike, othersAlike]

end Grammar

end Scriptlet
