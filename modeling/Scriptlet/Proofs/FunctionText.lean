/-
This file is about the functions of a source and the text that shows them. A function that stands
anywhere in the tree of a source is derived from tokens that stand side by side in the source. Its
last token is a brace, so none of its strings is the last token of the source, and they are all
closed. Hence it can be written down again, one statement of its body to a line, which is how
`Value.inspect` shows it.
-/

import Scriptlet.Value.Inspect
import Scriptlet.Proofs.RoundTrip
import Scriptlet.Proofs.Shape
import Scriptlet.Proofs.Spellable

namespace Scriptlet

namespace Grammar

/-! ### Where the tokens of a function stand -/

/-- The children of a function are derived from tokens that stand side by side. -/
structure FunctionIn (separation : Separation) (tokens : List Token) (word : Token)
    (parameters body : Node) (parameterTokens blockTokens : List Token) : Prop where
  kind : word.kind = .funcWord
  parametersDerive : Derives separation .parameters parameterTokens [parameters]
  blockDerives : Derives separation .block blockTokens [body]
  part : word :: (parameterTokens ++ blockTokens) <:+: tokens

/-- Every function in some nodes is derived from a part of the tokens. -/
def Traces (separation : Separation) (tokens : List Token) (nodes : List Node) : Prop :=
  ∀ children, ∀ node ∈ nodes, (Node.tree .function children).Within node →
    ∃ word parameters body parameterTokens blockTokens,
      children = [.ofToken word, parameters, body] ∧
        FunctionIn separation tokens word parameters body parameterTokens blockTokens

namespace Traces

variable {separation : Separation} {tokens more : List Token} {token : Token} {node : Node}
  {nodes others : List Node}

theorem nil : Traces separation tokens [] :=
  nofun

theorem leaf : Traces separation tokens [.ofToken token] := by
  intro children node member within
  obtain rfl := List.mem_singleton.mp member
  cases within

theorem append (first : Traces separation tokens nodes) (second : Traces separation tokens others) :
    Traces separation tokens (nodes ++ others) := by
  intro children node member
  rcases List.mem_append.mp member with inFirst | inSecond
  · exact first children node inFirst
  · exact second children node inSecond

theorem both (first : Traces separation tokens [node]) (rest : Traces separation tokens nodes) :
    Traces separation tokens (node :: nodes) :=
  first.append rest

theorem cons (inner : Traces separation tokens nodes) :
    Traces separation tokens (.ofToken token :: nodes) :=
  leaf.both inner

theorem widen (inner : Traces separation tokens nodes) (part : tokens <:+: more) :
    Traces separation more nodes := by
  intro children node member within
  obtain ⟨word, parameters, body, parameterTokens, blockTokens, listed, found⟩ :=
    inner children node member within
  exact ⟨word, parameters, body, parameterTokens, blockTokens, listed,
    { found with part := found.part.trans part }⟩

theorem before (inner : Traces separation tokens nodes) :
    Traces separation (tokens ++ more) nodes :=
  inner.widen (List.prefix_append _ _).isInfix

theorem behind (inner : Traces separation tokens nodes) :
    Traces separation (more ++ tokens) nodes :=
  inner.widen (List.suffix_append _ _).isInfix

theorem behindToken (inner : Traces separation tokens nodes) :
    Traces separation (token :: tokens) nodes :=
  inner.widen (List.suffix_cons _ _).isInfix

theorem tree {label : Label} (other : label ≠ .function) (inner : Traces separation tokens nodes) :
    Traces separation tokens [.tree label nodes] := by
  intro children node member within
  obtain rfl := List.mem_singleton.mp member
  cases within with
  | self => exact absurd rfl other
  | child listed deeper => exact inner children _ listed deeper

theorem function {word : Token} {parameters body : Node} {parameterTokens blockTokens : List Token}
    (found : FunctionIn separation tokens word parameters body parameterTokens blockTokens)
    (inParameters : Traces separation parameterTokens [parameters])
    (inBlock : Traces separation blockTokens [body]) :
    Traces separation tokens [.tree .function [.ofToken word, parameters, body]] := by
  have inner : Traces separation tokens [.ofToken word, parameters, body] :=
    ((inParameters.before.append inBlock.behind).behindToken.widen found.part).cons
  intro children node member within
  obtain rfl := List.mem_singleton.mp member
  cases within with
  | self => exact ⟨word, parameters, body, parameterTokens, blockTokens, rfl, found⟩
  | child listed deeper => exact inner children _ listed deeper

end Traces

theorem Derives.traces {separation : Separation} {phrase : Phrase} {tokens : List Token}
    {nodes : List Node} (derivation : Derives separation phrase tokens nodes) :
    Traces separation tokens nodes := by
  induction derivation with
  | tighten _ _ inner => exact inner
  | binary _ _ _ _ left right =>
    exact (left.before.append right.behindToken.behind).cons.tree (by decide)
  | unary _ _ inner => exact inner.behindToken.cons.tree (by decide)
  | call _ _ _ _ callee inner =>
    exact (callee.before.append inner.before.behindToken.behind).cons.tree (by decide)
  | index _ _ _ _ left inner =>
    exact (left.before.append inner.before.behindToken.behind).cons.tree (by decide)
  | leaf | integer | oneName => exact .leaf
  | group _ _ _ inner => exact inner.before.behindToken
  | array _ _ _ inner | hash _ _ _ inner | block _ _ _ inner | someParameters _ _ _ inner =>
    exact inner.before.behindToken.cons.tree (by decide)
  | conditional _ _ _ _ _ _ condition block other =>
    exact (condition.before.append (block.before.append other.behind).behindToken.behind
      ).behindToken.behindToken.cons.tree (by decide)
  | function kind parametersDerive blockDerives parameters block =>
    exact .function ⟨kind, parametersDerive, blockDerives, List.infix_rfl⟩ parameters block
  | oneExpression _ inner | someItems _ inner => exact inner
  | moreExpressions _ _ _ inner rest => exact inner.before.append rest.behindToken.behind
  | noItems | noPairs | noAlternative | noStatements => exact .nil
  | moreNames _ _ _ rest => exact rest.behindToken.behindToken.cons
  | noParameters => exact Traces.nil.cons.tree (by decide)
  | lastPair _ _ _ key value =>
    exact (key.before.append value.behindToken.behind).cons.tree (by decide)
  | morePairs _ _ _ _ _ key value rest =>
    refine .both (.tree (by decide) ?_) rest.behindToken.behind.behindToken.behind
    exact (key.before.append value.before.behindToken.behind).cons
  | someAlternative _ _ inner => exact inner.behindToken
  | letStatement _ _ _ _ inner =>
    exact inner.behindToken.behindToken.behindToken.cons.cons.tree (by decide)
  | returnStatement _ _ inner => exact inner.behindToken.cons.tree (by decide)
  | expressionStatement _ inner => exact inner.tree (by decide)
  | terminated _ _ _ inner rest => exact inner.before.append rest.behindToken.behind
  | unterminated _ _ _ inner rest => exact inner.before.append rest.behind

end Grammar

open Grammar

/-! ### The text of a function -/

/-- A string that can be written is not left open by its last backslash. -/
theorem Spellable.paired {kind : TokenKind} {text : String} (spellable : Spellable kind text)
    (isString : kind = .string) : endsUnpaired text.toList = false := by
  subst isString
  cases spellable with
  | string _ closes => exact ((quotable_iff _).mp closes).2
  | keyword listed => exact absurd rfl (kind_ne_string_of_mem_keywords _ listed)
  | mark listed => exact absurd rfl (kind_ne_string_of_mem_marks _ listed)
  | name other | number other | stray other => cases other

/-- Tokens that stand side by side in a source and do not end in a string are found again. -/
theorem legible_of_part {source : String} {tokens : List Token} {last : Token}
    (part : tokens ++ [last] <:+: sourceTokens source) (plain : last.kind ≠ .string) :
    Legible (tokens ++ [last]) := by
  obtain ⟨front, back, whole⟩ := part
  have regrouped : sourceTokens source = (front ++ tokens) ++ (last :: back) := by
    rw [← whole]
    simp
  intro token member
  have listed : token ∈ sourceTokens source := by
    rw [← whole]
    exact List.mem_append_left _ (List.mem_append_right _ member)
  refine ⟨Cursor.spelled_of_mem_scan _ token listed, fun isString => ?_⟩
  rcases List.mem_append.mp member with inside | atEnd
  · refine Spellable.paired ?_ isString
    apply (Cursor.ofText source).spellable_scan.1
    show token ∈ (sourceTokens source).dropLast
    rw [regrouped, List.dropLast_append_of_ne_nil (List.cons_ne_nil _ _)]
    exact List.mem_append_left _ (List.mem_append_right _ inside)
  · rw [List.mem_singleton.mp atEnd] at isString
    exact absurd isString plain

/-- The names of a parameter list are written as they are. -/
theorem render_of_parameters {parameters : Node} (shaped : parameters.Shaped .parameters) :
    parameters.render = ", ".intercalate (parameters.operands.map Node.leafText) := by
  cases shaped with
  | @parameters opening names inner =>
    have same : Node.renderAll names = names.map Node.leafText := by
      induction names with
      | nil => rfl
      | cons name rest inductionHypothesis =>
        rw [List.forall_mem_cons] at inner
        rw [Node.renderAll_cons, List.map_cons, inductionHypothesis inner.2]
        cases inner.1 with
        | name kind =>
          rw [render_ofToken (by rw [kind]; decide)]
          rfl
    rw [Node.render_parameters, same]
    rfl

/-- A function that stands somewhere in the tree of an accepted source: its word, its parameters
and its body. -/
def StandsInSource (word parameters body : Node) : Prop :=
  ∃ source, (readSource source).errors = [] ∧
    (Node.tree .function [word, parameters, body]).Within (readSource source).program

/-- The text that shows a function is one that it can be written as. -/
theorem StandsInSource.writtenAs {word parameters body : Node}
    (stands : StandsInSource word parameters body) :
    WrittenAs (.expression .call) [.tree .function [word, parameters, body]]
      ("func(" ++ ", ".intercalate (parameters.operands.map Node.leafText) ++ ") \x7b\n" ++
        "\n".intercalate body.statementTerms ++ "\n\x7d") := by
  obtain ⟨source, accepted, within⟩ := stands
  obtain ⟨statements, program, derived⟩ := program_of_readSource accepted
  have traces := derived.traces.tree (show Label.program ≠ .function by decide)
  rw [← program] at traces
  obtain ⟨word, _, _, parameterTokens, blockTokens, listed, found⟩ :=
    traces _ _ (List.mem_singleton_self _) within
  cases listed
  obtain ⟨kind, parametersDerive, blockDerives, part⟩ := found
  cases blockDerives with
  | @block opening closing tokens statements opens closes inner =>
    have regrouped : word :: (parameterTokens ++ opening :: (tokens ++ [closing])) =
        (word :: (parameterTokens ++ opening :: tokens)) ++ [closing] := by simp
    rw [regrouped] at part
    have legible := legible_of_part part (by rw [closes]; decide)
    rw [← regrouped] at legible
    simp only [legible_append, legible_cons] at legible
    obtain ⟨⟨wordSpelled, -⟩, legibleParameters, ⟨openingSpelled, -⟩, legibleBody, -⟩ := legible
    have parametersWritten : WrittenAs .parameters [parameters] ("(" ++ parameters.render ++ ")") :=
      parametersDerive.rewrites legibleParameters
    have layout : "\n".toList.all isLayout = true := by decide
    have bodyWritten := (inner.rewrites legibleBody).1 "\n" layout
    have written := writtenAs_function kind wordSpelled parametersWritten
      (writtenAs_block opens openingSpelled layout layout bodyWritten)
    have shaped : parameters.Shaped .parameters :=
      parametersDerive.shaped (fun token member => (legibleParameters token member).1) _
        (List.mem_singleton_self _)
    rw [render_of_parameters shaped] at written
    have text : "func(" ++ ", ".intercalate (parameters.operands.map Node.leafText) ++ ") " ++
        ("\x7b" ++ "\n" ++ "\n".intercalate (Node.renderTerms statements) ++ "\n" ++ "\x7d") =
        "func(" ++ ", ".intercalate (parameters.operands.map Node.leafText) ++ ") \x7b\n" ++
          "\n".intercalate (Node.renderTerms statements) ++ "\n\x7d" :=
      String.toList_inj.mp (by simp)
    rw [text] at written
    exact written

end Scriptlet
