/-
This file follows every token of a source into its tree. Reading drops no token but
punctuation that the shape of the tree makes up for, keeps every other token as one
leaf with its text and place, and makes no leaf up.

Main statement: `readSource_uses_tokens` says this of every text that is read without
errors, together with the derivation that keeps the tokens in their order.
-/

import Scriptlet.Proofs.Soundness

namespace Scriptlet

open Grammar

namespace Node

mutual

/-- The leaves of a tree, depth first. -/
def leaves : Node → List Leaf
  | hole => []
  | leaf token => [token]
  | tree _ children => leavesAll children

/-- The leaves of some trees, one tree after the other. -/
def leavesAll : List Node → List Leaf
  | [] => []
  | node :: rest => leaves node ++ leavesAll rest

end

theorem leavesAll_append (first second : List Node) :
    leavesAll (first ++ second) = leavesAll first ++ leavesAll second := by
  induction first with
  | nil => rfl
  | cons node rest inductionHypothesis =>
    rw [List.cons_append, leavesAll, leavesAll, inductionHypothesis, List.append_assoc]

theorem leavesAll_perm {first second : List Node} (permuted : first.Perm second) :
    (leavesAll first).Perm (leavesAll second) := by
  induction permuted with
  | nil => exact .nil
  | cons node _ inductionHypothesis => exact .append_left _ inductionHypothesis
  | swap first second rest =>
    simp only [leavesAll, ← List.append_assoc]
    exact List.perm_append_comm.append_right _
  | trans _ _ before after => exact before.trans after

end Node

namespace Grammar

/-- The kinds of token that leave no leaf: closing brackets and braces, the parentheses of
a group or a condition, commas, semicolons, the sign between a name and its value, and the
word before an alternative. -/
def punctuation : List TokenKind :=
  [.rightParen, .rightBracket, .rightBrace, .leftParen, .comma, .semicolon, .assign, .elseWord]

/-- The tokens are the leaves of the nodes, each used once, and some punctuation. -/
def Accounts (tokens : List Token) (nodes : List Node) : Prop :=
  ∃ dropped : List Token, (∀ token ∈ dropped, token.kind ∈ punctuation) ∧
    (tokens.map Leaf.ofToken).Perm (Node.leavesAll nodes ++ dropped.map Leaf.ofToken)

namespace Accounts

theorem nil : Accounts [] [] :=
  ⟨[], nofun, .nil⟩

theorem keep (token : Token) : Accounts [token] [.ofToken token] :=
  ⟨[], nofun, .refl _⟩

theorem drop {token : Token} (member : token.kind ∈ punctuation) : Accounts [token] [] := by
  refine ⟨[token], ?_, .refl _⟩
  intro dropped listed
  rw [List.mem_singleton.mp listed]
  exact member

theorem append {firstTokens secondTokens : List Token} {first second : List Node}
    (before : Accounts firstTokens first) (after : Accounts secondTokens second) :
    Accounts (firstTokens ++ secondTokens) (first ++ second) := by
  obtain ⟨firstDropped, firstPunctuation, firstPerm⟩ := before
  obtain ⟨secondDropped, secondPunctuation, secondPerm⟩ := after
  refine ⟨firstDropped ++ secondDropped, ?_, ?_⟩
  · intro token member
    rcases List.mem_append.mp member with member | member
    · exact firstPunctuation token member
    · exact secondPunctuation token member
  · rw [List.map_append, List.map_append, Node.leavesAll_append]
    refine (firstPerm.append secondPerm).trans ?_
    simp only [List.append_assoc]
    refine List.Perm.append_left _ ?_
    simp only [← List.append_assoc]
    exact List.perm_append_comm.append_right _

theorem cons {token : Token} {tokens : List Token} {nodes : List Node}
    (inner : Accounts tokens nodes) : Accounts (token :: tokens) (.ofToken token :: nodes) :=
  (keep token).append inner

theorem dropCons {token : Token} {tokens : List Token} {nodes : List Node}
    (member : token.kind ∈ punctuation) (inner : Accounts tokens nodes) :
    Accounts (token :: tokens) nodes :=
  (drop member).append inner

theorem dropLast {token : Token} {tokens : List Token} {nodes : List Node}
    (member : token.kind ∈ punctuation) (inner : Accounts tokens nodes) :
    Accounts (tokens ++ [token]) nodes := by
  rw [← List.append_nil nodes]
  exact inner.append (drop member)

theorem tree {tokens : List Token} {children : List Node} {label : Label}
    (inner : Accounts tokens children) : Accounts tokens [.tree label children] := by
  obtain ⟨dropped, member, permuted⟩ := inner
  refine ⟨dropped, member, ?_⟩
  rw [Node.leavesAll, Node.leavesAll, List.append_nil, Node.leaves]
  exact permuted

/-- A tree may keep its introducing token first though it stands behind the first operand. -/
theorem hoist {tokens : List Token} {token : Token} {node : Node} {nodes : List Node}
    (inner : Accounts tokens (node :: .ofToken token :: nodes)) :
    Accounts tokens (.ofToken token :: node :: nodes) := by
  obtain ⟨dropped, member, permuted⟩ := inner
  exact ⟨dropped, member, permuted.trans ((Node.leavesAll_perm (.swap _ _ _)).append_right _)⟩

end Accounts

/-- Every derivation accounts for its tokens. -/
theorem Derives.accounts {separation : Separation} {phrase : Phrase} {tokens : List Token}
    {nodes : List Node} (derivation : Derives separation phrase tokens nodes) :
    Accounts tokens nodes := by
  induction derivation with
  | tighten _ _ inner => exact inner
  | binary _ _ _ _ left right => exact (left.append right.cons).hoist.tree
  | unary _ _ inner => exact inner.cons.tree
  | call opens closes _ _ callee inner =>
    exact (callee.append (inner.dropLast (by simp [closes, punctuation])).cons).hoist.tree
  | index opens closes _ _ left inner =>
    exact (left.append (inner.dropLast (by simp [closes, punctuation])).cons).hoist.tree
  | leaf _ => exact .keep _
  | integer _ _ => exact .keep _
  | group opens closes _ inner =>
    exact (inner.dropLast (by simp [closes, punctuation])).dropCons
      (by simp [opens, punctuation])
  | array _ closes _ inner => exact (inner.dropLast (by simp [closes, punctuation])).cons.tree
  | hash _ closes _ inner => exact (inner.dropLast (by simp [closes, punctuation])).cons.tree
  | conditional _ opens closes _ _ _ condition block other =>
    exact (((condition.append ((block.append other).dropCons
      (by simp [closes, punctuation]))).dropCons (by simp [opens, punctuation])).cons).tree
  | function _ _ _ parameters block => exact (parameters.append block).cons.tree
  | oneExpression _ inner => exact inner
  | moreExpressions separates _ _ inner rest =>
    exact inner.append (rest.dropCons (by simp [separates, punctuation]))
  | noItems => exact .nil
  | someItems _ inner => exact inner
  | oneName _ => exact .keep _
  | moreNames _ separates _ rest => exact (rest.dropCons (by simp [separates, punctuation])).cons
  | noParameters _ closes => exact (Accounts.drop (by simp [closes, punctuation])).cons.tree
  | someParameters _ closes _ inner =>
    exact (inner.dropLast (by simp [closes, punctuation])).cons.tree
  | noPairs => exact .nil
  | lastPair _ _ _ key value => exact (key.append value.cons).hoist.tree
  | @morePairs colon comma keyTokens valueTokens restTokens key value rest _ separates _ _ _
      keyAccounts valueAccounts restAccounts =>
    have pair : Accounts (keyTokens ++ colon :: valueTokens)
        [.tree .pair [.ofToken colon, key, value]] :=
      (keyAccounts.append valueAccounts.cons).hoist.tree
    have separated : comma.kind ∈ punctuation := by simp [separates, punctuation]
    have all := pair.append (restAccounts.dropCons separated)
    rw [List.append_assoc] at all
    exact all
  | noAlternative => exact .nil
  | someAlternative kind _ inner => exact inner.dropCons (by simp [kind, punctuation])
  | block _ closes _ inner => exact (inner.dropLast (by simp [closes, punctuation])).cons.tree
  | letStatement _ _ equals _ inner =>
    exact (inner.dropCons (by simp [equals, punctuation])).cons.cons.tree
  | returnStatement _ _ inner => exact inner.cons.tree
  | expressionStatement _ inner => exact inner.tree
  | noStatements => exact .nil
  | terminated ends _ _ inner rest =>
    exact inner.append (rest.dropCons (by simp [ends, punctuation]))
  | unterminated _ _ _ inner rest => exact inner.append rest

/-- The leaves of a program are its tokens, each used once, less some punctuation. -/
theorem Program.accounts {separation : Separation} {tokens : List Token} {tree : Node}
    (program : Program separation tokens tree) :
    ∃ dropped : List Token, (∀ token ∈ dropped, token.kind ∈ punctuation) ∧
      (tokens.map Leaf.ofToken).Perm (tree.leaves ++ dropped.map Leaf.ofToken) := by
  obtain ⟨statements, rfl, derived⟩ := program
  exact derived.accounts

end Grammar

/-- The tokens of a text that is read without errors derive its tree in their order, with
no token left over. Each token is one leaf of the tree, unchanged in kind, text, line and
column, or punctuation that the tree does not keep, and every leaf is such a token. -/
theorem readSource_uses_tokens (text : String) (accepted : (readSource text).errors = []) :
    Program .optional (sourceTokens text) (readSource text).program ∧
      ∃ dropped : List Token, (∀ token ∈ dropped, token.kind ∈ punctuation) ∧
        ((sourceTokens text).map Leaf.ofToken).Perm
          ((readSource text).program.leaves ++ dropped.map Leaf.ofToken) := by
  have program := program_of_readSource accepted
  exact ⟨program, program.accounts⟩

theorem readSource_uses_tokens_of_hash :
    (readSource "let f = func(a) \x7b -a \x7d;\n\x7b1: f(3),\x7d").errors = [] ∧
      Program .optional (sourceTokens "let f = func(a) \x7b -a \x7d;\n\x7b1: f(3),\x7d")
        (readSource "let f = func(a) \x7b -a \x7d;\n\x7b1: f(3),\x7d").program := by
  have accepted : (readSource "let f = func(a) \x7b -a \x7d;\n\x7b1: f(3),\x7d").errors = [] := by
    decide +kernel
  exact ⟨accepted, (readSource_uses_tokens _ accepted).1⟩

end Scriptlet
