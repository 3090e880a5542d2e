/-
This file writes trees back as canonical text. Unary and binary forms and indexing
are fully parenthesised, every statement is terminated except the last one of a
program, and a hole is written as nothing.

`Node.render` is total: it leaves out what it cannot take apart. The printer, which
fails there, is in `Scriptlet.Tree.Print`.
-/

import Scriptlet.Tree

namespace Scriptlet

/-- The canonical text of a leaf: a string stands between double quotes. -/
def Leaf.render (leaf : Leaf) : String :=
  if leaf.kind = .own .string then "\"" ++ leaf.text ++ "\"" else leaf.text

namespace Node

mutual

/-- The canonical text of a node. -/
def render : Node → String
  | hole => ""
  | leaf token => token.render
  | tree .program statements => " ".intercalate (renderProgram statements)
  | tree .expressionStatement (expression :: _) => render expression
  | tree .letStatement [_, name, value] => "let " ++ render name ++ " = " ++ render value ++ ";"
  | tree .returnStatement [_, value] => "return " ++ render value ++ ";"
  | tree .block [] => "\x7b \x7d"
  | tree .block [_] => "\x7b \x7d"
  | tree .block (_ :: statements) =>
    "\x7b " ++ " ".intercalate (renderTerms statements) ++ " \x7d"
  | tree .unary [operator, operand] => "(" ++ operator.leafText ++ render operand ++ ")"
  | tree .binary [operator, left, right] =>
    "(" ++ render left ++ " " ++ operator.leafText ++ " " ++ render right ++ ")"
  | tree .conditional (_ :: condition :: consequence :: alternative) =>
    "if (" ++ render condition ++ ") " ++ render consequence ++ renderAlternative alternative
  | tree .function [_, parameters, body] => "func(" ++ render parameters ++ ") " ++ render body
  | tree .parameters (_ :: names) => ", ".intercalate (renderAll names)
  | tree .call (_ :: callee :: arguments) =>
    render callee ++ "(" ++ ", ".intercalate (renderAll arguments) ++ ")"
  | tree .array [] => "[]"
  | tree .array (_ :: elements) => "[" ++ ", ".intercalate (renderAll elements) ++ "]"
  | tree .index [_, left, index] => "(" ++ render left ++ "[" ++ render index ++ "])"
  | tree .hash [] => "\x7b\x7d"
  | tree .hash (_ :: pairs) => "\x7b" ++ ", ".intercalate (renderAll pairs) ++ "\x7d"
  | tree .pair [_, key, value] => render key ++ ": " ++ render value
  | tree _ _ => ""

/-- The canonical texts of some nodes. -/
def renderAll : List Node → List String
  | [] => []
  | node :: rest => render node :: renderAll rest

/-- The statements of a block, each one terminated. Only an expression statement lacks
a terminator of its own. -/
def renderTerms : List Node → List String
  | [] => []
  | statement :: rest =>
    (render statement ++ if statement.label? = some .expressionStatement then ";" else "") ::
      renderTerms rest

/-- The statements of a program: all but the last are terminated as in a block. -/
def renderProgram : List Node → List String
  | [] => []
  | [last] => [render last]
  | statement :: rest =>
    (render statement ++ if statement.label? = some .expressionStatement then ";" else "") ::
      renderProgram rest

/-- The alternative of a conditional, when it has one. -/
def renderAlternative : List Node → String
  | [] => ""
  | hole :: _ => ""
  | alternative :: _ => " else " ++ render alternative

end

/-! ### The canonical text of each form -/

section

variable {first operator operand left right condition consequence parameters body callee key value
  name expression : Node} {children nodes statements alternative : List Node}

theorem render_program :
    (tree .program statements).render = " ".intercalate (renderProgram statements) := rfl

theorem render_expressionStatement :
    (tree .expressionStatement [expression]).render = expression.render := rfl

theorem render_letStatement : (tree .letStatement [first, name, value]).render =
    "let " ++ name.render ++ " = " ++ value.render ++ ";" := rfl

theorem render_returnStatement :
    (tree .returnStatement [first, value]).render = "return " ++ value.render ++ ";" := rfl

theorem render_block_nil : (tree .block [first]).render = "\x7b \x7d" := rfl

theorem render_block_cons : (tree .block (first :: left :: statements)).render =
    "\x7b " ++ " ".intercalate (renderTerms (left :: statements)) ++ " \x7d" := rfl

theorem render_unary : (tree .unary [operator, operand]).render =
    "(" ++ operator.leafText ++ operand.render ++ ")" := rfl

theorem render_binary : (tree .binary [operator, left, right]).render =
    "(" ++ left.render ++ " " ++ operator.leafText ++ " " ++ right.render ++ ")" := rfl

theorem render_conditional :
    (tree .conditional (first :: condition :: consequence :: alternative)).render =
      "if (" ++ condition.render ++ ") " ++ consequence.render ++
        renderAlternative alternative := rfl

theorem render_function : (tree .function [first, parameters, body]).render =
    "func(" ++ parameters.render ++ ") " ++ body.render := rfl

theorem render_parameters : (tree .parameters (first :: nodes)).render =
    ", ".intercalate (renderAll nodes) := rfl

theorem render_call : (tree .call (first :: callee :: nodes)).render =
    callee.render ++ "(" ++ ", ".intercalate (renderAll nodes) ++ ")" := rfl

theorem render_array : (tree .array (first :: nodes)).render =
    "[" ++ ", ".intercalate (renderAll nodes) ++ "]" := rfl

theorem render_index : (tree .index [first, left, right]).render =
    "(" ++ left.render ++ "[" ++ right.render ++ "])" := rfl

theorem render_hash : (tree .hash (first :: nodes)).render =
    "\x7b" ++ ", ".intercalate (renderAll nodes) ++ "\x7d" := rfl

theorem render_pair :
    (tree .pair [first, key, value]).render = key.render ++ ": " ++ value.render := rfl

theorem renderAll_nil : renderAll [] = [] := rfl

theorem renderAll_cons : renderAll (first :: nodes) = first.render :: renderAll nodes := rfl

theorem renderTerms_cons : renderTerms (first :: nodes) =
    (first.render ++ if first.label? = some .expressionStatement then ";" else "") ::
      renderTerms nodes := rfl

theorem renderProgram_singleton : renderProgram [first] = [first.render] := rfl

theorem renderProgram_cons : renderProgram (first :: left :: nodes) =
    (first.render ++ if first.label? = some .expressionStatement then ";" else "") ::
      renderProgram (left :: nodes) := rfl

theorem renderProgram_ne_nil : renderProgram (first :: nodes) ≠ [] := by
  cases nodes <;> exact List.cons_ne_nil _ _

theorem renderAlternative_tree {label : Label} :
    renderAlternative [tree label children] = " else " ++ (tree label children).render := rfl

theorem render_leaf {leaf : Leaf} : (Node.leaf leaf).render = leaf.render := rfl

end

/-- The statements of a block or program, each one rendered and terminated. -/
def statementTerms (node : Node) : List String :=
  renderTerms node.operands

end Node

end Scriptlet
