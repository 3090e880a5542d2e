/-
This file prints trees. The printer takes a tree apart by its label: it unpacks as many
children as the label has and looks up the text of an operator in a leaf. Where a tree
does not come apart that way there is nothing to print, and where trees are nested more
deeply than the stack has room for the printer fails as well.

`Node.frames` counts the calls inside each other that a well-formed tree takes, and
`Node.render` is the text that it is printed as.
-/

import Scriptlet.Room
import Scriptlet.Tree.Render

namespace Scriptlet

/-- Why a tree is not printed. -/
inductive PrintError where
  /-- The label is none of the language. -/
  | foreign (label : String)
  /-- The children are not those of the label. -/
  | malformed (label : Label)
  /-- There is no room for another call. -/
  | depthExceeded
  deriving DecidableEq

/-- A computation that prints on a stack with some room left. -/
abbrev Printer (α : Type) : Type := ReaderT Room (Except PrintError) α

/-- What is printed inside so many calls. -/
def Printer.within {α : Type} (calls : Nat) (printer : Printer α) : Printer α := fun room =>
  if room.Holds calls then printer (room.inside calls) else .error .depthExceeded

namespace Node

open Printer (within)

/-- The text of an operator, which stands in a leaf. -/
def operatorText (label : Label) : Node → Printer String
  | leaf token => return token.text
  | _ => throw (.malformed label)

mutual

/-- Prints a node: one call for the node and one for the form of its label, inside which
its parts are printed. Statements and the items of a list take a further call. -/
def printer : Node → Printer String
  | hole => within 1 (return "")
  | leaf token => within 1 (return token.render)
  | tree (.foreign name) _ => within 1 (throw (.foreign name))
  | tree .program statements => within 3 do
    return " ".intercalate (← programPrinter statements)
  | tree .expressionStatement [] => within 2 (return "")
  | tree .expressionStatement (expression :: _) => within 2 (printer expression)
  | tree .letStatement [_, name, value] => within 2 do
    let name ← printer name
    let value ← printer value
    return "let " ++ name ++ " = " ++ value ++ ";"
  | tree .returnStatement [_, value] => within 2 do
    let value ← printer value
    return "return " ++ value ++ ";"
  | tree .block [] => within 3 (return "\x7b \x7d")
  | tree .block [_] => within 3 (return "\x7b \x7d")
  | tree .block (_ :: statements) => within 3 do
    return "\x7b " ++ " ".intercalate (← termsPrinter statements) ++ " \x7d"
  | tree .unary [operator, operand] => within 2 do
    let operator ← operatorText .unary operator
    let operand ← printer operand
    return "(" ++ operator ++ operand ++ ")"
  | tree .binary [operator, left, right] => within 2 do
    let left ← printer left
    let operator ← operatorText .binary operator
    let right ← printer right
    return "(" ++ left ++ " " ++ operator ++ " " ++ right ++ ")"
  | tree .conditional (_ :: condition :: consequence :: alternative) => within 2 do
    let condition ← printer condition
    let consequence ← printer consequence
    let alternative ← alternativePrinter alternative
    return "if (" ++ condition ++ ") " ++ consequence ++ alternative
  | tree .function [_, parameters, body] => within 2 do
    let parameters ← printer parameters
    let body ← printer body
    return "func(" ++ parameters ++ ") " ++ body
  | tree .parameters [] => within 3 (return "")
  | tree .parameters (_ :: names) => within 3 do
    return ", ".intercalate (← allPrinter names)
  | tree .call (_ :: callee :: arguments) => within 2 do
    let callee ← printer callee
    let arguments ← within 1 (allPrinter arguments)
    return callee ++ "(" ++ ", ".intercalate arguments ++ ")"
  | tree .array [] => within 3 (return "[]")
  | tree .array (_ :: elements) => within 3 do
    return "[" ++ ", ".intercalate (← allPrinter elements) ++ "]"
  | tree .index [_, left, index] => within 2 do
    let left ← printer left
    let index ← printer index
    return "(" ++ left ++ "[" ++ index ++ "])"
  | tree .hash [] => within 3 (return "\x7b\x7d")
  | tree .hash (_ :: pairs) => within 3 do
    return "\x7b" ++ ", ".intercalate (← allPrinter pairs) ++ "\x7d"
  | tree .pair [_, key, value] => within 2 do
    let key ← printer key
    let value ← printer value
    return key ++ ": " ++ value
  | tree label _ => within 2 (throw (.malformed label))

/-- Prints some nodes. -/
def allPrinter : List Node → Printer (List String)
  | [] => return []
  | node :: rest => do
    let first ← printer node
    let others ← allPrinter rest
    return first :: others

/-- Prints the statements of a block, each one terminated. -/
def termsPrinter : List Node → Printer (List String)
  | [] => return []
  | statement :: rest => do
    let first ← printer statement
    let others ← termsPrinter rest
    return (first ++ if statement.label? = some .expressionStatement then ";" else "") :: others

/-- Prints the statements of a program, all but the last terminated as in a block. -/
def programPrinter : List Node → Printer (List String)
  | [] => return []
  | [last] => return [← printer last]
  | statement :: rest => do
    let first ← printer statement
    let others ← programPrinter rest
    return (first ++ if statement.label? = some .expressionStatement then ";" else "") :: others

/-- Prints the alternative of a conditional, when it has one. -/
def alternativePrinter : List Node → Printer String
  | [] => return ""
  | hole :: _ => return ""
  | alternative :: _ => return " else " ++ (← printer alternative)

end

/-- The printed statements of a block or a program, each one terminated. -/
def statementsPrinter (node : Node) : Printer (List String) :=
  within 1 (termsPrinter node.operands)

/-- The canonical text of a node, printed with room for every call. -/
def print (node : Node) : Except PrintError String :=
  node.printer .endless

example : (tree .letStatement [.hole, .hole]).print = .error (.malformed .letStatement) := rfl

/-! ### The room that a tree takes -/

mutual

/-- The calls inside each other that it takes to print a node. -/
def frames : Node → Nat
  | hole => 1
  | leaf _ => 1
  | tree .program statements => 3 + framesAmong statements
  | tree .expressionStatement children => 2 + framesAmong children
  | tree .call (_ :: callee :: arguments) =>
    2 + max (frames callee) (1 + framesAmong arguments)
  | tree .conditional (_ :: condition :: consequence :: alternative) =>
    2 + max (frames condition) (max (frames consequence) (alternativeFrames alternative))
  | tree .block (_ :: parts) => 3 + framesAmong parts
  | tree .parameters (_ :: parts) => 3 + framesAmong parts
  | tree .array (_ :: parts) => 3 + framesAmong parts
  | tree .hash (_ :: parts) => 3 + framesAmong parts
  | tree _ (_ :: parts) => 2 + framesAmong parts
  | tree _ [] => 3

/-- The calls inside each other that it takes to print the deepest of some nodes. -/
def framesAmong : List Node → Nat
  | [] => 0
  | node :: rest => max (frames node) (framesAmong rest)

/-- The calls inside each other that it takes to print the alternative of a conditional. -/
def alternativeFrames : List Node → Nat
  | [] => 0
  | hole :: _ => 0
  | alternative :: _ => frames alternative

end

end Node

end Scriptlet
