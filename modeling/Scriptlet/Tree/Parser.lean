/-
This file reads token lists as program trees: statements by descent, expressions by
climbing the ranks of their operators. A failed expectation is recorded and leaves a
hole, and reading goes on behind it.

The functions that call each other take fuel, an upper bound on the depth of their
calls. `Window.fuel` gives enough of it for the tokens that are left: between two
calls of one function a token is always passed. Each public function hides it.
-/

import Scriptlet.Text.Decimal
import Scriptlet.Tree
import Scriptlet.Tree.Precedence
import Scriptlet.Tree.Window

namespace Scriptlet

/-- A computation that moves the window and records errors. -/
abbrev Parser (α : Type) : Type := StateM Window α

/-- The kinds of token that start an expression. -/
def TokenKind.startsExpression : TokenKind → Bool
  | ident | string | trueWord | falseWord | int | bang | minus | leftParen | ifWord | funcWord
  | leftBracket | leftBrace => true
  | _ => false

/-- The largest signed 64-bit integer, 2^63 - 1, which bounds integer literals. -/
def maxLiteral : Nat := 0x7fffffffffffffff

namespace Parser

/-! ### Moving the window -/

/-- The current token. -/
def current : Parser Token := do
  return (← get).current

/-- The token ahead. -/
def ahead : Parser Token := do
  return (← get).ahead

/-- Moves on by one token. -/
def advance : Parser Unit :=
  modify Window.advance

/-- Records an error. -/
def record (error : SyntaxError) : Parser Unit :=
  modify fun window => window.record error

/-- Moves onto the token ahead when it has the wanted kind; otherwise records an error
and stays. -/
def expect (wanted : TokenKind) : Parser Bool := do
  let found := (← ahead).kind
  if found = wanted then
    advance
    return true
  else
    record (.unexpected wanted found)
    return false

/-- Passes over a semicolon ahead. -/
def skipSemicolon : Parser Unit := do
  if (← ahead).kind = .semicolon then
    advance

/-! ### Parameter lists -/

/-- Reads names separated by commas from the token ahead on. -/
def names : Nat → Parser (Option (List Node))
  | 0 => do
    record .outOfFuel
    return none
  | fuel + 1 => do
    if ← expect .ident then
      let name := Node.ofToken (← current)
      if (← ahead).kind = .comma then
        advance
        return (← names fuel).map (name :: ·)
      else
        return some [name]
    else
      return none

/-- Reads a parameter list whose opening parenthesis is the current token. -/
def parameters (fuel : Nat) : Parser (Option Node) := do
  let opening := Node.ofToken (← current)
  if (← ahead).kind = .rightParen then
    advance
    return some (.tree .parameters [opening])
  else
    match ← names fuel with
    | none => return none
    | some names =>
      if ← expect .rightParen then
        return some (.tree .parameters (opening :: names))
      else
        return none

/-! ### Expressions and statements -/

/-- The leaf of an integer literal, or a hole when it is too large. -/
def integer (token : Token) : Parser Node := do
  if Text.decimalValue token.text.toList ≤ maxLiteral then
    return .ofToken token
  else
    record (.integerTooLarge token.text)
    return .hole

mutual

/-- Reads the expression that starts at the current token, taking in the operators ahead
that bind tighter than a rank. -/
def expression : Nat → Precedence → Parser Node
  | 0, _ => do
    record .outOfFuel
    return .hole
  | fuel + 1, rank => do
    let token ← current
    if token.kind.startsExpression then
      let left ← operand fuel token
      operators fuel rank left
    else
      record (.noExpression token.kind)
      return .hole

/-- Takes in the operators ahead that bind tighter than a rank, from left to right. -/
def operators : Nat → Precedence → Node → Parser Node
  | 0, _, _ => do
    record .outOfFuel
    return .hole
  | fuel + 1, rank, left => do
    if rank.level < (← ahead).kind.precedence.level then
      advance
      let applied ← application fuel left
      operators fuel rank applied
    else
      return left

/-- Reads what the current token opens: a leaf, a unary form, a group, a conditional, a
function, an array or a hash. -/
def operand : Nat → Token → Parser Node
  | 0, _ => do
    record .outOfFuel
    return .hole
  | fuel + 1, token =>
    match token.kind with
    | .ident | .string | .trueWord | .falseWord => return .ofToken token
    | .int => integer token
    | .bang | .minus => do
      advance
      let right ← expression fuel .unary
      return .tree .unary [.ofToken token, right]
    | .leftParen => do
      advance
      let inner ← expression fuel .lowest
      if ← expect .rightParen then return inner else return .hole
    | .ifWord => conditional fuel token
    | .funcWord => function fuel token
    | .leftBracket => do
      match ← expressionList fuel .rightBracket with
      | none => return .hole
      | some elements => return .tree .array (.ofToken token :: elements)
    | .leftBrace => do
      match ← pairs fuel with
      | none => return .hole
      | some pairs => return .tree .hash (.ofToken token :: pairs)
    | _ => return .hole

/-- Reads what the current token, an operator after an operand, opens: a call, an
indexing or a binary form. -/
def application : Nat → Node → Parser Node
  | 0, _ => do
    record .outOfFuel
    return .hole
  | fuel + 1, left => do
    let token ← current
    match token.kind with
    | .leftParen =>
      match ← expressionList fuel .rightParen with
      | none => return .hole
      | some arguments => return .tree .call (.ofToken token :: left :: arguments)
    | .leftBracket =>
      advance
      let index ← expression fuel .lowest
      if ← expect .rightBracket then
        return .tree .index [.ofToken token, left, index]
      else
        return .hole
    | kind =>
      advance
      let right ← expression fuel kind.precedence
      return .tree .binary [.ofToken token, left, right]

/-- Reads a conditional whose `if` is the given current token. -/
def conditional : Nat → Token → Parser Node
  | 0, _ => do
    record .outOfFuel
    return .hole
  | fuel + 1, token => do
    if !(← expect .leftParen) then return .hole
    advance
    let condition ← expression fuel .lowest
    if !(← expect .rightParen) then return .hole
    if !(← expect .leftBrace) then return .hole
    let consequence ← block fuel
    if (← ahead).kind = .elseWord then
      advance
      if !(← expect .leftBrace) then return .hole
      let alternative ← block fuel
      return .tree .conditional [.ofToken token, condition, consequence, alternative]
    else
      return .tree .conditional [.ofToken token, condition, consequence]

/-- Reads a function whose `func` is the given current token. -/
def function : Nat → Token → Parser Node
  | 0, _ => do
    record .outOfFuel
    return .hole
  | fuel + 1, token => do
    if !(← expect .leftParen) then return .hole
    match ← parameters fuel with
    | none => return .hole
    | some parameters =>
      if !(← expect .leftBrace) then return .hole
      let body ← block fuel
      return .tree .function [.ofToken token, parameters, body]

/-- Reads expressions separated by commas, from behind the current token up to the
closing token of a list. -/
def expressionList : Nat → TokenKind → Parser (Option (List Node))
  | 0, _ => do
    record .outOfFuel
    return none
  | fuel + 1, close => do
    if (← ahead).kind = close then
      advance
      return some []
    else
      advance
      let items ← expressions fuel
      if ← expect close then return some items else return none

/-- Reads at least one expression, from the current token on, separated by commas. -/
def expressions : Nat → Parser (List Node)
  | 0 => do
    record .outOfFuel
    return []
  | fuel + 1 => do
    let first ← expression fuel .lowest
    if (← ahead).kind = .comma then
      advance
      advance
      return first :: (← expressions fuel)
    else
      return [first]

/-- Reads the pairs of a hash from the token ahead on and moves onto the closing brace. A
comma may stand behind the last pair. -/
def pairs : Nat → Parser (Option (List Node))
  | 0 => do
    record .outOfFuel
    return none
  | fuel + 1 => do
    if (← ahead).kind = .rightBrace then
      advance
      return some []
    else
      advance
      let key ← expression fuel .lowest
      if !(← expect .colon) then return none
      let colon ← current
      advance
      let value ← expression fuel .lowest
      let pair := Node.tree .pair [.ofToken colon, key, value]
      if (← ahead).kind = .rightBrace then
        return (← pairs fuel).map (pair :: ·)
      else if ← expect .comma then
        return (← pairs fuel).map (pair :: ·)
      else
        return none

/-- Reads a block whose opening brace is the current token. -/
def block : Nat → Parser Node
  | 0 => do
    record .outOfFuel
    return .hole
  | fuel + 1 => do
    let opening := Node.ofToken (← current)
    advance
    let statements ← statements fuel true
    if (← current).kind = .endOfInput then
      record (.unexpected .rightBrace .endOfInput)
    return .tree .block (opening :: statements)

/-- Reads statements up to the end of the input or, inside a block, up to its closing
brace. A statement that could not be read at all is left out. -/
def statements : Nat → Bool → Parser (List Node)
  | 0, _ => do
    record .outOfFuel
    return []
  | fuel + 1, inBlock => do
    let kind := (← current).kind
    if kind = .endOfInput ∨ (inBlock = true ∧ kind = .rightBrace) then
      return []
    else
      let first ← statement fuel
      advance
      return first.toList ++ (← statements fuel inBlock)

/-- Reads the statement that starts at the current token. -/
def statement : Nat → Parser (Option Node)
  | 0 => do
    record .outOfFuel
    return none
  | fuel + 1 => do
    let token ← current
    match token.kind with
    | .letWord =>
      if !(← expect .ident) then return none
      let name ← current
      if !(← expect .assign) then return none
      advance
      let value ← expression fuel .lowest
      skipSemicolon
      return some (.tree .letStatement [.ofToken token, .ofToken name, value])
    | .returnWord =>
      advance
      let value ← expression fuel .lowest
      skipSemicolon
      return some (.tree .returnStatement [.ofToken token, value])
    | _ =>
      let value ← expression fuel .lowest
      skipSemicolon
      return some (.tree .expressionStatement [value])

end

end Parser

/-! ### Reading with enough fuel -/

/-- Fuel that suffices for the tokens that are left. -/
def Window.fuel (window : Window) : Nat :=
  8 * window.tokens.length + 8

namespace Parser

/-- Runs a parser on the fuel that its window calls for. -/
def fueled {α : Type} (parser : Nat → Parser α) : Parser α := do
  parser (← get).fuel

theorem fueled_run {α : Type} (parser : Nat → Parser α) (window : Window) :
    (fueled parser).run window = (parser window.fuel).run window :=
  rfl

/-- Reads the expression at the current token with the operators that bind tighter than
a rank. -/
def readExpression (rank : Precedence) : Parser Node :=
  fueled fun fuel => expression fuel rank

/-- Reads the statement at the current token. -/
def readStatement : Parser (Option Node) :=
  fueled statement

/-- Reads the block whose opening brace is the current token. -/
def readBlock : Parser Node :=
  fueled block

/-- Reads the parameter list whose opening parenthesis is the current token. -/
def readParameters : Parser (Option Node) :=
  fueled parameters

/-- Reads a list of expressions behind the current token up to its closing token. -/
def readList (close : TokenKind) : Parser (Option (List Node)) :=
  fueled fun fuel => expressionList fuel close

/-- Reads statements up to the end of the input as a program. -/
def readProgram : Parser Node :=
  fueled fun fuel => return .tree .program (← statements fuel false)

end Parser

/-- The program read from a text and the errors met on the way. -/
structure Reading where
  program : Node
  errors : List SyntaxError

/-- Reads a text as a program. -/
def readSource (text : String) : Reading :=
  let (program, window) := Parser.readProgram.run (Window.ofText text)
  ⟨program, window.errors⟩

/-- The program of a text that has no syntax errors, or the errors. -/
def parse (text : String) : Except (List SyntaxError) Node :=
  let reading := readSource text
  if reading.errors.isEmpty then .ok reading.program else .error reading.errors

end Scriptlet
