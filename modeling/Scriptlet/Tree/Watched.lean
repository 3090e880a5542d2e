/-
This file reads programs as the machine does that the program runs on. The watched
readers do what the readers of programs do, but each call takes room on a stack, and a
literal has to be converted before it is compared with the largest one, which is refused
when it has too many digits. A refusal ends the parse where it stands; nothing is recorded
for it.

Beside it they keep a journal. It has the windows on which an expression was started, and
the rounds of every loop: where a round began, and where it came back to the question
whether the loop goes on. A round that leaves its loop is not written down.
-/

import Scriptlet.Room
import Scriptlet.Tree.Parser

namespace Scriptlet

/-- The limits under which a text is read. -/
structure Limits where
  room : Room
  /-- The most digits of a literal that is converted, when there is such a number. -/
  digits : Option Nat

/-- No limits at all. -/
def Limits.none : Limits := ⟨.endless, Option.none⟩

/-- Why a parse is given up. -/
inductive Refusal where
  /-- There is no room for another call. -/
  | depthExceeded
  /-- A literal has more digits than are converted. -/
  | tooManyDigits (count : Nat)
  deriving DecidableEq

/-- The loops of the parser. -/
inductive Loop where
  | program
  | block
  | operators
  | expressions
  | pairs
  | names
  deriving DecidableEq

/-- A round of a loop that does not leave it. -/
structure Round where
  loop : Loop
  start : Window
  finish : Window

/-- What was seen of a parse, the latest first. -/
structure Journal where
  /-- The windows on which an expression was started. -/
  entries : List Window
  rounds : List Round

namespace Journal

/-- The journal with one more window on which an expression was started. -/
def entered (journal : Journal) (window : Window) : Journal :=
  { journal with entries := window :: journal.entries }

/-- The journal with one more round. -/
def finished (journal : Journal) (round : Round) : Journal :=
  { journal with rounds := round :: journal.rounds }

end Journal

/-- A reader that keeps within limits and keeps a journal. -/
abbrev Watched (α : Type) : Type := ReaderT Limits (ExceptT Refusal (StateT Journal Parser)) α

namespace Watched

open Scriptlet.Parser (current ahead advance record expect skipSemicolon)

/-- What a reader comes to: its result unless it was refused, the journal, and the window that is
left. -/
def outcome {α : Type} (watched : Watched α) (limits : Limits) (journal : Journal)
    (window : Window) : (Except Refusal α × Journal) × Window :=
  (((watched.run limits).run).run journal).run window

/-- What is read inside so many calls. -/
def within {α : Type} (calls : Nat) (watched : Watched α) : Watched α := fun limits =>
  if limits.room.Holds calls then watched { limits with room := limits.room.inside calls }
  else throw .depthExceeded

/-- The window at hand. -/
def here : Watched Window :=
  (get : Parser Window)

/-- Notes that an expression starts here. -/
def enter : Watched Unit := do
  let window ← here
  modify fun journal => journal.entered window

/-- Notes that a round of a loop ends here. -/
def finish (loop : Loop) (start : Window) : Watched Unit := do
  let window ← here
  modify fun journal => journal.finished ⟨loop, start, window⟩

/-- Notes that a round ends here unless the loop has only begun. -/
def finishSince (loop : Loop) : Option Window → Watched Unit
  | none => return ()
  | some start => finish loop start

/-- The leaf of an integer literal, or a hole when it is too large. A literal with too many digits
is refused before its size is known. -/
def integer (token : Token) : Watched Node := do
  let count := token.text.length
  if (← read).digits.any fun most => decide (most < count) then
    throw (.tooManyDigits count)
  else
    Parser.integer token

/-! ### The readers -/

/-- Reads names separated by commas, in a round that began at the given window. -/
def names (since : Option Window) : Nat → Watched (Option (List Node))
  | 0 => do
    record .outOfFuel
    return none
  | fuel + 1 => do
    if ← expect .ident then
      finishSince .names since
      let name := Node.ofToken (← current)
      if (← ahead).kind = .comma then
        let start ← here
        advance
        return (← names (some start) fuel).map (name :: ·)
      else
        return some [name]
    else
      return none

/-- Reads a parameter list. Every function of the parser takes a call of its own; the rounds of a
loop take none. -/
def parameters (fuel : Nat) : Watched (Option Node) := within 1 do
  let opening := Node.ofToken (← current)
  if (← ahead).kind = .rightParen then
    advance
    return some (.tree .parameters [opening])
  else
    match ← names none fuel with
    | none => return none
    | some names =>
      if ← expect .rightParen then
        return some (.tree .parameters (opening :: names))
      else
        return none

mutual

/-- Reads an expression. -/
def expression : Nat → Precedence → Watched Node
  | 0, _ => do
    enter
    record .outOfFuel
    return .hole
  | fuel + 1, rank => within 1 do
    enter
    let token ← current
    if token.kind.startsExpression then
      let left ← operand fuel token
      operators fuel rank left
    else
      record (.noExpression token.kind)
      return .hole

/-- Takes in the operators ahead that bind tighter than a rank. -/
def operators : Nat → Precedence → Node → Watched Node
  | 0, _, _ => do
    record .outOfFuel
    return .hole
  | fuel + 1, rank, left => do
    if rank.level < (← ahead).kind.precedence.level then
      let start ← here
      advance
      let applied ← application fuel left
      finish .operators start
      operators fuel rank applied
    else
      return left

/-- Reads what the current token opens. -/
def operand : Nat → Token → Watched Node
  | 0, _ => do
    record .outOfFuel
    return .hole
  | fuel + 1, token => within 1 <|
    match token.kind with
    | .ident | .string | .trueWord | .falseWord => return .ofToken token
    | .int => integer token
    | .bang | .minus => do
      advance
      let right ← expression fuel .unary
      return .tree .unary [.ofToken token, right]
    | .leftParen => do
      advance
      let inner ← expression fuel .lowest
      if ← expect .rightParen then return inner else return .hole
    | .ifWord => conditional fuel token
    | .funcWord => function fuel token
    | .leftBracket => do
      match ← expressionList fuel .rightBracket with
      | none => return .hole
      | some elements => return .tree .array (.ofToken token :: elements)
    | .leftBrace => do
      match ← pairs fuel with
      | none => return .hole
      | some pairs => return .tree .hash (.ofToken token :: pairs)
    | _ => return .hole

/-- Reads what an operator after an operand opens. -/
def application : Nat → Node → Watched Node
  | 0, _ => do
    record .outOfFuel
    return .hole
  | fuel + 1, left => within 1 do
    let token ← current
    match token.kind with
    | .leftParen =>
      match ← expressionList fuel .rightParen with
      | none => return .hole
      | some arguments => return .tree .call (.ofToken token :: left :: arguments)
    | .leftBracket =>
      advance
      let index ← expression fuel .lowest
      if ← expect .rightBracket then
        return .tree .index [.ofToken token, left, index]
      else
        return .hole
    | kind =>
      advance
      let right ← expression fuel kind.precedence
      return .tree .binary [.ofToken token, left, right]

/-- Reads a conditional. -/
def conditional : Nat → Token → Watched Node
  | 0, _ => do
    record .outOfFuel
    return .hole
  | fuel + 1, token => do
    if !(← expect .leftParen) then return .hole
    advance
    let condition ← expression fuel .lowest
    if !(← expect .rightParen) then return .hole
    if !(← expect .leftBrace) then return .hole
    let consequence ← block fuel
    if (← ahead).kind = .elseWord then
      advance
      if !(← expect .leftBrace) then return .hole
      let alternative ← block fuel
      return .tree .conditional [.ofToken token, condition, consequence, alternative]
    else
      return .tree .conditional [.ofToken token, condition, consequence]

/-- Reads a function. -/
def function : Nat → Token → Watched Node
  | 0, _ => do
    record .outOfFuel
    return .hole
  | fuel + 1, token => do
    if !(← expect .leftParen) then return .hole
    match ← parameters fuel with
    | none => return .hole
    | some parameters =>
      if !(← expect .leftBrace) then return .hole
      let body ← block fuel
      return .tree .function [.ofToken token, parameters, body]

/-- Reads a list of expressions up to its closing token. -/
def expressionList : Nat → TokenKind → Watched (Option (List Node))
  | 0, _ => do
    record .outOfFuel
    return none
  | fuel + 1, close => within 1 do
    if (← ahead).kind = close then
      advance
      return some []
    else
      advance
      let items ← expressions none fuel
      if ← expect close then return some items else return none

/-- Reads expressions separated by commas, in a round that began at the given window. -/
def expressions (since : Option Window) : Nat → Watched (List Node)
  | 0 => do
    record .outOfFuel
    return []
  | fuel + 1 => do
    let first ← expression fuel .lowest
    finishSince .expressions since
    if (← ahead).kind = .comma then
      let start ← here
      advance
      advance
      return first :: (← expressions (some start) fuel)
    else
      return [first]

/-- Reads the pairs of a hash. -/
def pairs : Nat → Watched (Option (List Node))
  | 0 => do
    record .outOfFuel
    return none
  | fuel + 1 => do
    if (← ahead).kind = .rightBrace then
      advance
      return some []
    else
      let start ← here
      advance
      let key ← expression fuel .lowest
      if !(← expect .colon) then return none
      let colon ← current
      advance
      let value ← expression fuel .lowest
      let pair := Node.tree .pair [.ofToken colon, key, value]
      if (← ahead).kind = .rightBrace then
        finish .pairs start
        return (← pairs fuel).map (pair :: ·)
      else if ← expect .comma then
        finish .pairs start
        return (← pairs fuel).map (pair :: ·)
      else
        return none

/-- Reads a block. -/
def block : Nat → Watched Node
  | 0 => do
    record .outOfFuel
    return .hole
  | fuel + 1 => within 1 do
    let opening := Node.ofToken (← current)
    advance
    let statements ← statements fuel true
    if (← current).kind = .endOfInput then
      record (.unexpected .rightBrace .endOfInput)
    return .tree .block (opening :: statements)

/-- Reads statements up to the end of the input or of a block. -/
def statements : Nat → Bool → Watched (List Node)
  | 0, _ => do
    record .outOfFuel
    return []
  | fuel + 1, inBlock => do
    let kind := (← current).kind
    if kind = .endOfInput ∨ (inBlock = true ∧ kind = .rightBrace) then
      return []
    else
      let start ← here
      let first ← statement fuel
      advance
      finish (if inBlock then .block else .program) start
      return first.toList ++ (← statements fuel inBlock)

/-- Reads a statement, inside a call that is made for every statement. -/
def statement : Nat → Watched (Option Node)
  | 0 => do
    record .outOfFuel
    return none
  | fuel + 1 => within 2 do
    let token ← current
    match token.kind with
    | .letWord =>
      if !(← expect .ident) then return none
      let name ← current
      if !(← expect .assign) then return none
      advance
      let value ← expression fuel .lowest
      skipSemicolon
      return some (.tree .letStatement [.ofToken token, .ofToken name, value])
    | .returnWord =>
      advance
      let value ← expression fuel .lowest
      skipSemicolon
      return some (.tree .returnStatement [.ofToken token, value])
    | _ =>
      let value ← expression fuel .lowest
      skipSemicolon
      return some (.tree .expressionStatement [value])

end

/-- Reads a program. -/
def readProgram : Watched Node := within 1 do
  return .tree .program (← statements (← here).fuel false)

end Watched

/-- The parse of a text under limits: the tree unless it was refused, what was seen on the way, and
the window that is left. -/
def watchSource (limits : Limits) (text : String) : (Except Refusal Node × Journal) × Window :=
  Watched.readProgram.outcome limits ⟨[], []⟩ (Window.ofText text)

/-- Reads a text as a program under limits. -/
def readWithin (limits : Limits) (text : String) : Except Refusal Reading :=
  let ((result, _), window) := watchSource limits text
  result.map fun program => ⟨program, window.errors⟩

end Scriptlet
