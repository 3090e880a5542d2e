/-
This file holds the state of a parse: a window of two tokens, the current one and the
one ahead, that slides over the token list, and the errors recorded so far. Past its
end the list is continued by the closing token for ever, so moving on is always
possible and at the end changes nothing.

An error never stops a parse. It is recorded at the end of the error list.
-/

import Scriptlet.Token.Lexer

namespace Scriptlet

/-- The causes of syntax errors. -/
inductive SyntaxError where
  /-- The token ahead is not of the kind that has to follow. -/
  | unexpected (wanted found : TokenKind)
  /-- A token that starts no expression stands where one has to start. -/
  | noExpression (found : TokenKind)
  /-- An integer literal exceeds the largest signed 64-bit integer. -/
  | integerTooLarge (digits : String)
  /-- The parse was given less fuel than it needs. -/
  | outOfFuel
  deriving DecidableEq

/-- The wording of a syntax error. -/
def SyntaxError.message : SyntaxError → String
  | unexpected wanted found =>
    "expected next token to be " ++ wanted.name ++ ", got " ++ found.name ++ " instead"
  | noExpression found => "no prefix parse function for " ++ found.name ++ " found"
  | integerTooLarge digits => "could not parse " ++ digits ++ " as integer"
  | outOfFuel => "parser ran out of fuel"

/-- The state of a parse. -/
structure Window where
  /-- The tokens from the current one on, without the closing token. -/
  tokens : List Token
  /-- The token that continues the list for ever. -/
  closing : Token
  /-- The errors so far, the oldest first. -/
  errors : List SyntaxError

namespace Window

/-- The window at the start of a text. -/
def ofText (text : String) : Window :=
  let scan := (Cursor.ofText text).scan
  ⟨scan.tokens, scan.closing, []⟩

/-- The current token. -/
def current (window : Window) : Token :=
  window.tokens.headD window.closing

/-- The token ahead. -/
def ahead (window : Window) : Token :=
  window.tokens.tail.headD window.closing

/-- Moves on by one token. -/
def advance (window : Window) : Window :=
  { window with tokens := window.tokens.tail }

/-- Records an error. -/
def record (window : Window) (error : SyntaxError) : Window :=
  { window with errors := window.errors ++ [error] }

@[simp] theorem current_advance (window : Window) : window.advance.current = window.ahead := rfl

@[simp] theorem tokens_advance (window : Window) : window.advance.tokens = window.tokens.tail := rfl

@[simp] theorem closing_advance (window : Window) : window.advance.closing = window.closing := rfl

@[simp] theorem errors_advance (window : Window) : window.advance.errors = window.errors := rfl

@[simp] theorem current_record (window : Window) (error : SyntaxError) :
    (window.record error).current = window.current := rfl

@[simp] theorem ahead_record (window : Window) (error : SyntaxError) :
    (window.record error).ahead = window.ahead := rfl

end Window

end Scriptlet
