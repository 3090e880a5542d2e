/-
This file colours source text for an editor. Each token becomes a fragment in the style
of its group; what lies between tokens and behind the last one is unstyled.

The place of a token is taken from its column, so a text is meant to be one line. On a
text with line feeds the columns start again at each line, and a fragment is whatever
the text has between the places computed from them.
-/

import Scriptlet.Text.Newline
import Scriptlet.Token.Lexer
import Scriptlet.Value.Kind

namespace Scriptlet.Highlight

/-- The groups of tokens that are styled alike. -/
inductive Group where
  | keyword
  | reserved
  | boolean
  | number
  | string
  | identifier
  | builtin
  | operator
  | punctuation
  | error
  | plain
  deriving DecidableEq

/-- The style of a group, in the words of the terminal. -/
def Group.style : Group → String
  | keyword => "bold ansicyan"
  | reserved => "italic ansicyan"
  | boolean => "ansicyan"
  | number => "ansimagenta"
  | string => "ansigreen"
  | builtin => "bold ansiyellow"
  | error => "bold ansired"
  | identifier | operator | punctuation | plain => ""

/-- The group of a kind of token. -/
def groupOfKind : TokenKind → Group
  | .funcWord | .letWord | .ifWord | .elseWord | .returnWord => .keyword
  | .elseifWord | .forWord | .inWord | .whileWord | .rangeWord | .containsWord => .reserved
  | .trueWord | .falseWord => .boolean
  | .int => .number
  | .string => .string
  | .ident => .identifier
  | .assign | .plus | .minus | .bang | .asterisk | .slash | .less | .greater | .equal | .notEqual
  | .and | .or => .operator
  | .comma | .semicolon | .colon | .leftParen | .rightParen | .leftBrace | .rightBrace
  | .leftBracket | .rightBracket => .punctuation
  | .illegal => .error
  | .endOfInput => .plain

/-- The group of a token: a name that a built-in function has is set apart. -/
def group (token : Token) : Group :=
  if token.kind = .ident ∧ (Builtin.ofName? token.text).isSome then .builtin
  else groupOfKind token.kind

/-- A piece of text in one style. -/
structure Fragment where
  style : String
  text : String
  deriving DecidableEq

/-- The part of a text from one place up to another; places past the end are cut off. -/
def slice (chars : List Char) (start stop : Nat) : String :=
  String.ofList ((chars.take stop).drop start)

/-- Where a token starts and stops on its line. The quotes of a string are not part of its
text: the opening one is always there, the closing one only if the text has it. -/
def extent (chars : List Char) (token : Token) : Nat × Nat :=
  let start := token.position.column - 1
  let stop := start + token.text.length
  if token.kind = .string then
    let inner := stop + 1
    (start, if chars[inner]? = some '\"' then inner + 1 else inner)
  else
    (start, stop)

/-- The fragments of a text from a place on, given the tokens that are left. -/
def fragmentsFrom (chars : List Char) (place : Nat) : List Token → List Fragment
  | [] => if place < chars.length then [⟨"", slice chars place chars.length⟩] else []
  | token :: rest =>
    let (start, stop) := extent chars token
    let gap := if place < start then [⟨"", slice chars place start⟩] else []
    gap ++ ⟨(group token).style, slice chars start stop⟩ :: fragmentsFrom chars stop rest

/-- The fragments of a line. There is always at least one. -/
def line (text : String) : List Fragment :=
  if text.isEmpty then
    [⟨"", ""⟩]
  else
    match fragmentsFrom text.toList 0 (Cursor.ofText text).scan.tokens with
    | [] => [⟨"", text⟩]
    | fragments => fragments

/-- The fragments of a line of a document; a line that is not there is empty. -/
def documentLine (document : String) (number : Nat) : List Fragment :=
  match (Text.splitLines document.toList)[number]? with
  | some chars => line (String.ofList chars)
  | none => [⟨"", ""⟩]

/-- A document whose lines are coloured when they are asked for. What was answered is kept, so a
line is coloured once. -/
structure Document where
  text : String
  known : List (Nat × List Fragment)

namespace Document

/-- A document of which no line was asked for. -/
def ofText (text : String) : Document :=
  ⟨text, []⟩

/-- The fragments of a line, and the document that knows them. -/
def ask (document : Document) (number : Nat) : List Fragment × Document :=
  match document.known.lookup number with
  | some fragments => (fragments, document)
  | none =>
    let fragments := documentLine document.text number
    (fragments, { document with known := (number, fragments) :: document.known })

/-- The answers to one request after the other. -/
def askAll (document : Document) : List Nat → List (List Fragment)
  | [] => []
  | number :: later => (document.ask number).1 :: (document.ask number).2.askAll later

end Document

end Scriptlet.Highlight
