/-
This file holds the tokens of the language: their kinds, the text each carries and
the position of its first character. The keyword table decides which words are
names and which are keywords; six of the keywords are reserved and have no place
in the grammar.
-/

import Scriptlet.Text.Quoted

namespace Scriptlet

/-- The kinds of token. `endOfInput` closes every token list; `illegal` is the kind of
a character that starts no token. -/
inductive TokenKind where
  | illegal
  | endOfInput
  | ident
  | int
  | string
  | assign
  | plus
  | minus
  | bang
  | asterisk
  | slash
  | less
  | greater
  | equal
  | notEqual
  | and
  | or
  | comma
  | semicolon
  | colon
  | leftParen
  | rightParen
  | leftBrace
  | rightBrace
  | leftBracket
  | rightBracket
  | funcWord
  | letWord
  | trueWord
  | falseWord
  | ifWord
  | elseWord
  | returnWord
  | elseifWord
  | forWord
  | inWord
  | whileWord
  | rangeWord
  | containsWord
  deriving DecidableEq, Inhabited

namespace TokenKind

/-- The name by which error messages and token listings call a kind. -/
def name : TokenKind → String
  | illegal => "ILLEGAL"
  | endOfInput => "EOF"
  | ident => "IDENT"
  | int => "INT"
  | string => "STRING"
  | assign => "ASSIGN"
  | plus => "PLUS"
  | minus => "MINUS"
  | bang => "BANG"
  | asterisk => "ASTERISK"
  | slash => "SLASH"
  | less => "LT"
  | greater => "GT"
  | equal => "EQ"
  | notEqual => "NOT_EQ"
  | and => "AND"
  | or => "OR"
  | comma => "COMMA"
  | semicolon => "SEMICOLON"
  | colon => "COLON"
  | leftParen => "LPAREN"
  | rightParen => "RPAREN"
  | leftBrace => "LCBRACE"
  | rightBrace => "RCBRACE"
  | leftBracket => "LBRACK"
  | rightBracket => "RBRACK"
  | funcWord => "FUNCTION"
  | letWord => "LET"
  | trueWord => "TRUE"
  | falseWord => "FALSE"
  | ifWord => "IF"
  | elseWord => "ELSE"
  | returnWord => "RETURN"
  | elseifWord => "ELSEIF"
  | forWord => "FOR"
  | inWord => "IN"
  | whileWord => "WHILE"
  | rangeWord => "RANGE"
  | containsWord => "CONTAINS"

/-- Every kind, in the order of declaration. -/
def all : List TokenKind :=
  [illegal, endOfInput, ident, int, string, assign, plus, minus, bang, asterisk, slash, less,
    greater, equal, notEqual, and, or, comma, semicolon, colon, leftParen, rightParen, leftBrace,
    rightBrace, leftBracket, rightBracket, funcWord, letWord, trueWord, falseWord, ifWord,
    elseWord, returnWord, elseifWord, forWord, inWord, whileWord, rangeWord, containsWord]

theorem mem_all (kind : TokenKind) : kind ∈ all := by
  cases kind <;> decide

/-- The kind with a given name. -/
def ofName? (text : String) : Option TokenKind :=
  all.find? fun kind => kind.name == text

end TokenKind

/-- The keywords with their kinds. -/
def keywords : List (String × TokenKind) :=
  [("func", .funcWord), ("let", .letWord), ("true", .trueWord), ("false", .falseWord),
    ("if", .ifWord), ("else", .elseWord), ("return", .returnWord), ("elseif", .elseifWord),
    ("for", .forWord), ("in", .inWord), ("while", .whileWord), ("range", .rangeWord),
    ("contains", .containsWord)]

/-- A word is a keyword when the table has it, and a name otherwise. -/
def TokenKind.ofWord (word : String) : TokenKind :=
  (keywords.lookup word).getD .ident

/-- A place in a text. Lines and columns count characters and start at one. -/
structure Position where
  line : Nat
  column : Nat
  deriving DecidableEq, Inhabited

namespace Position

/-- The place of the first character of a text. -/
def first : Position := ⟨1, 1⟩

/-- The place after one character: a line feed opens the next line. -/
def after (position : Position) (c : Char) : Position :=
  if c = '\n' then ⟨position.line + 1, 1⟩ else ⟨position.line, position.column + 1⟩

/-- The place after a run of characters. -/
def afterAll (position : Position) (chars : List Char) : Position :=
  chars.foldl after position

@[simp] theorem afterAll_nil (position : Position) : position.afterAll [] = position := rfl

@[simp] theorem afterAll_append (position : Position) (front back : List Char) :
    position.afterAll (front ++ back) = (position.afterAll front).afterAll back :=
  List.foldl_append

end Position

/-- A token: its kind, its text, and the place of its first character. The text of a
string token is what stands between the quotes, with its escapes as they were typed. -/
structure Token where
  kind : TokenKind
  text : String
  position : Position
  deriving DecidableEq, Inhabited

/-- One line of a token listing. -/
def Token.listing (token : Token) : String :=
  "Tok(" ++ token.kind.name ++ ", " ++ Text.quoted token.text ++ ", " ++
    toString token.position.line ++ ":" ++ toString token.position.column ++ ")"

end Scriptlet
