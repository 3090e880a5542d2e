/-
This file writes a text between quotes so that it can be read back: the quote in
use and the backslash are escaped, line feed, carriage return and tab have short
escapes, and every other character without a shape is written by its code point.

Single quotes are used unless the text has a single quote and no double quote, so
a text with quotes of one kind never needs an escaped quote.
-/

import Scriptlet.Text.Printable

namespace Scriptlet.Text

/-- The lower-case hexadecimal digits of a number, filled up with zeros to a width. -/
def hexDigits (width : Nat) (code : Nat) : List Char :=
  let digits := Nat.toDigits 16 code
  List.replicate (width - digits.length) '0' ++ digits

/-- The escape of a code point: the shortest of two, four and eight digits that holds it. -/
def escapeCode (code : Nat) : List Char :=
  if code < 0x100 then
    '\\' :: 'x' :: hexDigits 2 code
  else if code < 0x10000 then
    '\\' :: 'u' :: hexDigits 4 code
  else
    '\\' :: 'U' :: hexDigits 8 code

/-- One character of a quoted text, where `mark` is the quote in use. -/
def quoteChar (mark : Char) (c : Char) : List Char :=
  if c = mark ∨ c = '\\' then ['\\', c]
  else if c = '\n' then ['\\', 'n']
  else if c = '\r' then ['\\', 'r']
  else if c = '\t' then ['\\', 't']
  else if isPrintable c then [c]
  else escapeCode c.toNat

/-- The quote for a text: double quotes exactly when the text has a single quote and
no double quote. -/
def quoteMark (chars : List Char) : Char :=
  if chars.contains '\'' && !chars.contains '\"' then '\"' else '\''

/-- A text between quotes. -/
def quoted (text : String) : String :=
  let mark := quoteMark text.toList
  String.ofList (mark :: text.toList.flatMap (quoteChar mark) ++ [mark])

end Scriptlet.Text
