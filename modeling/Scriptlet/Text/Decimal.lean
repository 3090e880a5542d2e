/-
This file reads decimal numbers. A number is a run of ASCII digits of any length,
leading zeros allowed, and an integer may have a sign before it.
-/

namespace Scriptlet.Text

/-- The number that a run of decimal digits stands for. -/
def decimalValue (digits : List Char) : Nat :=
  digits.foldl (fun value digit => 10 * value + (digit.toNat - '0'.toNat)) 0

/-- Reads a run of at least one decimal digit. -/
def natural? (chars : List Char) : Option Nat :=
  if !chars.isEmpty && chars.all Char.isDigit then some (decimalValue chars) else none

/-- Reads a decimal integer with an optional sign. -/
def integer? (text : String) : Option Int :=
  match text.toList with
  | '-' :: digits => (natural? digits).map fun value => -(value : Int)
  | '+' :: digits => (natural? digits).map Int.ofNat
  | digits => (natural? digits).map Int.ofNat

end Scriptlet.Text
