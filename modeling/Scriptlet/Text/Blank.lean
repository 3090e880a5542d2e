/-
This file says which characters count as white space around a typed line, and
cuts a line by them: `strip` drops the white space at both ends, `firstWord`
separates the leading word from what follows it.

The class is that of Unicode white space together with the four information
separators. Zero-width characters are not in it.
-/

namespace Scriptlet.Text

/-- White space: the ASCII controls from tab to carriage return, the information
separators, the space, the next-line control, and the Unicode space, line and
paragraph separators. -/
def isBlank (c : Char) : Bool :=
  let code := c.toNat
  (0x09 ≤ code && code ≤ 0x0d) || (0x1c ≤ code && code ≤ 0x20) || code == 0x85 ||
    code == 0xa0 || code == 0x1680 || (0x2000 ≤ code && code ≤ 0x200a) ||
    code == 0x2028 || code == 0x2029 || code == 0x202f || code == 0x205f || code == 0x3000

/-- Drops the white space at the front. -/
def trimFront (chars : List Char) : List Char :=
  chars.dropWhile isBlank

/-- Drops the white space at both ends. -/
def trimEnds (chars : List Char) : List Char :=
  (trimFront (trimFront chars).reverse).reverse

/-- Drops the white space at both ends of a text. -/
def strip (text : String) : String :=
  String.ofList (trimEnds text.toList)

/-- The leading run of characters that are not white space, and what follows the
white space after it. -/
def firstWord (text : String) : String × String :=
  let inWord (c : Char) : Bool := !isBlank c
  (String.ofList (text.toList.takeWhile inWord),
    String.ofList (trimFront (text.toList.dropWhile inWord)))

end Scriptlet.Text
