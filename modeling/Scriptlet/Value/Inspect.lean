/-
This file shows values as text. Strings are shown bare, arrays and hashes with their
parts in order, and a function with its parameters and one statement of its body to
a line.

`Value.inspect` is total. `Value.printer` prints the same text on a stack of limited room,
and fails where a function has a body that does not come apart.
-/

import Scriptlet.Tree.Print
import Scriptlet.Value

namespace Scriptlet.Value

open Printer (within)

mutual

/-- The text that shows a value. -/
def inspect : Value → String
  | atom content => content.inspect
  | null => "null"
  | array _ elements => "[" ++ ", ".intercalate (inspectAll elements) ++ "]"
  | hash _ entries => "\x7b" ++ ", ".intercalate (inspectEntries entries) ++ "\x7d"
  | function _ parameters body _ =>
    "func(" ++ ", ".intercalate parameters ++ ") \x7b\n" ++
      "\n".intercalate body.statementTerms ++ "\n\x7d"
  | builtin _ => "builtin function"
  | error _ report => "ERROR: " ++ report.message

/-- The texts that show some values. -/
def inspectAll : List Value → List String
  | [] => []
  | value :: rest => inspect value :: inspectAll rest

/-- The texts that show the entries of a hash. -/
def inspectEntries : List (HashEntry Value) → List String
  | [] => []
  | ⟨_, key, value⟩ :: rest => (key.inspect ++ ": " ++ inspect value) :: inspectEntries rest

end

mutual

/-- Prints the text that shows a value. The body of a function is taken apart for it, and
parts inside each other take room on the stack. -/
def printer : Value → Printer String
  | atom content => within 1 (return content.inspect)
  | null => within 1 (return "null")
  | array _ elements => within 2 do
    return "[" ++ ", ".intercalate (← allPrinter elements) ++ "]"
  | hash _ entries => within 2 do
    return "\x7b" ++ ", ".intercalate (← entriesPrinter entries) ++ "\x7d"
  | function _ parameters body _ => within 1 do
    let terms ← body.statementsPrinter
    return "func(" ++ ", ".intercalate parameters ++ ") \x7b\n" ++ "\n".intercalate terms ++
      "\n\x7d"
  | builtin _ => within 1 (return "builtin function")
  | error _ report => within 1 (return "ERROR: " ++ report.message)

/-- Prints the texts that show some values. -/
def allPrinter : List Value → Printer (List String)
  | [] => return []
  | value :: rest => do
    let first ← printer value
    let others ← allPrinter rest
    return first :: others

/-- Prints the texts that show the entries of a hash. -/
def entriesPrinter : List (HashEntry Value) → Printer (List String)
  | [] => return []
  | ⟨_, key, value⟩ :: rest => do
    let key ← within 1 (return key.inspect)
    let first ← printer value
    let others ← entriesPrinter rest
    return (key ++ ": " ++ first) :: others

end

end Scriptlet.Value
