/-
This file names the kinds of value and the built-in functions. Faults speak of both,
so they stand apart from the values themselves.
-/

namespace Scriptlet

/-- The kinds of value. -/
inductive Kind where
  | integer
  | boolean
  | string
  | null
  | array
  | hash
  | function
  | builtin
  | error
  deriving DecidableEq

/-- The name of a kind in messages. -/
def Kind.name : Kind → String
  | integer => "INTEGER"
  | boolean => "BOOLEAN"
  | string => "STRING"
  | null => "NULL"
  | array => "ARRAY"
  | hash => "HASH"
  | function => "FUNCTION"
  | builtin => "BUILTIN"
  | error => "ERROR"

/-- The built-in functions. -/
inductive Builtin where
  | len
  | first
  | last
  | push
  | pop
  deriving DecidableEq

namespace Builtin

/-- The name under which a built-in function is found. -/
def name : Builtin → String
  | len => "len"
  | first => "first"
  | last => "last"
  | push => "push"
  | pop => "pop"

/-- How many arguments a built-in function takes. -/
def arity : Builtin → Nat
  | len | first | last => 1
  | push | pop => 2

/-- Every built-in function. -/
def all : List Builtin :=
  [len, first, last, push, pop]

/-- The built-in function with a given name. -/
def ofName? (text : String) : Option Builtin :=
  all.find? fun builtin => builtin.name == text

theorem mem_all (builtin : Builtin) : builtin ∈ all := by
  cases builtin <;> decide

end Builtin

end Scriptlet
