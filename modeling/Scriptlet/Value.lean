/-
This file holds the values of the language. Integers, booleans and strings are atoms:
they are equal when they have the same content, and they are the keys of hashes.
Arrays, hashes, functions and errors carry a tag, the identity they were created
with, and are equal when they are the same one. Values never change; only scopes do.

A function keeps its parameter names, its body, and the scope it was created in.

Main statement: `Value.induction` is induction over a value with its elements and
entries.
-/

import Scriptlet.Fault
import Scriptlet.Value.Digest

namespace Scriptlet

/-- The values that are compared by content. -/
inductive Atom where
  | integer (value : Int)
  | boolean (value : Bool)
  | string (text : String)
  deriving DecidableEq

namespace Atom

/-- The kind of an atom. -/
def kind : Atom → Kind
  | integer _ => .integer
  | boolean _ => .boolean
  | string _ => .string

/-- The digest of an atom: the low 64 bits of an integer, the truth value as a bit, or
the digest of a text. -/
def digest : Atom → UInt64
  | integer value => UInt64.ofInt value
  | boolean value => if value then 1 else 0
  | string text => Digest.ofText text

/-- The text that shows an atom. -/
def inspect : Atom → String
  | integer value => toString value
  | boolean value => if value then "true" else "false"
  | string text => text

end Atom

/-- The bare content of an atom, which does not tell a truth value from the number 1 or 0. -/
inductive Payload where
  | number (value : Int)
  | text (content : String)
  deriving DecidableEq

namespace Atom

/-- The content of an atom without its kind. -/
def payload : Atom → Payload
  | integer value => .number value
  | boolean value => .number (if value then 1 else 0)
  | string text => .text text

/-- The kind makes up for what the content alone does not tell apart. -/
theorem eq_of_kind_of_payload {first second : Atom} (kinds : first.kind = second.kind)
    (payloads : first.payload = second.payload) : first = second := by
  cases first <;> cases second <;> simp_all [kind, payload]
  case boolean.boolean value other => cases value <;> cases other <;> simp_all

end Atom

/-- What an entry of a hash is filed under. The digest alone does not identify a key:
the payload settles collisions inside a kind, and the kind those across kinds. -/
structure HashKey where
  kind : Kind
  digest : UInt64
  payload : Payload
  deriving DecidableEq

/-- The key that an atom is filed under. -/
def Atom.hashKey (atom : Atom) : HashKey :=
  ⟨atom.kind, atom.digest, atom.payload⟩

/-- Two atoms are filed under the same key exactly when they are equal, whatever their
digests. -/
theorem Atom.hashKey_inj {first second : Atom} :
    first.hashKey = second.hashKey ↔ first = second := by
  constructor
  · intro same
    exact eq_of_kind_of_payload (congrArg HashKey.kind same) (congrArg HashKey.payload same)
  · rintro rfl
    rfl

-- The number 1 and the truth value share digest and payload, so their kinds alone keep them apart.
example : (Atom.integer 1).hashKey = { (Atom.boolean true).hashKey with kind := .integer } := by
  decide

/-- An entry of a hash: what it is filed under, its key and its value. -/
structure HashEntry (α : Type) where
  filed : HashKey
  key : Atom
  value : α

/-- The values of the language. -/
inductive Value where
  | atom (content : Atom)
  | null
  | array (tag : Nat) (elements : List Value)
  | hash (tag : Nat) (entries : List (HashEntry Value))
  | function (tag : Nat) (parameters : List String) (body : Node) (scope : Nat)
  | builtin (which : Builtin)
  | error (tag : Nat) (report : ErrorReport)

namespace Value

@[match_pattern] abbrev integer (value : Int) : Value := atom (.integer value)

@[match_pattern] abbrev boolean (value : Bool) : Value := atom (.boolean value)

@[match_pattern] abbrev string (text : String) : Value := atom (.string text)

/-- The kind of a value. -/
def kind : Value → Kind
  | atom content => content.kind
  | null => .null
  | array _ _ => .array
  | hash _ _ => .hash
  | function _ _ _ _ => .function
  | builtin _ => .builtin
  | error _ _ => .error

/-- Only atoms can be keys of a hash. -/
def atom? : Value → Option Atom
  | atom content => some content
  | _ => none

/-- What counts as true in a condition: everything but `false` and `null`. -/
def isTruthy : Value → Bool
  | boolean value => value
  | null => false
  | _ => true

/-- What the connectives count as true: only the boolean `true`. -/
def isTrue : Value → Bool
  | boolean value => value
  | _ => false

/-- Whether a value is the account of a failed evaluation. -/
def isError : Value → Bool
  | error _ _ => true
  | _ => false

/-- Equality: by content for atoms, by identity for everything else. -/
def equals : Value → Value → Bool
  | atom first, atom second => first = second
  | null, null => true
  | array first _, array second _ => first = second
  | hash first _, hash second _ => first = second
  | function first _ _ _, function second _ _ _ => first = second
  | builtin which, builtin other => which = other
  | error first _, error second _ => first = second
  | _, _ => false

/-- A property that holds of every value without parts, of an array whenever it holds of
its elements, and of a hash whenever it holds of the values of its entries, holds of
every value. -/
@[elab_as_elim]
theorem induction {motive : Value → Prop} (atom : ∀ atom, motive (.atom atom))
    (null : motive .null)
    (array : ∀ tag elements, (∀ element ∈ elements, motive element) →
      motive (.array tag elements))
    (hash : ∀ tag entries, (∀ entry ∈ entries, motive entry.value) → motive (.hash tag entries))
    (function : ∀ tag parameters body scope, motive (.function tag parameters body scope))
    (builtin : ∀ builtin, motive (.builtin builtin))
    (error : ∀ tag report, motive (.error tag report)) : ∀ value, motive value :=
  @Value.rec motive (fun elements => ∀ element ∈ elements, motive element)
    (fun entries => ∀ entry ∈ entries, motive entry.value) (fun entry => motive entry.value)
    atom null array hash function builtin error
    nofun (fun _ _ first rest element member => by
      rcases List.mem_cons.mp member with rfl | later
      · exact first
      · exact rest element later)
    nofun (fun _ _ first rest entry member => by
      rcases List.mem_cons.mp member with rfl | later
      · exact first
      · exact rest entry later)
    (fun _ _ _ value => value)

end Value

end Scriptlet
