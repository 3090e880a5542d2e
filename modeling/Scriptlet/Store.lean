/-
This file holds the scopes that a program runs in. A scope has bindings of its own and
may lie inside an outer scope; the store keeps every scope that was ever opened, and
also hands out the tags that tell arrays, hashes, functions and errors apart.

A text can hold code points that are no characters: half of a surrogate pair without the
other half, which is what an undecodable byte of an argument is read as. Texts are kept here as
strings of characters, in which some character that the texts of the session do not use
otherwise stands for such a code point; the store says which ones do. They have no UTF-8 form.

A scope is opened inside a scope that is already there, so the outer scope is always
the older one and has the smaller number. A look-up follows the outer links down these
numbers, and therefore ends.

Main statement: `Scope.get?_set` says what a scope gives to each name after a binding.
-/

import Scriptlet.Value

namespace Scriptlet

/-- One scope: the scope around it, if any, and its own bindings. -/
structure Scope where
  outer : Option Nat
  bindings : List (String × Value)

namespace Scope

/-- The value that the scope itself gives to a name. -/
def get? (scope : Scope) (name : String) : Option Value :=
  scope.bindings.lookup name

/-- Binds a name in the scope, in place of any binding it had. -/
def set (scope : Scope) (name : String) (value : Value) : Scope :=
  { scope with bindings := (name, value) :: scope.bindings.filter fun binding => binding.1 != name }

@[simp] theorem outer_set (scope : Scope) (name : String) (value : Value) :
    (scope.set name value).outer = scope.outer := rfl

/-- After a binding the name has the value and every other name what it had. -/
theorem get?_set (scope : Scope) (name wanted : String) (value : Value) :
    (scope.set name value).get? wanted =
      if wanted = name then some value else scope.get? wanted := by
  by_cases same : wanted = name
  · simp [get?, set, same]
  · simp only [get?, set, List.lookup_cons, if_neg same, beq_false_of_ne same]
    generalize scope.bindings = bindings
    induction bindings with
    | nil => rfl
    | cons binding rest inductionHypothesis =>
      obtain ⟨other, held⟩ := binding
      by_cases erased : other = name
      · subst erased
        simpa [List.lookup_cons, beq_false_of_ne same] using inductionHypothesis
      · by_cases found : wanted = other <;>
          simp [List.lookup_cons, erased, found, beq_false_of_ne, inductionHypothesis]

end Scope

/-- All scopes, by number, and the next tag to hand out. -/
structure Store where
  scopes : Array Scope
  nextTag : Nat
  /-- The characters that stand for lone surrogates. -/
  lone : Char → Bool

namespace Store

/-- The store without scopes, for texts in which every character stands for itself. -/
def empty : Store := ⟨#[], 0, fun _ => false⟩

/-- Opens a scope and gives its number. -/
def openScope (store : Store) (outer : Option Nat) : Nat × Store :=
  (store.scopes.size, { store with scopes := store.scopes.push ⟨outer, []⟩ })

/-- Hands out a tag. -/
def freshTag (store : Store) : Nat × Store :=
  (store.nextTag, { store with nextTag := store.nextTag + 1 })

/-- Binds a name in a scope. -/
def set (store : Store) (scope : Nat) (name : String) (value : Value) : Store :=
  { store with scopes := store.scopes.modify scope fun frame => frame.set name value }

/-- The value of a name as seen from a scope: its own binding, or what the scope around
it sees. -/
def get? (store : Store) (scope : Nat) (name : String) : Option Value :=
  match store.scopes[scope]? with
  | none => none
  | some frame =>
    match frame.get? name with
    | some value => some value
    | none =>
      match frame.outer with
      | none => none
      | some outer => if outer < scope then store.get? outer name else none
termination_by scope

/-- The bindings of one scope, in the order of their names. -/
def bindings (store : Store) (scope : Nat) : List (String × Value) :=
  match store.scopes[scope]? with
  | none => []
  | some frame => frame.bindings.mergeSort fun first second => !decide (second.1 < first.1)

end Store

end Scriptlet
