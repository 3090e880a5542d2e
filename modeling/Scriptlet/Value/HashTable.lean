/-
This file files values under the keys of a hash. Entries stand in the order in which
their keys first came; a key that comes again keeps its place and takes the later
value.

Main statements: `find?_insert` says what is found after an insertion, and
`keys_insert` says in which order the keys stand.
-/

import Scriptlet.Value

namespace Scriptlet.HashTable

variable {α : Type}

/-- Puts an entry in the place of the one that is filed under the same key, or at the
end when there is none. -/
def put (entries : List (HashEntry α)) (entry : HashEntry α) : List (HashEntry α) :=
  match entries with
  | [] => [entry]
  | first :: rest => if first.filed = entry.filed then entry :: rest else first :: put rest entry

/-- Files a value under a key. -/
def insert (entries : List (HashEntry α)) (key : Atom) (value : α) : List (HashEntry α) :=
  put entries ⟨key.hashKey, key, value⟩

/-- The value of the entry filed under a key. -/
def findFiled? (entries : List (HashEntry α)) (filed : HashKey) : Option α :=
  match entries with
  | [] => none
  | entry :: rest => if entry.filed = filed then some entry.value else findFiled? rest filed

/-- The value that a key has. -/
def find? (entries : List (HashEntry α)) (key : Atom) : Option α :=
  findFiled? entries key.hashKey

/-- The keys, in the order of their entries. -/
def keys (entries : List (HashEntry α)) : List Atom :=
  entries.map HashEntry.key

theorem findFiled?_put (entries : List (HashEntry α)) (entry : HashEntry α) (filed : HashKey) :
    findFiled? (put entries entry) filed =
      if entry.filed = filed then some entry.value else findFiled? entries filed := by
  induction entries with
  | nil => rfl
  | cons first rest inductionHypothesis =>
    by_cases replaced : first.filed = entry.filed
    · by_cases wanted : entry.filed = filed <;> simp [put, findFiled?, replaced, wanted]
    · by_cases wanted : first.filed = filed
      · have other : entry.filed ≠ filed := fun same => replaced (wanted.trans same.symm)
        rw [put, if_neg replaced]
        simp [findFiled?, wanted, other]
      · simp [put, findFiled?, replaced, wanted, inductionHypothesis]

/-- After an insertion the inserted key has the inserted value and every other key what
it had. -/
theorem find?_insert (entries : List (HashEntry α)) (key wanted : Atom) (value : α) :
    find? (insert entries key value) wanted =
      if key = wanted then some value else find? entries wanted := by
  simp only [find?, insert, findFiled?_put, Atom.hashKey_inj]

/-- When every entry is filed under its own key, a new key goes to the end and a known
key moves nothing. -/
theorem keys_insert (entries : List (HashEntry α)) (key : Atom) (value : α)
    (filedWell : ∀ entry ∈ entries, entry.filed = entry.key.hashKey) :
    keys (insert entries key value) =
      if key ∈ keys entries then keys entries else keys entries ++ [key] := by
  induction entries with
  | nil => rfl
  | cons first rest inductionHypothesis =>
    have tail := inductionHypothesis fun entry member =>
      filedWell entry (List.mem_cons_of_mem _ member)
    simp only [insert, put, filedWell first List.mem_cons_self, Atom.hashKey_inj]
    by_cases same : first.key = key
    · simp [keys, same]
    · simp only [insert, keys] at tail
      by_cases later : key ∈ rest.map HashEntry.key <;> simp_all [keys, eq_comm]

end Scriptlet.HashTable
