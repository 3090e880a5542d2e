/-
This file deals with line ends: `unifyNewlines` reads every line end of a stored
text as a line feed, and `splitLines` cuts a text at its line feeds.
-/

namespace Scriptlet.Text

/-- Reads a carriage return, alone or before a line feed, as a line feed. -/
def unifyNewlines : List Char → List Char
  | [] => []
  | '\r' :: '\n' :: rest => '\n' :: unifyNewlines rest
  | '\r' :: rest => '\n' :: unifyNewlines rest
  | c :: rest => c :: unifyNewlines rest

/-- Cuts a text at its line feeds. There is one line more than there are line feeds. -/
def splitLines : List Char → List (List Char)
  | [] => [[]]
  | c :: rest =>
    if c = '\n' then
      [] :: splitLines rest
    else
      match splitLines rest with
      | [] => [[c]]
      | line :: lines => (c :: line) :: lines

theorem splitLines_ne_nil (chars : List Char) : splitLines chars ≠ [] := by
  cases chars with
  | nil => simp [splitLines]
  | cons c rest =>
    rw [splitLines]
    split
    · simp
    · split <;> simp

/-- Joining the lines with line feeds gives the text back. -/
theorem intercalate_splitLines (chars : List Char) :
    List.intercalate ['\n'] (splitLines chars) = chars := by
  induction chars with
  | nil => rfl
  | cons c rest inductionHypothesis =>
    rw [splitLines]
    obtain ⟨line, lines, cut⟩ := List.exists_cons_of_ne_nil (splitLines_ne_nil rest)
    rw [cut] at inductionHypothesis
    split
    · next feed =>
      rw [cut, feed]
      simpa [List.intercalate] using inductionHypothesis
    · rw [cut]
      cases lines <;> simpa [List.intercalate] using inductionHypothesis

/-- No line has a line feed in it. -/
theorem not_mem_of_mem_splitLines {chars : List Char} :
    ∀ line ∈ splitLines chars, '\n' ∉ line := by
  induction chars with
  | nil => simp [splitLines]
  | cons c rest inductionHypothesis =>
    rw [splitLines]
    obtain ⟨line, lines, cut⟩ := List.exists_cons_of_ne_nil (splitLines_ne_nil rest)
    rw [cut, List.forall_mem_cons] at inductionHypothesis
    rw [cut]
    split
    · rw [List.forall_mem_cons, List.forall_mem_cons]
      exact ⟨List.not_mem_nil, inductionHypothesis⟩
    · next plain =>
      refine List.forall_mem_cons.mpr ⟨fun member => ?_, inductionHypothesis.2⟩
      rcases List.mem_cons.mp member with feed | member
      · exact plain feed.symm
      · exact inductionHypothesis.1 member

end Scriptlet.Text
