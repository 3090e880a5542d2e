/-
This file says what can end a session before its input does. A value that a run can produce is
printed wherever there is room for it, because the bodies of its functions were read from sources,
and every fault of a run is answered but that of a text without UTF-8 form. So a session that has
started with an empty scope crashes for three reasons only: a line asks too much of the reader, the
stack has no room for what is to be printed, or a lone surrogate was to be encoded.

`Repl.Moves` lists what a line can do to a session. What sessions keep follows from it.
-/

import Scriptlet.Proofs.Printing
import Scriptlet.Proofs.Safety
import Scriptlet.Proofs.Watched
import Scriptlet.Repl

namespace Scriptlet

open Printer

/-! ### What is printed of values -/

theorem Node.Shaped.prints {role : Node.Role} {node : Node} (shaped : node.Shaped role) :
    node.Prints := by
  induction shaped with
  | leaf | integer | name => exact prints_leaf
  | unary _ _ inner => exact prints_unary inner
  | binary _ _ _ left right => exact prints_binary left right
  | call _ _ callee inner => exact prints_call callee inner
  | index _ _ left right => exact prints_index left right
  | array _ inner => exact prints_array inner
  | hash _ inner => exact prints_hash inner
  | conditional _ _ _ condition block other => exact prints_conditional condition block other
  | function _ _ parameters body => exact prints_function parameters body
  | parameters _ inner => exact prints_parameters inner
  | pair _ _ key value => exact prints_pair key value
  | block _ inner => exact prints_block inner
  | letStatement _ _ inner => exact prints_letStatement prints_leaf inner
  | returnStatement _ inner => exact prints_returnStatement inner
  | expressionStatement _ inner => exact prints_expressionStatement inner

namespace Value

/-- The value is printed as the text that shows it, wherever there is room for it. -/
def Prints (value : Value) : Prop :=
  ∃ calls, Costs value.printer calls value.inspect

theorem exists_costs_all {values : List Value} (inner : ∀ value ∈ values, value.Prints) :
    ∃ calls, Costs (allPrinter values) calls (inspectAll values) := by
  induction values with
  | nil => exact ⟨0, costs_pure _⟩
  | cons value rest inductionHypothesis =>
    rw [List.forall_mem_cons] at inner
    obtain ⟨calls, costs⟩ := inner.1
    obtain ⟨others, costsRest⟩ := inductionHypothesis inner.2
    exact ⟨max calls others, .bind costs (.map costsRest _)⟩

theorem exists_costs_entries {entries : List (HashEntry Value)}
    (inner : ∀ entry ∈ entries, entry.value.Prints) :
    ∃ calls, Costs (entriesPrinter entries) calls (inspectEntries entries) := by
  induction entries with
  | nil => exact ⟨0, costs_pure _⟩
  | cons entry rest inductionHypothesis =>
    rw [List.forall_mem_cons] at inner
    obtain ⟨calls, costs⟩ := inner.1
    obtain ⟨others, costsRest⟩ := inductionHypothesis inner.2
    exact ⟨max 1 (max calls others),
      .bind (.within (costs_pure _) 1) (.bind costs (.map costsRest _))⟩

theorem Sound.prints {scopes : Nat} {value : Value} (sound : value.Sound scopes) :
    value.Prints := by
  induction sound with
  | atom | null | builtin => exact ⟨1, .within (costs_pure _) 1⟩
  | array _ inner =>
    obtain ⟨calls, costs⟩ := exists_costs_all inner
    exact ⟨2 + calls, .within (.map costs _) 2⟩
  | hash _ inner =>
    obtain ⟨calls, costs⟩ := exists_costs_entries inner
    exact ⟨2 + calls, .within (.map costs _) 2⟩
  | @function tag parameters body scope shaped present =>
    have costs := Node.costs_terms fun statement member =>
      (shaped.operands_of_block statement member).prints
    exact ⟨_, .within (.map (.within costs 1) _) 1⟩

theorem prints_error (tag : Nat) (report : ErrorReport) : (error tag report).Prints :=
  ⟨1, .within (costs_pure _) 1⟩

end Value

/-! ### Crashes -/

/-- A text that is read within limits is read as it is without them. -/
theorem eq_readSource_of_readWithin {limits : Limits} {text : String} {reading : Reading}
    (read : readWithin limits text = .ok reading) : reading = readSource text := by
  have mapped : (watchSource limits text).1.1.map
      (Reading.mk · (watchSource limits text).2.errors) = .ok reading := read
  cases result : (watchSource limits text).1.1 with
  | error refusal =>
    rw [result] at mapped
    cases mapped
  | ok program =>
    rw [result] at mapped
    cases mapped
    exact (readSource_of_watched result).symm

theorem prints_readSource (text : String) : (readSource text).program.Prints := by
  obtain ⟨statements, program, regular⟩ := exists_regular text
  rw [program]
  exact Node.prints_program fun statement member => (regular statement member).prints

namespace Outcome

variable {outcome : Outcome} {scopes : Nat}

theorem Documented.escape?_eq_none (documented : outcome.Documented scopes) :
    outcome.escape? = none := by
  rcases documented with ⟨noError, -⟩ | ⟨tag, report, failed, documented⟩
  · cases value : outcome.value with
    | error tag report =>
      rw [value] at noError
      cases noError
    | atom | null | array | hash | function | builtin => rw [escape?, value]
  · rw [escape?, failed]
    cases report with
    | plain message => cases documented
    | depthExceeded => rfl
    | fault cause place =>
      cases cause with
      | unencodable | unknownNode | unhandledLeaf | notIdentifier | notInteger | missingNode
      | malformedTree => cases documented
      | _ => rfl

theorem Documented.prints (documented : outcome.Documented scopes) : outcome.value.Prints := by
  rcases documented with ⟨-, sound⟩ | ⟨tag, report, failed, -⟩
  · exact sound.prints
  · rw [failed]
    exact Value.prints_error tag report

end Outcome

namespace Crash

/-- The crash has a reason outside the language: a text asked too much of the reader, there was no
room to print, or a text with one of these characters has no UTF-8 form. -/
def OfMachine (lone : Char → Bool) : Crash → Prop
  | refused _ => True
  | unprinted error => error = .depthExceeded
  | escaped cause => cause.Unencodable lone

variable {lone : Char → Bool} {crash : Crash}

theorem ofMachine_printing? {room : Room} {printer : Printer String} {calls : Nat} {text : String}
    (costs : Costs printer calls text) (found : printing? room printer = some crash) :
    crash.OfMachine lone := by
  rw [printing?, costs] at found
  split at found
  · next error failed =>
    split at failed
    · cases failed
    · cases failed
      cases found
      rfl
  · cases found

theorem ofMachine_reading? {terminal : Terminal} {limit : Nat} {text : String}
    {onward : Node → Option Crash} (found : reading? terminal limit text onward = some crash)
    (goesOn : (readSource text).errors = [] → onward (readSource text).program = some crash →
      crash.OfMachine lone) : crash.OfMachine lone := by
  unfold reading? at found
  split at found
  · cases found
    trivial
  · next reading read =>
    obtain rfl := eq_readSource_of_readWithin read
    split at found
    · next accepted => exact goesOn (List.isEmpty_iff.mp accepted) found
    · cases found

/-- A run is answered, or a lone surrogate was to be encoded. -/
theorem ofMachine_outcome? {room : Room} {shown : Bool} {outcome : Outcome} {scopes : Nat}
    (ended : outcome.Documented scopes ∨ outcome.Escaped lone)
    (found : outcome? room shown outcome = some crash) : crash.OfMachine lone := by
  unfold outcome? at found
  rcases ended with documented | ⟨text, escaped, stands⟩
  · rw [documented.escape?_eq_none] at found
    dsimp only at found
    split at found
    · obtain ⟨calls, costs⟩ := documented.prints
      exact ofMachine_printing? costs found
    · cases found
  · rw [escaped] at found
    cases found
    exact stands

end Crash

/-! ### Sessions -/

namespace Repl

/-- What a line can make of a session. -/
inductive Moves (repl : Repl) : Repl → Prop where
  | stays : Moves repl repl
  | sets (setting : TraceSetting) : Moves repl { repl with setting }
  | resets : Moves repl
      { repl with store := (repl.store.openScope none).2, scope := (repl.store.openScope none).1 }
  | runs {text : String} (accepted : (readSource text).errors = []) :
      Moves repl { repl with
        store := (Session.runProgram (raisedLimit repl.limit) repl.scope (readSource text).program
          repl.store).2
        limit := raisedLimit repl.limit }

section

variable (terminal : Terminal) (repl : Repl)

theorem moves_perform (argument : String) (command : Command) :
    repl.Moves (repl.perform terminal argument command).1 := by
  cases command with
  | clear => exact .stays
  | trace =>
    rw [perform]
    split
    · exact .stays
    · exact .sets _
  | reset => exact .resets

theorem moves_command? {text : String} {answer : Repl × Printed}
    (found : repl.command? terminal text = some answer) : repl.Moves answer.1 := by
  unfold command? at found
  dsimp only at found
  split at found
  · split at found
    · cases found
      exact repl.moves_perform terminal _ _
    · cases found
      exact .stays
  · cases found

theorem moves_evaluate (text : String) : repl.Moves (repl.evaluate terminal text).1 := by
  by_cases accepted : (readSource text).errors = []
  · rw [evaluate, Session.runText_of_accepted accepted]
    exact .runs accepted
  · rw [evaluate, Session.runText_of_rejected accepted]
    exact .stays

theorem moves_line (stage : Stage) (text : String) :
    repl.Moves (repl.line terminal stage text).1 := by
  unfold line
  dsimp only
  split
  · exact .stays
  · split
    · next found => exact repl.moves_command? terminal found
    · split
      · exact repl.moves_evaluate terminal _
      · exact .stays

end

/-- The store is sound and the scope of the session exists. -/
structure Sound (repl : Repl) : Prop where
  store : repl.store.Sound
  scope : repl.scope < repl.store.scopes.size

theorem sound_fresh (lone : Char → Bool) (setting : TraceSetting) (limit : Nat) :
    (fresh lone setting limit).Sound := by
  have empty : Session.fresh.2.Sound := Store.sound_empty.openScope nofun
  exact ⟨empty, Nat.zero_lt_one⟩

section

variable {repl after : Repl} (moves : repl.Moves after)

include moves

theorem Moves.sound (sound : repl.Sound) : after.Sound := by
  cases moves with
  | stays => exact sound
  | sets setting => exact ⟨sound.store, sound.scope⟩
  | resets =>
    refine ⟨sound.store.openScope nofun, ?_⟩
    show repl.store.scopes.size < (repl.store.scopes.push _).size
    rw [Array.size_push]
    exact Nat.lt_succ_self _
  | runs accepted =>
    obtain ⟨kept, grown, -⟩ := Session.runProgram_documented sound.store sound.scope
      (raisedLimit repl.limit) (Session.shaped_of_accepted accepted)
    exact ⟨kept, Nat.lt_of_lt_of_le sound.scope grown⟩

theorem Moves.lone : after.store.lone = repl.store.lone := by
  cases moves with
  | stays | sets | resets => rfl
  | runs => exact Session.lone_runProgram _ _ _ _

/-- The limit on all frames is raised once, by the first run. -/
theorem Moves.limit : after.limit = repl.limit ∨ after.limit = raisedLimit repl.limit := by
  cases moves with
  | stays | sets | resets => exact .inl rfl
  | runs => exact .inr rfl

end

/-- A sound session crashes for reasons outside the language only. -/
theorem Sound.ofMachine_crash? {repl : Repl} (sound : repl.Sound) {terminal : Terminal}
    {stage : Stage} {text : String} {crash : Crash}
    (found : repl.crash? terminal stage text = some crash) :
    crash.OfMachine repl.store.lone := by
  unfold crash? at found
  dsimp only at found
  split at found
  · cases found
  · cases stage with
    | tokens => cases found
    | canonical =>
      dsimp only [emitCrash?] at found
      refine Crash.ofMachine_reading? found fun _ printed => ?_
      exact Crash.ofMachine_printing? (prints_readSource _) printed
    | value =>
      dsimp only [evaluateCrash?] at found
      refine Crash.ofMachine_reading? found fun accepted ran => ?_
      obtain ⟨-, -, ended⟩ := Session.runProgram_documented sound.store sound.scope
        (raisedLimit repl.limit) (Session.shaped_of_accepted accepted)
      exact Crash.ofMachine_outcome? ended ran

end Repl

end Scriptlet
