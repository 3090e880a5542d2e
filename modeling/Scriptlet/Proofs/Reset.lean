/-
This file is about interactive sessions as a whole. The end of the input ends a session, and so
does a crash; every entry in front of that is answered. And a reset forgets: whatever was entered
before, behind a reset a session answers as a new one does that starts with the same setting of
the error trace and the same limit on all frames. The limit belongs to the process and not to
the session. The first run raises it, no reset takes that back, and lines are read under it, so
a line may end a new session and not one that has been reset.

A reset opens a new scope and leaves the store as it is. So the session behind it does not have
the store of a new session: its scopes have other numbers, and what it makes has other tags.
`Repl.Matches` says that two sessions differ in nothing else. One entry keeps them so and gets
the same answer from both, and by induction so does every list of entries.
-/

import Scriptlet.Proofs.Backtrack
import Scriptlet.Proofs.Crashes
import Scriptlet.Proofs.Entries
import Scriptlet.Proofs.Visible

namespace Scriptlet

open Correspondence (renamed)
open Renaming (beyond)

/-! ### What matching values print -/

section

variable {c : Correspondence}

namespace Value

theorem allPrinter_eq {values others : List Value}
    (same : List.Forall₂ (fun value other => value.printer = other.printer) values others) :
    allPrinter values = allPrinter others := by
  induction same with
  | nil => rfl
  | cons first _ inductionHypothesis => rw [allPrinter, allPrinter, first, inductionHypothesis]

theorem entriesPrinter_eq {entries others : List (HashEntry Value)}
    (same : List.Forall₂ (fun entry other => entry.key = other.key ∧
      entry.value.printer = other.value.printer) entries others) :
    entriesPrinter entries = entriesPrinter others := by
  induction same with
  | nil => rfl
  | cons first _ inductionHypothesis =>
    rw [entriesPrinter, entriesPrinter, first.1, first.2, inductionHypothesis]

/-- Matching values with the same bodies are printed alike, also where there is no room. -/
theorem Matches.printer_eq {value other : Value}
    (alike : ∀ {first second : Node}, c.node first second → first = second)
    (same : value.Matches c other) : value.printer = other.printer := by
  induction same with
  | atom | null | builtin => rfl
  | array length inner inductionHypothesis =>
    have parts := List.forall₂_iff_zip.mpr ⟨length, fun member => inductionHypothesis _ member⟩
    rw [printer, printer, allPrinter_eq parts]
  | @hash tag entries others length headings inner inductionHypothesis =>
    have parts : List.Forall₂ (fun entry other => entry.key = other.key ∧
        entry.value.printer = other.value.printer) entries others :=
      List.forall₂_iff_zip.mpr ⟨length, fun member =>
        ⟨(headings _ member).2, inductionHypothesis _ member⟩⟩
    rw [printer, printer, entriesPrinter_eq parts]
  | function same => rw [printer, printer, alike same]
  | error same => rw [printer, printer, ErrorReport.Matches.message_eq same]

end Value

theorem Outcome.Matches.escape?_eq {outcome other : Outcome} (same : outcome.Matches c other) :
    outcome.escape? = other.escape? := by
  have value := same.value
  rw [escape?, escape?]
  generalize outcome.value = first at value
  generalize other.value = second at value
  cases value with
  | error reports => cases reports <;> rfl
  | atom | null | array | hash | function | builtin => rfl

theorem Crash.outcome?_eq {outcome other : Outcome}
    (alike : ∀ {first second : Node}, c.node first second → first = second)
    (same : outcome.Matches c other) (room : Room) (shown : Bool) :
    outcome? room shown outcome = outcome? room shown other := by
  rw [outcome?, outcome?, same.escape?_eq, same.value.printer_eq alike]

end

namespace Repl

/-! ### Sessions that differ in identities -/

/-- The second session has other numbers for its scopes and other tags at most. -/
structure Matches (identities : Renaming) (repl other : Repl) : Prop where
  store : repl.store.Matches (renamed (fun _ => True) identities) other.store
  scope : other.scope = identities.scope repl.scope
  setting : other.setting = repl.setting
  limit : other.limit = repl.limit

/-- The same is printed, and the sessions afterwards differ in identities at most. -/
structure Agree (identities : Renaming) (first second : Repl × Printed) : Prop where
  printed : first.2 = second.2
  after : first.1.Matches identities second.1

section

variable {identities : Renaming} {repl other : Repl} (same : repl.Matches identities other)
  (terminal : Terminal)

/-- What a line shows of its outcome: an error with its trace, and any other value unless it
comes from a `let`. -/
def echoed (setting : TraceSetting) (trail : Unit → List Node) (outcome : Outcome) : Printed :=
  match outcome.value with
  | .error _ report => .line outcome.value.inspect ++ .trace terminal setting trail report
  | value => if outcome.isLet then .nothing else .line value.inspect

/-- The session after a program. -/
def ran (repl : Repl) (program : Node) : Repl :=
  { repl with
    store := (Session.runProgram (raisedLimit repl.limit) repl.scope program repl.store).2
    limit := raisedLimit repl.limit }

theorem evaluate_of_accepted {text : String} (accepted : (readSource text).errors = []) :
    repl.evaluate terminal text =
      (repl.ran (readSource text).program, echoed terminal repl.setting
        (fun _ => Session.trail (raisedLimit repl.limit) repl.scope (readSource text).program
          repl.store)
        (Session.runProgram (raisedLimit repl.limit) repl.scope (readSource text).program
          repl.store).1) := by
  rw [evaluate, Session.runText_of_accepted accepted]
  rfl

theorem evaluate_of_rejected {text : String} (rejected : (readSource text).errors ≠ []) :
    repl.evaluate terminal text = (repl, .syntaxErrors (readSource text).errors) := by
  rw [evaluate, Session.runText_of_rejected rejected]

theorem echoed_eq {outcome outcome' : Outcome}
    (matched : outcome.Matches (renamed (fun _ => True) identities) outcome')
    (setting : TraceSetting) (trail : Unit → List Node) :
    echoed terminal setting trail outcome = echoed terminal setting trail outcome' := by
  have value := matched.value
  have shown := value.inspect_eq
  rw [echoed, echoed, matched.isLet_eq]
  generalize outcome.value = first at value shown
  generalize outcome'.value = second at value shown
  cases value with
  | error reports => rw [shown, reports.eq trivial]
  | atom | null | array | hash | function | builtin => simp only [shown]

theorem echoes_eq {outcome outcome' : Outcome}
    (matched : outcome.Matches (renamed (fun _ => True) identities) outcome') :
    echoes outcome = echoes outcome' := by
  rw [echoes, echoes, matched.isLet_eq, matched.value.isError_eq]

/-- Under a renaming every list of nodes stands for itself. -/
theorem renamed_node_self (identities : Renaming) (nodes : List Node) :
    List.Forall₂ (renamed (fun _ => True) identities).node nodes nodes :=
  List.forall₂_same.mpr fun _ _ => ⟨rfl, fun _ _ => trivial⟩

include same

/-- Whatever program the sessions run, it ends alike. -/
theorem Matches.runProgram (limit : Nat) (program : Node) :
    (Session.runProgram limit repl.scope program repl.store).1.Matches
        (renamed (fun _ => True) identities)
        (Session.runProgram limit other.scope program other.store).1 ∧
      (Session.runProgram limit repl.scope program repl.store).2.Matches
        (renamed (fun _ => True) identities)
        (Session.runProgram limit other.scope program other.store).2 := by
  rw [same.scope]
  exact Session.matches_runProgram id id limit repl.scope
    (renamed_node_self identities program.children) same.store

theorem Matches.evaluate (text : String) :
    Agree identities (repl.evaluate terminal text) (other.evaluate terminal text) := by
  by_cases accepted : (readSource text).errors = []
  · obtain ⟨outcomes, stores⟩ :=
      same.runProgram (raisedLimit repl.limit) (readSource text).program
    have trails := Session.trail_eq id id And.left (raisedLimit repl.limit) repl.scope
      (renamed_node_self identities (readSource text).program.children) same.store
    rw [evaluate_of_accepted terminal accepted, evaluate_of_accepted terminal accepted, same.limit,
      same.setting]
    refine ⟨?_, ?_⟩
    · dsimp only
      rw [echoed_eq terminal outcomes, ← trails, same.scope]
      rfl
    · refine ⟨?_, same.scope, same.setting, ?_⟩
      · rw [ran, ran, same.limit]
        exact stores
      · rw [ran, ran, same.limit]
  · rw [evaluate_of_rejected terminal accepted, evaluate_of_rejected terminal accepted]
    exact ⟨rfl, same⟩

theorem Matches.perform (argument : String) (command : Command) :
    Agree identities (repl.perform terminal argument command)
      (other.perform terminal argument command) := by
  cases command with
  | clear => exact ⟨rfl, same⟩
  | trace =>
    simp only [Repl.perform, same.setting]
    split
    · exact ⟨rfl, same⟩
    · exact ⟨rfl, same.store, same.scope, rfl, same.limit⟩
  | reset =>
    obtain ⟨stores, scope⟩ := same.store.openScope none
    exact ⟨rfl, stores, scope, same.setting, same.limit⟩

theorem Matches.command? (text : String) :
    Option.Rel (Agree identities) (repl.command? terminal text) (other.command? terminal text) := by
  unfold Repl.command?
  dsimp only
  split
  · split
    · exact .some (same.perform terminal _ _)
    · exact .some ⟨rfl, same⟩
  · exact .none

theorem Matches.line (stage : Stage) (text : String) :
    Agree identities (repl.line terminal stage text) (other.line terminal stage text) := by
  unfold Repl.line
  dsimp only
  split
  · exact ⟨rfl, same⟩
  · have commands := same.command? terminal (normalize text)
    generalize repl.command? terminal (normalize text) = command at commands
    generalize other.command? terminal (normalize text) = command' at commands
    cases commands with
    | some answers => exact answers
    | none =>
      cases stage with
      | value => exact same.evaluate terminal _
      | tokens | canonical => exact ⟨by rw [same.setting], same⟩

theorem Matches.evaluateCrash?_eq (text : String) :
    repl.evaluateCrash? terminal text = other.evaluateCrash? terminal text := by
  rw [evaluateCrash?, evaluateCrash?, same.limit]
  refine congrArg _ (funext fun program => ?_)
  obtain ⟨outcomes, -⟩ := same.runProgram (raisedLimit repl.limit) program
  dsimp only
  rw [echoes_eq outcomes, Crash.outcome?_eq And.left outcomes]

/-- Both sessions crash, or none of them does. -/
theorem Matches.crash?_eq (stage : Stage) (text : String) :
    repl.crash? terminal stage text = other.crash? terminal stage text := by
  have commands := same.command? terminal (normalize text)
  have either : (repl.command? terminal (normalize text)).isSome =
      (other.command? terminal (normalize text)).isSome := by
    generalize repl.command? terminal (normalize text) = command at commands ⊢
    generalize other.command? terminal (normalize text) = command' at commands ⊢
    cases commands <;> rfl
  unfold crash?
  dsimp only
  rw [either]
  split
  · rfl
  · cases stage with
    | value => exact same.evaluateCrash?_eq terminal _
    | tokens => rfl
    | canonical => simp only [emitCrash?, same.limit]

end

/-- It goes on alike: both sessions have ended, or crashed, or differ in identities at most. -/
inductive Next.Matches (identities : Renaming) : Next → Next → Prop where
  | goesOn {repl other : Repl} (same : repl.Matches identities other) :
      Matches identities (.goesOn repl) (.goesOn other)
  | ended : Matches identities .ended .ended
  | crashed (crash : Crash) : Matches identities (.crashed crash) (.crashed crash)

theorem step_line {repl : Repl} {terminal : Terminal} {stage : Stage} {text : String}
    (intact : repl.crash? terminal stage text = none) :
    repl.step terminal stage (.line text) =
      (.goesOn (repl.line terminal stage text).1, (repl.line terminal stage text).2) := by
  rw [step, intact]

theorem step_crashed {repl : Repl} {terminal : Terminal} {stage : Stage} {text : String}
    {crash : Crash} (found : repl.crash? terminal stage text = some crash) :
    repl.step terminal stage (.line text) = (.crashed crash, .nothing) := by
  rw [step, found]

/-- The same is printed for an entry, and it goes on alike. -/
theorem Matches.step {identities : Renaming} {repl other : Repl}
    (same : repl.Matches identities other) (terminal : Terminal) (stage : Stage) (entry : Entry) :
    (repl.step terminal stage entry).2 = (other.step terminal stage entry).2 ∧
      (repl.step terminal stage entry).1.Matches identities
        (other.step terminal stage entry).1 := by
  cases entry with
  | line text =>
    have either := same.crash?_eq terminal stage text
    cases found : other.crash? terminal stage text with
    | some crash =>
      rw [step_crashed (either.trans found), step_crashed found]
      exact ⟨rfl, .crashed crash⟩
    | none =>
      have answers := same.line terminal stage text
      rw [step_line (either.trans found), step_line found]
      dsimp only
      exact ⟨answers.printed, .goesOn answers.after⟩
  | interrupt => exact ⟨rfl, .goesOn same⟩
  | endOfInput => exact ⟨rfl, .ended⟩

/-- Sessions that differ in identities only print the same for every entry. -/
theorem Matches.transcript_eq {identities : Renaming} {repl other : Repl}
    (same : repl.Matches identities other) (terminal : Terminal) (stage : Stage)
    (entries : List Entry) :
    repl.transcript terminal stage entries = other.transcript terminal stage entries := by
  induction entries generalizing repl other with
  | nil => rfl
  | cons entry rest inductionHypothesis =>
    obtain ⟨printed, next⟩ := same.step terminal stage entry
    rw [transcript, transcript]
    generalize repl.step terminal stage entry = first at printed next
    generalize other.step terminal stage entry = second at printed next
    obtain ⟨first, answer⟩ := first
    obtain ⟨second, answer'⟩ := second
    cases printed
    cases next with
    | ended | crashed => rfl
    | goesOn after => exact congrArg (Transcript.after · [answer]) (inductionHypothesis after)

/-- A session that opens a new outermost scope differs from a new session in identities only. -/
theorem matches_fresh (repl : Repl) :
    (fresh repl.store.lone repl.setting repl.limit).Matches (beyond .empty repl.store)
      ⟨(repl.store.openScope none).2, (repl.store.openScope none).1, repl.setting, repl.limit⟩ := by
  have grown : Store.empty.Grows repl.store := ⟨Nat.zero_le _, Nat.zero_le _⟩
  have nothing : Store.Matches (renamed (fun _ => True) (beyond .empty repl.store))
      { Store.empty with lone := repl.store.lone } repl.store :=
    ⟨rfl, tag_beyond_add grown, scope_beyond_add grown, nofun, nofun⟩
  obtain ⟨stores, scope⟩ := nothing.openScope none
  exact ⟨stores, scope, rfl, rfl⟩

/-! ### Whole sessions -/

/-- The session that goes on. -/
def Next.repl? : Next → Option Repl
  | goesOn repl => some repl
  | ended => none
  | crashed _ => none

section

variable (terminal : Terminal) (stage : Stage) (repl : Repl)

/-- The session after some entries, unless it has ended or crashed. -/
def follow (entries : List Entry) : Option Repl :=
  entries.foldlM (fun repl entry => (repl.step terminal stage entry).1.repl?) repl

/-- What an entry can do. Only the end of the input ends a session, and only a line crashes it. -/
theorem step_cases (entry : Entry) :
    (entry = .endOfInput ∧ repl.step terminal stage entry = (.ended, .line "")) ∨
    (∃ text crash, entry = .line text ∧ repl.crash? terminal stage text = some crash ∧
      repl.step terminal stage entry = (.crashed crash, .nothing)) ∨
    ∃ after printed, entry ≠ .endOfInput ∧ repl.Moves after ∧
      repl.step terminal stage entry = (.goesOn after, printed) := by
  cases entry with
  | endOfInput => exact .inl ⟨rfl, rfl⟩
  | interrupt => exact .inr (.inr ⟨repl, _, nofun, .stays, rfl⟩)
  | line text =>
    cases crashes : repl.crash? terminal stage text with
    | some crash => exact .inr (.inl ⟨text, crash, rfl, crashes, step_crashed crashes⟩)
    | none =>
      exact .inr (.inr ⟨_, _, nofun, repl.moves_line terminal stage text, step_line crashes⟩)

section

variable {terminal stage repl} {entry : Entry} {after : Repl} {printed : Printed}
  (went : repl.step terminal stage entry = (.goesOn after, printed))

include went

theorem follow_cons_of_goesOn (rest : List Entry) :
    repl.follow terminal stage (entry :: rest) = after.follow terminal stage rest := by
  show (repl.step terminal stage entry).1.repl?.bind _ = _
  rw [went]
  rfl

theorem transcript_cons_of_goesOn (rest : List Entry) :
    repl.transcript terminal stage (entry :: rest) =
      (after.transcript terminal stage rest).after [printed] := by
  rw [transcript, went]

end

/-- Every entry in front of the end of the input is answered, and so is the end itself, unless there
is a crash. -/
theorem length_answers {entries : List Entry}
    (intact : (repl.transcript terminal stage entries).crash = none) :
    (repl.transcript terminal stage entries).answers.length =
      (entries.takeWhile (· != .endOfInput)).length + 1 := by
  induction entries generalizing repl with
  | nil => rfl
  | cons entry rest inductionHypothesis =>
    obtain ⟨rfl, ends⟩ | ⟨text, crash, rfl, -, crashed⟩ | ⟨after, printed, goesOn, -, went⟩ :=
      repl.step_cases terminal stage entry
    · rw [transcript, ends]
      rfl
    · rw [transcript, crashed] at intact
      cases intact
    · rw [transcript_cons_of_goesOn went] at intact ⊢
      rw [List.takeWhile_cons_of_pos (by simpa), List.length_cons,
        ← inductionHypothesis after intact]
      rfl

/-- A crash is that of a line, and every entry in front of it is answered. -/
theorem exists_crash {entries : List Entry} {crash : Crash}
    (crashed : (repl.transcript terminal stage entries).crash = some crash) :
    ∃ front text back left, entries = front ++ .line text :: back ∧
      repl.follow terminal stage front = some left ∧
      left.crash? terminal stage text = some crash ∧
      (repl.transcript terminal stage entries).answers.length = front.length := by
  induction entries generalizing repl with
  | nil => cases crashed
  | cons entry rest inductionHypothesis =>
    obtain ⟨-, ends⟩ | ⟨text, found, rfl, crashes, stopped⟩ | ⟨after, printed, -, -, went⟩ :=
      repl.step_cases terminal stage entry
    · rw [transcript, ends] at crashed
      cases crashed
    · rw [transcript, stopped] at crashed ⊢
      cases crashed
      exact ⟨[], text, rest, repl, rfl, rfl, crashes, rfl⟩
    · rw [transcript_cons_of_goesOn went] at crashed ⊢
      obtain ⟨front, text, back, left, rfl, leaves, crashes, answered⟩ :=
        inductionHypothesis after crashed
      refine ⟨entry :: front, text, back, left, rfl, ?_, crashes, ?_⟩
      · rw [follow_cons_of_goesOn went, leaves]
      · rw [List.length_cons, ← answered]
        rfl

/-- What sessions keep from entry to entry. -/
theorem follow_kept {entries : List Entry} {left : Repl}
    (leaves : repl.follow terminal stage entries = some left) :
    (repl.Sound → left.Sound) ∧ left.store.lone = repl.store.lone ∧
      (left.limit = repl.limit ∨ left.limit = raisedLimit repl.limit) := by
  induction entries generalizing repl with
  | nil =>
    cases leaves
    exact ⟨id, rfl, .inl rfl⟩
  | cons entry rest inductionHypothesis =>
    obtain ⟨-, stopped⟩ | ⟨_, _, -, -, stopped⟩ | ⟨after, printed, -, moves, went⟩ :=
      repl.step_cases terminal stage entry
    case inr.inr =>
      rw [follow_cons_of_goesOn went] at leaves
      obtain ⟨sound, lone, limit⟩ := inductionHypothesis after leaves
      refine ⟨fun before => sound (moves.sound before), lone.trans moves.lone, ?_⟩
      have raised := moves.limit
      unfold raisedLimit at limit raised ⊢
      omega
    all_goals
      have ended : (repl.step terminal stage entry).1.repl?.bind
          (fun after => after.follow terminal stage rest) = some left := leaves
      rw [stopped] at ended
      cases ended

/-- What is entered behind some entries is answered by the session that they leave. -/
theorem transcript_append {earlier : List Entry} (ongoing : Entry.endOfInput ∉ earlier)
    (intact : (repl.transcript terminal stage earlier).crash = none) :
    ∃ left answers, repl.follow terminal stage earlier = some left ∧
      answers.length = earlier.length ∧
      ∀ later, repl.transcript terminal stage (earlier ++ later) =
        (left.transcript terminal stage later).after answers := by
  induction earlier generalizing repl with
  | nil => exact ⟨repl, [], rfl, rfl, fun _ => rfl⟩
  | cons entry rest inductionHypothesis =>
    rw [List.mem_cons, not_or] at ongoing
    obtain ⟨rfl, -⟩ | ⟨_, _, rfl, -, stopped⟩ | ⟨after, printed, -, -, went⟩ :=
      repl.step_cases terminal stage entry
    · exact absurd rfl ongoing.1
    · rw [transcript, stopped] at intact
      cases intact
    · rw [transcript_cons_of_goesOn went] at intact
      obtain ⟨left, answers, leaves, sameLength, answered⟩ :=
        inductionHypothesis after ongoing.2 intact
      refine ⟨left, printed :: answers, ?_, by rw [List.length_cons, List.length_cons, sameLength],
        fun later => ?_⟩
      · rw [follow_cons_of_goesOn went, leaves]
      · rw [List.cons_append, transcript_cons_of_goesOn went, answered]
        rfl

/-- The reset is a command. -/
theorem command?_reset :
    repl.command? terminal "/reset" = some (repl.perform terminal "" .reset) := by
  have stripped : Text.strip "/reset" = "/reset" := by decide
  have slash : "/reset".startsWith "/" = true := by decide +kernel
  have parts : Text.firstWord "/reset" = ("/reset", "") := by decide
  have named : Command.ofName? "/reset" = some .reset := by decide
  simp only [command?, stripped, slash, parts, named, if_true]

theorem step_reset :
    repl.step terminal stage (.line "/reset") =
      (.goesOn (repl.perform terminal "" .reset).1, .line "Environment reset.") := by
  have kept : normalize "/reset" = "/reset" := by decide
  have visible : (Text.strip "/reset").isEmpty = false := by decide
  have intact : repl.crash? terminal stage "/reset" = none := by
    unfold crash?
    dsimp only
    rw [kept, command?_reset, visible]
    rfl
  have answered : repl.line terminal stage "/reset" = repl.perform terminal "" .reset := by
    unfold line
    dsimp only
    rw [kept, command?_reset, visible]
    rfl
  rw [step_line intact, answered]
  rfl

theorem transcript_reset (later : List Entry) :
    repl.transcript terminal stage (.line "/reset" :: later) =
      ((fresh repl.store.lone repl.setting repl.limit).transcript terminal stage later).after
        [.line "Environment reset."] := by
  rw [transcript_cons_of_goesOn (repl.step_reset terminal stage),
    (matches_fresh repl).transcript_eq terminal stage later]
  rfl

end

-- A run raises the limit for good: what ends a new session may be answered behind a reset.
example :
    let terminal : Terminal := ⟨"", fun _ _ => "", 0, some 4300⟩
    let repl := fresh (fun _ => false) none 9
    (repl.transcript terminal .value [.line "(((1)))"]).crash = some (.refused .depthExceeded) ∧
      (repl.transcript terminal .value [.line "1", .line "/reset", .line "(((1)))"]).crash =
        none := by
  decide +kernel

end Repl

end Scriptlet
