/-
This file proves that programs which were read without errors never go wrong, but for texts that
have no UTF-8 form. Whatever was run before on the same store, a run ends with a value, at the
depth limit, or with a fault of a kind that the language documents for its users; or it has
no answer at all, because it measured, filed or looked up a text with a lone surrogate in it.
The faults of trees that were put together by hand do not occur. Nothing catches a fault on its
way out, so they do not occur anywhere inside the run either.

`Evaluator.safeMeaning_step` is the step: when the nodes nested in a node are evaluated
safely, and so are the bodies of the functions it calls, the node is. The rest is
induction on the frames that are left.
-/

import Scriptlet.Proofs.Frame
import Scriptlet.Proofs.Invariant
import Scriptlet.Proofs.Soundness

namespace Scriptlet

open Grammar

/-! ### Evaluation -/

namespace Evaluator

open Eval

variable {least scope : Nat} {meaning called : Meaning}

/-- Well-shaped nodes can be evaluated in a scope that exists. -/
def SafeMeaning (meaning : Meaning) : Prop :=
  ∀ (least scope : Nat) (role : Node.Role) (node : Node), scope < least → node.Shaped role →
    role = .expression ∨ role = .block ∨ role = .statement →
    Safe least (meaning scope node) Value.Sound

theorem SafeMeaning.expression (safe : SafeMeaning meaning) {node : Node}
    (present : scope < least) (shaped : node.Shaped .expression) :
    Safe least (meaning scope node) Value.Sound :=
  safe least scope _ node present shaped (.inl rfl)

theorem SafeMeaning.block (safe : SafeMeaning meaning) {node : Node} (present : scope < least)
    (shaped : node.Shaped .block) : Safe least (meaning scope node) Value.Sound :=
  safe least scope _ node present shaped (.inr (.inl rfl))

theorem SafeMeaning.statement (safe : SafeMeaning meaning) {node : Node}
    (present : scope < least) (shaped : node.Shaped .statement) :
    Safe least (meaning scope node) Value.Sound :=
  safe least scope _ node present shaped (.inr (.inr rfl))

theorem SafeMeaning.evaluated (safe : SafeMeaning meaning) {node : Node}
    (present : scope < least) (evaluated : node.Evaluated) :
    Safe least (meaning scope node) Value.Sound := by
  obtain ⟨role, shaped, among⟩ := evaluated
  exact safe least scope role node present shaped among

theorem safe_resolve (name : String) : Safe least (resolve scope name) Value.Sound := by
  unfold resolve
  refine safe_get.bind fun size store grown seen => ?_
  obtain ⟨sound, rfl⟩ := seen
  split
  · next value found => exact safe_pure fun _ more => (sound.get? found).mono more
  · split
    · next builtin _ => exact safe_pure fun _ _ => .builtin builtin
    · exact safe_fail trivial

theorem safe_bindName {name : String} {value : Value} (valueSound : value.Sound least) :
    Safe least (bindName scope name value) fun _ _ => True := by
  intro store sound enough
  refine ⟨sound.set (valueSound.mono enough), ?_, trivial⟩
  rw [Store.size_scopes_set]
  exact enough

theorem safe_bindAll {names : List String} {values : List Value}
    (valuesSound : AllSound least values) :
    Safe least (bindAll scope names values) fun _ _ => True := by
  intro store sound enough
  have bound : ∀ binding ∈ names.zip values, binding.2.Sound store.scopes.size :=
    fun binding member => (valuesSound binding.2 (List.of_mem_zip member).2).mono enough
  obtain ⟨afterSound, size⟩ := sound.setAll bound
  refine ⟨afterSound, ?_, trivial⟩
  rw [size]
  exact enough

theorem safe_openScope {closure : Nat} (present : closure < least) :
    Safe least (modifyGet fun store => store.openScope (some closure))
      fun size opened => opened < size := by
  intro store sound enough
  refine ⟨sound.openScope ?_, ?_, ?_⟩
  · intro outer member
    rw [← Option.some.inj member]
    exact Nat.lt_of_lt_of_le present enough
  · show least ≤ (store.scopes.push _).size
    rw [Array.size_push]
    exact Nat.le_succ_of_le enough
  · show store.scopes.size < (store.scopes.push _).size
    rw [Array.size_push]
    exact Nat.lt_succ_self _

theorem safe_checkCount (expected : Nat) (arguments : List Value) :
    Safe least (checkCount expected arguments) fun _ _ => True := by
  unfold checkCount
  split
  · exact safe_pure fun _ _ => trivial
  · exact safe_fail trivial

theorem safe_sequence (safe : SafeMeaning meaning) (present : scope < least) {last : Value}
    (lastSound : last.Sound least) {statements : List Node}
    (shaped : ∀ statement ∈ statements, statement.Shaped .statement) :
    Safe least (sequence meaning scope last statements) Value.Sound := by
  induction statements generalizing least last with
  | nil => exact safe_pure fun size grown => lastSound.mono grown
  | cons first rest inductionHypothesis =>
    refine (safe.statement present (shaped first List.mem_cons_self)).bind
      fun size value grown valueSound => ?_
    exact inductionHypothesis (Nat.lt_of_lt_of_le present grown) valueSound
      fun statement member => shaped statement (List.mem_cons_of_mem _ member)

theorem safe_values (safe : SafeMeaning meaning) (present : scope < least) {nodes : List Node}
    (evaluated : ∀ node ∈ nodes, node.Evaluated) :
    Safe least (values meaning scope nodes) AllSound := by
  induction nodes generalizing least with
  | nil => exact safe_pure fun _ _ => nofun
  | cons first rest inductionHypothesis =>
    refine (safe.evaluated present (evaluated first List.mem_cons_self)).bind
      fun size value grown valueSound => ?_
    refine (inductionHypothesis (Nat.lt_of_lt_of_le present grown)
      fun node member => evaluated node (List.mem_cons_of_mem _ member)).bind
      fun more others later othersSound => ?_
    exact safe_pure fun final latest => List.forall_mem_cons.mpr
      ⟨valueSound.mono (Nat.le_trans later latest), othersSound.mono latest⟩

theorem safe_hashEntries (safe : SafeMeaning meaning) (present : scope < least)
    {entries : List (HashEntry Value)} (sound : ∀ entry ∈ entries, entry.value.Sound least)
    {pairs : List Node} (shaped : ∀ pair ∈ pairs, pair.Shaped .pair) :
    Safe least (hashEntries meaning scope entries pairs)
      fun size found => ∀ entry ∈ found, entry.value.Sound size := by
  induction pairs generalizing least entries with
  | nil => exact safe_pure fun size grown entry member => (sound entry member).mono grown
  | cons first rest inductionHypothesis =>
    have restShaped : ∀ pair ∈ rest, pair.Shaped .pair :=
      fun pair member => shaped pair (List.mem_cons_of_mem _ member)
    cases shaped first List.mem_cons_self with
    | pair keyShaped valueShaped =>
      refine (safe.expression present keyShaped).bind fun size key grown keySound => ?_
      cases key.atom? with
      | none => exact safe_fail trivial
      | some atom =>
        have still := Nat.lt_of_lt_of_le present grown
        refine (safe.expression still valueShaped).bind fun more value later valueSound => ?_
        refine (safe_encode key).bind fun most _ latest _ => ?_
        refine inductionHypothesis (Nat.lt_of_lt_of_le still (Nat.le_trans later latest)) ?_
          restShaped
        intro entry member
        rcases HashTable.eq_or_mem_of_mem_put member with rfl | kept
        · exact valueSound.mono latest
        · exact (sound entry kept).mono (Nat.le_trans grown (Nat.le_trans later latest))

theorem safe_element {container : Value} (sound : container.Sound least) (index : Value) :
    Safe least (element container index) Value.Sound := by
  have looked {fewer : Nat} (grown : least ≤ fewer) :
      Safe fewer (.ofExcept (container.elementAt index)) Value.Sound :=
    safe_ofExcept (fun _ found _ later => Value.elementAt_ok
      (sound.mono (Nat.le_trans grown later)) found) fun _ => Value.elementAt_error
  unfold element
  split
  · exact (safe_encode index).bind fun _ _ grown _ => looked grown
  · exact looked (Nat.le_refl _)

/-- A call runs the body of the function in a scope that lies inside the scope in which the
function was created. -/
theorem safe_call (safe : SafeMeaning called) {callee : Value} (calleeSound : callee.Sound least)
    {arguments : List Value} (sound : AllSound least arguments) :
    Safe least (call called callee arguments) Value.Sound := by
  cases calleeSound with
  | function shaped present =>
    refine (safe_checkCount _ _).bind fun size _ grown _ => ?_
    refine (safe_openScope (Nat.lt_of_lt_of_le present grown)).bind
      fun more opened later openedPresent => ?_
    refine (safe_bindAll (sound.mono (Nat.le_trans grown later))).bind
      fun final _ latest _ => ?_
    exact (safe_sequence safe (Nat.lt_of_lt_of_le openedPresent latest) .null
      shaped.operands_of_block).catchReturn
  | builtin which =>
    refine (safe_checkCount _ _).bind fun size _ grown _ => ?_
    exact which.safe_apply (sound.mono grown)
  | atom | null | array | hash => exact safe_fail trivial

theorem safe_treeValue (safe : SafeMeaning meaning) (safeCalled : SafeMeaning called)
    {label : Label} {children : List Node} {role : Node.Role} (present : scope < least)
    (shaped : (Node.tree label children).Shaped role)
    (evaluated : role = .expression ∨ role = .block ∨ role = .statement) :
    Safe least (treeValue meaning called scope label children) Value.Sound := by
  cases shaped with
  | unary known inner =>
    refine (safe.expression present inner).bind fun size operand grown operandSound => ?_
    refine safe_ofExcept ?_ ?_
    · intro value applied more later
      obtain ⟨content, rfl⟩ := UnaryOperator.apply_ok applied
      exact .atom content
    · intro cause failed
      refine UnaryOperator.apply_error ?_ failed
      rcases known with text | text
      · exact .inl (congrArg UnaryOperator.ofText text)
      · exact .inr (congrArg UnaryOperator.ofText text)
  | binary known leftShaped rightShaped =>
    refine (safe.expression present leftShaped).bind fun size left grown leftSound => ?_
    refine (safe.expression (Nat.lt_of_lt_of_le present grown) rightShaped).bind
      fun more right later rightSound => ?_
    refine safe_ofExcept ?_ ?_
    · intro value applied final latest
      obtain ⟨content, rfl⟩ := BinaryOperator.apply_ok applied
      exact .atom content
    · intro cause failed
      exact BinaryOperator.apply_error (BinaryOperator.ofText_mem_all _ known) failed
  | call calleeShaped inner =>
    refine (safe.expression present calleeShaped).bind fun size callee grown calleeSound => ?_
    refine (safe_values safe (Nat.lt_of_lt_of_le present grown)
      fun node member => (inner node member).evaluated_expression).bind
      fun more arguments later argumentsSound => ?_
    exact safe_call safeCalled (calleeSound.mono later) argumentsSound
  | index leftShaped inner =>
    refine (safe.expression present leftShaped).bind fun size container grown containerSound => ?_
    refine (safe.expression (Nat.lt_of_lt_of_le present grown) inner).bind
      fun more index later indexSound => ?_
    exact safe_element (containerSound.mono later) index
  | array inner =>
    have evaluated := fun node member => (inner node member).evaluated_expression
    exact (safe_values safe present evaluated).bind fun size elements grown sound =>
      safe_newArray sound
  | hash inner =>
    have noEntries : ∀ entry ∈ ([] : List (HashEntry Value)), entry.value.Sound least := nofun
    refine (safe_hashEntries safe present noEntries inner).bind
      fun size entries grown sound => ?_
    refine safe_freshTag.bind fun more tag later _ => ?_
    exact safe_pure fun final latest => .hash fun entry member =>
      (sound entry member).mono (Nat.le_trans later latest)
  | @conditional _ _ _ alternative conditionShaped blockShaped otherShaped =>
    refine (safe.expression present conditionShaped).bind fun size decided grown _ => ?_
    have still := Nat.lt_of_lt_of_le present grown
    split
    · exact safe.block still blockShaped
    · cases alternative with
      | nil => exact safe_pure fun _ _ => .null
      | cons block others => exact safe.block still (otherShaped block List.mem_cons_self)
  | function parametersShaped bodyShaped =>
    refine safe_freshTag.bind fun size tag grown _ => ?_
    exact safe_pure fun more later => .function bodyShaped
      (Nat.lt_of_lt_of_le present (Nat.le_trans grown later))
  | block inner => exact safe_sequence safe present .null inner
  | @letStatement _ name _ nameKind inner =>
    have identifier : (Node.ofToken name).identifier? = some name.text := by
      simp [Node.ofToken, Leaf.ofToken, nameKind, Node.identifier?]
    rw [treeValue, identifier]
    refine (safe.expression present inner).bind fun size value grown valueSound => ?_
    refine (safe_bindName valueSound).bind fun more _ later _ => ?_
    exact safe_pure fun _ _ => .null
  | returnStatement inner =>
    refine (safe.expression present inner).bind fun size value grown valueSound => ?_
    exact fun store sound enough => ⟨sound, enough, valueSound.mono enough⟩
  | expressionStatement inner => exact safe.expression present inner
  | parameters | pair => simp at evaluated

theorem safe_leafValue {leaf : Leaf} {role : Node.Role}
    (shaped : (Node.leaf leaf).Shaped role)
    (evaluated : role = .expression ∨ role = .block ∨ role = .statement) :
    Safe least (leafValue scope leaf) Value.Sound := by
  cases shaped with
  | @leaf token member =>
    simp only [plainLeaves, List.mem_cons, List.not_mem_nil, or_false] at member
    rw [leafValue]
    rcases member with kind | kind | kind | kind
    · simp only [Leaf.ofToken, kind]
      exact safe_resolve _
    all_goals
      simp only [Leaf.ofToken, kind]
      exact safe_pure fun _ _ => .atom _
  | @integer token value kind decimal =>
    simp only [leafValue, Leaf.ofToken, kind, decimal]
    exact safe_pure fun _ _ => .atom _
  | name => simp at evaluated

theorem safeMeaning_step (safe : SafeMeaning meaning) (safeCalled : SafeMeaning called) :
    SafeMeaning (step meaning called) := by
  intro least scope role node present shaped evaluated
  refine Safe.locating ?_ node
  cases node with
  | hole => cases shaped
  | leaf leaf => exact safe_leafValue shaped evaluated
  | tree label children => exact safe_treeValue safe safeCalled present shaped evaluated

/-- Evaluation is safe, whatever the number of frames. -/
theorem safeMeaning_eval (frames : Nat) : SafeMeaning (eval frames) :=
  eval_induction (P := SafeMeaning)
    (fun _ safe least scope role node => safe node least scope role node)
    (fun _ _ _ _ _ _ _ _ sound enough => ⟨sound, enough, trivial⟩) safeMeaning_step frames

end Evaluator

/-! ### A `return` does not leave a call -/

namespace Eval

variable {α β : Type}

/-- The computation does not end with a `return` on its way out. -/
def NeverReturns (action : Eval α) : Prop :=
  ∀ (store : Store) (value : Value) (after : Store), action store ≠ .error (.returned value) after

theorem NeverReturns.bind {action : Eval α} {continuation : α → Eval β}
    (first : NeverReturns action) (rest : ∀ result, NeverReturns (continuation result)) :
    NeverReturns (action >>= continuation) := by
  intro store value after
  show EStateM.bind action continuation store ≠ _
  rw [EStateM.bind]
  cases run : action store with
  | ok result middle => exact rest result middle value after
  | error interrupt middle =>
    intro ended
    cases ended
    exact first store value after run

theorem neverReturns_ofExcept (rule : Except Fault α) : NeverReturns (ofExcept rule) := by
  cases rule <;> exact nofun

theorem neverReturns_encode (value : Value) : NeverReturns (encode value) := by
  intro store returned after
  rw [encode_run]
  split <;> exact nofun

theorem neverReturns_newArray (elements : List Value) : NeverReturns (newArray elements) :=
  nofun

theorem neverReturns_catchReturn (action : Eval Value) : NeverReturns (catchReturn action) := by
  intro store value after ended
  rw [catchReturn] at ended
  split at ended
  · cases ended
  · next unreturned => exact unreturned value after ended

theorem NeverReturns.locating {action : Eval α} (inner : NeverReturns action) (node : Node) :
    NeverReturns (locating node action) := by
  intro store value after ended
  rw [Eval.locating] at ended
  split at ended
  · cases ended
  · exact inner store value after ended

end Eval

namespace Evaluator

open Eval

theorem neverReturns_checkCount (expected : Nat) (arguments : List Value) :
    NeverReturns (checkCount expected arguments) := by
  unfold checkCount
  split <;> exact nofun

theorem neverReturns_apply (builtin : Builtin) (arguments : List Value) :
    NeverReturns (builtin.apply arguments) := by
  unfold Builtin.apply
  split
  · exact (neverReturns_encode _).bind fun _ => neverReturns_ofExcept _
  · exact (neverReturns_ofExcept _).bind fun _ => neverReturns_ofExcept _
  · exact (neverReturns_ofExcept _).bind fun _ => neverReturns_ofExcept _
  · exact (neverReturns_ofExcept _).bind fun _ => neverReturns_newArray _
  · exact (neverReturns_ofExcept _).bind fun _ =>
      (neverReturns_ofExcept _).bind fun _ => neverReturns_newArray _
  · exact nofun

/-- Whatever is called and whatever its body means, a call ends without a `return`. -/
theorem neverReturns_call (meaning : Meaning) (callee : Value) (arguments : List Value) :
    NeverReturns (call meaning callee arguments) := by
  unfold call
  split
  · refine (neverReturns_checkCount _ _).bind fun _ => ?_
    refine NeverReturns.bind nofun fun opened => ?_
    exact NeverReturns.bind nofun fun _ => neverReturns_catchReturn _
  · exact (neverReturns_checkCount _ _).bind fun _ => neverReturns_apply _ _
  · exact nofun

/-- A program ends without a `return` as well. -/
theorem neverReturns_program (frames scope : Nat) (statements : List Node) :
    NeverReturns (eval frames scope (.tree .program statements)) := by
  match frames with
  | frames + 5 => exact (neverReturns_catchReturn _).locating _
  | 0 | 1 | 2 | 3 | 4 => exact nofun

end Evaluator

/-! ### Sessions -/

/-- The accounts of failed runs that the language documents for its users. -/
def ErrorReport.Documented : ErrorReport → Prop
  | plain _ => False
  | fault cause _ => cause.UserLevel
  | depthExceeded => True

/-- A run ended with a sound value that is no account of a failure, or with an account of a
documented failure. -/
def Outcome.Documented (outcome : Outcome) (scopes : Nat) : Prop :=
  (outcome.value.isError = false ∧ outcome.value.Sound scopes) ∨
    ∃ tag report, outcome.value = .error tag report ∧ report.Documented

/-- A run has no answer: it met a text with a lone surrogate in a place that needs its UTF-8
form. -/
def Outcome.Escaped (outcome : Outcome) (lone : Char → Bool) : Prop :=
  ∃ text, outcome.escape? = some (.unencodable text) ∧ text.toList.any lone = true

theorem Outcome.Escaped.isError_eq {outcome : Outcome} {lone : Char → Bool}
    (escaped : outcome.Escaped lone) : outcome.value.isError = true := by
  obtain ⟨text, found, -⟩ := escaped
  unfold Outcome.escape? at found
  split at found
  · next failed => rw [failed, Value.isError]
  · cases found

theorem Value.Sound.isError_eq {scopes : Nat} {value : Value} (sound : value.Sound scopes) :
    value.isError = false := by
  cases sound <;> rfl

namespace Session

open Eval Evaluator

theorem safe_statements {meaning : Meaning} (safe : SafeMeaning meaning) {least scope : Nat}
    (present : scope < least) {last : Outcome} (lastSound : last.value.Sound least)
    {nodes : List Node} (shaped : ∀ node ∈ nodes, node.Shaped .statement) :
    Safe least (statements meaning scope last nodes)
      fun size outcome => outcome.value.Sound size := by
  induction nodes generalizing least last with
  | nil => exact safe_pure fun size grown => lastSound.mono grown
  | cons first rest inductionHypothesis =>
    refine (safe.statement present (shaped first List.mem_cons_self)).bind
      fun size value grown valueSound => ?_
    exact inductionHypothesis (Nat.lt_of_lt_of_le present grown) valueSound
      fun node member => shaped node (List.mem_cons_of_mem _ member)

/-- A run never changes which characters stand for lone surrogates. -/
theorem lone_runProgram (limit scope : Nat) (program : Node) (store : Store) :
    (runProgram limit scope program store).2.lone = store.lone := by
  have kept (last : Outcome) (nodes : List Node) :
      Keeps (fun before after => after.lone = before.lone)
        (statements (eval limit) scope last nodes) := by
    have : Store.Change fun before after => after.lone = before.lone :=
      ⟨fun _ => rfl, fun before after => after.trans before⟩
    induction nodes generalizing last with
    | nil => exact keeps_pure last
    | cons first rest inductionHypothesis =>
      exact ((framedMeaning_eval limit scope first).mono Store.Framed.lone).bind
        fun value => inductionHypothesis _
  have same := kept ⟨.null, none⟩ program.children store
  rw [Eval.after] at same
  rw [runProgram]
  split
  all_goals
    next run =>
    rw [run] at same
    exact same

/-- One run of a well-shaped program keeps the invariant. -/
theorem runProgram_documented {store : Store} (sound : store.Sound) {scope : Nat}
    (present : scope < store.scopes.size) (limit : Nat) {program : Node}
    (shaped : ∀ statement ∈ program.children, statement.Shaped .statement) :
    (runProgram limit scope program store).2.Sound ∧
      store.scopes.size ≤ (runProgram limit scope program store).2.scopes.size ∧
      ((runProgram limit scope program store).1.Documented
          (runProgram limit scope program store).2.scopes.size ∨
        (runProgram limit scope program store).1.Escaped store.lone) := by
  have started : (⟨.null, none⟩ : Outcome).value.Sound store.scopes.size := .null
  have ended := safe_statements (safeMeaning_eval limit) present started shaped store sound
    (Nat.le_refl _)
  rw [← lone_runProgram limit scope program store, runProgram]
  split
  · next outcome after run =>
    rw [run] at ended
    exact ⟨ended.1, ended.2.1, .inl (.inl ⟨ended.2.2.isError_eq, ended.2.2⟩)⟩
  · next value after run =>
    rw [run] at ended
    exact ⟨ended.1, ended.2.1, .inl (.inl ⟨Value.Sound.isError_eq ended.2.2, ended.2.2⟩)⟩
  · next cause place after run =>
    rw [run] at ended
    refine ⟨ended.1.freshTag, ended.2.1, ?_⟩
    rcases ended.2.2 with userLevel | unencodable
    · exact .inl (.inr ⟨_, _, rfl, userLevel⟩)
    · cases cause with
      | unencodable text => exact .inr ⟨text, rfl, unencodable⟩
      | _ => cases unencodable
  · next after run =>
    rw [run] at ended
    exact ⟨ended.1.freshTag, ended.2.1, .inl (.inr ⟨_, _, rfl, trivial⟩)⟩

/-- The scope and the store of an empty environment. -/
def fresh : Nat × Store :=
  Store.empty.openScope none

/-- The stores that a session can reach: it starts from an empty environment and runs texts
without syntax errors, each with any depth limit. In its texts any characters may stand for lone
surrogates. -/
inductive Reached : Store → Prop where
  | start (lone : Char → Bool) : Reached { fresh.2 with lone }
  | run {limit : Nat} {text : String} {store after : Store} {outcome : Outcome}
      (before : Reached store) (ran : runText limit fresh.1 text store = .ok (outcome, after)) :
      Reached after

theorem shaped_of_accepted {text : String} (accepted : (readSource text).errors = []) :
    ∀ statement ∈ (readSource text).program.children, statement.Shaped .statement := by
  obtain ⟨statements, tree, derived⟩ := program_of_readSource accepted
  rw [tree]
  exact derived.shaped (Cursor.spelled_of_mem_scan _)

theorem runText_of_accepted {text : String} (accepted : (readSource text).errors = [])
    (limit scope : Nat) (store : Store) :
    runText limit scope text store =
      .ok (runProgram limit scope (readSource text).program store) := by
  have parsed : parse text = .ok (readSource text).program := by
    rw [parse, accepted]
    rfl
  rw [runText, parsed]
  rfl

theorem runText_of_rejected {text : String} (rejected : (readSource text).errors ≠ [])
    (limit scope : Nat) (store : Store) :
    runText limit scope text store = .error (readSource text).errors := by
  have parsed : parse text = .error (readSource text).errors := by
    rw [parse, if_neg (by simpa using rejected)]
  rw [runText, parsed]
  rfl

theorem accepted_of_runText {text : String} {limit scope : Nat} {store : Store}
    {ended : Outcome × Store} (ran : runText limit scope text store = .ok ended) :
    (readSource text).errors = [] := by
  cases errors : (readSource text).errors with
  | nil => rfl
  | cons first rest =>
    have parsed : parse text = .error (first :: rest) := by
      simp [parse, errors]
    rw [runText, parsed] at ran
    cases ran

/-- Every store of a session is sound, and the scope of the environment stays in it. -/
theorem Reached.sound {store : Store} (reached : Reached store) :
    store.Sound ∧ fresh.1 < store.scopes.size := by
  induction reached with
  | start lone =>
    have empty : fresh.2.Sound := Store.sound_empty.openScope nofun
    exact ⟨empty, Nat.zero_lt_one⟩
  | @run limit text store after outcome before ran inductionHypothesis =>
    have accepted := accepted_of_runText ran
    obtain ⟨sound, present⟩ := inductionHypothesis
    have kept := runProgram_documented sound present limit (shaped_of_accepted accepted)
    rw [runText_of_accepted accepted] at ran
    rw [Except.ok.inj ran] at kept
    exact ⟨kept.1, Nat.lt_of_lt_of_le present kept.2.1⟩

/-- Where no character stands for a lone surrogate, every text can be encoded. -/
theorem not_escaped {outcome : Outcome} {lone : Char → Bool} (whole : ∀ c, lone c = false) :
    ¬ outcome.Escaped lone := by
  rintro ⟨text, -, held⟩
  obtain ⟨c, -, stands⟩ := List.any_eq_true.mp held
  rw [whole c] at stands
  cases stands

end Session

end Scriptlet
