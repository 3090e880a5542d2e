/-
This file follows tidy values through one step of the evaluator. `Evaluator.endsWell_step` says
that a node ends well, with a tidy value in a tidy store, when the evaluations that it enters
do, and when the value whose length it asks for, if any, is bounded.

Whether a run asks for a length is a matter of the points that it visits. The step therefore
speaks of one store and of what is entered from there, and not of all tidy stores.
-/

import Scriptlet.Proofs.Tidy

namespace Scriptlet

/-! ### Computations that end in a tidy store -/

namespace Eval

variable {α β : Type} {store : Store}

/-- From this store the computation ends in a tidy one, and ends well. -/
def EndsWell (store : Store) (action : Eval α) (post : α → Prop) : Prop :=
  match action store with
  | .ok result after => after.Tidy ∧ post result
  | .error interrupt after => after.Tidy ∧ interrupt.Tidy

/-- From every tidy store the computation ends well. -/
def Tidies (action : Eval α) (post : α → Prop) : Prop :=
  ∀ store : Store, store.Tidy → EndsWell store action post

/-- All of some values are tidy. -/
def AllTidy (values : List Value) : Prop :=
  ∀ value ∈ values, value.Tidy

theorem EndsWell.of_ok {action : Eval α} {post : α → Prop} {result : α} {after : Store}
    (ended : EndsWell store action post) (ran : action store = .ok result after) :
    after.Tidy ∧ post result := by
  rwa [EndsWell, ran] at ended

theorem EndsWell.bind {action : Eval α} {continuation : α → Eval β} {middle : α → Prop}
    {post : β → Prop} (first : EndsWell store action middle)
    (rest : ∀ result after, action store = .ok result after → after.Tidy → middle result →
      EndsWell after (continuation result) post) :
    EndsWell store (action >>= continuation) post := by
  unfold EndsWell at first ⊢
  rw [bind_run]
  cases run : action store with
  | ok result after =>
    rw [run] at first
    exact rest result after run first.1 first.2
  | error interrupt after =>
    rw [run] at first
    exact first

/-- What is known of a computed result is known of the result. -/
theorem EndsWell.of_map {action : Eval α} {image : α → β} {post : β → Prop}
    (ended : EndsWell store (image <$> action) post) :
    EndsWell store action fun result => post (image result) := by
  change match EStateM.map image action store with
    | .ok result after => after.Tidy ∧ post result
    | .error interrupt after => after.Tidy ∧ interrupt.Tidy at ended
  unfold EndsWell
  rw [EStateM.map] at ended
  cases run : action store with
  | ok result after =>
    rw [run] at ended
    exact ended
  | error interrupt after =>
    rw [run] at ended
    exact ended

theorem EndsWell.locating {action : Eval α} {post : α → Prop} (ended : EndsWell store action post)
    (node : Node) : EndsWell store (locating node action) post := by
  unfold EndsWell Eval.locating at *
  cases run : action store with
  | ok result after =>
    rw [run] at ended
    exact ended
  | error interrupt after =>
    rw [run] at ended
    cases interrupt with
    | fault cause place => cases place <;> exact ended
    | returned value => exact ended
    | depthExceeded => exact ended

theorem EndsWell.catchReturn {action : Eval Value} (ended : EndsWell store action Value.Tidy) :
    EndsWell store (catchReturn action) Value.Tidy := by
  unfold EndsWell Eval.catchReturn at *
  cases run : action store with
  | ok result after =>
    rw [run] at ended
    exact ended
  | error interrupt after =>
    rw [run] at ended
    cases interrupt <;> exact ended

theorem Tidies.bind {action : Eval α} {continuation : α → Eval β} {middle : α → Prop}
    {post : β → Prop} (first : Tidies action middle)
    (rest : ∀ result, middle result → Tidies (continuation result) post) :
    Tidies (action >>= continuation) post :=
  fun store tidy => (first store tidy).bind fun result after _ afterTidy holds =>
    rest result holds after afterTidy

theorem tidies_pure {result : α} {post : α → Prop} (holds : post result) :
    Tidies (pure result) post :=
  fun _ tidy => ⟨tidy, holds⟩

theorem tidies_fail (cause : Fault) {post : α → Prop} : Tidies (fail cause) post :=
  fun _ tidy => ⟨tidy, trivial⟩

theorem tidies_ofExcept {rule : Except Fault α} {post : α → Prop}
    (holds : ∀ result, rule = .ok result → post result) : Tidies (ofExcept rule) post := by
  cases rule with
  | ok result => exact tidies_pure (holds result rfl)
  | error cause => exact tidies_fail cause

theorem tidies_encode (value : Value) : Tidies (encode value) fun _ => True := by
  intro store tidy
  rw [EndsWell, encode_run]
  cases value.unencodable? store.lone <;> exact ⟨tidy, trivial⟩

theorem tidies_newArray {elements : List Value} (inner : AllTidy elements) :
    Tidies (newArray elements) Value.Tidy :=
  fun _ tidy => ⟨tidy, .array inner⟩

/-! ### Built-in functions -/

theorem tidies_elements (builtin : Builtin) {argument : Value} (argumentTidy : argument.Tidy) :
    Tidies (ofExcept (builtin.elements argument)) AllTidy := by
  refine tidies_ofExcept fun elements found => ?_
  unfold Builtin.elements at found
  split at found
  · cases found
    exact argumentTidy.elements
  · cases found

theorem tidies_presentElement {found : Option Value}
    (elementTidy : ∀ element ∈ found, element.Tidy) :
    Tidies (ofExcept (presentElement found)) Value.Tidy := by
  cases found with
  | none => exact tidies_fail _
  | some element => exact tidies_pure (elementTidy element rfl)

theorem tidies_removeAt {elements : List Value} (inner : AllTidy elements) (place : Value) :
    Tidies (ofExcept (removeAt elements place)) AllTidy := by
  refine tidies_ofExcept fun remaining removed => ?_
  unfold removeAt at removed
  split at removed
  · split at removed
    · cases removed
      exact fun element member => inner element (List.mem_of_mem_eraseIdx member)
    · cases removed
  · cases removed

/-- Only a length needs a bound: every other result is made of what the arguments hold. -/
theorem tidies_apply {builtin : Builtin} {arguments : List Value} (inner : AllTidy arguments)
    (sized : builtin = .len → ∀ argument, arguments = [argument] → argument.Sized) :
    Tidies (builtin.apply arguments) Value.Tidy := by
  unfold Builtin.apply
  split
  · next value =>
    exact (tidies_encode value).bind fun _ _ =>
      tidies_ofExcept fun result => (sized rfl value rfl).length
  · next array =>
    refine (tidies_elements _ (inner array List.mem_cons_self)).bind fun elements elementsTidy => ?_
    exact tidies_presentElement fun element member =>
      elementsTidy element (List.mem_of_head? member)
  · next array =>
    refine (tidies_elements _ (inner array List.mem_cons_self)).bind fun elements elementsTidy => ?_
    exact tidies_presentElement fun element member =>
      elementsTidy element (List.mem_of_getLast? member)
  · next array value =>
    refine (tidies_elements _ (inner array List.mem_cons_self)).bind
      fun elements elementsTidy => tidies_newArray ?_
    have added := inner value (List.mem_cons_of_mem _ List.mem_cons_self)
    exact List.forall_mem_append.mpr ⟨elementsTidy, List.forall_mem_singleton.mpr added⟩
  · next array place =>
    refine (tidies_elements _ (inner array List.mem_cons_self)).bind fun elements elementsTidy => ?_
    exact (tidies_removeAt elementsTidy place).bind fun _ => tidies_newArray
  · exact tidies_fail _

end Eval

/-! ### One step -/

namespace Evaluator

open Eval

variable {meaning called : Meaning} {scope : Nat} {node : Node} {store : Store}

theorem tidies_resolve (scope : Nat) (name : String) :
    Tidies (resolve scope name) Value.Tidy := by
  unfold resolve
  have seen : Tidies (get : Eval Store) Store.Tidy := fun _ tidy => ⟨tidy, tidy⟩
  refine seen.bind fun store tidy => ?_
  split
  · next value found => exact tidies_pure (tidy.get? found)
  · split
    · next builtin _ => exact tidies_pure (.builtin builtin)
    · exact tidies_fail _

theorem tidies_leafValue {leaf : Leaf} (leafTidy : (Node.leaf leaf).Tidy) (scope : Nat) :
    Tidies (leafValue scope leaf) Value.Tidy := by
  unfold leafValue
  split
  · next kind =>
    cases leafTidy with
    | leaf other => exact absurd (LeafKind.own.inj kind) other
    | integer decimal inRange =>
      simp only [Leaf.ofToken, decimal]
      exact tidies_pure (.atom inRange)
  · exact tidies_pure (.atom trivial)
  · exact tidies_pure (.atom trivial)
  · exact tidies_pure (.atom trivial)
  · exact tidies_resolve _ _
  · exact tidies_fail _

/-- Evaluating the node asks for the length of a value. -/
def Asks (meaning : Meaning) (scope : Nat) (node : Node) (store : Store) (argument : Value) :
    Prop :=
  ∃ after, Calls meaning scope node store (.builtin .len) [argument] after

/-- Every evaluation that a step enters with a tidy node in a tidy store ends well. -/
def EntersWell (meaning called : Meaning) (scope : Nat) (node : Node) (store : Store) : Prop :=
  ∀ (entry : Entry) (innerScope : Nat) (innerNode : Node) (innerStore : Store),
    Enters meaning called scope node store entry innerScope innerNode innerStore →
    innerNode.Tidy → innerStore.Tidy →
    EndsWell innerStore (entry.meaning meaning called innerScope innerNode) Value.Tidy

/-- Nodes that are evaluated one after the other have tidy values when each of them ends well
in the store that those before it leave. -/
theorem endsWell_values {nodes : List Node} (tidy : store.Tidy)
    (each : ∀ front inner back results middle, nodes = front ++ inner :: back →
      values meaning scope front store = .ok results middle → middle.Tidy →
      EndsWell middle (meaning scope inner) Value.Tidy) :
    EndsWell store (values meaning scope nodes) AllTidy := by
  induction nodes generalizing store with
  | nil => exact ⟨tidy, nofun⟩
  | cons first rest inductionHypothesis =>
    refine (each [] first rest [] store rfl rfl tidy).bind
      fun value middle ran middleTidy valueTidy => ?_
    refine (inductionHypothesis middleTidy ?_).bind fun others last _ lastTidy othersTidy => ?_
    · rintro front inner back results later rfl ranFront laterTidy
      exact each (first :: front) inner back _ later rfl (values_cons ran ranFront) laterTidy
    · exact ⟨lastTidy, List.forall_mem_cons.mpr ⟨valueTidy, othersTidy⟩⟩

/-- Of the values of statements only the last one is kept. -/
theorem endsWell_sequence {nodes : List Node}
    (ended : EndsWell store (values meaning scope nodes) AllTidy) :
    EndsWell store (sequence meaning scope .null nodes) Value.Tidy := by
  rw [sequence_eq_values]
  refine ended.bind fun results after _ afterTidy resultsTidy => ⟨afterTidy, ?_⟩
  rw [List.getLastD_eq_getLast?]
  exact Value.tidy_getD fun value member => resultsTidy value (List.mem_of_getLast? member)

/-- Likewise the pairs of a hash, whose keys and values are evaluated in turn, make tidy entries. -/
theorem endsWell_hashEntries {pairs : List Node} {entries : List (HashEntry Value)}
    (tidy : store.Tidy) (filed : HashTable.Filed entries)
    (entriesTidy : ∀ entry ∈ entries, entry.value.Tidy)
    (each : ∀ front pair back keyNode valueNode found middle, pairs = front ++ pair :: back →
      pair.operands = [keyNode, valueNode] →
      hashEntries meaning scope entries front store = .ok found middle → middle.Tidy →
      EndsWell middle (meaning scope keyNode) Value.Tidy ∧
        ∀ key atom later, meaning scope keyNode middle = .ok key later → key.atom? = some atom →
          later.Tidy → EndsWell later (meaning scope valueNode) Value.Tidy) :
    EndsWell store (hashEntries meaning scope entries pairs)
      fun found => HashTable.Filed found ∧ ∀ entry ∈ found, entry.value.Tidy := by
  induction pairs generalizing store entries with
  | nil => exact ⟨tidy, filed, entriesTidy⟩
  | cons first rest inductionHypothesis =>
    unfold hashEntries
    split
    · next keyNode valueNode parts =>
      obtain ⟨keyEnds, valueEnds⟩ :=
        each [] first rest keyNode valueNode entries store rfl parts rfl tidy
      refine keyEnds.bind fun key middle ranKey middleTidy keyTidy => ?_
      cases hashable : key.atom? with
      | none => exact ⟨middleTidy, trivial⟩
      | some atom =>
        refine (valueEnds key atom middle ranKey hashable middleTidy).bind
          fun value later ranValue laterTidy valueTidy => ?_
        have inRange : atom.InRange := by
          cases keyTidy <;> cases hashable
          assumption
        refine (tidies_encode key later laterTidy).bind fun _ _ ranEncode _ _ => ?_
        obtain ⟨encoded, rfl⟩ := encode_eq_ok_iff.mp ranEncode
        refine inductionHypothesis laterTidy (filed.insert inRange value) ?_ ?_
        · intro entry member
          rcases HashTable.eq_or_mem_of_mem_put member with rfl | kept
          · exact valueTidy
          · exact entriesTidy entry kept
        · rintro front pair back pairKey pairValue found last rfl pairParts ran lastTidy
          exact each (first :: front) pair back pairKey pairValue found last rfl pairParts
            (hashEntries_cons parts ranKey hashable ranValue encoded ran) lastTidy
    · exact ⟨tidy, trivial⟩

theorem tidies_element {container : Value} (tidy : container.Tidy) (index : Value) :
    Tidies (element container index) Value.Tidy := by
  unfold element
  split
  · exact (tidies_encode index).bind fun _ _ => tidies_ofExcept fun _ => tidy.elementAt
  · exact tidies_ofExcept fun _ => tidy.elementAt

theorem endsWell_call {callee : Value} {arguments : List Value} (tidy : store.Tidy)
    (argumentsTidy : AllTidy arguments)
    (body : ∀ tag parameters body closure, callee = .function tag parameters body closure →
      arguments.length = parameters.length →
      EndsWell (store.entered closure parameters arguments)
        (sequence called store.scopes.size .null body.operands) Value.Tidy)
    (sized : callee = .builtin .len → ∀ argument, arguments = [argument] → argument.Sized) :
    EndsWell store (call called callee arguments) Value.Tidy := by
  cases callee with
  | function tag parameters functionBody closure =>
    by_cases counted : arguments.length = parameters.length
    · unfold EndsWell
      rw [call_function counted]
      exact (body tag parameters functionBody closure rfl counted).catchReturn
    · rw [call, checkCount, if_neg counted]
      exact ⟨tidy, trivial⟩
  | builtin which =>
    have checked : Tidies (checkCount which.arity arguments) fun _ => True := by
      unfold checkCount
      split
      · exact tidies_pure trivial
      · exact tidies_fail _
    have applied := tidies_apply argumentsTidy fun same => sized (same ▸ rfl)
    exact checked.bind (fun _ _ => applied) store tidy
  | atom | null | array | hash | error => exact ⟨tidy, trivial⟩

section

variable (nodeTidy : node.Tidy) (enters : EntersWell meaning called scope node store)

include nodeTidy enters

/-- An operand ends well in the store that the operands before it leave. -/
theorem endsWell_premise {front back : List Node} {inner : Node} {results : List Value}
    {middle : Store} (listed : premises node = front ++ inner :: back)
    (ran : values meaning scope front store = .ok results middle) (middleTidy : middle.Tidy) :
    EndsWell middle (meaning scope inner) Value.Tidy := by
  refine enters .inner scope inner middle (.premise listed ran) ?_ middleTidy
  have member := List.mem_iff_append.mpr ⟨_, _, listed⟩
  exact nodeTidy.children inner (mem_children_of_mem_premises member)

/-- The first operands, however many, have tidy values. -/
theorem endsWell_premises {front back : List Node} (listed : premises node = front ++ back)
    (tidy : store.Tidy) : EndsWell store (values meaning scope front) AllTidy := by
  refine endsWell_values tidy ?_
  rintro before inner others results middle rfl ran middleTidy
  rw [List.append_assoc] at listed
  exact endsWell_premise nodeTidy enters listed ran middleTidy

theorem endsWell_first {first : Node} {rest : List Node} (listed : premises node = first :: rest)
    (tidy : store.Tidy) : EndsWell store (meaning scope first) Value.Tidy :=
  endsWell_premise nodeTidy enters (show premises node = [] ++ first :: rest from listed) rfl tidy

theorem endsWell_second {first second : Node} {rest : List Node} {value : Value} {middle : Store}
    (listed : premises node = first :: second :: rest)
    (ran : meaning scope first store = .ok value middle) (middleTidy : middle.Tidy) :
    EndsWell middle (meaning scope second) Value.Tidy :=
  endsWell_premise nodeTidy enters (show premises node = [first] ++ second :: rest from listed)
    (values_cons ran rfl) middleTidy

end

theorem endsWell_conditional {word condition consequence : Node} {alternative : List Node}
    (nodeTidy : (Node.tree .conditional (word :: condition :: consequence :: alternative)).Tidy)
    (tidy : store.Tidy) (enters : EntersWell meaning called scope
      (.tree .conditional (word :: condition :: consequence :: alternative)) store) :
    EndsWell store (treeValue meaning called scope .conditional
      (word :: condition :: consequence :: alternative)) Value.Tidy := by
  refine (endsWell_first nodeTidy enters rfl tidy).bind fun decided middle ran middleTidy _ => ?_
  have inner := nodeTidy.children
  simp only [Node.children, List.forall_mem_cons] at inner
  have branch {chosen : Node}
      (selected : (if decided.isTruthy then some consequence else alternative.head?) = some chosen)
      (chosenTidy : chosen.Tidy) : EndsWell middle (meaning scope chosen) Value.Tidy :=
    enters .inner scope chosen middle (.branch rfl ran selected) chosenTidy middleTidy
  split
  · next truthy => exact branch (if_pos truthy) inner.2.2.1
  · next falsy =>
    split
    · exact ⟨middleTidy, .null⟩
    · next block others => exact branch (if_neg falsy) (inner.2.2.2 block List.mem_cons_self)

/-- The first pairs of a hash, however many, make tidy entries. -/
theorem endsWell_pairs {children front back : List Node}
    (nodeTidy : (Node.tree .hash children).Tidy) (tidy : store.Tidy)
    (enters : EntersWell meaning called scope (.tree .hash children) store)
    (listed : children.tail = front ++ back) :
    EndsWell store (hashEntries meaning scope [] front)
      fun found => HashTable.Filed found ∧ ∀ entry ∈ found, entry.value.Tidy := by
  refine endsWell_hashEntries tidy HashTable.filed_nil nofun ?_
  rintro before pair others keyNode valueNode found middle rfl parts ran middleTidy
  rw [List.append_assoc] at listed
  obtain ⟨keyTidy, valueTidy⟩ := nodeTidy.pair listed parts
  refine ⟨enters .inner scope keyNode middle (.key rfl listed parts ran) keyTidy middleTidy,
    fun key atom later ranKey hashable laterTidy => ?_⟩
  exact enters .inner scope valueNode later (.value rfl listed parts ran ranKey hashable)
    valueTidy laterTidy

/-- The first statements of a called function, however many, have tidy values. -/
theorem endsWell_body {body : Node} {front back : List Node} {tag closure : Nat}
    {parameters : List String} {arguments : List Value} {middle : Store}
    (enters : EntersWell meaning called scope node store)
    (calls : Calls meaning scope node store (.function tag parameters body closure) arguments
      middle)
    (tidy : middle.Tidy) (calleeTidy : (Value.function tag parameters body closure).Tidy)
    (argumentsTidy : AllTidy arguments) (counted : arguments.length = parameters.length)
    (listed : body.operands = front ++ back) :
    EndsWell (middle.entered closure parameters arguments)
      (values called middle.scopes.size front) AllTidy := by
  refine endsWell_values (tidy.entered argumentsTidy closure parameters) ?_
  rintro before inner others results last rfl ran lastTidy
  rw [List.append_assoc] at listed
  refine enters .body _ inner last (.statement calls counted listed ran) ?_ lastTidy
  cases calleeTidy with
  | function _ bodyTidy =>
    exact bodyTidy.operands inner (List.mem_iff_append.mpr ⟨_, _, listed⟩)

theorem endsWell_callTree {opening calleeNode : Node} {argumentNodes : List Node}
    (nodeTidy : (Node.tree .call (opening :: calleeNode :: argumentNodes)).Tidy)
    (tidy : store.Tidy) (enters : EntersWell meaning called scope
      (.tree .call (opening :: calleeNode :: argumentNodes)) store)
    (sized : ∀ argument, Asks meaning scope (.tree .call (opening :: calleeNode :: argumentNodes))
      store argument → argument.Sized) :
    EndsWell store (treeValue meaning called scope .call (opening :: calleeNode :: argumentNodes))
      Value.Tidy := by
  refine (endsWell_first nodeTidy enters rfl tidy).bind
    fun callee middle ranCallee middleTidy calleeTidy => ?_
  refine EndsWell.bind (endsWell_values middleTidy ?_)
    fun arguments later ranArguments laterTidy argumentsTidy => ?_
  · rintro front inner back results last rfl ran lastTidy
    exact endsWell_premise nodeTidy enters
      (show premises _ = (calleeNode :: front) ++ inner :: back from rfl)
      (values_cons ranCallee ran) lastTidy
  · have ran := values_cons ranCallee ranArguments
    refine endsWell_call laterTidy argumentsTidy ?_ ?_
    · rintro tag parameters body closure rfl counted
      exact endsWell_sequence (endsWell_body enters ⟨_, _, rfl, ran⟩ laterTidy calleeTidy
        argumentsTidy counted (List.append_nil _).symm)
    · rintro rfl argument rfl
      exact sized argument ⟨later, _, _, rfl, ran⟩

theorem endsWell_treeValue {label : Label} {children : List Node}
    (nodeTidy : (Node.tree label children).Tidy) (tidy : store.Tidy)
    (enters : EntersWell meaning called scope (.tree label children) store)
    (sized : ∀ argument, Asks meaning scope (.tree label children) store argument →
      argument.Sized) :
    EndsWell store (treeValue meaning called scope label children) Value.Tidy := by
  unfold treeValue
  split
  · have ended := endsWell_premises nodeTidy enters (List.append_nil _).symm tidy
    exact (endsWell_sequence ended).catchReturn
  · exact endsWell_first nodeTidy enters rfl tidy
  · exact endsWell_sequence (endsWell_premises nodeTidy enters (List.append_nil _).symm tidy)
  · next word name valueNode =>
    split
    · exact ⟨tidy, trivial⟩
    · next target found =>
      have listed : premises (.tree .letStatement [word, name, valueNode]) = [valueNode] := by
        simp [premises, found]
      refine (endsWell_first nodeTidy enters listed tidy).bind
        fun value after _ afterTidy valueTidy => ?_
      exact ⟨afterTidy.set valueTidy scope target, .null⟩
  · refine (endsWell_first nodeTidy enters rfl tidy).bind
      fun value after _ afterTidy valueTidy => ?_
    exact ⟨afterTidy, valueTidy⟩
  · exact endsWell_conditional nodeTidy tidy enters
  · refine (endsWell_first nodeTidy enters rfl tidy).bind fun operand after _ afterTidy _ => ?_
    exact tidies_ofExcept (fun _ => Value.tidy_unary) after afterTidy
  · refine (endsWell_first nodeTidy enters rfl tidy).bind fun left middle ran middleTidy _ => ?_
    refine (endsWell_second nodeTidy enters rfl ran middleTidy).bind
      fun right after _ afterTidy _ => ?_
    exact tidies_ofExcept (fun _ => Value.tidy_binary) after afterTidy
  · next word parameters body =>
    have inner := nodeTidy.children
    simp only [Node.children, List.forall_mem_cons] at inner
    refine ⟨tidy, .function ?_ inner.2.2.1⟩
    exact List.forall_mem_map.mpr nodeTidy.parameters
  · exact endsWell_callTree nodeTidy tidy enters sized
  · refine (endsWell_premises nodeTidy enters (List.append_nil _).symm tidy).bind
      fun elements after _ afterTidy elementsTidy => ?_
    exact ⟨afterTidy, .array elementsTidy⟩
  · refine (endsWell_first nodeTidy enters rfl tidy).bind
      fun container middle ran middleTidy containerTidy => ?_
    refine (endsWell_second nodeTidy enters rfl ran middleTidy).bind
      fun index after _ afterTidy _ => ?_
    exact tidies_element containerTidy index after afterTidy
  · refine (endsWell_pairs nodeTidy tidy enters (List.append_nil _).symm).bind
      fun entries after _ afterTidy found => ?_
    exact ⟨afterTidy, .hash found.1 found.2⟩
  all_goals exact ⟨tidy, trivial⟩

/-- A node ends well when the evaluations that it enters do and when the value whose length it
asks for, if any, is bounded. -/
theorem endsWell_step (nodeTidy : node.Tidy) (tidy : store.Tidy)
    (enters : EntersWell meaning called scope node store)
    (sized : ∀ argument, Asks meaning scope node store argument → argument.Sized) :
    EndsWell store (step meaning called scope node) Value.Tidy := by
  refine EndsWell.locating ?_ node
  cases node with
  | hole => cases nodeTidy
  | leaf leaf => exact tidies_leafValue nodeTidy scope store tidy
  | tree label children => exact endsWell_treeValue nodeTidy tidy enters sized

end Evaluator

end Scriptlet
