/-
This file shows that corresponding runs stay in step. `Eval.Lockstep` says of two computations
that from matching stores they end alike: both with a result, or both cut short by the same
thing, in stores that match again. Where the correspondence allows it, one of them may instead
reach its depth limit.

`Evaluator.lockstepMeaning_step` is the step: when the nodes nested in two nodes that stand for
each other run in step, and so do the bodies of the functions that they call, the two nodes do.
The rest is induction on the frames that are left. The frames of the two runs need not be the
same as long as the side that has fewer of them is allowed to stop.
-/

import Scriptlet.Proofs.Correspondence
import Scriptlet.Session

namespace Scriptlet

variable {c : Correspondence}

/-! ### Computations in step -/

namespace Eval

variable {α β γ δ : Type} {post : α → β → Prop}

/-- Two computations ended alike, or one stopped at its depth limit and may do so. -/
inductive Agree (c : Correspondence) (post : α → β → Prop) :
    EStateM.Result Interrupt Store α → EStateM.Result Interrupt Store β → Prop where
  | ok {first : α} {second : β} {store other : Store} (same : store.Matches c other)
      (related : post first second) : Agree c post (.ok first store) (.ok second other)
  | error {first second : Interrupt} {store other : Store} (same : store.Matches c other)
      (related : first.Matches c second) : Agree c post (.error first store) (.error second other)
  | firstStops {store : Store} {ended : EStateM.Result Interrupt Store β} (may : c.firstMayStop) :
      Agree c post (.error .depthExceeded store) ended
  | secondStops {store : Store} {ended : EStateM.Result Interrupt Store α}
      (may : c.secondMayStop) : Agree c post ended (.error .depthExceeded store)

/-- From matching stores the two computations end alike. -/
def Lockstep (c : Correspondence) (first : Eval α) (second : Eval β) (post : α → β → Prop) :
    Prop :=
  ∀ store other : Store, store.Matches c other → Agree c post (first store) (second other)

theorem lockstep_pure {first : α} {second : β} (related : post first second) :
    Lockstep c (pure first) (pure second) post :=
  fun _ _ same => .ok same related

theorem Lockstep.bind {first : Eval α} {second : Eval β} {continuation : α → Eval γ}
    {continuation' : β → Eval δ} {last : γ → δ → Prop} (before : Lockstep c first second post)
    (after : ∀ result result', post result result' →
      Lockstep c (continuation result) (continuation' result') last) :
    Lockstep c (first >>= continuation) (second >>= continuation') last := by
  intro store other same
  have ended := before store other same
  rw [bind_run, bind_run]
  generalize first store = run at ended
  generalize second other = run' at ended
  cases ended with
  | ok same related => exact after _ _ related _ _ same
  | error same related => exact .error same related
  | firstStops may => exact .firstStops may
  | secondStops may => exact .secondStops may

theorem lockstep_fail (cause : Fault) : Lockstep c (fail cause) (fail cause) post :=
  fun _ _ same => .error same (.fault cause fun _ => rfl)

/-- Matching values hold the same texts, and the same characters stand for lone surrogates. -/
theorem lockstep_encode {value other : Value} (same : value.Matches c other) :
    Lockstep c (encode value) (encode other) fun _ _ => True := by
  intro store store' matched
  have equal : other.unencodable? store'.lone = value.unencodable? store.lone := by
    rw [matched.lone]
    cases same <;> rfl
  rw [encode_run, encode_run, equal]
  cases value.unencodable? store.lone with
  | none => exact .ok matched trivial
  | some text => exact .error matched (.fault _ fun _ => rfl)

theorem lockstep_ofExcept {rule : Except Fault α} {rule' : Except Fault β}
    (agree : RulesAgree post rule rule') : Lockstep c (ofExcept rule) (ofExcept rule') post := by
  cases agree with
  | ok related => exact lockstep_pure related
  | error cause => exact lockstep_fail cause

theorem Lockstep.locating {first : Eval α} {second : Eval β} {node other : Node}
    (steps : Lockstep c first second post) (same : c.node node other) :
    Lockstep c (locating node first) (locating other second) post := by
  intro store store' matched
  have ended := steps store store' matched
  unfold Eval.locating
  generalize first store = run at ended
  generalize second store' = run' at ended
  cases ended with
  | ok matched related => exact .ok matched related
  | error matched related =>
    cases related with
    | returned value => exact .error matched (.returned value)
    | depthExceeded => exact .error matched .depthExceeded
    | @fault cause place place' places =>
      cases place <;> cases place' <;> refine .error matched (.fault cause fun placed => ?_)
      · exact c.place_eq placed same
      · cases places placed
      · cases places placed
      · exact places placed
  | firstStops may => exact .firstStops may
  | secondStops may => exact .secondStops may

theorem Lockstep.catchReturn {first second : Eval Value}
    (steps : Lockstep c first second (Value.Matches c)) :
    Lockstep c (catchReturn first) (catchReturn second) (Value.Matches c) := by
  intro store store' matched
  have ended := steps store store' matched
  unfold Eval.catchReturn
  generalize first store = run at ended
  generalize second store' = run' at ended
  cases ended with
  | ok matched related => exact .ok matched related
  | error matched related =>
    cases related with
    | returned value => exact .ok matched value
    | depthExceeded => exact .error matched .depthExceeded
    | fault cause places => exact .error matched (.fault cause places)
  | firstStops may => exact .firstStops may
  | secondStops may => exact .secondStops may

theorem lockstep_get : Lockstep c get get (Store.Matches c) :=
  fun _ _ same => .ok same same

theorem lockstep_freshTag :
    Lockstep c freshTag freshTag fun tag other => other = c.tag tag :=
  fun _ _ same => .ok same.freshTag.1 same.freshTag.2

theorem lockstep_newArray {elements others : List Value}
    (inner : List.Forall₂ (Value.Matches c) elements others) :
    Lockstep c (newArray elements) (newArray others) (Value.Matches c) := by
  refine lockstep_freshTag.bind ?_
  rintro tag _ rfl
  exact lockstep_pure (.ofElements inner)

end Eval

/-! ### Built-in functions -/

open Eval

/-- Lists of matching values. -/
abbrev AllMatch (c : Correspondence) : List Value → List Value → Prop :=
  List.Forall₂ (Value.Matches c)

theorem rulesAgree_elements (builtin : Builtin) {argument other : Value}
    (same : argument.Matches c other) :
    RulesAgree (AllMatch c) (builtin.elements argument) (builtin.elements other) := by
  cases argument with
  | array tag elements =>
    obtain ⟨others, rfl⟩ : ∃ others, other = .array (c.tag tag) others := by
      cases same
      exact ⟨_, rfl⟩
    exact .ok same.elements
  | atom | null | hash | function | builtin | error =>
    cases same
    exact .error _

theorem rulesAgree_length {argument other : Value} (same : argument.Matches c other) :
    RulesAgree (Value.Matches c) argument.length other.length := by
  cases same with
  | atom content =>
    cases content with
    | string text => exact .ok (.atom _)
    | integer | boolean => exact .error _
  | array length inner =>
    rw [Value.length, Value.length, length]
    exact .ok (.atom _)
  | null | hash | function | builtin | error => exact .error _

theorem rulesAgree_presentElement {found other : Option Value}
    (same : Option.Rel (Value.Matches c) found other) :
    RulesAgree (Value.Matches c) (presentElement found) (presentElement other) := by
  cases same with
  | some same => exact .ok same
  | none => exact .error _

theorem rulesAgree_removeAt {elements others : List Value} (inner : AllMatch c elements others)
    {place other : Value} (same : place.Matches c other) :
    RulesAgree (AllMatch c) (removeAt elements place) (removeAt others other) := by
  cases same with
  | atom content =>
    cases content with
    | integer index =>
      simp only [removeAt, inner.length_eq]
      split
      · refine .ok ?_
        rw [List.eraseIdx_eq_take_drop_succ, List.eraseIdx_eq_take_drop_succ]
        exact List.rel_append (List.forall₂_take _ inner) (List.forall₂_drop _ inner)
      · exact .error _
    | string | boolean => exact .error _
  | null | array | hash | function | builtin | error => exact .error _

theorem lockstep_apply (builtin : Builtin) {arguments others : List Value}
    (inner : AllMatch c arguments others) :
    Lockstep c (builtin.apply arguments) (builtin.apply others) (Value.Matches c) := by
  cases builtin with
  | len =>
    rcases inner with _ | ⟨argument, _ | ⟨_, rest⟩⟩
    · exact lockstep_fail _
    · refine (lockstep_encode argument).bind fun _ _ _ => ?_
      exact lockstep_ofExcept (rulesAgree_length argument)
    · simp only [Builtin.apply, List.length_cons, rest.length_eq]
      exact lockstep_fail _
  | first =>
    rcases inner with _ | ⟨array, _ | ⟨_, rest⟩⟩
    · exact lockstep_fail _
    · refine (lockstep_ofExcept (rulesAgree_elements .first array)).bind
        fun elements others inner => ?_
      rw [List.head?_eq_getElem?, List.head?_eq_getElem?]
      exact lockstep_ofExcept (rulesAgree_presentElement (rel_getElem? inner 0))
    · simp only [Builtin.apply, List.length_cons, rest.length_eq]
      exact lockstep_fail _
  | last =>
    rcases inner with _ | ⟨array, _ | ⟨_, rest⟩⟩
    · exact lockstep_fail _
    · refine (lockstep_ofExcept (rulesAgree_elements .last array)).bind
        fun elements others inner => ?_
      rw [List.getLast?_eq_getElem?, List.getLast?_eq_getElem?, inner.length_eq]
      exact lockstep_ofExcept (rulesAgree_presentElement (rel_getElem? inner _))
    · simp only [Builtin.apply, List.length_cons, rest.length_eq]
      exact lockstep_fail _
  | push =>
    rcases inner with _ | ⟨array, _ | ⟨value, _ | ⟨_, rest⟩⟩⟩
    · exact lockstep_fail _
    · exact lockstep_fail _
    · refine (lockstep_ofExcept (rulesAgree_elements .push array)).bind
        fun elements others inner => ?_
      exact lockstep_newArray (List.rel_append inner (.cons value .nil))
    · simp only [Builtin.apply, List.length_cons, rest.length_eq]
      exact lockstep_fail _
  | pop =>
    rcases inner with _ | ⟨array, _ | ⟨place, _ | ⟨_, rest⟩⟩⟩
    · exact lockstep_fail _
    · exact lockstep_fail _
    · refine (lockstep_ofExcept (rulesAgree_elements .pop array)).bind
        fun elements others inner => ?_
      exact (lockstep_ofExcept (rulesAgree_removeAt inner place)).bind
        fun remaining remaining' kept => lockstep_newArray kept
    · simp only [Builtin.apply, List.length_cons, rest.length_eq]
      exact lockstep_fail _

/-! ### Evaluation -/

namespace Evaluator

/-- Nodes that stand for each other run in step, in any scope and its counterpart. -/
def LockstepMeaning (c : Correspondence) (meaning meaning' : Meaning) : Prop :=
  ∀ (scope : Nat) (node other : Node), c.node node other →
    Lockstep c (meaning scope node) (meaning' (c.scope scope) other) (Value.Matches c)

variable {meaning meaning' called called' : Meaning} {scope : Nat}

theorem lockstep_resolve (scope : Nat) {name : String} (counts : c.counts name) :
    Lockstep c (resolve scope name) (resolve (c.scope scope) name) (Value.Matches c) := by
  unfold resolve
  refine lockstep_get.bind fun store other same => ?_
  have found := same.get? scope counts
  generalize store.get? scope name = here at found
  generalize other.get? (c.scope scope) name = there at found
  cases found with
  | some value => exact lockstep_pure value
  | none =>
    cases Builtin.ofName? name with
    | some builtin => exact lockstep_pure (.builtin builtin)
    | none => exact lockstep_fail _

theorem lockstep_leafValue (scope : Nat) {leaf other : Leaf} (kind : leaf.kind = other.kind)
    (text : leaf.text = other.text) (seen : leaf.kind = .own .ident → c.counts leaf.text) :
    Lockstep c (leafValue scope leaf) (leafValue (c.scope scope) other) (Value.Matches c) := by
  unfold leafValue
  rw [← kind, ← text]
  split
  · split
    · exact lockstep_pure (.atom _)
    · exact lockstep_fail _
  · exact lockstep_pure (.atom _)
  · exact lockstep_pure (.atom _)
  · exact lockstep_pure (.atom _)
  · next ident => exact lockstep_resolve scope (seen ident)
  · exact lockstep_fail _

theorem lockstep_bindName (scope : Nat) (name : String) {value other : Value}
    (same : value.Matches c other) :
    Lockstep c (bindName scope name value) (bindName (c.scope scope) name other)
      fun _ _ => True :=
  fun _ _ matched => .ok (matched.set scope name same) trivial

theorem lockstep_bindAll (scope : Nat) (names : List String) {values others : List Value}
    (inner : AllMatch c values others) :
    Lockstep c (bindAll scope names values) (bindAll (c.scope scope) names others)
      fun _ _ => True := by
  intro store other matched
  refine .ok ?_ trivial
  induction inner generalizing names store other with
  | nil =>
    rw [List.zip_nil_right]
    exact matched
  | cons first rest inductionHypothesis =>
    cases names with
    | nil => exact matched
    | cons name names => exact inductionHypothesis names _ _ (matched.set scope name first)

theorem lockstep_openScope (closure : Nat) :
    Lockstep c (modifyGet fun store => store.openScope (some closure))
      (modifyGet fun store => store.openScope (some (c.scope closure)))
      fun opened other => other = c.scope opened :=
  fun _ _ matched => .ok (matched.openScope (some closure)).1 (matched.openScope (some closure)).2

theorem lockstep_checkCount (expected : Nat) {arguments others : List Value}
    (inner : AllMatch c arguments others) :
    Lockstep c (checkCount expected arguments) (checkCount expected others) fun _ _ => True := by
  unfold checkCount
  rw [inner.length_eq]
  split
  · exact lockstep_pure trivial
  · exact lockstep_fail _

section

variable (steps : LockstepMeaning c meaning meaning')

include steps

theorem lockstep_sequence {last other : Value} (same : last.Matches c other)
    {statements others : List Node} (inner : List.Forall₂ c.node statements others) :
    Lockstep c (sequence meaning scope last statements)
      (sequence meaning' (c.scope scope) other others) (Value.Matches c) := by
  induction inner generalizing last other with
  | nil => exact lockstep_pure same
  | cons first _ inductionHypothesis =>
    exact (steps scope _ _ first).bind fun value value' same => inductionHypothesis same

theorem lockstep_values {nodes others : List Node} (inner : List.Forall₂ c.node nodes others) :
    Lockstep c (values meaning scope nodes) (values meaning' (c.scope scope) others)
      (AllMatch c) := by
  induction inner with
  | nil => exact lockstep_pure .nil
  | cons first _ inductionHypothesis =>
    refine (steps scope _ _ first).bind fun value value' same => ?_
    refine inductionHypothesis.bind fun results results' rest => ?_
    exact lockstep_pure (.cons same rest)

omit steps in
theorem lockstep_element {container container' index index' : Value}
    (same : container.Matches c container') (sameIndex : index.Matches c index') :
    Lockstep c (element container index) (element container' index') (Value.Matches c) := by
  have looked := lockstep_ofExcept (c := c) (rulesAgree_elementAt same sameIndex)
  unfold element
  rw [same.kind_eq]
  split
  · exact (lockstep_encode sameIndex).bind fun _ _ _ => looked
  · exact looked

theorem lockstep_hashEntries {entries others : List (HashEntry Value)}
    (same : List.Forall₂ (HashEntry.Matches c) entries others) {pairs pairs' : List Node}
    (inner : List.Forall₂ c.node pairs pairs') :
    Lockstep c (hashEntries meaning scope entries pairs)
      (hashEntries meaning' (c.scope scope) others pairs')
      (List.Forall₂ (HashEntry.Matches c)) := by
  induction inner generalizing entries others with
  | nil => exact lockstep_pure same
  | @cons pair pair' rest rest' first _ inductionHypothesis =>
    have operands := Correspondence.operands first
    unfold hashEntries
    generalize pair.operands = parts at operands
    generalize pair'.operands = parts' at operands
    rcases operands with _ | ⟨key, _ | ⟨value, _ | ⟨_, _⟩⟩⟩
    case cons.cons.cons.nil =>
      refine (steps scope _ _ key).bind fun found found' foundSame => ?_
      rw [foundSame.atom?_eq, foundSame.kind_eq]
      cases found'.atom? with
      | none => exact lockstep_fail _
      | some atom =>
        refine (steps scope _ _ value).bind fun held held' heldSame => ?_
        refine (lockstep_encode foundSame).bind fun _ _ _ => ?_
        exact inductionHypothesis (forall₂_insert same atom heldSame)
    all_goals exact lockstep_fail _

theorem lockstep_call {callee other : Value} (same : callee.Matches c other)
    {arguments others : List Value} (inner : AllMatch c arguments others) :
    Lockstep c (call meaning callee arguments) (call meaning' other others) (Value.Matches c) := by
  cases same with
  | function bodies =>
    refine (lockstep_checkCount _ inner).bind fun _ _ _ => ?_
    refine (lockstep_openScope _).bind ?_
    rintro opened _ rfl
    refine (lockstep_bindAll _ _ inner).bind fun _ _ _ => ?_
    exact (lockstep_sequence steps .null (Correspondence.operands bodies)).catchReturn
  | builtin which =>
    exact (lockstep_checkCount _ inner).bind fun _ _ _ => lockstep_apply which inner
  | atom | null | array | hash | error => exact lockstep_fail _

end

theorem lockstep_treeValue (steps : LockstepMeaning c meaning meaning')
    (stepsCalled : LockstepMeaning c called called') (label : Label) {children others : List Node}
    (inner : List.Forall₂ c.node children others) :
    Lockstep c (treeValue meaning called scope label children)
      (treeValue meaning' called' (c.scope scope) label others) (Value.Matches c) := by
  have operands : List.Forall₂ c.node children.tail others.tail := by
    rw [← List.drop_one, ← List.drop_one]
    exact List.forall₂_drop 1 inner
  cases label with
  | program => exact (lockstep_sequence steps .null inner).catchReturn
  | expressionStatement =>
    cases inner with
    | nil => exact lockstep_fail _
    | cons expression => exact steps scope _ _ expression
  | block => exact lockstep_sequence steps .null operands
  | letStatement =>
    rcases inner with _ | ⟨word, _ | ⟨name, _ | ⟨value, _ | ⟨_, _⟩⟩⟩⟩
    case cons.cons.cons.nil =>
      simp only [treeValue, Correspondence.identifier?_eq name]
      split
      · exact lockstep_fail _
      · refine (steps scope _ _ value).bind fun found found' same => ?_
        exact (lockstep_bindName scope _ same).bind fun _ _ _ => lockstep_pure .null
    all_goals exact lockstep_fail _
  | returnStatement =>
    rcases inner with _ | ⟨word, _ | ⟨value, _ | ⟨_, _⟩⟩⟩
    case cons.cons.nil =>
      refine (steps scope _ _ value).bind fun found found' same => ?_
      exact fun _ _ matched => .error matched (.returned same)
    all_goals exact lockstep_fail _
  | conditional =>
    rcases inner with _ | ⟨word, _ | ⟨condition, _ | ⟨consequence, alternative⟩⟩⟩
    case cons.cons.cons =>
      refine (steps scope _ _ condition).bind fun decided decided' same => ?_
      rw [same.isTruthy_eq]
      split
      · exact steps scope _ _ consequence
      · cases alternative with
        | nil => exact lockstep_pure .null
        | cons block => exact steps scope _ _ block
    all_goals exact lockstep_fail _
  | unary =>
    rcases inner with _ | ⟨operator, _ | ⟨operand, _ | ⟨_, _⟩⟩⟩
    case cons.cons.nil =>
      refine (steps scope _ _ operand).bind fun value value' same => ?_
      rw [Correspondence.leafText_eq operator]
      exact lockstep_ofExcept (rulesAgree_unary _ same)
    all_goals exact lockstep_fail _
  | binary =>
    rcases inner with _ | ⟨operator, _ | ⟨left, _ | ⟨right, _ | ⟨_, _⟩⟩⟩⟩
    case cons.cons.cons.nil =>
      refine (steps scope _ _ left).bind fun first first' firstSame => ?_
      refine (steps scope _ _ right).bind fun second second' secondSame => ?_
      rw [Correspondence.leafText_eq operator]
      exact lockstep_ofExcept (rulesAgree_binary _ firstSame secondSame)
    all_goals exact lockstep_fail _
  | function =>
    rcases inner with _ | ⟨word, _ | ⟨parameters, _ | ⟨body, _ | ⟨_, _⟩⟩⟩⟩
    case cons.cons.cons.nil =>
      refine lockstep_freshTag.bind ?_
      rintro tag _ rfl
      have names := (Correspondence.operands parameters).imp fun _ _ => Correspondence.leafText_eq
      rw [map_eq_map_of_forall₂ names]
      exact lockstep_pure (.function body)
    all_goals exact lockstep_fail _
  | call =>
    rcases inner with _ | ⟨opening, _ | ⟨callee, arguments⟩⟩
    case cons.cons =>
      refine (steps scope _ _ callee).bind fun found found' same => ?_
      refine (lockstep_values steps arguments).bind fun results results' inner => ?_
      exact lockstep_call stepsCalled same inner
    all_goals exact lockstep_fail _
  | array =>
    exact (lockstep_values steps operands).bind fun elements elements' => lockstep_newArray
  | index =>
    rcases inner with _ | ⟨opening, _ | ⟨container, _ | ⟨index, _ | ⟨_, _⟩⟩⟩⟩
    case cons.cons.cons.nil =>
      refine (steps scope _ _ container).bind fun first first' firstSame => ?_
      refine (steps scope _ _ index).bind fun second second' secondSame => ?_
      exact lockstep_element firstSame secondSame
    all_goals exact lockstep_fail _
  | hash =>
    refine (lockstep_hashEntries steps .nil operands).bind fun entries entries' same => ?_
    refine lockstep_freshTag.bind ?_
    rintro tag _ rfl
    exact lockstep_pure (.ofEntries same)
  | parameters | pair | foreign => exact lockstep_fail _

theorem lockstepMeaning_step (steps : LockstepMeaning c meaning meaning')
    (stepsCalled : LockstepMeaning c called called') :
    LockstepMeaning c (step meaning called) (step meaning' called') := by
  intro scope node other same
  refine Lockstep.locating ?_ same
  cases c.parallel same with
  | hole => exact lockstep_fail _
  | leaf kind text seen => exact lockstep_leafValue scope kind text seen
  | tree inner => exact lockstep_treeValue steps stepsCalled _ inner

theorem spare_eq {node other : Node} (same : c.node node other) : spare node = spare other := by
  cases c.parallel same with
  | hole | leaf => rfl
  | @tree label => cases label <;> rfl

theorem eval_of_lt {frames : Nat} (few : frames < 5) (scope : Nat) (node : Node) :
    eval frames scope node = throw .depthExceeded := by
  match frames with
  | 0 | 1 | 2 | 3 | 4 => rfl

/-- Evaluations stay in step, also with different numbers of frames as long as the side that
has fewer may stop. -/
theorem lockstepMeaning_eval (frames frames' : Nat)
    (fewer : frames < frames' → c.firstMayStop) (more : frames' < frames → c.secondMayStop) :
    LockstepMeaning c (eval frames) (eval frames') := by
  induction frames using Nat.strongRecOn generalizing frames' with
  | ind frames inductionHypothesis =>
    rcases Nat.lt_or_ge frames 5 with few | enough
    · intro scope node other same store store' matched
      rw [eval_of_lt few]
      rcases Nat.lt_or_ge frames' 5 with few' | enough'
      · rw [eval_of_lt few']
        exact .error matched .depthExceeded
      · exact .firstStops (fewer (Nat.lt_of_lt_of_le few enough'))
    · rcases Nat.lt_or_ge frames' 5 with few' | enough'
      · intro scope node other same store store' matched
        rw [eval_of_lt few']
        exact .secondStops (more (Nat.lt_of_lt_of_le few' enough))
      · obtain ⟨frames, rfl⟩ := Nat.exists_eq_add_of_le' enough
        obtain ⟨frames', rfl⟩ := Nat.exists_eq_add_of_le' enough'
        intro scope node other same
        have left := spare_le node
        rw [eval_add_five, eval_add_five, ← spare_eq same]
        exact lockstepMeaning_step
          (inductionHypothesis (frames + spare node) (by omega) (frames' + spare node)
            (fun less => fewer (by omega)) fun less => more (by omega))
          (inductionHypothesis frames (by omega) frames' (fun less => fewer (by omega))
            fun less => more (by omega)) scope node other same

theorem lockstepMeaning_eval_self (frames : Nat) :
    LockstepMeaning c (eval frames) (eval frames) :=
  lockstepMeaning_eval frames frames (fun less => absurd less (Nat.lt_irrefl frames))
    fun less => absurd less (Nat.lt_irrefl frames)

end Evaluator

/-! ### Runs -/

/-- Matching values from statements of one kind. -/
structure Outcome.Matches (c : Correspondence) (outcome other : Outcome) : Prop where
  value : outcome.value.Matches c other.value
  label : outcome.label = other.label

/-- The outcome of a run without statements. -/
def Outcome.nothing : Outcome := ⟨.null, none⟩

theorem Outcome.matches_nothing (c : Correspondence) : nothing.Matches c nothing :=
  ⟨.null, rfl⟩

namespace Session

open Evaluator

theorem lockstep_statements {meaning meaning' : Meaning} {scope : Nat}
    (steps : LockstepMeaning c meaning meaning') {last last' : Outcome}
    (same : last.Matches c last') {nodes others : List Node}
    (inner : List.Forall₂ c.node nodes others) :
    Lockstep c (statements meaning scope last nodes)
      (statements meaning' (c.scope scope) last' others) (Outcome.Matches c) := by
  induction inner generalizing last last' with
  | nil => exact lockstep_pure same
  | cons first _ inductionHypothesis =>
    refine (steps scope _ _ first).bind fun value value' valueSame => ?_
    refine inductionHypothesis ⟨valueSame, ?_⟩
    cases c.parallel first <;> rfl

/-- The outcome and the store that a run leaves when its statements end in this way. -/
def settled : EStateM.Result Interrupt Store Outcome → Outcome × Store
  | .ok outcome after => (outcome, after)
  | .error (.returned value) after => (⟨value, some .returnStatement⟩, after)
  | .error (.fault cause place) after => failed (.fault cause place) after
  | .error .depthExceeded after => failed .depthExceeded after

theorem runProgram_settled (limit scope : Nat) (program : Node) (store : Store) :
    runProgram limit scope program store =
      settled (statements (eval limit) scope .nothing program.children store) :=
  rfl

theorem matches_failed {report other : ErrorReport} {store store' : Store}
    (same : report.Matches c.placed other) (stores : store.Matches c store') :
    (failed report store).1.Matches c (failed other store').1 ∧
      (failed report store).2.Matches c (failed other store').2 := by
  obtain ⟨after, tag⟩ := stores.freshTag
  refine ⟨⟨?_, rfl⟩, after⟩
  show (Value.error store.freshTag.1 report).Matches c (.error store'.freshTag.1 other)
  rw [tag]
  exact .error same

theorem matches_settled_error {interrupt other : Interrupt} {store store' : Store}
    (same : interrupt.Matches c other) (stores : store.Matches c store') :
    (settled (.error interrupt store)).1.Matches c (settled (.error other store')).1 ∧
      (settled (.error interrupt store)).2.Matches c (settled (.error other store')).2 := by
  cases same with
  | returned value => exact ⟨⟨value, rfl⟩, stores⟩
  | fault cause places => exact matches_failed (.fault cause places) stores
  | depthExceeded => exact matches_failed .depthExceeded stores

/-- When neither side may stop by itself, runs of programs whose statements stand for each other
give matching outcomes and leave matching stores. -/
theorem matches_runProgram (first : ¬ c.firstMayStop) (second : ¬ c.secondMayStop)
    (limit scope : Nat) {program other : Node}
    (inner : List.Forall₂ c.node program.children other.children) {store store' : Store}
    (stores : store.Matches c store') :
    (runProgram limit scope program store).1.Matches c
        (runProgram limit (c.scope scope) other store').1 ∧
      (runProgram limit scope program store).2.Matches c
        (runProgram limit (c.scope scope) other store').2 := by
  have agree := @lockstep_statements _ _ _ scope (lockstepMeaning_eval_self limit) _ _
    (Outcome.matches_nothing c) _ _ inner _ _ stores
  rw [runProgram_settled, runProgram_settled]
  generalize statements (eval limit) scope .nothing program.children store = ended at agree
  generalize statements (eval limit) (c.scope scope) .nothing other.children store' = ended'
    at agree
  cases agree with
  | ok same related => exact ⟨related, same⟩
  | error same related => exact matches_settled_error related same
  | firstStops may => exact absurd may first
  | secondStops may => exact absurd may second

end Session

end Scriptlet
