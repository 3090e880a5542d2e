/-
This file says which bindings an evaluation can reach. A node changes no scope but the one
it is evaluated in, and there it binds no names but those of the `let` statements that stand
in it outside every function. A call changes no scope at all that existed before it: the
callee's statements bind in a scope of their own. Both hold however the evaluation ends, with
a value, a `return`, a fault or the depth limit, because nothing that was done is undone and
nothing more is done on the way out.

`Eval.Keeps` is the form in which this goes through the evaluator. The relation between the
store before and the store after is kept abstract there, so that one set of rules serves both
halves.
-/

import Scriptlet.Session

namespace Scriptlet

namespace Node

mutual

/-- The names that the `let` statements of a tree bind, those inside functions left out. -/
def targets : Node → List String
  | hole => []
  | leaf _ => []
  | tree .function _ => []
  | tree .letStatement [_, name, value] => name.identifier?.toList ++ targets value
  | tree .hash children => pairTargets children
  | tree _ children => targetsAll children

/-- The names that the `let` statements of some trees bind. -/
def targetsAll : List Node → List String
  | [] => []
  | node :: rest => targets node ++ targetsAll rest

/-- The names that are bound below the pairs of a hash, whatever their labels are. -/
def pairTargets : List Node → List String
  | [] => []
  | tree _ children :: rest => targetsAll children ++ pairTargets rest
  | _ :: rest => pairTargets rest

end

theorem targets_subset_targetsAll {node : Node} {nodes : List Node} (member : node ∈ nodes) :
    node.targets ⊆ targetsAll nodes := by
  induction nodes with
  | nil => cases member
  | cons first rest inductionHypothesis =>
    rcases List.mem_cons.mp member with rfl | later
    · exact List.subset_append_left _ _
    · exact List.Subset.trans (inductionHypothesis later) (List.subset_append_right _ _)

theorem targets_subset_pairTargets {pair operand : Node} {pairs : List Node}
    (member : pair ∈ pairs) (inside : operand ∈ pair.operands) :
    operand.targets ⊆ pairTargets pairs := by
  induction pairs with
  | nil => cases member
  | cons first rest inductionHypothesis =>
    have fromRest : pairTargets rest ⊆ pairTargets (first :: rest) := by
      cases first with
      | hole => exact List.Subset.refl _
      | leaf => exact List.Subset.refl _
      | tree => exact List.subset_append_right _ _
    rcases List.mem_cons.mp member with rfl | later
    · cases pair with
      | hole => cases inside
      | leaf => cases inside
      | tree label children =>
        have child : operand ∈ children := by
          rw [operands] at inside
          split at inside
          · exact List.mem_of_mem_tail inside
          · exact inside
        exact List.Subset.trans (targets_subset_targetsAll child) (List.subset_append_left _ _)
    · exact List.Subset.trans (inductionHypothesis later) fromRest

end Node

/-! ### What stays of a store -/

namespace Store

/-- Every scope of the first store is the same in the second, and so are the characters that stand
for lone surrogates. -/
structure Kept (before after : Store) : Prop where
  lone : after.lone = before.lone
  size : before.scopes.size ≤ after.scopes.size
  scopes : ∀ number < before.scopes.size, after.scopes[number]? = before.scopes[number]?

/-- Every scope of the first store but one is the same in the second. That one lies where it
lay, and gives to every name outside a list what it gave before. -/
structure Framed (scope : Nat) (names : List String) (before after : Store) : Prop where
  lone : after.lone = before.lone
  size : before.scopes.size ≤ after.scopes.size
  others : ∀ number < before.scopes.size, number ≠ scope →
    after.scopes[number]? = before.scopes[number]?
  own : ∀ frame, before.scopes[scope]? = some frame → ∃ later, after.scopes[scope]? = some later ∧
    later.outer = frame.outer ∧ ∀ name ∉ names, later.get? name = frame.get? name

/-- A relation between the stores before and after that may be gone through several times. -/
class Change (relation : Store → Store → Prop) : Prop where
  refl (store : Store) : relation store store
  trans {first second third : Store} (before : relation first second)
    (after : relation second third) : relation first third

variable {before after : Store} {scope : Nat} {names : List String}

instance : Change Kept where
  refl _ := ⟨rfl, Nat.le_refl _, fun _ _ => rfl⟩
  trans first second :=
    ⟨second.lone.trans first.lone, Nat.le_trans first.size second.size, fun number present =>
      (second.scopes number (Nat.lt_of_lt_of_le present first.size)).trans
        (first.scopes number present)⟩

instance : Change (Framed scope names) where
  refl _ :=
    ⟨rfl, Nat.le_refl _, fun _ _ _ => rfl, fun frame held => ⟨frame, held, rfl, fun _ _ => rfl⟩⟩
  trans first second := by
    refine ⟨second.lone.trans first.lone, Nat.le_trans first.size second.size,
      fun number present other => ?_, ?_⟩
    · rw [second.others number (Nat.lt_of_lt_of_le present first.size) other,
        first.others number present other]
    · intro frame held
      obtain ⟨middle, middleHeld, middleOuter, middleBindings⟩ := first.own frame held
      obtain ⟨later, laterHeld, laterOuter, laterBindings⟩ := second.own middle middleHeld
      refine ⟨later, laterHeld, laterOuter.trans middleOuter, fun name free => ?_⟩
      rw [laterBindings name free, middleBindings name free]

theorem Framed.mono {more : List String} (framed : Framed scope names before after)
    (listed : names ⊆ more) : Framed scope more before after := by
  refine ⟨framed.lone, framed.size, framed.others, fun frame held => ?_⟩
  obtain ⟨later, laterHeld, outer, bindings⟩ := framed.own frame held
  exact ⟨later, laterHeld, outer, fun name free => bindings name fun member => free (listed member)⟩

theorem Kept.framed (kept : Kept before after) : Framed scope names before after := by
  refine ⟨kept.lone, kept.size, fun number present _ => kept.scopes number present,
    fun frame held => ?_⟩
  obtain ⟨present, -⟩ := Array.getElem?_eq_some_iff.mp held
  exact ⟨frame, (kept.scopes scope present).trans held, rfl, fun _ _ => rfl⟩

/-- Whichever scope it is, it lies where it lay and gives what it gave to the names outside the
list. -/
theorem Framed.exists_later (framed : Framed scope names before after) {number : Nat}
    {frame : Scope} (held : before.scopes[number]? = some frame) :
    ∃ later, after.scopes[number]? = some later ∧ later.outer = frame.outer ∧
      ∀ name ∉ names, later.get? name = frame.get? name := by
  by_cases own : number = scope
  · subst own
    exact framed.own frame held
  · obtain ⟨present, -⟩ := Array.getElem?_eq_some_iff.mp held
    exact ⟨frame, (framed.others number present own).trans held, rfl, fun _ _ => rfl⟩

/-- Binding a name changes one scope, and only what it gives to that name. -/
theorem framed_set (store : Store) (scope : Nat) (name : String) (value : Value) :
    Framed scope [name] store (store.set scope name value) := by
  refine ⟨rfl, Nat.le_of_eq Array.size_modify.symm, fun number _ other => ?_,
    fun frame held => ?_⟩
  · simp only [Store.set, Array.getElem?_modify, if_neg other.symm]
  · refine ⟨frame.set name value, ?_, rfl, fun wanted free => ?_⟩
    · simp only [Store.set, Array.getElem?_modify, if_true, held, Option.map_some]
    · rw [Scope.get?_set, if_neg (by simpa using free)]

theorem framed_setAll (store : Store) (scope : Nat) (pairs : List (String × Value)) :
    Framed scope (pairs.map Prod.fst) store
      (pairs.foldl (fun store (name, value) => store.set scope name value) store) := by
  induction pairs generalizing store with
  | nil => exact Change.refl store
  | cons first rest inductionHypothesis =>
    refine Change.trans ((framed_set store scope first.1 first.2).mono ?_)
      ((inductionHypothesis _).mono ?_)
    · simp
    · simp

/-- What happens in a scope that was opened just now leaves every older scope alone. -/
theorem kept_of_openScope {outer : Option Nat}
    (framed : Framed before.scopes.size names (before.openScope outer).2 after) :
    Kept before after := by
  have size : (before.openScope outer).2.scopes.size = before.scopes.size + 1 := Array.size_push _
  refine ⟨framed.lone, by have := framed.size; omega, fun number present => ?_⟩
  rw [framed.others number (by omega) (Nat.ne_of_lt present)]
  exact Array.getElem?_push_lt present ▸ (Array.getElem?_eq_getElem present).symm

end Store

/-! ### Computations that keep a relation between stores -/

namespace Eval

open Store

variable {α β : Type} {relation : Store → Store → Prop}

/-- The store that a computation leaves behind, whether it ends with a result or not. -/
def after (action : Eval α) (store : Store) : Store :=
  match action store with
  | .ok _ later => later
  | .error _ later => later

/-- However the computation ends, the stores before and after it are related. -/
def Keeps (relation : Store → Store → Prop) (action : Eval α) : Prop :=
  ∀ store, relation store (action.after store)

theorem keeps_pure [Change relation] (result : α) : Keeps relation (pure result : Eval α) :=
  Change.refl

theorem keeps_throw [Change relation] (interrupt : Interrupt) :
    Keeps relation (throw interrupt : Eval α) :=
  Change.refl

theorem Keeps.bind [Change relation] {action : Eval α} {continuation : α → Eval β}
    (first : Keeps relation action) (rest : ∀ result, Keeps relation (continuation result)) :
    Keeps relation (action >>= continuation) := by
  intro store
  have before := first store
  rw [after] at before ⊢
  rw [bind_run]
  cases run : action store with
  | ok result middle =>
    rw [run] at before
    exact Change.trans before (rest result middle)
  | error interrupt middle =>
    rw [run] at before
    exact before

theorem Keeps.mono {wider : Store → Store → Prop} {action : Eval α}
    (keeps : Keeps relation action)
    (implies : ∀ {before after}, relation before after → wider before after) :
    Keeps wider action :=
  fun store => implies (keeps store)

theorem keeps_ofExcept [Change relation] (rule : Except Fault α) :
    Keeps relation (ofExcept rule) := by
  cases rule with
  | ok result => exact keeps_pure result
  | error cause => exact keeps_throw _

/-- The text of a value is looked at, and nothing else happens. -/
theorem keeps_encode [Change relation] (value : Value) : Keeps relation (encode value) := by
  intro store
  rw [after, encode_run]
  cases value.unencodable? store.lone <;> exact Change.refl store

theorem Keeps.locating {action : Eval α} (keeps : Keeps relation action) (node : Node) :
    Keeps relation (locating node action) := by
  intro store
  have kept := keeps store
  rw [after] at kept ⊢
  rw [Eval.locating]
  cases run : action store with
  | ok result later =>
    rw [run] at kept
    exact kept
  | error interrupt later =>
    rw [run] at kept
    cases interrupt with
    | fault cause place => cases place <;> exact kept
    | returned value => exact kept
    | depthExceeded => exact kept

theorem Keeps.catchReturn {action : Eval Value} (keeps : Keeps relation action) :
    Keeps relation (catchReturn action) := by
  intro store
  have kept := keeps store
  rw [after] at kept ⊢
  rw [Eval.catchReturn]
  cases run : action store with
  | ok result later =>
    rw [run] at kept
    exact kept
  | error interrupt later =>
    rw [run] at kept
    cases interrupt <;> exact kept

theorem keeps_freshTag : Keeps Kept freshTag :=
  fun _ => ⟨rfl, Nat.le_refl _, fun _ _ => rfl⟩

theorem keeps_newArray [Change relation] (tags : Keeps relation freshTag) (elements : List Value) :
    Keeps relation (newArray elements) :=
  tags.bind fun _ => keeps_pure _

end Eval

/-! ### The frame of an evaluation -/

namespace Evaluator

open Store Eval

variable {meaning called : Meaning} {scope : Nat} {names : List String}

/-- A node changes only the scope it is evaluated in, and only at the names it binds. -/
def FramedMeaning (meaning : Meaning) : Prop :=
  ∀ (scope : Nat) (node : Node), Keeps (Framed scope node.targets) (meaning scope node)

theorem FramedMeaning.within (framed : FramedMeaning meaning) {node : Node}
    (listed : node.targets ⊆ names) : Keeps (Framed scope names) (meaning scope node) :=
  (framed scope node).mono fun change => change.mono listed

theorem keeps_resolve [Change relation] (scope : Nat) (name : String) :
    Keeps relation (resolve scope name) := by
  refine Keeps.bind Change.refl fun store => ?_
  split
  · exact keeps_pure _
  · split
    · exact keeps_pure _
    · exact keeps_throw _

theorem keeps_leafValue [Change relation] (scope : Nat) (leaf : Leaf) :
    Keeps relation (leafValue scope leaf) := by
  unfold leafValue
  split
  · split
    · exact keeps_pure _
    · exact keeps_throw _
  · exact keeps_pure _
  · exact keeps_pure _
  · exact keeps_pure _
  · exact keeps_resolve _ _
  · exact keeps_throw _

theorem keeps_checkCount [Change relation] (expected : Nat) (arguments : List Value) :
    Keeps relation (checkCount expected arguments) := by
  unfold checkCount
  split
  · exact keeps_pure _
  · exact keeps_throw _

theorem keeps_element [Change relation] (container index : Value) :
    Keeps relation (element container index) := by
  unfold element
  split
  · exact (keeps_encode _).bind fun _ => keeps_ofExcept _
  · exact keeps_ofExcept _

theorem keeps_apply [Change relation] (tags : Keeps relation freshTag) (builtin : Builtin)
    (arguments : List Value) : Keeps relation (builtin.apply arguments) := by
  unfold Builtin.apply
  split
  · exact (keeps_encode _).bind fun _ => keeps_ofExcept _
  · exact (keeps_ofExcept _).bind fun _ => keeps_ofExcept _
  · exact (keeps_ofExcept _).bind fun _ => keeps_ofExcept _
  · exact (keeps_ofExcept _).bind fun _ => keeps_newArray tags _
  · exact (keeps_ofExcept _).bind fun _ => (keeps_ofExcept _).bind fun _ => keeps_newArray tags _
  · exact keeps_throw _

theorem keeps_sequence (framed : FramedMeaning meaning) {statements : List Node}
    (listed : ∀ statement ∈ statements, statement.targets ⊆ names) (last : Value) :
    Keeps (Framed scope names) (sequence meaning scope last statements) := by
  induction statements generalizing last with
  | nil => exact keeps_pure last
  | cons first rest inductionHypothesis =>
    refine (framed.within (listed first List.mem_cons_self)).bind fun value => ?_
    exact inductionHypothesis (fun statement member =>
      listed statement (List.mem_cons_of_mem _ member)) value

theorem keeps_values (framed : FramedMeaning meaning) {nodes : List Node}
    (listed : ∀ node ∈ nodes, node.targets ⊆ names) :
    Keeps (Framed scope names) (values meaning scope nodes) := by
  induction nodes with
  | nil => exact keeps_pure []
  | cons first rest inductionHypothesis =>
    refine (framed.within (listed first List.mem_cons_self)).bind fun value => ?_
    refine (inductionHypothesis fun node member =>
      listed node (List.mem_cons_of_mem _ member)).bind fun others => ?_
    exact keeps_pure _

theorem keeps_hashEntries (framed : FramedMeaning meaning) {pairs : List Node}
    (listed : ∀ pair ∈ pairs, ∀ operand ∈ pair.operands, operand.targets ⊆ names)
    (entries : List (HashEntry Value)) :
    Keeps (Framed scope names) (hashEntries meaning scope entries pairs) := by
  induction pairs generalizing entries with
  | nil => exact keeps_pure entries
  | cons first rest inductionHypothesis =>
    have restListed : ∀ pair ∈ rest, ∀ operand ∈ pair.operands, operand.targets ⊆ names :=
      fun pair member => listed pair (List.mem_cons_of_mem _ member)
    have firstListed := listed first List.mem_cons_self
    rw [hashEntries]
    split
    · next keyNode valueNode operands =>
      rw [operands] at firstListed
      refine (framed.within (firstListed keyNode List.mem_cons_self)).bind fun key => ?_
      split
      · exact keeps_throw _
      · refine (framed.within (firstListed valueNode
          (List.mem_cons_of_mem _ List.mem_cons_self))).bind fun value => ?_
        exact (keeps_encode key).bind fun _ => inductionHypothesis restListed _
    · exact keeps_throw _

/-- A call leaves every scope alone: what the callee binds, it binds in a scope of its own. -/
theorem keeps_call (framed : FramedMeaning meaning) (callee : Value) (arguments : List Value) :
    Keeps Kept (call meaning callee arguments) := by
  unfold call
  split
  · next tag parameters body closure =>
    refine (keeps_checkCount _ _).bind fun _ => ?_
    intro store
    have inside : Keeps (Framed store.scopes.size
        ((parameters.zip arguments).map Prod.fst ++ Node.targetsAll body.operands)) (do
          bindAll store.scopes.size parameters arguments
          catchReturn (sequence meaning store.scopes.size .null body.operands)) := by
      refine Keeps.bind (fun before => ?_) fun _ => Keeps.catchReturn ?_
      · exact (framed_setAll before _ _).mono (List.subset_append_left _ _)
      · refine keeps_sequence framed (fun statement member => ?_) _
        exact List.Subset.trans (Node.targets_subset_targetsAll member)
          (List.subset_append_right _ _)
    exact kept_of_openScope (inside _)
  · exact (keeps_checkCount _ _).bind fun _ => keeps_apply keeps_freshTag _ _
  · exact keeps_throw _

/-- One case for each form of tree. A function keeps its body for later, so it binds nothing. -/
theorem keeps_treeValue (framed : FramedMeaning meaning) (framedCalled : FramedMeaning called)
    (scope : Nat) (label : Label) (children : List Node) :
    Keeps (Framed scope (Node.tree label children).targets)
      (treeValue meaning called scope label children) := by
  unfold treeValue
  split
  · next statements =>
    exact (keeps_sequence framed (fun _ => Node.targets_subset_targetsAll) _).catchReturn
  · next expression others =>
    exact framed.within (Node.targets_subset_targetsAll List.mem_cons_self)
  · next children =>
    refine keeps_sequence framed (fun statement member => ?_) _
    exact Node.targets_subset_targetsAll (List.mem_of_mem_tail member)
  · next word name valueNode =>
    split
    · exact keeps_throw _
    · next target found =>
      have own : [target] ⊆ (Node.tree .letStatement [word, name, valueNode]).targets := by
        simp [Node.targets, found]
      refine (framed.within (List.subset_append_right _ _)).bind fun value => ?_
      refine Keeps.bind (fun store => ?_) fun _ => keeps_pure _
      exact (framed_set store scope target value).mono own
  · next word valueNode =>
    refine (framed.within (Node.targets_subset_targetsAll (by simp))).bind fun value => ?_
    exact keeps_throw _
  · next word condition consequence alternative =>
    refine (framed.within (Node.targets_subset_targetsAll (by simp))).bind fun decided => ?_
    split
    · exact framed.within (Node.targets_subset_targetsAll (by simp))
    · split
      · exact keeps_pure _
      · exact framed.within (Node.targets_subset_targetsAll (by simp))
  · next operator operandNode =>
    refine (framed.within (Node.targets_subset_targetsAll (by simp))).bind fun operand => ?_
    exact keeps_ofExcept _
  · next operator leftNode rightNode =>
    refine (framed.within (Node.targets_subset_targetsAll (by simp))).bind fun left => ?_
    refine (framed.within (Node.targets_subset_targetsAll (by simp))).bind fun right => ?_
    exact keeps_ofExcept _
  · exact (keeps_freshTag.mono Kept.framed).bind fun _ => keeps_pure _
  · next opening calleeNode argumentNodes =>
    refine (framed.within (Node.targets_subset_targetsAll (by simp))).bind fun callee => ?_
    refine (keeps_values framed fun node member => ?_).bind fun arguments => ?_
    · exact Node.targets_subset_targetsAll
        (List.mem_cons_of_mem _ (List.mem_cons_of_mem _ member))
    · exact (keeps_call framedCalled callee arguments).mono Kept.framed
  · next children =>
    refine (keeps_values framed fun node member => ?_).bind fun elements => ?_
    · exact Node.targets_subset_targetsAll (List.mem_of_mem_tail member)
    · exact (keeps_newArray keeps_freshTag elements).mono Kept.framed
  · next opening containerNode indexNode =>
    refine (framed.within (Node.targets_subset_targetsAll (by simp))).bind fun container => ?_
    refine (framed.within (Node.targets_subset_targetsAll (by simp))).bind fun index => ?_
    exact keeps_element container index
  · next children =>
    refine (keeps_hashEntries framed (fun pair member operand inside => ?_) _).bind
      fun entries => ?_
    · exact Node.targets_subset_pairTargets (List.mem_of_mem_tail member) inside
    · exact (keeps_freshTag.mono Kept.framed).bind fun _ => keeps_pure _
  all_goals exact keeps_throw _

theorem framedMeaning_step (framed : FramedMeaning meaning) (framedCalled : FramedMeaning called) :
    FramedMeaning (step meaning called) := by
  intro scope node
  refine Keeps.locating ?_ node
  cases node with
  | hole => exact keeps_throw _
  | leaf leaf => exact keeps_leafValue scope leaf
  | tree label children => exact keeps_treeValue framed framedCalled scope label children

theorem framedMeaning_eval (frames : Nat) : FramedMeaning (eval frames) :=
  eval_induction (P := FramedMeaning) (fun _ framed scope node => framed node scope node)
    (fun _ _ => keeps_throw _) framedMeaning_step frames

/-- Take any store, any scope and any node, and any bound on the depth. However the evaluation
of the node in the scope ends, every other scope of the store has the same bindings and lies
inside the same scope as before; the scope itself lies where it lay, and every name that no
`let` of the node outside a function binds has the value there that it had, or still none.
A call leaves every scope as it was, whatever is called on whatever arguments. -/
theorem eval_framed (frames scope : Nat) (node : Node) (store : Store) :
    store.Framed scope node.targets ((eval frames scope node).after store) ∧
      ∀ (callee : Value) (arguments : List Value),
        store.Kept ((call (eval frames) callee arguments).after store) :=
  ⟨framedMeaning_eval frames scope node store, fun callee arguments =>
    keeps_call (framedMeaning_eval frames) callee arguments store⟩

end Evaluator

end Scriptlet
