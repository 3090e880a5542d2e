/-
This file says what the values of a run are made of. A value belongs to a store when the store
has handed out every tag in it and has opened the scope of every function in it. A store is
closed when the values that it binds belong to it and every scope lies inside an older one.

Evaluation starts from a closed store and leaves a closed one, and what it gives belongs there.
This holds of every tree, however badly shaped, as long as it is evaluated in a scope that
exists. `Eval.Makes` is the form in which it goes through the evaluator; a store only ever
grows, and what belongs to a store still belongs to it when it has grown.
-/

import Scriptlet.Proofs.Safety

namespace Scriptlet

/-! ### Closed stores -/

/-- The second store has handed out all the tags of the first one and opened all its scopes. -/
structure Store.Grows (store later : Store) : Prop where
  tags : store.nextTag ≤ later.nextTag
  scopes : store.scopes.size ≤ later.scopes.size

theorem Store.Grows.refl (store : Store) : store.Grows store :=
  ⟨Nat.le_refl _, Nat.le_refl _⟩

theorem Store.Grows.trans {first second third : Store} (before : first.Grows second)
    (behind : second.Grows third) : first.Grows third :=
  ⟨Nat.le_trans before.tags behind.tags, Nat.le_trans before.scopes behind.scopes⟩

/-- The tags of the value were handed out by the store, and the scopes of its functions are
there. -/
inductive Value.Belongs (store : Store) : Value → Prop where
  | atom (content : Atom) : Belongs store (.atom content)
  | null : Belongs store .null
  | array {tag : Nat} {elements : List Value} (tagged : tag < store.nextTag)
      (inner : ∀ element ∈ elements, Belongs store element) : Belongs store (.array tag elements)
  | hash {tag : Nat} {entries : List (HashEntry Value)} (tagged : tag < store.nextTag)
      (inner : ∀ entry ∈ entries, Belongs store entry.value) : Belongs store (.hash tag entries)
  | function {tag : Nat} {parameters : List String} {body : Node} {scope : Nat}
      (tagged : tag < store.nextTag) (present : scope < store.scopes.size) :
      Belongs store (.function tag parameters body scope)
  | builtin (which : Builtin) : Belongs store (.builtin which)
  | error {tag : Nat} {report : ErrorReport} (tagged : tag < store.nextTag) :
      Belongs store (.error tag report)

namespace Value

variable {store later : Store}

theorem Belongs.mono {value : Value} (belongs : value.Belongs store) (grown : store.Grows later) :
    value.Belongs later := by
  induction belongs with
  | atom content => exact .atom content
  | null => exact .null
  | array tagged _ inner => exact .array (Nat.lt_of_lt_of_le tagged grown.tags) inner
  | hash tagged _ inner => exact .hash (Nat.lt_of_lt_of_le tagged grown.tags) inner
  | function tagged present =>
    exact .function (Nat.lt_of_lt_of_le tagged grown.tags)
      (Nat.lt_of_lt_of_le present grown.scopes)
  | builtin which => exact .builtin which
  | error tagged => exact .error (Nat.lt_of_lt_of_le tagged grown.tags)

theorem Belongs.elements {tag : Nat} {elements : List Value}
    (belongs : (Value.array tag elements).Belongs store) :
    ∀ element ∈ elements, element.Belongs store := by
  cases belongs with
  | array _ inner => exact inner

theorem Belongs.entries {tag : Nat} {entries : List (HashEntry Value)}
    (belongs : (Value.hash tag entries).Belongs store) :
    ∀ entry ∈ entries, entry.value.Belongs store := by
  cases belongs with
  | hash _ inner => exact inner

theorem belongs_getD {found : Option Value} (belongs : ∀ value ∈ found, value.Belongs store) :
    (found.getD .null).Belongs store := by
  cases found with
  | none => exact .null
  | some value => exact belongs value rfl

theorem Belongs.elementAt {container index value : Value} (belongs : container.Belongs store)
    (found : container.elementAt index = .ok value) : value.Belongs store := by
  unfold Value.elementAt at found
  split at found
  · cases found
    split
    · exact .null
    · exact belongs_getD fun element held => belongs.elements _ (List.mem_of_getElem? held)
  · split at found
    · cases found
      refine belongs_getD fun held member => ?_
      obtain ⟨entry, listed, rfl⟩ := HashTable.exists_entry_of_findFiled? member
      exact belongs.entries entry listed
    · cases found
  · cases found

end Value

/-- All of some values belong to a store. -/
def AllBelong (store : Store) (values : List Value) : Prop :=
  ∀ value ∈ values, value.Belongs store

theorem AllBelong.mono {store later : Store} {values : List Value} (belong : AllBelong store values)
    (grown : store.Grows later) : AllBelong later values :=
  fun value member => (belong value member).mono grown

/-- What a closed store holds is in it. -/
structure Store.Closed (store : Store) : Prop where
  bound : ∀ (number : Nat) (frame : Scope), store.scopes[number]? = some frame →
    ∀ name value, frame.get? name = some value → value.Belongs store
  older : ∀ (number : Nat) (frame : Scope), store.scopes[number]? = some frame →
    ∀ outer ∈ frame.outer, outer < number

namespace Store

variable {store : Store}

theorem closed_of_no_scopes (none : store.scopes = #[]) : store.Closed :=
  ⟨fun number frame held => by simp [none] at held,
    fun number frame held => by simp [none] at held⟩

theorem grows_freshTag (store : Store) : store.Grows store.freshTag.2 :=
  ⟨Nat.le_succ _, Nat.le_refl _⟩

theorem grows_openScope (store : Store) (outer : Option Nat) :
    store.Grows (store.openScope outer).2 :=
  ⟨Nat.le_refl _, by simp [Store.openScope]⟩

theorem grows_set (store : Store) (scope : Nat) (name : String) (value : Value) :
    store.Grows (store.set scope name value) :=
  ⟨Nat.le_refl _, Nat.le_of_eq (size_scopes_set ..).symm⟩

theorem Closed.freshTag (closed : store.Closed) : store.freshTag.2.Closed :=
  ⟨fun number frame held name value bound =>
    (closed.bound number frame held name value bound).mono store.grows_freshTag, closed.older⟩

theorem Closed.openScope (closed : store.Closed) {outer : Option Nat}
    (present : ∀ scope ∈ outer, scope < store.scopes.size) : (store.openScope outer).2.Closed := by
  constructor
  · intro number frame held name value bound
    simp only [Store.openScope, Array.getElem?_push] at held
    split at held
    · cases held
      cases bound
    · exact (closed.bound number frame held name value bound).mono (store.grows_openScope outer)
  · intro number frame held
    simp only [Store.openScope, Array.getElem?_push] at held
    split at held
    · next last =>
      cases held
      rw [last]
      exact present
    · exact closed.older number frame held

theorem Closed.set (closed : store.Closed) {scope : Nat} {name : String} {value : Value}
    (belongs : value.Belongs store) : (store.set scope name value).Closed := by
  have grown := store.grows_set scope name value
  constructor
  · intro number frame held wanted found bound
    simp only [Store.set, Array.getElem?_modify] at held
    split at held
    · obtain ⟨before, there, rfl⟩ := Option.map_eq_some_iff.mp held
      rw [Scope.get?_set] at bound
      split at bound
      · cases bound
        exact belongs.mono grown
      · exact (closed.bound number before there wanted found bound).mono grown
    · exact (closed.bound number frame held wanted found bound).mono grown
  · intro number frame held
    simp only [Store.set, Array.getElem?_modify] at held
    split at held
    · obtain ⟨before, there, rfl⟩ := Option.map_eq_some_iff.mp held
      exact closed.older number before there
    · exact closed.older number frame held

theorem Closed.setAll (closed : store.Closed) (scope : Nat) {pairs : List (String × Value)}
    (belong : ∀ pair ∈ pairs, pair.2.Belongs store) :
    (pairs.foldl (fun store (name, value) => store.set scope name value) store).Closed ∧
      store.Grows (pairs.foldl (fun store (name, value) => store.set scope name value) store) := by
  induction pairs generalizing store with
  | nil => exact ⟨closed, .refl store⟩
  | cons first rest inductionHypothesis =>
    rw [List.forall_mem_cons] at belong
    have grown := store.grows_set scope first.1 first.2
    obtain ⟨lastClosed, more⟩ := inductionHypothesis (closed.set belong.1) fun pair member =>
      (belong.2 pair member).mono grown
    exact ⟨lastClosed, grown.trans more⟩

/-- What a look-up finds belongs to the store. -/
theorem Closed.get? (closed : store.Closed) {scope : Nat} {name : String} {value : Value}
    (found : store.get? scope name = some value) : value.Belongs store := by
  fun_induction Store.get? store scope name with
  | case1 | case3 | case5 => cases found
  | case2 number frame held own bound =>
    cases found
    exact closed.bound number frame held name value bound
  | case4 number frame held unbound outer around older inductionHypothesis =>
    exact inductionHypothesis found

end Store

/-! ### Computations on closed stores -/

/-- The value of a `return` belongs to the store. -/
def Interrupt.Belongs (store : Store) : Interrupt → Prop
  | returned value => value.Belongs store
  | fault _ _ | depthExceeded => True

namespace Eval

variable {α β : Type} {base : Store} {action : Eval α} {post : Store → α → Prop}

/-- The computation left a closed store that has grown from a given one, where its result has a
property, or where the value of the `return` that cut it short belongs. -/
def Made (base : Store) (post : Store → α → Prop) : EStateM.Result Interrupt Store α → Prop
  | .ok result after => after.Closed ∧ base.Grows after ∧ post after result
  | .error interrupt after => after.Closed ∧ base.Grows after ∧ interrupt.Belongs after

/-- From every closed store that has grown from the given one the computation leaves such a
store. -/
def Makes (base : Store) (action : Eval α) (post : Store → α → Prop) : Prop :=
  ∀ store : Store, store.Closed → base.Grows store → Made base post (action store)

theorem Made.mono {base later : Store} {ended : EStateM.Result Interrupt Store α}
    (made : Made later post ended) (grown : base.Grows later) : Made base post ended := by
  cases ended with
  | ok result after => exact ⟨made.1, grown.trans made.2.1, made.2.2⟩
  | error interrupt after => exact ⟨made.1, grown.trans made.2.1, made.2.2⟩

theorem makes_pure {result : α} (holds : ∀ store, base.Grows store → post store result) :
    Makes base (pure result) post :=
  fun store closed grown => ⟨closed, grown, holds store grown⟩

theorem makes_fail (cause : Fault) : Makes base (fail cause) post :=
  fun _ closed grown => ⟨closed, grown, trivial⟩

theorem Makes.bind {middle : Store → α → Prop} {continuation : α → Eval β}
    {post : Store → β → Prop} (first : Makes base action middle)
    (rest : ∀ between result, base.Grows between → middle between result →
      Makes between (continuation result) post) :
    Makes base (action >>= continuation) post := by
  intro store closed grown
  have made := first store closed grown
  rw [bind_run]
  cases run : action store with
  | ok result between =>
    rw [run] at made
    obtain ⟨nowClosed, nowGrown, holds⟩ := made
    exact (rest between result nowGrown holds between nowClosed (.refl between)).mono nowGrown
  | error interrupt between =>
    rw [run] at made
    exact made

theorem makes_encode (value : Value) : Makes base (encode value) fun _ _ => True := by
  intro store closed grown
  rw [encode_run]
  cases value.unencodable? store.lone <;> exact ⟨closed, grown, trivial⟩

theorem makes_ofExcept {rule : Except Fault α}
    (holds : ∀ result, rule = .ok result → ∀ store, base.Grows store → post store result) :
    Makes base (ofExcept rule) post := by
  cases rule with
  | ok result => exact makes_pure (holds result rfl)
  | error cause => exact makes_fail cause

/-- The store that is looked at is the closed store of this moment. -/
theorem makes_get : Makes base get fun between store => store = between ∧ store.Closed :=
  fun _ closed grown => ⟨closed, grown, rfl, closed⟩

theorem makes_freshTag : Makes base freshTag fun store tag => tag < store.nextTag :=
  fun store closed grown =>
    ⟨closed.freshTag, grown.trans store.grows_freshTag, Nat.lt_succ_self _⟩

theorem makes_newArray {elements : List Value} (inner : AllBelong base elements) :
    Makes base (newArray elements) Value.Belongs := by
  refine makes_freshTag.bind fun between tag grown tagged => ?_
  refine makes_pure fun store more => ?_
  exact .array (Nat.lt_of_lt_of_le tagged more.tags) (inner.mono (grown.trans more))

theorem Makes.locating (makes : Makes base action post) (node : Node) :
    Makes base (locating node action) post := by
  intro store closed grown
  have made := makes store closed grown
  unfold Eval.locating
  split
  · next cause after run =>
    rw [run] at made
    exact made
  · exact made

theorem Makes.catchReturn {action : Eval Value} (makes : Makes base action Value.Belongs) :
    Makes base (catchReturn action) Value.Belongs := by
  intro store closed grown
  have made := makes store closed grown
  unfold Eval.catchReturn
  split
  · next value after run =>
    rw [run] at made
    exact made
  · exact made

theorem makes_elements (builtin : Builtin) {argument : Value} (belongs : argument.Belongs base) :
    Makes base (ofExcept (builtin.elements argument)) AllBelong := by
  refine makes_ofExcept fun elements found store grown => ?_
  unfold Builtin.elements at found
  split at found
  · cases found
    exact AllBelong.mono belongs.elements grown
  · cases found

theorem makes_presentElement {found : Option Value}
    (belongs : ∀ element ∈ found, element.Belongs base) :
    Makes base (ofExcept (presentElement found)) Value.Belongs := by
  cases found with
  | none => exact makes_fail _
  | some element => exact makes_pure fun store grown => (belongs element rfl).mono grown

theorem makes_removeAt {elements : List Value} (belong : AllBelong base elements)
    (place : Value) : Makes base (ofExcept (removeAt elements place)) AllBelong := by
  refine makes_ofExcept fun remaining found store grown => ?_
  unfold removeAt at found
  split at found
  · split at found
    · cases found
      exact fun element member =>
        (belong element (List.mem_of_mem_eraseIdx member)).mono grown
    · cases found
  · cases found

theorem makes_length (argument : Value) :
    Makes base (ofExcept argument.length) Value.Belongs := by
  refine makes_ofExcept fun value found store grown => ?_
  unfold Value.length at found
  split at found
  all_goals cases found
  all_goals exact .atom _

theorem makes_apply (builtin : Builtin) {arguments : List Value}
    (belong : AllBelong base arguments) :
    Makes base (builtin.apply arguments) Value.Belongs := by
  unfold Builtin.apply
  split
  · next value => exact (makes_encode value).bind fun _ _ _ _ => makes_length value
  · next array =>
    refine (makes_elements _ (belong array List.mem_cons_self)).bind
      fun between elements _ inner => ?_
    exact makes_presentElement fun element member => inner element (List.mem_of_head? member)
  · next array =>
    refine (makes_elements _ (belong array List.mem_cons_self)).bind
      fun between elements _ inner => ?_
    exact makes_presentElement fun element member => inner element (List.mem_of_getLast? member)
  · next array value =>
    refine (makes_elements _ (belong array List.mem_cons_self)).bind
      fun between elements grown inner => makes_newArray ?_
    have added := (belong value (List.mem_cons_of_mem _ List.mem_cons_self)).mono grown
    exact List.forall_mem_append.mpr ⟨inner, List.forall_mem_singleton.mpr added⟩
  · next array place =>
    refine (makes_elements _ (belong array List.mem_cons_self)).bind
      fun between elements _ inner => ?_
    exact (makes_removeAt inner place).bind fun _ _ _ remaining => makes_newArray remaining
  · exact makes_fail _

end Eval

/-! ### Evaluation -/

namespace Evaluator

open Eval

variable {base : Store} {scope : Nat} {meaning called : Meaning}

/-- Every node that is evaluated in a scope of a closed store leaves a closed store and gives a
value that belongs there. -/
def MakesMeaning (meaning : Meaning) : Prop :=
  ∀ (base : Store) (scope : Nat) (node : Node), scope < base.scopes.size →
    Makes base (meaning scope node) Value.Belongs

theorem makes_resolve (name : String) : Makes base (resolve scope name) Value.Belongs := by
  unfold resolve
  refine makes_get.bind fun between store grown seen => ?_
  obtain ⟨rfl, closed⟩ := seen
  split
  · next value found => exact makes_pure fun _ more => (closed.get? found).mono more
  · split
    · next builtin _ => exact makes_pure fun _ _ => .builtin builtin
    · exact makes_fail _

theorem makes_leafValue (leaf : Leaf) : Makes base (leafValue scope leaf) Value.Belongs := by
  unfold leafValue
  split
  · split
    · exact makes_pure fun _ _ => .atom _
    · exact makes_fail _
  · exact makes_pure fun _ _ => .atom _
  · exact makes_pure fun _ _ => .atom _
  · exact makes_pure fun _ _ => .atom _
  · exact makes_resolve _
  · exact makes_fail _

theorem makes_bindName {name : String} {value : Value} (belongs : value.Belongs base) :
    Makes base (bindName scope name value) fun _ _ => True :=
  fun store closed grown => ⟨closed.set (belongs.mono grown),
    grown.trans (store.grows_set scope name value), trivial⟩

theorem makes_bindAll {names : List String} {values : List Value}
    (belong : AllBelong base values) :
    Makes base (bindAll scope names values) fun _ _ => True := by
  intro store closed grown
  have bound : ∀ pair ∈ names.zip values, pair.2.Belongs store :=
    fun pair member => (belong pair.2 (List.of_mem_zip member).2).mono grown
  obtain ⟨after, more⟩ := closed.setAll scope bound
  exact ⟨after, grown.trans more, trivial⟩

theorem makes_openScope {closure : Nat} (present : closure < base.scopes.size) :
    Makes base (modifyGet fun store => store.openScope (some closure))
      fun store opened => opened < store.scopes.size := by
  intro store closed grown
  refine ⟨closed.openScope ?_, grown.trans (store.grows_openScope _), ?_⟩
  · rintro outer ⟨⟩
    exact Nat.lt_of_lt_of_le present grown.scopes
  · show store.scopes.size < (store.scopes.push _).size
    rw [Array.size_push]
    exact Nat.lt_succ_self _

theorem makes_checkCount (expected : Nat) (arguments : List Value) :
    Makes base (checkCount expected arguments) fun _ _ => True := by
  unfold checkCount
  split
  · exact makes_pure fun _ _ => trivial
  · exact makes_fail _

section

variable (makes : MakesMeaning meaning)

include makes

theorem makes_sequence (present : scope < base.scopes.size) {last : Value}
    (belongs : last.Belongs base) (statements : List Node) :
    Makes base (sequence meaning scope last statements) Value.Belongs := by
  induction statements generalizing base last with
  | nil => exact makes_pure fun store grown => belongs.mono grown
  | cons first rest inductionHypothesis =>
    refine (makes base scope first present).bind fun between value grown valueBelongs => ?_
    exact inductionHypothesis (Nat.lt_of_lt_of_le present grown.scopes) valueBelongs

theorem makes_values (present : scope < base.scopes.size) (nodes : List Node) :
    Makes base (values meaning scope nodes) AllBelong := by
  induction nodes generalizing base with
  | nil => exact makes_pure fun _ _ => nofun
  | cons first rest inductionHypothesis =>
    refine (makes base scope first present).bind fun between value grown belongs => ?_
    refine (inductionHypothesis (Nat.lt_of_lt_of_le present grown.scopes)).bind
      fun later others more belong => ?_
    exact makes_pure fun store last => List.forall_mem_cons.mpr
      ⟨belongs.mono (more.trans last), belong.mono last⟩

omit makes in
theorem makes_element {container : Value} (belongs : container.Belongs base) (index : Value) :
    Makes base (element container index) Value.Belongs := by
  have looked {between : Store} (grown : base.Grows between) :
      Makes between (.ofExcept (container.elementAt index)) Value.Belongs :=
    makes_ofExcept fun _ found _ more => (belongs.elementAt found).mono (grown.trans more)
  unfold element
  split
  · exact (makes_encode index).bind fun _ _ grown _ => looked grown
  · exact looked (.refl base)

theorem makes_hashEntries (present : scope < base.scopes.size) {entries : List (HashEntry Value)}
    (belong : ∀ entry ∈ entries, entry.value.Belongs base) (pairs : List Node) :
    Makes base (hashEntries meaning scope entries pairs)
      fun store found => ∀ entry ∈ found, entry.value.Belongs store := by
  induction pairs generalizing base entries with
  | nil => exact makes_pure fun store grown entry member => (belong entry member).mono grown
  | cons pair rest inductionHypothesis =>
    unfold hashEntries
    split
    · refine (makes base scope _ present).bind fun between key grown _ => ?_
      split
      · exact makes_fail _
      · next atom _ =>
        have still := Nat.lt_of_lt_of_le present grown.scopes
        refine (makes between scope _ still).bind fun later value more valueBelongs => ?_
        refine (makes_encode _).bind fun last _ most _ => ?_
        have there := Nat.lt_of_lt_of_le still (more.trans most).scopes
        refine inductionHypothesis there fun entry member => ?_
        rcases HashTable.eq_or_mem_of_mem_put member with rfl | kept
        · exact valueBelongs.mono most
        · exact (belong entry kept).mono (grown.trans (more.trans most))
    · exact makes_fail _

/-- A call runs the body of the function in a scope inside the one of the function, and that
one is there because the function belongs to the store. -/
theorem makes_call {callee : Value} (belongs : callee.Belongs base) {arguments : List Value}
    (belong : AllBelong base arguments) :
    Makes base (call meaning callee arguments) Value.Belongs := by
  cases belongs with
  | function tagged present =>
    refine (makes_checkCount _ _).bind fun between _ grown _ => ?_
    refine (makes_openScope (Nat.lt_of_lt_of_le present grown.scopes)).bind
      fun opened scope more openedPresent => ?_
    refine (makes_bindAll (belong.mono (grown.trans more))).bind fun entered _ last _ => ?_
    exact (makes_sequence makes (Nat.lt_of_lt_of_le openedPresent last.scopes) .null _).catchReturn
  | builtin which =>
    refine (makes_checkCount _ _).bind fun between _ grown _ => ?_
    exact makes_apply which (belong.mono grown)
  | atom | null | array | hash | error => exact makes_fail _

end

theorem makes_treeValue (makes : MakesMeaning meaning) (makesCalled : MakesMeaning called)
    (present : scope < base.scopes.size) (label : Label) (children : List Node) :
    Makes base (treeValue meaning called scope label children) Value.Belongs := by
  unfold treeValue
  split
  · exact (makes_sequence makes present .null _).catchReturn
  · exact makes base scope _ present
  · exact makes_sequence makes present .null _
  · split
    · exact makes_fail _
    · refine (makes base scope _ present).bind fun between value grown belongs => ?_
      refine (makes_bindName belongs).bind fun _ _ _ _ => ?_
      exact makes_pure fun _ _ => .null
  · refine (makes base scope _ present).bind fun between value grown belongs => ?_
    exact fun store closed more => ⟨closed, more, belongs.mono more⟩
  · refine (makes base scope _ present).bind fun between decided grown _ => ?_
    have still := Nat.lt_of_lt_of_le present grown.scopes
    split
    · exact makes between scope _ still
    · split
      · exact makes_pure fun _ _ => .null
      · exact makes between scope _ still
  · refine (makes base scope _ present).bind fun between operand grown _ => ?_
    refine makes_ofExcept fun value applied store _ => ?_
    obtain ⟨content, rfl⟩ := UnaryOperator.apply_ok applied
    exact .atom content
  · refine (makes base scope _ present).bind fun between left grown _ => ?_
    refine (makes between scope _ (Nat.lt_of_lt_of_le present grown.scopes)).bind
      fun later right more _ => ?_
    refine makes_ofExcept fun value applied store _ => ?_
    obtain ⟨content, rfl⟩ := BinaryOperator.apply_ok applied
    exact .atom content
  · refine makes_freshTag.bind fun between tag grown tagged => ?_
    exact makes_pure fun store more => .function (Nat.lt_of_lt_of_le tagged more.tags)
      (Nat.lt_of_lt_of_le present (grown.trans more).scopes)
  · refine (makes base scope _ present).bind fun between callee grown belongs => ?_
    refine (makes_values makes (Nat.lt_of_lt_of_le present grown.scopes) _).bind
      fun later arguments more belong => ?_
    exact makes_call makesCalled (belongs.mono more) belong
  · exact (makes_values makes present _).bind fun between elements grown => makes_newArray
  · refine (makes base scope _ present).bind fun between container grown belongs => ?_
    refine (makes between scope _ (Nat.lt_of_lt_of_le present grown.scopes)).bind
      fun later index more _ => ?_
    exact makes_element (belongs.mono more) index
  · have none : ∀ entry ∈ ([] : List (HashEntry Value)), entry.value.Belongs base := nofun
    refine (makes_hashEntries makes present none _).bind fun between entries grown belong => ?_
    refine makes_freshTag.bind fun later tag more tagged => ?_
    exact makes_pure fun store last => .hash (Nat.lt_of_lt_of_le tagged last.tags)
      fun entry member => (belong entry member).mono (more.trans last)
  all_goals exact makes_fail _

theorem makesMeaning_step (makes : MakesMeaning meaning) (makesCalled : MakesMeaning called) :
    MakesMeaning (step meaning called) := by
  intro base scope node present
  refine Makes.locating ?_ node
  cases node with
  | hole => exact makes_fail _
  | leaf leaf => exact makes_leafValue leaf
  | tree label children => exact makes_treeValue makes makesCalled present label children

theorem makesMeaning_eval (frames : Nat) : MakesMeaning (eval frames) :=
  eval_induction (P := MakesMeaning) (fun _ makes base scope node => makes node base scope node)
    (fun _ _ _ _ _ closed grown => ⟨closed, grown, trivial⟩) makesMeaning_step frames

end Evaluator

/-! ### Runs -/

namespace Session

open Eval Evaluator

theorem makes_statements {meaning : Meaning} (makes : MakesMeaning meaning) {base : Store}
    {scope : Nat} (present : scope < base.scopes.size) {last : Outcome}
    (belongs : last.value.Belongs base) (nodes : List Node) :
    Makes base (statements meaning scope last nodes)
      fun store outcome => outcome.value.Belongs store := by
  induction nodes generalizing base last with
  | nil => exact makes_pure fun store grown => belongs.mono grown
  | cons first rest inductionHypothesis =>
    refine (makes base scope first present).bind fun between value grown valueBelongs => ?_
    exact inductionHypothesis (Nat.lt_of_lt_of_le present grown.scopes) valueBelongs

/-- A run in a scope of a closed store leaves a closed store, where its value belongs. -/
theorem runProgram_closed {store : Store} (closed : store.Closed) {scope : Nat}
    (present : scope < store.scopes.size) (limit : Nat) (program : Node) :
    (runProgram limit scope program store).2.Closed ∧
      store.Grows (runProgram limit scope program store).2 ∧
      (runProgram limit scope program store).1.value.Belongs
        (runProgram limit scope program store).2 := by
  have started : (⟨.null, none⟩ : Outcome).value.Belongs store := .null
  have made := makes_statements (makesMeaning_eval limit) present started program.children store
    closed (.refl store)
  rw [runProgram]
  split
  · next outcome after run =>
    rw [run] at made
    exact made
  · next value after run =>
    rw [run] at made
    exact made
  · next cause place after run =>
    rw [run] at made
    exact ⟨made.1.freshTag, made.2.1.trans after.grows_freshTag, .error (Nat.lt_succ_self _)⟩
  · next after run =>
    rw [run] at made
    exact ⟨made.1.freshTag, made.2.1.trans after.grows_freshTag, .error (Nat.lt_succ_self _)⟩

theorem closed_fresh (lone : Char → Bool) : Store.Closed { fresh.2 with lone } :=
  (@Store.closed_of_no_scopes ⟨#[], 0, lone⟩ rfl).openScope nofun

/-- Every store of a session is closed, and the scope of the environment stays in it. -/
theorem Reached.closed {store : Store} (reached : Reached store) :
    store.Closed ∧ fresh.1 < store.scopes.size := by
  induction reached with
  | start lone => exact ⟨closed_fresh lone, Nat.zero_lt_one⟩
  | @run limit text store after outcome before ran inductionHypothesis =>
    obtain ⟨closed, present⟩ := inductionHypothesis
    rw [runText_of_accepted (accepted_of_runText ran)] at ran
    have kept := runProgram_closed closed present limit (readSource text).program
    rw [Except.ok.inj ran] at kept
    exact ⟨kept.1, Nat.lt_of_lt_of_le present kept.2.1.scopes⟩

end Session

end Scriptlet
