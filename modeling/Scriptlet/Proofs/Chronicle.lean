/-
This file keeps the history of the scopes of a store. Two things are ever done to them: a scope is
opened, inside another one or on its own, and a name is bound in a scope. Each is a `Deed`, and
`Deed.Done` says what deeds one after the other make of the scopes.

An evaluation does many deeds. `Evaluator.deeds` lists them in their order, those of the nodes
inside a node and of the functions that it calls included: a `let` binds its name when its value is
there, and a call opens a scope and binds the parameters in it before the body starts. That these
are all of them is the statement of `Evaluator.accounts_eval`: done again, they give the scopes that
the evaluation leaves, however it ends. That they stand in the right order is the statement of
`Evaluator.Visits.passes`: the evaluation comes to each of its points when the deeds in front of it
are done and no others.
-/

import Scriptlet.Proofs.Frame
import Scriptlet.Proofs.Nesting

namespace Scriptlet

/-- One thing that is done to the scopes of a store. -/
inductive Deed where
  | opened (outer : Option Nat)
  | bound (scope : Nat) (name : String) (value : Value)

namespace Deed

/-- Doing the deeds one after the other turns the first scopes into the second. A name is bound
in a scope that is there. -/
inductive Done : Array Scope → List Deed → Array Scope → Prop where
  | nothing (scopes : Array Scope) : Done scopes [] scopes
  | opened {scopes after : Array Scope} {outer : Option Nat} {later : List Deed}
      (rest : Done (scopes.push ⟨outer, []⟩) later after) :
      Done scopes (.opened outer :: later) after
  | bound {scopes after : Array Scope} {scope : Nat} {name : String} {value : Value}
      {later : List Deed} (present : scope < scopes.size)
      (rest : Done (scopes.modify scope fun frame => frame.set name value) later after) :
      Done scopes (.bound scope name value :: later) after

variable {scopes middle after : Array Scope} {deeds later : List Deed}

theorem Done.append (first : Done scopes deeds middle) (rest : Done middle later after) :
    Done scopes (deeds ++ later) after := by
  induction first with
  | nothing => exact rest
  | opened _ inductionHypothesis => exact .opened (inductionHypothesis rest)
  | bound present _ inductionHypothesis => exact .bound present (inductionHypothesis rest)

/-- Between the deeds of two lists there is a moment. -/
theorem Done.split (done : Done scopes (deeds ++ later) after) :
    ∃ middle, Done scopes deeds middle ∧ Done middle later after := by
  induction deeds generalizing scopes with
  | nil => exact ⟨scopes, .nothing scopes, done⟩
  | cons deed rest inductionHypothesis =>
    cases done with
    | opened done =>
      obtain ⟨middle, before, behind⟩ := inductionHypothesis done
      exact ⟨middle, .opened before, behind⟩
    | bound present done =>
      obtain ⟨middle, before, behind⟩ := inductionHypothesis done
      exact ⟨middle, .bound present before, behind⟩

theorem Done.size_le (done : Done scopes deeds after) : scopes.size ≤ after.size := by
  induction done with
  | nothing => exact Nat.le_refl _
  | opened _ inductionHypothesis =>
    rw [Array.size_push] at inductionHypothesis
    exact Nat.le_of_succ_le inductionHypothesis
  | bound _ _ inductionHypothesis =>
    rwa [Array.size_modify] at inductionHypothesis

theorem done_set (store : Store) {scope : Nat} (present : scope < store.scopes.size) (name : String)
    (value : Value) :
    Done store.scopes [.bound scope name value] (store.set scope name value).scopes :=
  .bound present (.nothing _)

theorem done_setAll (store : Store) {scope : Nat} (present : scope < store.scopes.size)
    (pairs : List (String × Value)) :
    Done store.scopes (pairs.map fun (name, value) => .bound scope name value)
      (pairs.foldl (fun store (name, value) => store.set scope name value) store).scopes := by
  induction pairs generalizing store with
  | nil => exact .nothing _
  | cons first rest inductionHypothesis =>
    have kept := store.framed_set scope first.1 first.2
    exact (done_set store present first.1 first.2).append
      (inductionHypothesis (store.set scope first.1 first.2) (Nat.lt_of_lt_of_le present kept.size))

end Deed

open Deed (Done)

/-- The two stores have the same scopes, and may differ in the tags that they have handed out. -/
def Store.SameScopes (before after : Store) : Prop :=
  after.scopes = before.scopes

instance : Store.Change Store.SameScopes where
  refl _ := rfl
  trans first second := second.trans first

/-! ### What a computation does -/

namespace Eval

open Store (SameScopes)

variable {α β : Type} {action : Eval α} {continuation : α → Eval β} {store : Store}
  {deeds : List Deed}

/-- However the computation ends, from this store it does these deeds. -/
def Does (action : Eval α) (store : Store) (deeds : List Deed) : Prop :=
  Done store.scopes deeds (action.after store).scopes

/-- The deeds that come behind a computation, unless it was cut short. -/
def thenDeeds (ended : EStateM.Result Interrupt Store α) (later : α → Store → List Deed) :
    List Deed :=
  match ended with
  | .ok result after => later result after
  | .error _ _ => []

theorem does_nothing (still : Keeps SameScopes action) : Does action store [] := by
  rw [Does, show (action.after store).scopes = store.scopes from still store]
  exact .nothing _

theorem Does.size_le (does : Does action store deeds) {result : α} {middle : Store}
    (ran : action store = .ok result middle) : store.scopes.size ≤ middle.scopes.size := by
  have grown := Done.size_le does
  rwa [after, ran] at grown

theorem Does.bind (first : Does action store deeds) {later : α → Store → List Deed}
    (rest : ∀ result middle, action store = .ok result middle →
      Does (continuation result) middle (later result middle)) :
    Does (action >>= continuation) store (deeds ++ thenDeeds (action store) later) := by
  rw [Does, after] at first
  rw [Does, after, bind_run]
  cases ran : action store with
  | ok result middle =>
    rw [ran] at first
    exact first.append (rest result middle ran)
  | error interrupt middle =>
    rw [ran] at first
    rw [thenDeeds, List.append_nil]
    exact first

/-- Behind the deeds of a computation nothing more is done. -/
theorem Does.bind_still (first : Does action store deeds)
    (still : ∀ result, Keeps SameScopes (continuation result)) :
    Does (action >>= continuation) store deeds := by
  rw [Does, after] at first
  rw [Does, after, bind_run]
  cases ran : action store with
  | ok result middle =>
    rw [ran] at first
    have same : ((continuation result).after middle).scopes = middle.scopes := still result middle
    rw [after] at same
    dsimp only
    rw [same]
    exact first
  | error interrupt middle =>
    rw [ran] at first
    exact first

theorem does_map (form : α → β) : Does (form <$> action) store deeds ↔
    Does action store deeds := by
  have same : (form <$> action).after store = action.after store := by
    rw [map_eq_pure_bind, after, after, bind_run]
    cases action store <;> rfl
  rw [Does, same]
  rfl

theorem does_locating (node : Node) : Does (locating node action) store deeds ↔
    Does action store deeds := by
  have keeps : Keeps (fun before later => later = action.after before) action := fun _ => rfl
  rw [Does, keeps.locating node store]
  rfl

theorem does_catchReturn {action : Eval Value} :
    Does (catchReturn action) store deeds ↔ Does action store deeds := by
  have keeps : Keeps (fun before later => later = action.after before) action := fun _ => rfl
  rw [Does, keeps.catchReturn store]
  rfl

theorem keeps_freshTag_sameScopes : Keeps SameScopes freshTag :=
  fun _ => rfl

end Eval

namespace Evaluator

open Eval

/-- What the evaluation of a node in a scope does, from a store. -/
abbrev Account : Type := Nat → Node → Store → List Deed

section

variable (meaning : Meaning) (account : Account) (scope : Nat)

/-- What some nodes do, one after the other. One that is cut short is the last. -/
def nodesDeeds : List Node → Store → List Deed
  | [], _ => []
  | node :: rest, store =>
    account scope node store ++ thenDeeds (meaning scope node store) fun _ => nodesDeeds rest

/-- What the pairs of a hash do. A key that is no atom or cannot be encoded is the last. -/
def pairsDeeds : List Node → Store → List Deed
  | [], _ => []
  | pair :: rest, store =>
    match pair.operands with
    | [keyNode, valueNode] =>
      account scope keyNode store ++ thenDeeds (meaning scope keyNode store) fun key middle =>
        match key.atom? with
        | none => []
        | some _ =>
          account scope valueNode middle ++
            thenDeeds (meaning scope valueNode middle) fun _ later =>
              thenDeeds (encode key later) fun _ => pairsDeeds rest
    | _ => []

end

/-- What a call does, given what the statements of a function body do. -/
def callDeeds (called : Meaning) (account : Account) (callee : Value) (arguments : List Value)
    (store : Store) : List Deed :=
  match callee with
  | .function _ parameters body closure =>
    if arguments.length = parameters.length then
      .opened (some closure) ::
        ((parameters.zip arguments).map fun (name, value) => .bound store.scopes.size name value) ++
        nodesDeeds called account store.scopes.size body.operands
          (store.entered closure parameters arguments)
    else
      []
  | _ => []

/-- What one step of the evaluator does, given what the nodes inside a node do and what the
statements of a function body do. -/
def stepDeeds (meaning called : Meaning) (inner body : Account) : Account := fun scope node store =>
  match node with
  | .tree .letStatement [_, name, valueNode] =>
    match name.identifier? with
    | none => []
    | some name =>
      inner scope valueNode store ++ thenDeeds (meaning scope valueNode store) fun value _ =>
        [.bound scope name value]
  | .tree .conditional (_ :: condition :: consequence :: alternative) =>
    inner scope condition store ++ thenDeeds (meaning scope condition store) fun decided middle =>
      match if decided.isTruthy then some consequence else alternative.head? with
      | none => []
      | some branch => inner scope branch middle
  | .tree .call (_ :: calleeNode :: argumentNodes) =>
    inner scope calleeNode store ++ thenDeeds (meaning scope calleeNode store) fun callee middle =>
      nodesDeeds meaning inner scope argumentNodes middle ++
        thenDeeds (values meaning scope argumentNodes middle) fun arguments later =>
          callDeeds called body callee arguments later
  | .tree .hash children => pairsDeeds meaning inner scope children.tail store
  | node => nodesDeeds meaning inner scope (premises node) store

/-- What the evaluation of a node does when so many frames are left. -/
def deeds : Nat → Account
  | frames + 5, scope, node, store =>
    stepDeeds (eval (frames + spare node)) (eval frames)
      (if runsStatements node then deeds (frames + 2) else deeds (frames + 3)) (deeds frames) scope
      node store
  | _, _, _, _ => []

theorem deeds_add_five (frames scope : Nat) (node : Node) (store : Store) :
    deeds (frames + 5) scope node store =
      stepDeeds (eval (frames + spare node)) (eval frames) (deeds (frames + spare node))
        (deeds frames) scope node store := by
  rw [deeds, spare]
  split <;> rfl

/-! ### The evaluator does these deeds -/

variable {meaning called : Meaning} {account body : Account} {scope : Nat} {store : Store}

/-- The account has what every evaluation in a scope that is there does. -/
def Accounts (meaning : Meaning) (account : Account) : Prop :=
  ∀ (scope : Nat) (node : Node) (store : Store), scope < store.scopes.size →
    Does (meaning scope node) store (account scope node store)

section

variable (accounts : Accounts meaning account)

include accounts

theorem does_values (present : scope < store.scopes.size) (nodes : List Node) :
    Does (values meaning scope nodes) store (nodesDeeds meaning account scope nodes store) := by
  induction nodes generalizing store with
  | nil => exact does_nothing (keeps_pure [])
  | cons first rest inductionHypothesis =>
    have begins := accounts scope first store present
    refine begins.bind fun value middle ran => ?_
    have still := Nat.lt_of_lt_of_le present (begins.size_le ran)
    exact (inductionHypothesis still).bind_still fun others => keeps_pure _

theorem does_sequence (present : scope < store.scopes.size) (last : Value) (nodes : List Node) :
    Does (sequence meaning scope last nodes) store
      (nodesDeeds meaning account scope nodes store) := by
  rw [sequence_eq_values]
  exact (does_values accounts present nodes).bind_still fun results => keeps_pure _

theorem does_hashEntries (present : scope < store.scopes.size) (entries : List (HashEntry Value))
    (pairs : List Node) :
    Does (hashEntries meaning scope entries pairs) store
      (pairsDeeds meaning account scope pairs store) := by
  induction pairs generalizing entries store with
  | nil => exact does_nothing (keeps_pure entries)
  | cons pair rest inductionHypothesis =>
    rw [hashEntries, pairsDeeds]
    generalize pair.operands = parts
    rcases parts with _ | ⟨keyNode, _ | ⟨valueNode, _ | ⟨_, _⟩⟩⟩
    case cons.cons.cons.nil =>
      have begins := accounts scope keyNode store present
      refine begins.bind fun key middle ran => ?_
      have still := Nat.lt_of_lt_of_le present (begins.size_le ran)
      cases key.atom? with
      | none => exact does_nothing (keeps_throw _)
      | some atom =>
        have goesOn := accounts scope valueNode middle still
        refine goesOn.bind fun value later ran => ?_
        refine (does_nothing (keeps_encode key)).bind fun _ _ ranEncode => ?_
        obtain ⟨-, rfl⟩ := encode_eq_ok_iff.mp ranEncode
        exact inductionHypothesis (Nat.lt_of_lt_of_le still (goesOn.size_le ran)) _
    all_goals exact does_nothing (keeps_throw _)

omit accounts in
/-- A call opens a scope and binds the parameters in it. -/
theorem done_entered (store : Store) (closure : Nat) (parameters : List String)
    (arguments : List Value) :
    store.scopes.size < (store.entered closure parameters arguments).scopes.size ∧
      Done store.scopes
        (.opened (some closure) ::
          ((parameters.zip arguments).map fun (name, value) =>
            .bound store.scopes.size name value))
        (store.entered closure parameters arguments).scopes := by
  have present : store.scopes.size < (store.openScope (some closure)).2.scopes.size := by
    simp [Store.openScope]
  have bindings := Deed.done_setAll (store.openScope (some closure)).2 present
    (parameters.zip arguments)
  exact ⟨Nat.lt_of_lt_of_le present bindings.size_le, .opened bindings⟩

theorem does_call (callee : Value) (arguments : List Value) (store : Store) :
    Does (call meaning callee arguments) store
      (callDeeds meaning account callee arguments store) := by
  cases callee with
  | function tag parameters body closure =>
    rw [callDeeds]
    split
    · next counted =>
      obtain ⟨present, entered⟩ := done_entered store closure parameters arguments
      rw [Does, after, call_function counted]
      exact entered.append (does_catchReturn.mpr (does_sequence accounts present .null _))
    · next miscounted =>
      have fails : call meaning (.function tag parameters body closure) arguments =
          Eval.fail (.wrongArgumentCount arguments.length parameters.length) := by
        simp only [call, checkCount, if_neg miscounted]
        rfl
      rw [fails]
      exact does_nothing (keeps_throw _)
  | builtin builtin =>
    exact does_nothing ((keeps_checkCount _ _).bind fun _ =>
      keeps_apply keeps_freshTag_sameScopes _ _)
  | atom | null | array | hash | error => exact does_nothing (keeps_throw _)

end

theorem does_treeValue (accounts : Accounts meaning account) (accountsCalled : Accounts called body)
    (present : scope < store.scopes.size) (label : Label) (children : List Node) :
    Does (treeValue meaning called scope label children) store
      (stepDeeds meaning called account body scope (.tree label children) store) := by
  have one (node : Node) {continuation : Value → Eval Value}
      (still : ∀ value, Keeps Store.SameScopes (continuation value)) :
      Does (meaning scope node >>= continuation) store
        (nodesDeeds meaning account scope [node] store) :=
    (accounts scope node store present).bind fun value middle _ => does_nothing (still value)
  have two (left right : Node) {rule : Value → Value → Eval Value}
      (still : ∀ first second, Keeps Store.SameScopes (rule first second)) :
      Does (meaning scope left >>= fun first => meaning scope right >>= rule first) store
        (nodesDeeds meaning account scope [left, right] store) := by
    have begins := accounts scope left store present
    refine begins.bind fun first middle ran => ?_
    exact (accounts scope right middle (Nat.lt_of_lt_of_le present (begins.size_le ran))).bind
      fun second later _ => does_nothing (still first second)
  cases label with
  | program => exact does_catchReturn.mpr (does_sequence accounts present _ _)
  | expressionStatement =>
    cases children with
    | nil => exact does_nothing (keeps_throw _)
    | cons expression others =>
      have does := one expression keeps_pure
      rw [bind_pure] at does
      exact does
  | block => exact does_sequence accounts present _ _
  | letStatement =>
    rcases children with _ | ⟨word, _ | ⟨name, _ | ⟨valueNode, _ | ⟨_, _⟩⟩⟩⟩
    case cons.cons.cons.nil =>
      unfold treeValue stepDeeds
      dsimp only
      cases name.identifier? with
      | none => exact does_nothing (keeps_throw _)
      | some name =>
        have begins := accounts scope valueNode store present
        refine begins.bind fun value middle ran => ?_
        have still := Nat.lt_of_lt_of_le present (begins.size_le ran)
        have binds : Does (bindName scope name value) middle [.bound scope name value] :=
          Deed.done_set middle still name value
        exact binds.bind_still fun _ => keeps_pure _
    all_goals exact does_nothing (keeps_throw _)
  | returnStatement =>
    rcases children with _ | ⟨word, _ | ⟨valueNode, _ | ⟨_, _⟩⟩⟩
    case cons.cons.nil => exact one valueNode fun value => keeps_throw _
    all_goals exact does_nothing (keeps_throw _)
  | conditional =>
    rcases children with _ | ⟨word, _ | ⟨condition, _ | ⟨consequence, alternative⟩⟩⟩
    case cons.cons.cons =>
      have begins := accounts scope condition store present
      refine begins.bind fun decided middle ran => ?_
      have still := Nat.lt_of_lt_of_le present (begins.size_le ran)
      split
      · exact accounts scope consequence middle still
      · cases alternative with
        | nil => exact does_nothing (keeps_pure _)
        | cons branch others => exact accounts scope branch middle still
    all_goals exact does_nothing (keeps_throw _)
  | unary =>
    rcases children with _ | ⟨operator, _ | ⟨operand, _ | ⟨_, _⟩⟩⟩
    case cons.cons.nil => exact one operand fun value => keeps_ofExcept _
    all_goals exact does_nothing (keeps_throw _)
  | binary =>
    rcases children with _ | ⟨operator, _ | ⟨left, _ | ⟨right, _ | ⟨_, _⟩⟩⟩⟩
    case cons.cons.cons.nil => exact two left right fun _ _ => keeps_ofExcept _
    all_goals exact does_nothing (keeps_throw _)
  | function =>
    rcases children with _ | ⟨word, _ | ⟨parameters, _ | ⟨body, _ | ⟨_, _⟩⟩⟩⟩
    case cons.cons.cons.nil =>
      -- The scope is opened by the call; until then the function only keeps the number of its own.
      exact does_nothing (keeps_freshTag_sameScopes.bind fun _ => keeps_pure _)
    all_goals exact does_nothing (keeps_throw _)
  | call =>
    rcases children with _ | ⟨opening, _ | ⟨calleeNode, argumentNodes⟩⟩
    case cons.cons =>
      have begins := accounts scope calleeNode store present
      refine begins.bind fun callee middle ran => ?_
      have still := Nat.lt_of_lt_of_le present (begins.size_le ran)
      refine (does_values accounts still argumentNodes).bind fun arguments later _ => ?_
      exact does_call accountsCalled callee arguments later
    all_goals exact does_nothing (keeps_throw _)
  | array =>
    exact (does_values accounts present _).bind_still fun elements =>
      keeps_newArray keeps_freshTag_sameScopes elements
  | index =>
    rcases children with _ | ⟨opening, _ | ⟨container, _ | ⟨index, _ | ⟨_, _⟩⟩⟩⟩
    case cons.cons.cons.nil => exact two container index keeps_element
    all_goals exact does_nothing (keeps_throw _)
  | hash =>
    refine (does_hashEntries accounts present _ _).bind_still fun entries => ?_
    exact keeps_freshTag_sameScopes.bind fun _ => keeps_pure _
  | parameters | pair | foreign => exact does_nothing (keeps_throw _)

theorem accounts_step (accounts : Accounts meaning account)
    (accountsCalled : Accounts called body) :
    Accounts (step meaning called) (stepDeeds meaning called account body) := by
  intro scope node store present
  refine (does_locating node).mpr ?_
  cases node with
  | hole => exact does_nothing (keeps_throw _)
  | leaf leaf => exact does_nothing (keeps_leafValue scope leaf)
  | tree label children => exact does_treeValue accounts accountsCalled present label children

/-- The deeds of an evaluation, done again, give the scopes that it leaves. -/
theorem accounts_eval (frames : Nat) : Accounts (eval frames) (deeds frames) := by
  induction frames using Nat.strongRecOn with
  | ind frames inductionHypothesis =>
    match frames with
    | frames + 5 =>
      intro scope node store
      have left := spare_le node
      rw [eval_add_five, deeds_add_five]
      exact accounts_step (inductionHypothesis (frames + spare node) (by omega))
        (inductionHypothesis frames (by omega)) scope node store
    | 0 | 1 | 2 | 3 | 4 => exact fun _ _ _ _ => does_nothing (keeps_throw _)

end Evaluator

/-! ### The points of an evaluation are moments of its history -/

namespace Deed

/-- The deeds lead past the second scopes, and these are the next ones to be done there. -/
def Passes (scopes : Array Scope) (deeds next : List Deed) (middle : Array Scope) : Prop :=
  ∃ front, Done scopes front middle ∧ front ++ next <+: deeds

variable {scopes middle after : Array Scope} {deeds next part rest : List Deed}

theorem passes_start (listed : next <+: deeds) : Passes scopes deeds next scopes :=
  ⟨[], .nothing scopes, listed⟩

theorem Passes.widen (passes : Passes scopes deeds next middle) (listed : deeds <+: rest) :
    Passes scopes rest next middle := by
  obtain ⟨front, done, first⟩ := passes
  exact ⟨front, done, first.trans listed⟩

theorem Passes.behind (passes : Passes middle deeds next after) (done : Done scopes part middle) :
    Passes scopes (part ++ deeds) next after := by
  obtain ⟨front, more, first⟩ := passes
  refine ⟨part ++ front, done.append more, ?_⟩
  rw [List.append_assoc]
  exact (List.prefix_append_right_inj part).mpr first

theorem Passes.inside (passes : Passes scopes deeds part middle)
    (onward : Passes middle part next after) : Passes scopes deeds next after := by
  obtain ⟨front, done, first⟩ := passes
  exact (onward.behind done).widen first

end Deed

namespace Evaluator

open Eval Deed

/-- What a nested evaluation does. -/
def Entry.account (inner body : Account) : Entry → Account
  | .inner => inner
  | .body => body

theorem deeds_entry (entry : Entry) (frames : Nat) (node : Node) :
    deeds (entry.frames frames node) =
      entry.account (deeds (frames + spare node)) (deeds frames) := by
  cases entry <;> rfl

variable {meaning called : Meaning} {account body : Account} {scope : Nat} {store middle : Store}

section

variable (accounts : Accounts meaning account)

include accounts

theorem Accounts.done {node : Node} {value : Value} (present : scope < store.scopes.size)
    (ran : meaning scope node store = .ok value middle) :
    Done store.scopes (account scope node store) middle.scopes := by
  have does := accounts scope node store present
  rwa [Does, after, ran] at does

/-- Some nodes that have values lead to the node behind them. -/
theorem passes_nodes (present : scope < store.scopes.size) {front : List Node} (inner : Node)
    (back : List Node) {results : List Value}
    (ran : values meaning scope front store = .ok results middle) :
    scope < middle.scopes.size ∧
      Passes store.scopes (nodesDeeds meaning account scope (front ++ inner :: back) store)
        (account scope inner middle) middle.scopes := by
  induction front generalizing store results with
  | nil =>
    cases ran
    exact ⟨present, passes_start (List.prefix_append _ _)⟩
  | cons first rest inductionHypothesis =>
    obtain ⟨value, between, others, ranFirst, ranRest, -⟩ := exists_of_values_cons ran
    have done := accounts.done present ranFirst
    obtain ⟨still, passes⟩ :=
      inductionHypothesis (Nat.lt_of_lt_of_le present done.size_le) ranRest
    refine ⟨still, ?_⟩
    rw [List.cons_append, nodesDeeds, ranFirst]
    exact passes.behind done

/-- Some pairs of a hash that are taken in lead to the pair behind them. -/
theorem passes_pairs (present : scope < store.scopes.size) {front : List Node} (pair : Node)
    (back : List Node) {entries found : List (HashEntry Value)}
    (ran : hashEntries meaning scope entries front store = .ok found middle) :
    scope < middle.scopes.size ∧
      Passes store.scopes (pairsDeeds meaning account scope (front ++ pair :: back) store)
        (pairsDeeds meaning account scope (pair :: back) middle) middle.scopes := by
  induction front generalizing store entries with
  | nil =>
    cases ran
    exact ⟨present, passes_start List.prefix_rfl⟩
  | cons first rest inductionHypothesis =>
    obtain ⟨keyNode, valueNode, key, atom, value, between, later, parts, ranKey, hashable, ranValue,
      encoded, ranRest⟩ := exists_of_hashEntries_cons ran
    have done := accounts.done present ranKey
    have still := Nat.lt_of_lt_of_le present done.size_le
    have more := accounts.done still ranValue
    obtain ⟨here, passes⟩ := inductionHypothesis (Nat.lt_of_lt_of_le still more.size_le) ranRest
    refine ⟨here, ?_⟩
    rw [List.cons_append, pairsDeeds]
    simp only [parts, ranKey, thenDeeds, hashable, ranValue, encode_run, encoded]
    exact (passes.behind more).behind done

end

/-- A computation with more behind it does at least as much. -/
theorem thenDeeds_isPrefix {α : Type} (ended : EStateM.Result Interrupt Store α) (deeds : List Deed)
    {first second : α → Store → List Deed}
    (listed : ∀ result store, first result store <+: second result store) :
    deeds ++ thenDeeds ended first <+: deeds ++ thenDeeds ended second := by
  refine (List.prefix_append_right_inj deeds).mpr ?_
  cases ended with
  | ok result store => exact listed result store
  | error => exact List.prefix_rfl

/-- A step begins with its premises. -/
theorem premises_isPrefix_stepDeeds (scope : Nat) (node : Node) (store : Store) :
    nodesDeeds meaning account scope (premises node) store <+:
      stepDeeds meaning called account body scope node store := by
  unfold stepDeeds
  split
  · next word name valueNode =>
    rw [premises]
    cases name.identifier? with
    | none => exact List.prefix_rfl
    | some target => exact thenDeeds_isPrefix _ _ fun _ _ => List.nil_prefix
  · exact thenDeeds_isPrefix _ _ fun _ _ => List.nil_prefix
  · exact thenDeeds_isPrefix _ _ fun _ _ => List.prefix_append _ _
  · exact List.nil_prefix
  · exact List.prefix_rfl

theorem Enters.passes (accounts : Accounts meaning account) (accountsCalled : Accounts called body)
    (present : scope < store.scopes.size) {node inner : Node} {entry : Entry} {innerScope : Nat}
    {innerStore : Store}
    (enters : Enters meaning called scope node store entry innerScope inner innerStore) :
    innerScope < innerStore.scopes.size ∧
      Passes store.scopes (stepDeeds meaning called account body scope node store)
        (entry.account account body innerScope inner innerStore) innerStore.scopes := by
  cases enters with
  | @premise front back inner results middle listed ran =>
    obtain ⟨still, passes⟩ := passes_nodes accounts present inner back ran
    rw [← listed] at passes
    exact ⟨still, passes.widen (premises_isPrefix_stepDeeds scope node store)⟩
  | @branch word condition consequence inner alternative decided middle form ran chosen =>
    subst form
    have done := accounts.done present ran
    refine ⟨Nat.lt_of_lt_of_le present done.size_le, ?_⟩
    simp only [stepDeeds, ran, thenDeeds, chosen]
    exact (passes_start List.prefix_rfl).behind done
  | @key children front back pair key value entries middle form listed parts ran =>
    subst form
    obtain ⟨still, passes⟩ := passes_pairs accounts present pair back ran
    refine ⟨still, ?_⟩
    rw [← listed] at passes
    refine passes.inside ?_
    simp only [pairsDeeds, parts]
    exact passes_start (List.prefix_append _ _)
  | @value children front back pair key value entries found atom middle later form listed parts
      ran ranKey hashable =>
    subst form
    obtain ⟨still, passes⟩ := passes_pairs accounts present pair back ran
    have done := accounts.done still ranKey
    refine ⟨Nat.lt_of_lt_of_le still done.size_le, ?_⟩
    rw [← listed] at passes
    refine passes.inside ?_
    simp only [pairsDeeds, parts, ranKey, thenDeeds, hashable]
    exact (passes_start (List.prefix_append _ _)).behind done
  | @statement function inner front back tag closure parameters arguments results middle later
      calls counted listed ranBody =>
    obtain ⟨opening, nodes, rfl, ran⟩ := calls
    rcases nodes with _ | ⟨calleeNode, argumentNodes⟩
    · cases ran
    obtain ⟨callee, between, others, ranCallee, ranArguments, equal⟩ := exists_of_values_cons ran
    cases equal
    have done := accounts.done present ranCallee
    have still := Nat.lt_of_lt_of_le present done.size_le
    have more := does_values accounts still argumentNodes
    rw [Does, after, ranArguments] at more
    obtain ⟨opened, entered⟩ := done_entered middle closure parameters arguments
    obtain ⟨inside, passes⟩ := passes_nodes accountsCalled opened inner back ranBody
    rw [← listed] at passes
    refine ⟨inside, ?_⟩
    simp only [stepDeeds, ranCallee, ranArguments, thenDeeds, callDeeds, if_pos counted]
    exact ((passes.behind entered).behind more).behind done

/-- On its way an evaluation comes to every point that it visits, and the store there has the
scopes that its deeds up to that moment have made. -/
theorem Visits.passes {point target : Point} (visits : Visits point target)
    (present : point.scope < point.store.scopes.size) :
    target.scope < target.store.scopes.size ∧
      Passes point.store.scopes (deeds point.frames point.scope point.node point.store)
        (deeds target.frames target.scope target.node target.store) target.store.scopes := by
  induction visits with
  | self point => exact ⟨present, passes_start List.prefix_rfl⟩
  | @within frames scope innerScope node innerNode store innerStore entry target enters onward
      inductionHypothesis =>
    obtain ⟨opened, entered⟩ :=
      enters.passes (accounts_eval (frames + spare node)) (accounts_eval frames) present
    obtain ⟨inside, passes⟩ := inductionHypothesis opened
    rw [← deeds_entry, ← deeds_add_five] at entered
    exact ⟨inside, entered.inside passes⟩

end Evaluator

/-! ### What a run does -/

namespace Session

open Eval Evaluator Deed

/-- What a run of a program does. -/
def deeds (limit scope : Nat) (program : Node) (store : Store) : List Deed :=
  nodesDeeds (eval limit) (Evaluator.deeds limit) scope program.children store

/-- A run leaves the scopes that its statements leave, however it ends. -/
theorem scopes_runProgram (limit scope : Nat) (program : Node) (store : Store) :
    (runProgram limit scope program store).2.scopes =
      ((statements (eval limit) scope ⟨.null, none⟩ program.children).after store).scopes := by
  rw [runProgram, after]
  split <;> next ran => rw [ran] <;> rfl

/-- The deeds of a run, done again, give the scopes that it leaves. -/
theorem done_deeds {scope : Nat} {store : Store} (present : scope < store.scopes.size)
    (limit : Nat) (program : Node) :
    Done store.scopes (deeds limit scope program store)
      (runProgram limit scope program store).2.scopes := by
  rw [scopes_runProgram]
  refine (does_map Outcome.value).mp ?_
  rw [map_value_statements]
  exact does_sequence (accounts_eval limit) present _ program.children

/-- At every point of a run the scopes are those that its deeds up to that moment have made. -/
theorem Visits.done {limit scope : Nat} {program : Node} {store : Store} {point : Point}
    (visits : Visits limit scope program store point) (present : scope < store.scopes.size) :
    ∃ front, front <+: deeds limit scope program store ∧
      Done store.scopes front point.store.scopes := by
  obtain ⟨front, statement, back, results, middle, listed, ran, visits⟩ := visits
  obtain ⟨still, begins⟩ := passes_nodes (accounts_eval limit) present statement back ran
  rw [← listed] at begins
  obtain ⟨part, done, first⟩ := begins.inside (visits.passes still).2
  exact ⟨part, (List.prefix_append _ _).trans first, done⟩

end Session

end Scriptlet
