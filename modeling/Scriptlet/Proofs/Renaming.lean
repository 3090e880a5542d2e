/-
This file is about runs that differ in identities only: in the tags of arrays, hashes, functions
and errors, and in the numbers of scopes. A `Renaming` says which tag and which scope of a second
run stand for those of a first one. The trees are the same, at the same positions, so that faults
are reported at the same places; as in every correspondence it may be that only some names are
bound alike, and then the trees have to keep to these names.

`Renaming.beyond` belongs to two stores of which the second one has grown from the first: what
was there stays as it is, and what comes later is counted from the end of the second store. Under
it every value of a closed store matches itself.
-/

import Scriptlet.Proofs.Belonging
import Scriptlet.Proofs.Lockstep

namespace Scriptlet

/-! ### The names in a tree -/

namespace Node

mutual

/-- The identifiers of a tree, from left to right. -/
def identifiers : Node → List String
  | hole => []
  | leaf own => if own.kind = .own .ident then [own.text] else []
  | tree _ children => identifiersAll children

/-- The identifiers of some trees. -/
def identifiersAll : List Node → List String
  | [] => []
  | node :: rest => identifiers node ++ identifiersAll rest

end

/-- Every identifier of the tree is a name that counts. -/
def KeepsTo (counts : String → Prop) (node : Node) : Prop :=
  ∀ name ∈ node.identifiers, counts name

theorem identifiers_subset_identifiersAll {node : Node} {nodes : List Node}
    (member : node ∈ nodes) : node.identifiers ⊆ identifiersAll nodes := by
  induction nodes with
  | nil => cases member
  | cons first rest inductionHypothesis =>
    rcases List.mem_cons.mp member with rfl | later
    · exact List.subset_append_left _ _
    · exact List.Subset.trans (inductionHypothesis later) (List.subset_append_right _ _)

theorem KeepsTo.child {counts : String → Prop} {node child : Node} (keeps : node.KeepsTo counts)
    (member : child ∈ node.children) : child.KeepsTo counts := by
  cases node with
  | hole => cases member
  | leaf => cases member
  | tree label children =>
    exact fun name used => keeps name (identifiers_subset_identifiersAll member used)

end Node

/-! ### Renamings -/

/-- Which tag and which scope of a second run stand for those of a first one. Different ones
stay different, and older scopes stay older. -/
structure Renaming where
  tag : Nat → Nat
  scope : Nat → Nat
  tag_injective : Function.Injective tag
  scope_strictMono : StrictMono scope

/-- Nothing differs but identities, as far as the names that count are concerned. -/
def Correspondence.renamed (counts : String → Prop) (identities : Renaming) : Correspondence where
  tag := identities.tag
  scope := identities.scope
  root := none
  counts := counts
  node first second := first = second ∧ first.KeepsTo counts
  placed := True
  firstMayStop := False
  secondMayStop := False
  tag_injective := identities.tag_injective
  scope_strictMono := identities.scope_strictMono
  root_apart := nofun
  parallel := by
    rintro node _ ⟨rfl, keeps⟩
    cases node with
    | hole => exact .hole
    | leaf leaf =>
      refine .leaf rfl rfl fun ident => keeps leaf.text ?_
      rw [Node.identifiers, if_pos ident]
      exact List.mem_singleton_self _
    | tree label children =>
      exact .tree (List.forall₂_same.mpr fun child member => ⟨rfl, keeps.child member⟩)
  place_eq := by
    rintro - node _ ⟨rfl, -⟩
    rfl

theorem Correspondence.scope_renamed (counts : String → Prop) (identities : Renaming)
    (number : Nat) : (renamed counts identities).scope number = identities.scope number :=
  rfl

/-- What the first store has stays as it is, and what comes later is counted from the end of the
second one. -/
def Renaming.beyond (store later : Store) : Renaming where
  tag number :=
    if number < store.nextTag then number else number + (later.nextTag - store.nextTag)
  scope number :=
    if number < store.scopes.size then number
    else number + (later.scopes.size - store.scopes.size)
  tag_injective first second same := by
    dsimp only at same
    split at same <;> split at same <;> omega
  scope_strictMono first second less := by
    dsimp only
    split <;> split <;> omega

open Correspondence (renamed)
open Renaming (beyond)

section

variable {store later : Store} {counts : String → Prop}

theorem tag_beyond {tag : Nat} (tagged : tag < store.nextTag) :
    (beyond store later).tag tag = tag :=
  if_pos tagged

theorem scope_beyond {scope : Nat} (present : scope < store.scopes.size) :
    (beyond store later).scope scope = scope :=
  if_pos present

theorem tag_beyond_add (grown : store.Grows later) (count : Nat) :
    (beyond store later).tag (store.nextTag + count) = later.nextTag + count := by
  have tags := grown.tags
  show (if _ then _ else _) = _
  rw [if_neg (by omega)]
  omega

theorem scope_beyond_add (grown : store.Grows later) (count : Nat) :
    (beyond store later).scope (store.scopes.size + count) = later.scopes.size + count := by
  have scopes := grown.scopes
  show (if _ then _ else _) = _
  rw [if_neg (by omega)]
  omega

/-! ### Closed stores match themselves -/

/-- Some function in the value has this body and this scope. -/
inductive Value.Holds (body : Node) (scope : Nat) : Value → Prop where
  | function (tag : Nat) (parameters : List String) :
      Holds body scope (.function tag parameters body scope)
  | element {tag : Nat} {elements : List Value} {element : Value} (member : element ∈ elements)
      (inner : Holds body scope element) : Holds body scope (.array tag elements)
  | entry {tag : Nat} {entries : List (HashEntry Value)} {entry : HashEntry Value}
      (member : entry ∈ entries) (inner : Holds body scope entry.value) :
      Holds body scope (.hash tag entries)

/-- A value that was there stays the same value. -/
theorem Value.Belongs.matches_beyond {value : Value} (belongs : value.Belongs store)
    (keeps : ∀ body scope, value.Holds body scope → body.KeepsTo counts) :
    value.Matches (renamed counts (beyond store later)) value := by
  -- A matching value has the renamed tags and scopes. Here these are the old ones.
  induction belongs with
  | atom content => exact .atom content
  | null => exact .null
  | @array tag elements tagged inner inductionHypothesis =>
    have same : (Value.array tag elements).Matches (renamed counts (beyond store later))
        (.array ((beyond store later).tag tag) elements) :=
      .ofElements (List.forall₂_same.mpr fun element member =>
        inductionHypothesis element member fun body scope held =>
          keeps body scope (.element member held))
    rwa [tag_beyond tagged] at same
  | @hash tag entries tagged inner inductionHypothesis =>
    have same : (Value.hash tag entries).Matches (renamed counts (beyond store later))
        (.hash ((beyond store later).tag tag) entries) :=
      .ofEntries (List.forall₂_same.mpr fun entry member =>
        ⟨rfl, rfl, inductionHypothesis entry member fun body scope held =>
          keeps body scope (.entry member held)⟩)
    rwa [tag_beyond tagged] at same
  | @function tag parameters body scope tagged present =>
    have same : (Value.function tag parameters body scope).Matches
        (renamed counts (beyond store later))
        (.function ((beyond store later).tag tag) parameters body
          ((beyond store later).scope scope)) :=
      .function ⟨rfl, keeps body scope (.function tag parameters)⟩
    rwa [tag_beyond tagged, scope_beyond present] at same
  | builtin which => exact .builtin which
  | @error tag report tagged =>
    have same : (Value.error tag report).Matches (renamed counts (beyond store later))
        (.error ((beyond store later).tag tag) report) := .error report.matches_self
    rwa [tag_beyond tagged] at same

/-- A scope of a closed store stands for any scope that lies where it lies and gives the same
values to the names that count. -/
theorem Store.Closed.scope_matches_beyond (closed : store.Closed) {number : Nat}
    {frame counterpart : Scope} (held : store.scopes[number]? = some frame)
    (outer : counterpart.outer = frame.outer)
    (bindings : ∀ name, counts name → counterpart.get? name = frame.get? name)
    (keeps : ∀ name value, frame.get? name = some value → counts name →
      ∀ body scope, value.Holds body scope → body.KeepsTo counts) :
    frame.Matches (renamed counts (beyond store later)) counterpart := by
  refine ⟨?_, fun name counted => ?_⟩
  · rw [outer]
    show frame.outer = (frame.outer.map (beyond store later).scope).or none
    cases around : frame.outer with
    | none => rfl
    | some outer =>
      obtain ⟨present, -⟩ := Array.getElem?_eq_some_iff.mp held
      have older := closed.older number frame held outer around
      rw [Option.map_some, scope_beyond (Nat.lt_trans older present)]
      rfl
  · rw [bindings name counted]
    cases bound : frame.get? name with
    | none => exact .none
    | some value =>
      exact .some ((closed.bound number frame held name value bound).matches_beyond
        (keeps name value bound counted))

end

end Scriptlet
