/-
This file says when a tree is printed. The printer takes a tree apart by its label, and it takes
room on the stack for every level of the tree. `Printer.Costs` says that a printer gives its result
where so many calls inside each other fit, and that it fails for want of room only. Each label has
a rule of this kind, and by induction every regular tree is printed as its canonical text.

So the only source that is not printed is one that is nested too deeply for the stack. There are
such sources for every stack: what is nested costs room, however shallow the parse was.
-/

import Scriptlet.Proofs.Recovery
import Scriptlet.Tree.Print

namespace Scriptlet

namespace Printer

/-! ### The room that a printer takes -/

variable {α β : Type}

/-- The printer gives the result where there is room for so many calls inside each other, and has no
other way to fail. -/
def Costs (printer : Printer α) (calls : Nat) (result : α) : Prop :=
  ∀ room : Room, printer room = if room.Holds calls then .ok result else .error .depthExceeded

theorem costs_pure (result : α) : Costs (pure result) 0 result := by
  intro room
  rw [if_pos room.holds_zero]
  rfl

theorem Costs.within {printer : Printer α} {calls : Nat} {result : α}
    (costs : Costs printer calls result) (outer : Nat) :
    Costs (within outer printer) (outer + calls) result := by
  intro room
  by_cases fits : room.Holds outer
  · rw [Printer.within, if_pos fits, costs]
    simp only [room.holds_add, fits, true_and]
  · rw [Printer.within, if_neg fits, if_neg fun holds => fits ((room.holds_add _ _).mp holds).1]

/-- What is printed one after the other takes the room of the part that takes more. -/
theorem Costs.bind {printer : Printer α} {onward : α → Printer β} {first second : Nat} {result : α}
    {last : β} (costs : Costs printer first result) (next : Costs (onward result) second last) :
    Costs (printer >>= onward) (max first second) last := by
  intro room
  show (printer room >>= fun found => onward found room) = _
  rw [costs]
  by_cases fits : room.Holds first
  · rw [if_pos fits]
    show onward result room = _
    rw [next]
    simp only [room.holds_max, fits, true_and]
  · rw [if_neg fits, if_neg fun holds => fits ((room.holds_max _ _).mp holds).1]
    rfl

/-- A last step that cannot fail takes no room. -/
theorem Costs.map {printer : Printer α} {calls : Nat} {result : α}
    (costs : Costs printer calls result) (step : α → β) :
    Costs (printer >>= fun found => pure (step found)) calls (step result) := by
  rw [← Nat.max_zero calls]
  exact .bind costs (costs_pure _)

end Printer

namespace Node

open Printer

/-! ### One rule for each label -/

/-- The node is printed as its canonical text, wherever there is room for it. -/
def Prints (node : Node) : Prop :=
  Costs node.printer node.frames node.render

section

variable {first operator operand left right condition consequence parameters body callee key value
  name expression : Node} {nodes statements alternative : List Node} {token : Token}

theorem prints_hole : hole.Prints :=
  (costs_pure _).within 1

theorem prints_leaf {token : Leaf} : (leaf token).Prints :=
  (costs_pure _).within 1

theorem framesAmong_singleton : framesAmong [first] = first.frames :=
  Nat.max_zero _

theorem framesAmong_pair : framesAmong [first, left] = max first.frames left.frames := by
  rw [framesAmong, framesAmong_singleton]

theorem costs_all (inner : ∀ node ∈ nodes, node.Prints) :
    Costs (allPrinter nodes) (framesAmong nodes) (renderAll nodes) := by
  induction nodes with
  | nil => exact costs_pure _
  | cons node rest inductionHypothesis =>
    rw [List.forall_mem_cons] at inner
    exact .bind inner.1 (.map (inductionHypothesis inner.2) _)

theorem costs_terms (inner : ∀ node ∈ nodes, node.Prints) :
    Costs (termsPrinter nodes) (framesAmong nodes) (renderTerms nodes) := by
  induction nodes with
  | nil => exact costs_pure _
  | cons node rest inductionHypothesis =>
    rw [List.forall_mem_cons] at inner
    exact .bind inner.1 (.map (inductionHypothesis inner.2) _)

theorem costs_program (inner : ∀ node ∈ nodes, node.Prints) :
    Costs (programPrinter nodes) (framesAmong nodes) (renderProgram nodes) := by
  induction nodes with
  | nil => exact costs_pure _
  | cons node rest inductionHypothesis =>
    rw [List.forall_mem_cons] at inner
    cases rest with
    | nil =>
      rw [framesAmong_singleton]
      exact .map inner.1 _
    | cons next rest => exact .bind inner.1 (.map (inductionHypothesis inner.2) _)

theorem prints_program (inner : ∀ node ∈ nodes, node.Prints) : (tree .program nodes).Prints :=
  .within (.map (costs_program inner) _) 3

theorem prints_expressionStatement (inner : expression.Prints) :
    (tree .expressionStatement [expression]).Prints := by
  rw [Prints, frames, framesAmong_singleton]
  exact .within inner 2

theorem prints_letStatement (named : name.Prints) (inner : value.Prints) :
    (tree .letStatement [first, name, value]).Prints := by
  show Costs _ (2 + framesAmong [name, value]) _
  rw [framesAmong_pair]
  exact .within (.bind named (.map inner _)) 2

theorem prints_returnStatement (inner : value.Prints) :
    (tree .returnStatement [first, value]).Prints := by
  show Costs _ (2 + framesAmong [value]) _
  rw [framesAmong_singleton]
  exact .within (.map inner _) 2

theorem prints_block (inner : ∀ node ∈ nodes, node.Prints) :
    (tree .block (first :: nodes)).Prints := by
  cases nodes with
  | nil => exact .within (costs_pure _) 3
  | cons statement rest => exact .within (.map (costs_terms inner) _) 3

theorem prints_unary (inner : operand.Prints) :
    (tree .unary [ofToken token, operand]).Prints := by
  show Costs _ (2 + framesAmong [operand]) _
  rw [framesAmong_singleton]
  exact .within (.map inner _) 2

theorem prints_binary (leftPrints : left.Prints) (rightPrints : right.Prints) :
    (tree .binary [ofToken token, left, right]).Prints := by
  show Costs _ (2 + framesAmong [left, right]) _
  rw [framesAmong_pair]
  exact .within (.bind leftPrints (.map rightPrints _)) 2

theorem prints_conditional (conditionPrints : condition.Prints)
    (blockPrints : consequence.Prints) (otherPrints : ∀ node ∈ nodes, node.Prints) :
    (tree .conditional (first :: condition :: consequence :: nodes)).Prints := by
  have other : Costs (alternativePrinter nodes) (alternativeFrames nodes)
      (renderAlternative nodes) := by
    cases nodes with
    | nil => exact costs_pure _
    | cons block rest =>
      have prints := otherPrints block List.mem_cons_self
      cases block with
      | hole => exact costs_pure _
      | leaf | tree => exact .map prints _
  exact .within (.bind conditionPrints (.bind blockPrints (.map other _))) 2

theorem prints_function (parametersPrint : parameters.Prints) (bodyPrints : body.Prints) :
    (tree .function [first, parameters, body]).Prints := by
  show Costs _ (2 + framesAmong [parameters, body]) _
  rw [framesAmong_pair]
  exact .within (.bind parametersPrint (.map bodyPrints _)) 2

theorem prints_parameters (inner : ∀ node ∈ nodes, node.Prints) :
    (tree .parameters (first :: nodes)).Prints :=
  .within (.map (costs_all inner) _) 3

theorem prints_call (calleePrints : callee.Prints) (inner : ∀ node ∈ nodes, node.Prints) :
    (tree .call (first :: callee :: nodes)).Prints :=
  .within (.bind calleePrints (.map (.within (costs_all inner) 1) _)) 2

theorem prints_array (inner : ∀ node ∈ nodes, node.Prints) :
    (tree .array (first :: nodes)).Prints :=
  .within (.map (costs_all inner) _) 3

theorem prints_index (leftPrints : left.Prints) (rightPrints : right.Prints) :
    (tree .index [first, left, right]).Prints := by
  show Costs _ (2 + framesAmong [left, right]) _
  rw [framesAmong_pair]
  exact .within (.bind leftPrints (.map rightPrints _)) 2

theorem prints_hash (inner : ∀ node ∈ nodes, node.Prints) :
    (tree .hash (first :: nodes)).Prints :=
  .within (.map (costs_all inner) _) 3

theorem prints_pair (keyPrints : key.Prints) (valuePrints : value.Prints) :
    (tree .pair [first, key, value]).Prints := by
  show Costs _ (2 + framesAmong [key, value]) _
  rw [framesAmong_pair]
  exact .within (.bind keyPrints (.map valuePrints _)) 2

end

/-! ### Regular trees -/

/-- Whatever is missing in a regular tree, it is printed. -/
theorem Regular.prints {role : Role} {node : Node} (regular : node.Regular role) :
    node.Prints := by
  induction regular with
  | hole => exact prints_hole
  | leaf | integer | name => exact prints_leaf
  | unary _ _ inner => exact prints_unary inner
  | binary _ _ _ left right => exact prints_binary left right
  | call _ _ _ callee inner => exact prints_call callee inner
  | index _ _ _ left right => exact prints_index left right
  | array _ _ inner => exact prints_array inner
  | hash _ _ inner => exact prints_hash inner
  | conditional _ _ _ _ _ condition block other => exact prints_conditional condition block other
  | function _ _ _ parameters body => exact prints_function parameters body
  | parameters _ _ inner => exact prints_parameters inner
  | pair _ _ _ key value => exact prints_pair key value
  | block _ _ inner => exact prints_block inner
  | letStatement _ _ _ inner => exact prints_letStatement prints_leaf inner
  | returnStatement _ _ inner => exact prints_returnStatement inner
  | expressionStatement _ inner => exact prints_expressionStatement inner

/-- A node that is regular, or the leaf of a token. -/
def Part (node : Node) : Prop :=
  (∃ role, node.Regular role) ∨ ∃ token, node = .ofToken token

theorem Regular.part {role : Role} {node : Node} (regular : node.Regular role) : node.Part :=
  .inl ⟨role, regular⟩

theorem part_ofToken (token : Token) : (ofToken token).Part :=
  .inr ⟨token, rfl⟩

/-- The children of a regular tree. -/
theorem Regular.part_of_mem {role : Role} {label : Label} {children : List Node}
    (regular : (tree label children).Regular role) : ∀ child ∈ children, child.Part := by
  have parts {role : Role} {nodes : List Node} (inner : ∀ node ∈ nodes, node.Regular role) :
      ∀ node ∈ nodes, node.Part :=
    fun node member => (inner node member).part
  cases regular with
  | unary _ inner | returnStatement _ inner =>
    exact List.forall_mem_cons.mpr ⟨part_ofToken _, List.forall_mem_singleton.mpr inner.part⟩
  | binary _ left right | index _ left right | pair _ left right | function _ left right =>
    exact List.forall_mem_cons.mpr ⟨part_ofToken _,
      List.forall_mem_cons.mpr ⟨left.part, List.forall_mem_singleton.mpr right.part⟩⟩
  | call _ callee inner =>
    exact List.forall_mem_cons.mpr ⟨part_ofToken _,
      List.forall_mem_cons.mpr ⟨callee.part, parts inner⟩⟩
  | array _ inner | hash _ inner | parameters _ inner | block _ inner =>
    exact List.forall_mem_cons.mpr ⟨part_ofToken _, parts inner⟩
  | conditional _ condition block _ other =>
    exact List.forall_mem_cons.mpr ⟨part_ofToken _,
      List.forall_mem_cons.mpr ⟨condition.part, List.forall_mem_cons.mpr ⟨block.part, parts other⟩⟩⟩
  | letStatement _ _ inner =>
    exact List.forall_mem_cons.mpr ⟨part_ofToken _,
      List.forall_mem_cons.mpr ⟨part_ofToken _, List.forall_mem_singleton.mpr inner.part⟩⟩
  | expressionStatement inner => exact List.forall_mem_singleton.mpr inner.part

/-- What stands in a regular tree is regular, or the leaf of a token. -/
theorem Part.everywhere {node : Node} (part : node.Part) : node.Everywhere Part := by
  intro inner within
  induction within with
  | self => exact part
  | child member _ inductionHypothesis =>
    rcases part with ⟨role, regular⟩ | ⟨token, leaf⟩
    · exact inductionHypothesis (regular.part_of_mem _ member)
    · cases leaf

theorem Part.prints {node : Node} (part : node.Part) : node.Prints := by
  rcases part with ⟨role, regular⟩ | ⟨token, rfl⟩
  · exact regular.prints
  · exact prints_leaf

/-- A regular tree whose label asks for it starts with the token that introduced it, which gives it
its literal and its place. -/
theorem Part.introduced {label : Label} {children : List Node} (part : (tree label children).Part)
    (introduced : label.isIntroduced = true) :
    ∃ token, children.head? = some (.ofToken token) ∧
      (tree label children).literal = token.text ∧
      (tree label children).place? =
        some ⟨token.position.line, some token.position.column⟩ := by
  rcases part with ⟨role, regular⟩ | ⟨token, leaf⟩
  · cases regular with
    | expressionStatement => cases introduced
    | _ => exact ⟨_, rfl, rfl, rfl⟩
  · cases leaf

end Node

-- The operators of a sum are nested from the left, and each takes two calls.
example : (readSource "1 + 1 + 1").program.print = .ok "((1 + 1) + 1)" ∧
    (readSource "1 + 1 + 1").program.frames = 10 ∧
    (readSource "1 + 1 + 1").program.printer (.frames 9) = .error .depthExceeded :=
  ⟨by cbv, by cbv, by cbv⟩

end Scriptlet
