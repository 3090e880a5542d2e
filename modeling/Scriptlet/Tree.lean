/-
This file holds the trees that programs are read into. A node is a leaf that carries
a token, a labelled tree, or a hole where an expression could not be read. Every tree
but a program and an expression statement keeps the token that introduced it as its
first child.

A tree may also be put together by hand, so labels and leaf kinds have room for names
outside the language and a leaf may lack its line or column. The parser produces none
of these.

Main statements: `Node.induction` is induction over a tree with its children, and
`Node.unplaced_unplaced` says that forgetting positions twice forgets no more.
-/

import Scriptlet.Token

namespace Scriptlet

/-- The kind of a leaf: a token kind, or a name that is none. -/
inductive LeafKind where
  | own (kind : TokenKind)
  | foreign (name : String)
  deriving DecidableEq

/-- The name of a leaf's kind. -/
def LeafKind.name : LeafKind → String
  | own kind => kind.name
  | foreign name => name

/-- The kind with a given name, foreign when no token kind has it. -/
def LeafKind.ofName (name : String) : LeafKind :=
  match TokenKind.ofName? name with
  | some kind => own kind
  | none => foreign name

/-- A place that an error can point to: a line, and a column where it is known. -/
structure Place where
  line : Nat
  column : Option Nat
  deriving DecidableEq

/-- A leaf: a token whose line and column may be unknown. -/
structure Leaf where
  kind : LeafKind
  text : String
  line : Option Nat
  column : Option Nat
  deriving DecidableEq

namespace Leaf

/-- The leaf of a token. -/
def ofToken (token : Token) : Leaf :=
  ⟨.own token.kind, token.text, some token.position.line, some token.position.column⟩

/-- The place of a leaf, when its line is known. -/
def place? (leaf : Leaf) : Option Place :=
  leaf.line.map fun line => ⟨line, leaf.column⟩

/-- The leaf without its line and column. -/
def unplaced (leaf : Leaf) : Leaf :=
  ⟨leaf.kind, leaf.text, none, none⟩

end Leaf

/-- What a tree stands for. -/
inductive Label where
  | program
  | expressionStatement
  | letStatement
  | returnStatement
  | block
  | unary
  | binary
  | conditional
  | function
  | parameters
  | call
  | array
  | index
  | hash
  | pair
  | foreign (name : String)
  deriving DecidableEq

namespace Label

/-- The name of a label. -/
def name : Label → String
  | program => "program"
  | expressionStatement => "exprstmt"
  | letStatement => "let"
  | returnStatement => "return"
  | block => "block"
  | unary => "prefix"
  | binary => "infix"
  | conditional => "if"
  | function => "fn"
  | parameters => "params"
  | call => "call"
  | array => "array"
  | index => "index"
  | hash => "hash"
  | pair => "pair"
  | foreign name => name

/-- The labels of the language. -/
def all : List Label :=
  [program, expressionStatement, letStatement, returnStatement, block, unary, binary, conditional,
    function, parameters, call, array, index, hash, pair]

/-- The label with a given name, foreign when the language has none. -/
def ofName (text : String) : Label :=
  (all.find? fun label => label.name == text).getD (foreign text)

/-- A program and an expression statement start with a statement or an expression;
every other tree starts with the token that introduced it. -/
def isIntroduced : Label → Bool
  | program | expressionStatement => false
  | _ => true

end Label

/-- A node of a program tree. -/
inductive Node where
  /-- An expression that could not be read. -/
  | hole
  | leaf (leaf : Leaf)
  | tree (label : Label) (children : List Node)

namespace Node

/-- The leaf node of a token. -/
def ofToken (token : Token) : Node :=
  leaf (.ofToken token)

/-- The label of a tree. -/
def label? : Node → Option Label
  | tree label _ => some label
  | _ => none

/-- The children of a tree; a hole and a leaf have none. -/
def children : Node → List Node
  | tree _ children => children
  | _ => []

/-- The kind of a leaf. -/
def leafKind? : Node → Option LeafKind
  | leaf token => some token.kind
  | _ => none

/-- The text of a leaf, empty for any other node. -/
def leafText : Node → String
  | leaf token => token.text
  | _ => ""

/-- The children after the introducing token. -/
def operands : Node → List Node
  | tree label children => if label.isIntroduced then children.tail else children
  | _ => []

/-- The name that an identifier leaf carries. -/
def identifier? : Node → Option String
  | leaf ⟨.own .ident, text, _, _⟩ => some text
  | _ => none

/-- The text of the token that introduced a node, empty when there is none. -/
def literal : Node → String
  | hole => ""
  | leaf token => token.text
  | tree _ [] => ""
  | tree label (first :: _) => if label.isIntroduced then first.leafText else first.literal

mutual

/-- The place of the first leaf, depth first, whose line is known. -/
def place? : Node → Option Place
  | hole => none
  | leaf token => token.place?
  | tree _ children => placeAmong? children

/-- The place of the first node of a list that has one. -/
def placeAmong? : List Node → Option Place
  | [] => none
  | node :: rest =>
    match place? node with
    | some place => some place
    | none => placeAmong? rest

end

/-! ### Trees up to positions -/

mutual

/-- The tree without the lines and columns of its leaves. -/
def unplaced : Node → Node
  | hole => hole
  | leaf token => leaf token.unplaced
  | tree label children => tree label (unplacedAll children)

/-- The trees without the lines and columns of their leaves. -/
def unplacedAll : List Node → List Node
  | [] => []
  | node :: rest => unplaced node :: unplacedAll rest

end

mutual

/-- Equality of trees is decided child by child. -/
def decEq : (first second : Node) → Decidable (first = second)
  | hole, hole => isTrue rfl
  | leaf first, leaf second =>
    if same : first = second then isTrue (same ▸ rfl)
    else isFalse fun equal => same (Node.leaf.inj equal)
  | tree label children, tree label' children' =>
    if same : label = label' then
      match decEqAll children children' with
      | isTrue equal => isTrue (same ▸ equal ▸ rfl)
      | isFalse different => isFalse fun equal => different (Node.tree.inj equal).2
    else isFalse fun equal => same (Node.tree.inj equal).1
  | hole, leaf _ => isFalse nofun
  | hole, tree _ _ => isFalse nofun
  | leaf _, hole => isFalse nofun
  | leaf _, tree _ _ => isFalse nofun
  | tree _ _, hole => isFalse nofun
  | tree _ _, leaf _ => isFalse nofun

/-- Equality of lists of trees is decided one by one. -/
def decEqAll : (first second : List Node) → Decidable (first = second)
  | [], [] => isTrue rfl
  | node :: rest, node' :: rest' =>
    match decEq node node' with
    | isTrue same =>
      match decEqAll rest rest' with
      | isTrue equal => isTrue (same ▸ equal ▸ rfl)
      | isFalse different => isFalse fun equal => different (List.cons.inj equal).2
    | isFalse different => isFalse fun equal => different (List.cons.inj equal).1
  | [], _ :: _ => isFalse nofun
  | _ :: _, [] => isFalse nofun

end

instance : DecidableEq Node := decEq

/-- Two trees are alike when they differ in positions at most. -/
def Alike (first second : Node) : Prop :=
  first.unplaced = second.unplaced

instance (first second : Node) : Decidable (first.Alike second) :=
  inferInstanceAs (Decidable (_ = _))

/-! ### Induction -/

/-- A property that holds of holes and leaves, and of a tree whenever it holds of its
children, holds of every node. -/
@[elab_as_elim]
theorem induction {motive : Node → Prop} (hole : motive .hole)
    (leaf : ∀ token, motive (.leaf token))
    (tree : ∀ label children, (∀ child ∈ children, motive child) → motive (.tree label children)) :
    ∀ node, motive node :=
  @Node.rec motive (fun children => ∀ child ∈ children, motive child) hole leaf tree nofun
    fun _ _ first rest child member => by
      rcases List.mem_cons.mp member with rfl | later
      · exact first
      · exact rest child later

theorem unplacedAll_eq_map (nodes : List Node) : unplacedAll nodes = nodes.map unplaced := by
  induction nodes with
  | nil => rfl
  | cons node rest inductionHypothesis => rw [unplacedAll, inductionHypothesis, List.map_cons]

/-- Forgetting positions twice forgets no more than once. -/
theorem unplaced_unplaced (node : Node) : node.unplaced.unplaced = node.unplaced := by
  induction node using induction with
  | hole => rfl
  | leaf leaf => rfl
  | tree label children inductionHypothesis =>
    simp only [unplaced, unplacedAll_eq_map, List.map_map, Node.tree.injEq, true_and]
    exact List.map_congr_left inductionHypothesis

end Node

end Scriptlet
