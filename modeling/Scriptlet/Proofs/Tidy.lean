/-
This file states what the values of a run are like inside, and shows that the rules which
make values keep it. A tidy value holds integers of 64 bits only; the entries of its hashes
are filed under their own keys, with no key twice; its functions have names for parameters;
and nowhere in it is the account of a failed run. That a function has a well-shaped body and
a scope that exists is `Value.Sound`.

Integers come from literals, which the reader bounds, from arithmetic, which wraps, and from
lengths. A length is a number of bytes or elements in memory, and no bound on it follows from
the language: `Value.Sized` is the bound that a machine puts on it.

Main statement: `Grammar.Derives.tidy` says that the trees that come out of the grammar make
tidy values.
-/

import Scriptlet.Proofs.Nesting
import Scriptlet.Proofs.Safety

namespace Scriptlet

open Grammar

/-- What can name a parameter: a word of letters that is no keyword. -/
structure IsName (text : String) : Prop where
  some : text ≠ ""
  letters : ∀ c ∈ text.toList, isLetter c = true
  free : TokenKind.ofWord text = .ident

/-- A spelled token of that kind is a name. -/
theorem Token.Spelled.isName {token : Token} (spelled : token.Spelled)
    (kind : token.kind = .ident) : IsName token.text := by
  cases spelled with
  | word ofWord some letters => exact ⟨some, letters, ofWord.symm.trans kind⟩
  | mark listed =>
    have all : ∀ mark ∈ marks, mark.2 ≠ .ident := by decide
    exact absurd kind (all _ listed)
  | string other | number other | stray other =>
    rw [kind] at other
    cases other

/-! ### Tidy trees -/

/-- The trees whose evaluation makes tidy values: integers are in range, and the parameters
of functions are names. -/
inductive Node.Tidy : Node → Prop where
  | leaf {token : Token} (kind : token.kind ≠ .int) : Tidy (.ofToken token)
  | integer {token : Token} {value : Int} (decimal : Text.integer? token.text = some value)
      (inRange : Integer.InRange value) : Tidy (.ofToken token)
  | tree {label : Label} {children : List Node} (inner : ∀ child ∈ children, Tidy child)
      (names : label = .function → ∀ parameters ∈ children[1]?,
        ∀ name ∈ parameters.operands, IsName name.leafText) : Tidy (.tree label children)

theorem Node.Tidy.children {node : Node} (tidy : node.Tidy) :
    ∀ child ∈ node.children, child.Tidy := by
  cases tidy with
  | leaf | integer => exact nofun
  | tree inner => exact inner

theorem Node.Tidy.operands {node : Node} (tidy : node.Tidy) :
    ∀ operand ∈ node.operands, operand.Tidy :=
  fun operand member => tidy.children operand (mem_children_of_mem_operands member)

theorem Node.Tidy.parameters {word parameters body : Node}
    (tidy : (Node.tree .function [word, parameters, body]).Tidy) :
    ∀ name ∈ parameters.operands, IsName name.leafText := by
  cases tidy with
  | tree _ names => exact names rfl parameters rfl

/-- The key and the value of a pair of a tidy hash are tidy. -/
theorem Node.Tidy.pair {label : Label} {children front back : List Node} {pair key value : Node}
    (tidy : (Node.tree label children).Tidy) (listed : children.tail = front ++ pair :: back)
    (parts : pair.operands = [key, value]) : key.Tidy ∧ value.Tidy := by
  have member : pair ∈ children := List.mem_of_mem_tail (List.mem_iff_append.mpr ⟨_, _, listed⟩)
  have partsTidy := (tidy.children pair member).operands
  rw [parts, List.forall_mem_cons, List.forall_mem_singleton] at partsTidy
  exact partsTidy

/-- A literal that the reader lets pass is in range. -/
theorem tidy_integer {token : Token} (kind : token.kind = .int) (spelled : token.Spelled)
    (fits : Text.decimalValue token.text.toList ≤ maxLiteral) : (Node.ofToken token).Tidy := by
  cases spelled with
  | number _ some digits =>
    refine .integer (integer?_of_digits some digits) ?_
    rw [maxLiteral] at fits
    constructor <;> omega
  | mark listed =>
    have all : ∀ mark ∈ marks, mark.2 ≠ .int := by decide
    exact absurd kind (all _ listed)
  | word isWord =>
    rw [isWord] at kind
    exact absurd kind (TokenKind.ofWord_ne (by decide) (by decide))
  | string other | stray other =>
    rw [other] at kind
    cases kind

theorem tidy_ofToken {token : Token} {kind : TokenKind} (same : token.kind = kind)
    (other : kind ≠ .int) : (Node.ofToken token).Tidy :=
  .leaf (same ▸ other)

/-- A tree other than a function is tidy when its introducing token and its operands are. -/
theorem tidy_introduced {label : Label} {first : Node} {others : List Node}
    (notFunction : label ≠ .function) (firstTidy : first.Tidy)
    (othersTidy : ∀ node ∈ others, node.Tidy) : (Node.tree label (first :: others)).Tidy :=
  .tree (List.forall_mem_cons.mpr ⟨firstTidy, othersTidy⟩) fun isFunction =>
    absurd isFunction notFunction

namespace Grammar

/-- What the nodes of a phrase are like: all are tidy, and names are names, also those of a
parameter list. -/
def Phrase.Tidies : Phrase → Node → Prop
  | names, node => node.Tidy ∧ IsName node.leafText
  | parameters, node => node.Tidy ∧ ∀ name ∈ node.operands, IsName name.leafText
  | _, node => node.Tidy

theorem kind_ne_int_of_mem_binaryOperators {rank : Precedence} {kind : TokenKind}
    (member : kind ∈ binaryOperators rank) : kind ≠ .int := by
  rintro rfl
  cases rank <;> exact absurd member (by decide)

theorem Derives.tidy {separation : Separation} {phrase : Phrase} {tokens : List Token}
    {nodes : List Node} (derivation : Derives separation phrase tokens nodes)
    (spelled : ∀ token ∈ tokens, token.Spelled) : ∀ node ∈ nodes, phrase.Tidies node := by
  induction derivation with
  | tighten _ _ inner => exact inner spelled
  | binary member _ _ _ left right =>
    simp only [List.forall_mem_append, List.forall_mem_cons] at spelled
    simp only [List.forall_mem_singleton] at left right ⊢
    refine tidy_introduced (by decide) (.leaf (kind_ne_int_of_mem_binaryOperators member)) ?_
    exact List.forall_mem_cons.mpr
      ⟨left spelled.1, List.forall_mem_singleton.mpr (right spelled.2.2)⟩
  | unary member _ inner =>
    simp only [List.forall_mem_cons] at spelled
    simp only [List.forall_mem_singleton] at ⊢
    refine tidy_introduced (by decide) (.leaf ?_) (inner spelled.2)
    intro kind
    exact absurd (kind ▸ member) (by decide)
  | call opens _ _ _ callee inner =>
    simp only [List.forall_mem_append, List.forall_mem_cons] at spelled
    simp only [List.forall_mem_singleton] at callee ⊢
    refine tidy_introduced (by decide) (tidy_ofToken opens (by decide)) ?_
    exact List.forall_mem_cons.mpr ⟨callee spelled.1, inner spelled.2.2.1⟩
  | index opens _ _ _ left inner =>
    simp only [List.forall_mem_append, List.forall_mem_cons] at spelled
    simp only [List.forall_mem_singleton] at left ⊢
    refine tidy_introduced (by decide) (tidy_ofToken opens (by decide)) ?_
    exact List.forall_mem_cons.mpr ⟨left spelled.1, inner spelled.2.2.1⟩
  | leaf member =>
    simp only [List.forall_mem_singleton]
    refine .leaf fun kind => ?_
    exact absurd (kind ▸ member) (by decide)
  | integer kind fits =>
    simp only [List.forall_mem_singleton] at spelled ⊢
    exact tidy_integer kind spelled fits
  | group _ _ _ inner =>
    simp only [List.forall_mem_append, List.forall_mem_cons] at spelled
    exact inner spelled.2.1
  | array opens _ _ inner =>
    simp only [List.forall_mem_append, List.forall_mem_cons] at spelled
    simp only [List.forall_mem_singleton]
    exact tidy_introduced (by decide) (tidy_ofToken opens (by decide)) (inner spelled.2.1)
  | hash opens _ _ inner =>
    simp only [List.forall_mem_append, List.forall_mem_cons] at spelled
    simp only [List.forall_mem_singleton]
    exact tidy_introduced (by decide) (tidy_ofToken opens (by decide)) (inner spelled.2.1)
  | conditional kind _ _ _ _ _ condition block other =>
    simp only [List.forall_mem_append, List.forall_mem_cons] at spelled
    obtain ⟨-, -, conditionSpelled, -, blockSpelled, otherSpelled⟩ := spelled
    simp only [List.forall_mem_singleton] at condition block ⊢
    refine tidy_introduced (by decide) (tidy_ofToken kind (by decide)) ?_
    exact List.forall_mem_cons.mpr ⟨condition conditionSpelled,
      List.forall_mem_cons.mpr ⟨block blockSpelled, other otherSpelled⟩⟩
  | function kind _ _ parameters block =>
    simp only [List.forall_mem_append, List.forall_mem_cons] at spelled
    simp only [List.forall_mem_singleton] at parameters block ⊢
    obtain ⟨parametersTidy, names⟩ := parameters spelled.2.1
    refine .tree ?_ fun _ listed same => Option.some.inj same ▸ names
    exact List.forall_mem_cons.mpr ⟨tidy_ofToken kind (by decide), List.forall_mem_cons.mpr
      ⟨parametersTidy, List.forall_mem_singleton.mpr (block spelled.2.2)⟩⟩
  | oneExpression _ inner => exact inner spelled
  | moreExpressions _ _ _ inner others =>
    simp only [List.forall_mem_append, List.forall_mem_cons] at spelled
    simp only [List.forall_mem_singleton] at inner
    exact List.forall_mem_cons.mpr ⟨inner spelled.1, others spelled.2.2⟩
  | noItems | noPairs | noAlternative | noStatements => exact nofun
  | someItems _ inner => exact inner spelled
  | oneName kind =>
    simp only [List.forall_mem_singleton] at spelled ⊢
    exact ⟨tidy_ofToken kind (by decide), spelled.isName kind⟩
  | moreNames kind _ _ others =>
    simp only [List.forall_mem_cons] at spelled
    exact List.forall_mem_cons.mpr
      ⟨⟨tidy_ofToken kind (by decide), spelled.1.isName kind⟩, others spelled.2.2⟩
  | noParameters opens =>
    simp only [List.forall_mem_singleton]
    exact ⟨tidy_introduced (by decide) (tidy_ofToken opens (by decide)) nofun, nofun⟩
  | someParameters opens _ _ inner =>
    simp only [List.forall_mem_append, List.forall_mem_cons] at spelled
    simp only [List.forall_mem_singleton]
    have names := inner spelled.2.1
    exact ⟨tidy_introduced (by decide) (tidy_ofToken opens (by decide)) fun name member =>
      (names name member).1, fun name member => (names name member).2⟩
  | lastPair kind _ _ key value =>
    simp only [List.forall_mem_append, List.forall_mem_cons] at spelled
    simp only [List.forall_mem_singleton] at key ⊢
    refine tidy_introduced (by decide) (tidy_ofToken kind (by decide)) ?_
    exact List.forall_mem_cons.mpr ⟨key spelled.1, value spelled.2.2⟩
  | morePairs kind _ _ _ _ key value others =>
    simp only [List.forall_mem_append, List.forall_mem_cons] at spelled
    obtain ⟨keySpelled, -, valueSpelled, -, othersSpelled⟩ := spelled
    simp only [List.forall_mem_singleton] at key
    refine List.forall_mem_cons.mpr ⟨?_, others othersSpelled⟩
    refine tidy_introduced (by decide) (tidy_ofToken kind (by decide)) ?_
    exact List.forall_mem_cons.mpr ⟨key keySpelled, value valueSpelled⟩
  | someAlternative _ _ inner =>
    simp only [List.forall_mem_cons] at spelled
    exact inner spelled.2
  | block opens _ _ inner =>
    simp only [List.forall_mem_append, List.forall_mem_cons] at spelled
    simp only [List.forall_mem_singleton]
    exact tidy_introduced (by decide) (tidy_ofToken opens (by decide)) (inner spelled.2.1)
  | letStatement kind nameKind _ _ inner =>
    simp only [List.forall_mem_cons] at spelled
    simp only [List.forall_mem_singleton]
    refine tidy_introduced (by decide) (tidy_ofToken kind (by decide)) ?_
    exact List.forall_mem_cons.mpr
      ⟨tidy_ofToken nameKind (by decide), inner spelled.2.2.2⟩
  | returnStatement kind _ inner =>
    simp only [List.forall_mem_cons] at spelled
    simp only [List.forall_mem_singleton]
    exact tidy_introduced (by decide) (tidy_ofToken kind (by decide)) (inner spelled.2)
  | expressionStatement _ inner =>
    simp only [List.forall_mem_singleton]
    exact .tree (inner spelled) nofun
  | terminated _ _ _ inner others =>
    simp only [List.forall_mem_append, List.forall_mem_cons] at spelled
    simp only [List.forall_mem_singleton] at inner
    exact List.forall_mem_cons.mpr ⟨inner spelled.1, others spelled.2.2⟩
  | unterminated _ _ _ inner others =>
    simp only [List.forall_mem_append] at spelled
    simp only [List.forall_mem_singleton] at inner
    exact List.forall_mem_cons.mpr ⟨inner spelled.1, others spelled.2⟩

end Grammar

/-! ### Tidy values -/

/-- An integer has to be in range; other atoms may be any. -/
def Atom.InRange : Atom → Prop
  | integer value => Integer.InRange value
  | boolean _ | string _ => True

/-- The entries of a hash are filed under their own keys, and no key comes twice. -/
structure HashTable.Filed (entries : List (HashEntry Value)) : Prop where
  filed : ∀ entry ∈ entries, entry.filed = entry.key.hashKey
  distinct : (HashTable.keys entries).Nodup
  inRange : ∀ entry ∈ entries, entry.key.InRange

/-- The values that a run makes. -/
inductive Value.Tidy : Value → Prop where
  | atom {content : Atom} (inRange : content.InRange) : Tidy (.atom content)
  | null : Tidy .null
  | array {tag : Nat} {elements : List Value} (inner : ∀ element ∈ elements, Tidy element) :
      Tidy (.array tag elements)
  | hash {tag : Nat} {entries : List (HashEntry Value)} (filed : HashTable.Filed entries)
      (inner : ∀ entry ∈ entries, Tidy entry.value) : Tidy (.hash tag entries)
  | function {tag : Nat} {parameters : List String} {body : Node} {scope : Nat}
      (names : ∀ name ∈ parameters, IsName name) (tidy : body.Tidy) :
      Tidy (.function tag parameters body scope)
  | builtin (which : Builtin) : Tidy (.builtin which)

/-- A string or an array has fewer than 2^63 bytes or elements. -/
def Value.Sized : Value → Prop
  | .string text => text.utf8ByteSize < 0x8000000000000000
  | .array _ elements => elements.length < 0x8000000000000000
  | _ => True

/-- All bindings of all scopes are tidy. -/
def Store.Tidy (store : Store) : Prop :=
  ∀ scope ∈ store.scopes, ∀ binding ∈ scope.bindings, binding.2.Tidy

/-- A `return` carries a tidy value. -/
def Interrupt.Tidy : Interrupt → Prop
  | returned value => value.Tidy
  | fault _ _ | depthExceeded => True

namespace Value

theorem Tidy.elements {tag : Nat} {elements : List Value}
    (tidy : (Value.array tag elements).Tidy) : ∀ element ∈ elements, element.Tidy := by
  cases tidy with
  | array inner => exact inner

theorem tidy_boolean (value : Bool) : (boolean value).Tidy :=
  .atom trivial

theorem tidy_wrap (value : Int) : (integer (Integer.wrap value)).Tidy :=
  .atom (Integer.inRange_wrap value)

theorem tidy_getD {found : Option Value} (tidy : ∀ value ∈ found, value.Tidy) :
    (found.getD .null).Tidy := by
  cases found with
  | none => exact .null
  | some value => exact tidy value rfl

/-- An operator gives integers that it wrapped, truth values and texts. -/
theorem tidy_binary {operator : BinaryOperator} {left right value : Value}
    (applied : operator.apply left right = .ok value) : value.Tidy := by
  unfold BinaryOperator.apply at applied
  split at applied
  · unfold BinaryOperator.applyIntegers at applied
    split at applied <;> try split at applied
    all_goals cases applied
    all_goals first | exact tidy_wrap _ | exact tidy_boolean _
  · unfold BinaryOperator.applyOthers at applied
    split at applied <;> try split at applied
    all_goals cases applied
    all_goals exact .atom trivial

theorem tidy_unary {operator : UnaryOperator} {operand value : Value}
    (applied : operator.apply operand = .ok value) : value.Tidy := by
  unfold UnaryOperator.apply at applied
  split at applied
  all_goals cases applied
  · exact tidy_boolean _
  · exact tidy_wrap _

theorem Tidy.elementAt {container index value : Value} (tidy : container.Tidy)
    (found : container.elementAt index = .ok value) : value.Tidy := by
  unfold Value.elementAt at found
  split at found
  · cases found
    split
    · exact .null
    · exact tidy_getD fun element held => tidy.elements _ (List.mem_of_getElem? held)
  · split at found
    · cases found
      cases tidy with
      | hash _ inner =>
        refine tidy_getD fun held member => ?_
        obtain ⟨entry, listed, rfl⟩ := HashTable.exists_entry_of_findFiled? member
        exact inner entry listed
    · cases found
  · cases found

theorem Sized.length {argument value : Value} (sized : argument.Sized)
    (found : argument.length = .ok value) : value.Tidy := by
  unfold Value.length at found
  split at found
  all_goals cases found
  all_goals
    simp only [Sized] at sized
    refine .atom ⟨?_, ?_⟩ <;> omega

end Value

namespace HashTable

theorem filed_nil : Filed [] :=
  ⟨nofun, .nil, nofun⟩

theorem Filed.insert {entries : List (HashEntry Value)} (filed : Filed entries) {key : Atom}
    (inRange : key.InRange) (value : Value) : Filed (HashTable.insert entries key value) := by
  refine ⟨filed_insert filed.filed, nodup_keys_insert filed.filed filed.distinct,
    fun entry member => ?_⟩
  rcases eq_or_mem_of_mem_put member with rfl | kept
  · exact inRange
  · exact filed.inRange entry kept

end HashTable

namespace Store

variable {store : Store}

theorem tidy_empty : empty.Tidy := by
  intro scope member
  simp [empty] at member

theorem Tidy.openScope (tidy : store.Tidy) (outer : Option Nat) :
    (store.openScope outer).2.Tidy := by
  intro scope member
  rcases Array.mem_push.mp member with old | rfl
  · exact tidy scope old
  · exact nofun

theorem Tidy.set (tidy : store.Tidy) {value : Value} (valueTidy : value.Tidy) (scope : Nat)
    (name : String) : (store.set scope name value).Tidy := by
  intro frame member
  obtain ⟨number, found⟩ := Array.mem_iff_getElem?.mp member
  simp only [Store.set, Array.getElem?_modify] at found
  split at found
  · obtain ⟨before, held, rfl⟩ := Option.map_eq_some_iff.mp found
    intro binding listed
    rcases List.mem_cons.mp listed with rfl | kept
    · exact valueTidy
    · exact tidy before (Array.mem_of_getElem? held) binding (List.mem_filter.mp kept).1
  · exact tidy frame (Array.mem_of_getElem? found)

/-- The body of a function starts in a tidy store. -/
theorem Tidy.entered (tidy : store.Tidy) {arguments : List Value}
    (argumentsTidy : ∀ argument ∈ arguments, argument.Tidy) (closure : Nat)
    (parameters : List String) : (store.entered closure parameters arguments).Tidy := by
  have bound : ∀ binding ∈ parameters.zip arguments, binding.2.Tidy :=
    fun binding member => argumentsTidy binding.2 (List.of_mem_zip member).2
  rw [Store.entered]
  generalize parameters.zip arguments = pairs at bound
  have opened := tidy.openScope (some closure)
  generalize (store.openScope (some closure)).2 = before at opened
  induction pairs generalizing before with
  | nil => exact opened
  | cons first rest inductionHypothesis =>
    exact inductionHypothesis (fun binding member => bound binding (List.mem_cons_of_mem _ member))
      _ (opened.set (bound first List.mem_cons_self) _ _)

theorem Tidy.get? (tidy : store.Tidy) {scope : Nat} {name : String} {value : Value}
    (found : store.get? scope name = some value) : value.Tidy := by
  fun_induction Store.get? store scope name with
  | case1 | case3 | case5 => cases found
  | case2 number frame held own bound =>
    cases found
    obtain ⟨before, after, split, -⟩ := List.lookup_eq_some_iff.mp bound
    refine tidy frame (Array.mem_of_getElem? held) (name, value) ?_
    rw [split]
    exact List.mem_append_right _ List.mem_cons_self
  | case4 number frame held unbound outer around older inductionHypothesis =>
    exact inductionHypothesis found

end Store

end Scriptlet
