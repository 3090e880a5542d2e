/-
This file ranks how tightly operators bind. Equality binds least, then comparison
together with the two connectives, then sums, products, the unary operators, and
calls and indexing most of all. A token that is no operator has the lowest rank, so
it ends every expression.
-/

import Scriptlet.Token

namespace Scriptlet

/-- The ranks of binding, from the loosest to the tightest. -/
inductive Precedence where
  | lowest
  | equality
  | comparison
  | sum
  | product
  | unary
  | call
  deriving DecidableEq

namespace Precedence

/-- The ranks are numbered from one. -/
def level : Precedence → Nat
  | lowest => 1
  | equality => 2
  | comparison => 3
  | sum => 4
  | product => 5
  | unary => 6
  | call => 7

theorem one_le_level (precedence : Precedence) : 1 ≤ precedence.level := by
  cases precedence <;> decide

theorem level_injective {first second : Precedence} (same : first.level = second.level) :
    first = second := by
  cases first <;> cases second <;> first | rfl | exact absurd same (by decide)

end Precedence

/-- The rank of a token between two operands. -/
def TokenKind.precedence : TokenKind → Precedence
  | equal | notEqual => .equality
  | less | greater | and | or => .comparison
  | plus | minus => .sum
  | asterisk | slash => .product
  | leftParen | leftBracket => .call
  | _ => .lowest

end Scriptlet
