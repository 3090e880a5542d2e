/-
This file compares the operators on integers with the instructions of a 64-bit machine. The
operators compute on unbounded integers and wrap the result; a machine computes on words and never
sees more than 64 bits. `Integer.word` takes an integer to its word, and the two ways agree: on
every operand of the range an operator gives the integer that has the word which the machine
computes.

`MachineArithmetic` lists what this means for each operator. Division needs more words than the
others: it fails on a zero, and the one quotient that leaves the range comes back to where it
started.
-/

import Scriptlet.Value.Operator

namespace Scriptlet

namespace Integer

/-- The 64-bit word of an integer, in two's complement. -/
def word (value : Int) : BitVec 64 :=
  BitVec.ofInt 64 value

/-- Read as a signed number, the word of an integer is the wrapped integer. -/
theorem toInt_word (value : Int) : (word value).toInt = wrap value := by
  rw [wrap_eq_bmod]
  exact BitVec.toInt_ofInt value

theorem toInt_word_of_inRange {value : Int} (inside : InRange value) :
    (word value).toInt = value := by
  rw [toInt_word, wrap_of_inRange inside]

theorem word_wrap (value : Int) : word (wrap value) = word value := by
  rw [← toInt_word]
  exact BitVec.ofInt_toInt

/-- In the range, integers are told apart by their words. -/
theorem word_inj {left right : Int} (leftInside : InRange left) (rightInside : InRange right) :
    word left = word right ↔ left = right := by
  rw [← BitVec.toInt_inj, toInt_word_of_inRange leftInside, toInt_word_of_inRange rightInside]

/-- The wrapped integer is the only one of the range that differs from the integer by a multiple
of 2^64. -/
theorem eq_wrap_iff {value other : Int} :
    other = wrap value ↔ InRange other ∧ other % modulus = value % modulus := by
  constructor
  · rintro rfl
    exact ⟨inRange_wrap value, wrap_emod value⟩
  · rintro ⟨inside, congruent⟩
    calc other = wrap other := (wrap_of_inRange inside).symm
      _ = (other % modulus).bmod modulus := by rw [wrap_eq_bmod, Int.emod_bmod]
      _ = (value % modulus).bmod modulus := by rw [congruent]
      _ = wrap value := by rw [wrap_eq_bmod, Int.emod_bmod]

section

variable (left right : Int)

theorem wrap_add_wrap : wrap (wrap left + wrap right) = wrap (left + right) := by
  simp only [wrap_eq_bmod, Int.bmod_add_bmod, Int.add_bmod_bmod]

theorem wrap_sub_wrap : wrap (wrap left - wrap right) = wrap (left - right) := by
  simp only [wrap_eq_bmod, Int.bmod_sub_bmod, Int.sub_bmod_bmod]

theorem wrap_mul_wrap : wrap (wrap left * wrap right) = wrap (left * right) := by
  simp only [wrap_eq_bmod, Int.bmod_mul_bmod, Int.mul_bmod_bmod]

end

/-! ### Words of results -/

section

variable (left right : Int)

theorem word_wrap_add : word (wrap (left + right)) = word left + word right := by
  rw [word_wrap]
  exact BitVec.ofInt_add left right

theorem word_wrap_sub : word (wrap (left - right)) = word left - word right := by
  rw [word_wrap, ← BitVec.toInt_inj, BitVec.toInt_sub, toInt_word, toInt_word, toInt_word,
    ← wrap_sub_wrap, wrap_eq_bmod (_ - _)]

theorem word_wrap_mul : word (wrap (left * right)) = word left * word right := by
  rw [word_wrap]
  exact BitVec.ofInt_mul left right

theorem word_wrap_neg : word (wrap (-left)) = -word left := by
  rw [word_wrap]
  exact BitVec.ofInt_neg

end

variable {left right : Int}

/-- The wrapped quotient has the word that a signed division of the words gives. -/
theorem word_wrap_tdiv (leftInside : InRange left) (rightInside : InRange right) :
    word (wrap (left.tdiv right)) = (word left).sdiv (word right) := by
  rw [word_wrap, ← BitVec.toInt_inj, BitVec.toInt_sdiv, toInt_word,
    toInt_word_of_inRange leftInside, toInt_word_of_inRange rightInside, wrap_eq_bmod]

/-- Only the least integer has an opposite out of the range, so its quotient by -1 is the only
one that has to be wrapped. -/
theorem wrap_tdiv (leftInside : InRange left) (rightInside : InRange right)
    (regular : ¬ (left = least ∧ right = -1)) : wrap (left.tdiv right) = left.tdiv right := by
  have words : word left ≠ word least ∨ word right ≠ word (-1) := by
    rw [ne_eq, ne_eq, word_inj leftInside (by decide), word_inj rightInside (by decide)]
    exact Classical.not_and_iff_not_or_not.mp regular
  calc wrap (left.tdiv right) = (word (wrap (left.tdiv right))).toInt := by
        rw [word_wrap, toInt_word]
    _ = ((word left).sdiv (word right)).toInt := by rw [word_wrap_tdiv leftInside rightInside]
    _ = (word left).toInt.tdiv (word right).toInt := BitVec.toInt_sdiv_of_ne_or_ne _ _ words
    _ = left.tdiv right := by
        rw [toInt_word_of_inRange leftInside, toInt_word_of_inRange rightInside]

theorem tmod_eq_zero_or_sign_tmod (left right : Int) :
    left.tmod right = 0 ∨ (left.tmod right).sign = left.sign := by
  by_cases divides : right ∣ left
  · exact .inl (Int.tmod_eq_zero_of_dvd divides)
  · exact .inr (by rw [Int.sign_tmod, if_neg divides])

end Integer

open Integer

/-- The rule gives the integer of the range that has this word. -/
def GivesWord (rule : Except Fault Value) (result : BitVec 64) : Prop :=
  ∃ value, rule = .ok (.integer value) ∧ InRange value ∧ word value = result

/-- What the operators do on two integers, in terms of their words. -/
structure MachineArithmetic (left right : Int) : Prop where
  sum : GivesWord (BinaryOperator.add.apply (.integer left) (.integer right))
    (word left + word right)
  difference : GivesWord (BinaryOperator.subtract.apply (.integer left) (.integer right))
    (word left - word right)
  product : GivesWord (BinaryOperator.multiply.apply (.integer left) (.integer right))
    (word left * word right)
  negation : GivesWord (UnaryOperator.negate.apply (.integer left)) (-word left)
  /-- A division fails exactly when the divisor is zero. -/
  byZero : (∃ fault, BinaryOperator.divide.apply (.integer left) (.integer right) = .error fault ∧
    fault.message = "division by zero") ↔ right = 0
  /-- Every other division gives the signed quotient of the words. -/
  quotient : right ≠ 0 → GivesWord (BinaryOperator.divide.apply (.integer left) (.integer right))
    ((word left).sdiv (word right))
  /-- The quotient that leaves the range is wrapped to the dividend. -/
  overflow : left = least → right = -1 →
    BinaryOperator.divide.apply (.integer left) (.integer right) = .ok (.integer least)
  /-- In all other cases the quotient goes toward zero. -/
  remainder : right ≠ 0 → ¬ (left = least ∧ right = -1) → ∃ quotient rest,
    BinaryOperator.divide.apply (.integer left) (.integer right) = .ok (.integer quotient) ∧
      left = right * quotient + rest ∧ rest.natAbs < right.natAbs ∧
      (rest = 0 ∨ rest.sign = left.sign)
  less : BinaryOperator.less.apply (.integer left) (.integer right) =
    .ok (.boolean ((word left).slt (word right)))
  greater : BinaryOperator.greater.apply (.integer left) (.integer right) =
    .ok (.boolean ((word right).slt (word left)))
  equal : BinaryOperator.equal.apply (.integer left) (.integer right) =
    .ok (.boolean (word left == word right))
  notEqual : BinaryOperator.notEqual.apply (.integer left) (.integer right) =
    .ok (.boolean (word left != word right))

theorem givesWord_wrap {value : Int} {result : BitVec 64} (same : word (wrap value) = result) :
    GivesWord (.ok (.integer (wrap value))) result :=
  ⟨wrap value, rfl, inRange_wrap value, same⟩

theorem apply_divide {left right : Int} (divisible : right ≠ 0) :
    BinaryOperator.divide.apply (.integer left) (.integer right) =
      .ok (.integer (wrap (left.tdiv right))) := by
  simp only [BinaryOperator.apply, BinaryOperator.applyIntegers, quotient?_eq_tdiv divisible]

theorem divide_fails_iff (left right : Int) :
    (∃ fault, BinaryOperator.divide.apply (.integer left) (.integer right) = .error fault ∧
      fault.message = "division by zero") ↔ right = 0 := by
  constructor
  · rintro ⟨fault, failed, -⟩
    refine Decidable.byContradiction fun divisible => ?_
    rw [apply_divide divisible] at failed
    cases failed
  · rintro rfl
    exact ⟨.divisionByZero, rfl, rfl⟩

/-- Outside the one case of overflow a division leaves a rest that is smaller than the divisor
and has the sign of the dividend. -/
theorem divide_remainder {left right : Int} (leftInside : InRange left)
    (rightInside : InRange right) (divisible : right ≠ 0)
    (regular : ¬ (left = least ∧ right = -1)) :
    ∃ quotient rest,
      BinaryOperator.divide.apply (.integer left) (.integer right) = .ok (.integer quotient) ∧
        left = right * quotient + rest ∧ rest.natAbs < right.natAbs ∧
        (rest = 0 ∨ rest.sign = left.sign) := by
  refine ⟨left.tdiv right, left.tmod right, ?_, (Int.mul_tdiv_add_tmod left right).symm, ?_,
    tmod_eq_zero_or_sign_tmod left right⟩
  · rw [apply_divide divisible, wrap_tdiv leftInside rightInside regular]
  · rw [Int.natAbs_tmod]
    exact Nat.mod_lt _ (Int.natAbs_pos.mpr divisible)

/-- On integers of the range the operators are the instructions of a 64-bit machine. -/
theorem machineArithmetic {left right : Int} (leftInside : InRange left)
    (rightInside : InRange right) : MachineArithmetic left right where
  sum := givesWord_wrap (word_wrap_add left right)
  difference := givesWord_wrap (word_wrap_sub left right)
  product := givesWord_wrap (word_wrap_mul left right)
  negation := givesWord_wrap (word_wrap_neg left)
  byZero := divide_fails_iff left right
  quotient divisible := by
    rw [apply_divide divisible]
    exact givesWord_wrap (word_wrap_tdiv leftInside rightInside)
  overflow isLeast isNegative := by
    subst isLeast isNegative
    rfl
  remainder := divide_remainder leftInside rightInside
  less := by
    rw [BitVec.slt_eq_decide, toInt_word_of_inRange leftInside, toInt_word_of_inRange rightInside]
    rfl
  greater := by
    rw [BitVec.slt_eq_decide, toInt_word_of_inRange leftInside, toInt_word_of_inRange rightInside]
    rfl
  equal := by
    rw [Bool.beq_eq_decide_eq, decide_eq_decide.mpr (word_inj leftInside rightInside)]
    rfl
  notEqual := by
    rw [bne, Bool.beq_eq_decide_eq, decide_eq_decide.mpr (word_inj leftInside rightInside),
      ← decide_not]
    rfl

/-- Take two integers of 64 bits and the words that stand for them. A sum, a difference, a product
and a negation give the integer whose word the machine computes. A division fails exactly when
the divisor is zero and otherwise gives the signed quotient of the words, which goes toward zero
and leaves a rest of the dividend's sign; only -2^63 divided by -1 leaves the range and comes back
as -2^63. The comparisons are those of signed words.

Wrapping takes an integer of any size to the only one in the range that differs from it by a
multiple of 2^64, so it does not matter whether the operands of a sum, a difference or a product
are wrapped before. -/
theorem apply_eq_machine :
    (∀ left right, InRange left → InRange right → MachineArithmetic left right) ∧
    (∀ value other, other = wrap value ↔ InRange other ∧ other % modulus = value % modulus) ∧
    ∀ operator ∈ [BinaryOperator.add, .subtract, .multiply], ∀ left right,
      operator.apply (.integer (wrap left)) (.integer (wrap right)) =
        operator.apply (.integer left) (.integer right) := by
  refine ⟨fun _ _ => machineArithmetic, fun _ _ => eq_wrap_iff, ?_⟩
  simp only [List.forall_mem_cons, BinaryOperator.apply, BinaryOperator.applyIntegers,
    wrap_add_wrap, wrap_sub_wrap, wrap_mul_wrap, implies_true, true_and]
  exact nofun

/-- The operands whose quotient leaves the range, and two numbers far outside of it. -/
theorem apply_eq_machine_of_extremes :
    (InRange least ∧ InRange (-1) ∧ MachineArithmetic least (-1)) ∧
      BinaryOperator.multiply.apply (.integer (wrap 0x18000000000000001))
          (.integer (wrap (-0x30000000000000007))) =
        BinaryOperator.multiply.apply (.integer 0x18000000000000001)
          (.integer (-0x30000000000000007)) :=
  ⟨⟨by decide, by decide, apply_eq_machine.1 least (-1) (by decide) (by decide)⟩,
    apply_eq_machine.2.2 .multiply (by decide) _ _⟩

end Scriptlet
