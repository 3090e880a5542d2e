/-
This file holds the arithmetic of the language: integers of 64 bits in two's
complement. An operation is carried out on unbounded integers and its result is
wrapped; division goes toward zero.

Both are computed from floored operations: a number is wrapped by a floor modulo between
two shifts, and a quotient is that of the absolute values with a sign put before it.

Main statements: `wrap` is the balanced remainder modulo 2^64, so it lands in the range, fixes
every number of the range, and changes a number by a multiple of 2^64 only; `quotient?` is the
division that rounds toward zero.
-/

namespace Scriptlet.Integer

/-- The number of 64-bit words, 2^64. -/
abbrev modulus : Nat := 0x10000000000000000

/-- The least integer of the range, -2^63. -/
abbrev least : Int := -0x8000000000000000

/-- The signed 64-bit integers: from -2^63 up to 2^63 - 1. -/
def InRange (value : Int) : Prop :=
  -0x8000000000000000 ≤ value ∧ value < 0x8000000000000000

instance (value : Int) : Decidable (InRange value) :=
  inferInstanceAs (Decidable (_ ∧ _))

/-- The signed 64-bit integer of a number: the number is shifted up to zero, reduced by a floor
modulo, and shifted back. -/
def wrap (value : Int) : Int :=
  (value - least).fmod modulus + least

/-- A number with the sign that a product or a quotient of two numbers has. -/
def signed (left right : Int) (size : Nat) : Int :=
  if (left < 0) = (right < 0) then size else -size

/-- The quotient of the absolute values with its sign. No number has a quotient by zero. -/
def quotient? (left right : Int) : Option Int :=
  if right = 0 then none else some (signed left right (left.natAbs / right.natAbs))

/-! ### Wrapping -/

/-- Wrapping is the balanced remainder: the shifts move the range of the floor modulo onto that of
the signed integers. -/
theorem wrap_eq_bmod (value : Int) : wrap value = value.bmod modulus := by
  rw [wrap, Int.fmod_eq_emod_of_nonneg _ (by decide), Int.bmod_def]
  simp only [modulus, least, Int.sub_neg]
  split <;> omega

theorem inRange_wrap (value : Int) : InRange (wrap value) := by
  rw [wrap_eq_bmod]
  have low := Int.le_bmod (x := value) (m := modulus) (by decide)
  have high := Int.bmod_lt (x := value) (m := modulus) (by decide)
  constructor
  · exact low
  · exact high

theorem wrap_of_inRange {value : Int} (inside : InRange value) : wrap value = value := by
  obtain ⟨low, high⟩ := inside
  rw [wrap_eq_bmod]
  exact Int.bmod_eq_of_le (by simpa using low) (by simpa using high)

theorem wrap_emod (value : Int) : wrap value % modulus = value % modulus := by
  rw [wrap_eq_bmod, Int.bmod_emod]

/-! ### Division -/

/-- The sign test puts back the sign that the absolute values have lost. -/
theorem signed_natAbs_div (left right : Int) :
    signed left right (left.natAbs / right.natAbs) = left.tdiv right := by
  rw [signed, Int.natCast_ediv, ← Int.tdiv_eq_ediv_of_nonneg (Int.natCast_nonneg _)]
  rcases Int.lt_or_le left 0 with low | high <;> rcases Int.lt_or_le right 0 with low' | high'
  · rw [if_pos (by rw [eq_iff_iff]; omega), Int.ofNat_natAbs_of_nonpos (Int.le_of_lt low),
      Int.ofNat_natAbs_of_nonpos (Int.le_of_lt low'), Int.neg_tdiv_neg]
  · rw [if_neg (by rw [eq_iff_iff]; omega), Int.ofNat_natAbs_of_nonpos (Int.le_of_lt low),
      Int.natAbs_of_nonneg high', Int.neg_tdiv, Int.neg_neg]
  · rw [if_neg (by rw [eq_iff_iff]; omega), Int.natAbs_of_nonneg high,
      Int.ofNat_natAbs_of_nonpos (Int.le_of_lt low'), Int.tdiv_neg, Int.neg_neg]
  · rw [if_pos (by rw [eq_iff_iff]; omega), Int.natAbs_of_nonneg high, Int.natAbs_of_nonneg high']

theorem quotient?_eq_tdiv {left right : Int} (divisible : right ≠ 0) :
    quotient? left right = some (left.tdiv right) := by
  rw [quotient?, if_neg divisible, signed_natAbs_div]

end Scriptlet.Integer
