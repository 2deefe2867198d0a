/-
Module: BscMempool.Numeric.Rounding
Layer: Numeric
Purpose: Rounding to the nearest integer with ties to even, and from there rounding of a rational
  number to 53 significant bits, which is what an operation on `f64` does to its exact result inside
  the range of normal numbers.
Trusted boundary: none
Main exports: roundHalfEven, roundHalfEven_error, toF64, toF64_error
-/
import Mathlib.Algebra.Order.Round
import Mathlib.Data.Int.Log
import Mathlib.Data.Rat.Floor
import Mathlib.Tactic.FieldSimp
import Mathlib.Tactic.Linarith
import Mathlib.Tactic.NormNum

namespace BscMempool.Numeric

/-- The nearest integer; of two that are equally near, the even one. -/
def roundHalfEven (x : ℚ) : ℤ :=
  let low := x.floor
  if x - low < 1 / 2 then low
  else if 1 / 2 < x - low then low + 1
  else low + low % 2

theorem roundHalfEven_error (x : ℚ) : |(roundHalfEven x : ℚ) - x| ≤ 1 / 2 := by
  have below : (x.floor : ℚ) ≤ x := Int.floor_le x
  have above : x < x.floor + 1 := Int.lt_floor_add_one x
  unfold roundHalfEven
  dsimp only
  split
  · rw [abs_le]
    constructor <;> linarith
  · split
    · push_cast
      rw [abs_le]
      constructor <;> linarith
    · have bit : x.floor % 2 = 0 ∨ x.floor % 2 = 1 := Int.emod_two_eq_zero_or_one _
      rcases bit with even | odd
      · rw [even, add_zero, abs_le]
        constructor <;> linarith
      · rw [odd]
        push_cast
        rw [abs_le]
        constructor <;> linarith

@[simp] theorem roundHalfEven_intCast (n : ℤ) : roundHalfEven n = n := by
  have floor : (n : ℚ).floor = n := Rat.floor_intCast n
  simp [roundHalfEven, floor]

/-! ### 53 significant bits -/

/-- The exponent of the last of 53 bits. -/
def ulpExponent (x : ℚ) : ℤ := Int.log 2 |x| - 52

/-- The nearest number of 53 bits.  The exponent is not bounded. -/
def toF64 (x : ℚ) : ℚ := roundHalfEven (x / 2 ^ ulpExponent x) * 2 ^ ulpExponent x

@[simp] theorem toF64_zero : toF64 0 = 0 := by
  have zero : roundHalfEven 0 = 0 := by exact_mod_cast roundHalfEven_intCast 0
  simp [toF64, zero]

/-- The relative error is at most half a unit in the last place. -/
theorem toF64_error (x : ℚ) : |toF64 x - x| ≤ |x| / 2 ^ 53 := by
  by_cases zero : x = 0
  · simp [zero]
  have unit : (0 : ℚ) < 2 ^ ulpExponent x := zpow_pos two_pos _
  have scaled : toF64 x - x = (roundHalfEven (x / 2 ^ ulpExponent x) - x / 2 ^ ulpExponent x) *
      2 ^ ulpExponent x := by
    rw [toF64, sub_mul, div_mul_cancel₀ _ unit.ne']
  have large : (2 : ℚ) ^ (ulpExponent x + 52) ≤ |x| := by
    have known := Int.zpow_log_le_self (b := 2) (by norm_num) (abs_pos.mpr zero)
    simpa [ulpExponent] using known
  rw [zpow_add₀ two_ne_zero] at large
  calc |toF64 x - x|
      = |(roundHalfEven (x / 2 ^ ulpExponent x) : ℚ) - x / 2 ^ ulpExponent x| *
        2 ^ ulpExponent x := by
        rw [scaled, abs_mul, abs_of_pos unit]
    _ ≤ 1 / 2 * 2 ^ ulpExponent x := mul_le_mul_of_nonneg_right (roundHalfEven_error _) unit.le
    _ = 2 ^ ulpExponent x * 2 ^ (52 : ℤ) / 2 ^ 53 := by norm_num; ring
    _ ≤ |x| / 2 ^ 53 := by
        apply div_le_div_of_nonneg_right large
        positivity

end BscMempool.Numeric
