/-
Module: BscMempool.Codec.Decimal
Layer: Codec
Purpose: The numbers that digits after a decimal point stand for: digits one after the other, zeros
  at the end, and digits that are cut off.
Trusted boundary: none
Main exports: fractionOf, ofDigitChars_lt, fractionOf_append, fractionOf_trim, fractionOf_take
-/
import BscMempool.Codec.Text
import Mathlib.Data.List.DropRight
import Mathlib.Tactic.FieldSimp
import Mathlib.Tactic.Positivity

namespace BscMempool.Codec

/-- The text is made of digits. -/
abbrev IsDigits (s : List Char) : Prop := ∀ c ∈ s, c.isDigit = true

/-- What the digits after a decimal point stand for. -/
def fractionOf (s : List Char) : ℚ := (Nat.ofDigitChars 10 s 0 : ℚ) / 10 ^ s.length

theorem digit_lt {c : Char} (digit : c.isDigit = true) : c.toNat - '0'.toNat < 10 := by
  have bound : c.toNat ≤ 57 := by
    simp only [Char.isDigit, Bool.and_eq_true, decide_eq_true_eq] at digit
    exact digit.2
  have zero : '0'.toNat = 48 := rfl
  omega

/-- A numeral of `n` digits is below `10 ^ n`. -/
theorem ofDigitChars_lt {s : List Char} (digits : IsDigits s) :
    Nat.ofDigitChars 10 s 0 < 10 ^ s.length := by
  induction s with
  | nil => simp
  | cons c rest ih =>
      have first := digit_lt (digits c List.mem_cons_self)
      have later := ih fun d member => digits d (List.mem_cons_of_mem _ member)
      rw [Nat.ofDigitChars_cons, Nat.ofDigitChars_eq_ofDigitChars_zero, List.length_cons,
        Nat.pow_succ]
      calc 10 ^ rest.length * (10 * 0 + (c.toNat - '0'.toNat)) + Nat.ofDigitChars 10 rest 0
          < 10 ^ rest.length * (10 * 0 + (c.toNat - '0'.toNat)) + 10 ^ rest.length :=
            Nat.add_lt_add_left later _
        _ = 10 ^ rest.length * ((c.toNat - '0'.toNat) + 1) := by ring
        _ ≤ 10 ^ rest.length * 10 := Nat.mul_le_mul_left _ first

theorem fractionOf_nonneg (s : List Char) : 0 ≤ fractionOf s := by
  unfold fractionOf
  positivity

theorem fractionOf_lt_one {s : List Char} (digits : IsDigits s) : fractionOf s < 1 := by
  have below : (Nat.ofDigitChars 10 s 0 : ℚ) < 10 ^ s.length := by
    exact_mod_cast ofDigitChars_lt digits
  rw [fractionOf, div_lt_one (by positivity)]
  exact below

/-- Later digits count for less. -/
theorem fractionOf_append (a b : List Char) :
    fractionOf (a ++ b) = fractionOf a + fractionOf b / 10 ^ a.length := by
  have joined : Nat.ofDigitChars 10 (a ++ b) 0 = 10 ^ b.length * Nat.ofDigitChars 10 a 0 +
      Nat.ofDigitChars 10 b 0 := by
    rw [Nat.ofDigitChars_append, Nat.ofDigitChars_eq_ofDigitChars_zero]
  rw [fractionOf, fractionOf, fractionOf, joined, List.length_append]
  push_cast
  field_simp
  ring

theorem fractionOf_zeros (n : Nat) : fractionOf (List.replicate n '0') = 0 := by simp [fractionOf]

/-- Zeros at the end count for nothing. -/
theorem fractionOf_trim (s : List Char) : fractionOf (s.rdropWhile (· == '0')) = fractionOf s := by
  induction s using List.reverseRecOn with
  | nil => rfl
  | append_singleton s c ih =>
      by_cases zero : c = '0'
      · subst zero
        rw [List.rdropWhile_concat_pos _ _ _ (by decide), ih, fractionOf_append,
          show ['0'] = List.replicate 1 '0' from rfl,
          fractionOf_zeros, zero_div, add_zero]
      · rw [List.rdropWhile_concat_neg _ _ _ (by simpa using zero)]

/-- Cutting digits off makes the number smaller by less than one in the last place. -/
theorem fractionOf_take {s : List Char} (digits : IsDigits s) (k : Nat) :
    fractionOf (s.take k) ≤ fractionOf s ∧ fractionOf s < fractionOf (s.take k) + 1 / 10 ^ k := by
  have place : (0 : ℚ) < 1 / 10 ^ k := by positivity
  by_cases short : s.length ≤ k
  · rw [List.take_of_length_le short]
    exact ⟨le_refl _, lt_add_of_pos_right _ place⟩
  · have size : (s.take k).length = k := by
      rw [List.length_take]
      omega
    have whole := fractionOf_append (s.take k) (s.drop k)
    rw [List.take_append_drop, size] at whole
    have later : IsDigits (s.drop k) := fun c member => digits c (List.mem_of_mem_drop member)
    have rest := fractionOf_lt_one later
    have lower := fractionOf_nonneg (s.drop k)
    rw [whole]
    constructor
    · exact le_add_of_nonneg_right (by positivity)
    · have bound : fractionOf (s.drop k) / 10 ^ k < 1 / 10 ^ k := by gcongr
      exact add_lt_add_right bound _

end BscMempool.Codec
