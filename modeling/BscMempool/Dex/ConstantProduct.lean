/-
Module: BscMempool.Dex.ConstantProduct
Layer: Dex
Purpose: The constant-product formula of a pair, with a fee taken of what comes in, as a router
  computes it with checked 256-bit arithmetic.
Trusted boundary: none
Main exports: Fee, Fee.amountOut, Fee.getAmountOut, Fee.amountOut_lt, Fee.getAmountOut_eq_some,
  Fee.getAmountOut_isSome
-/
import Mathlib.Tactic.Ring

namespace BscMempool.Dex

/-- Of `scale` units that come in, `kept` are swapped. -/
structure Fee where
  kept : Nat
  scale : Nat
  positive : 0 < scale
  within : kept ≤ scale

namespace Fee

variable (fee : Fee)

/-- What comes out for an amount. -/
def amountOut (amountIn reserveIn reserveOut : Nat) : Nat :=
  amountIn * fee.kept * reserveOut / (reserveIn * fee.scale + amountIn * fee.kept)

/-- What a router answers: nothing without input or reserves, or where the arithmetic overflows. -/
def getAmountOut (amountIn reserveIn reserveOut : Nat) : Option Nat :=
  if amountIn = 0 ∨ reserveIn = 0 ∨ reserveOut = 0 then none
  else if amountIn * fee.kept * reserveOut < 2 ^ 256 ∧
    reserveIn * fee.scale + amountIn * fee.kept < 2 ^ 256 then
    some (fee.amountOut amountIn reserveIn reserveOut)
  else none

variable {fee} {amountIn reserveIn reserveOut : Nat}

/-- A pair never gives all it has. -/
theorem amountOut_lt (hasIn : 0 < reserveIn) (hasOut : 0 < reserveOut) :
    fee.amountOut amountIn reserveIn reserveOut < reserveOut := by
  have scaled : 0 < reserveIn * fee.scale := Nat.mul_pos hasIn fee.positive
  apply Nat.div_lt_of_lt_mul
  calc amountIn * fee.kept * reserveOut = 0 + amountIn * fee.kept * reserveOut :=
    (Nat.zero_add _).symm
    _ < reserveIn * fee.scale * reserveOut + amountIn * fee.kept * reserveOut :=
        Nat.add_lt_add_right (Nat.mul_pos scaled hasOut) _
    _ = (reserveIn * fee.scale + amountIn * fee.kept) * reserveOut := (Nat.add_mul _ _ _).symm

theorem getAmountOut_eq_some {out : Nat}
    (answer : fee.getAmountOut amountIn reserveIn reserveOut = some out) :
    0 < amountIn ∧ amountIn * fee.kept * reserveOut < 2 ^ 256 ∧
    out = fee.amountOut amountIn reserveIn reserveOut := by
  unfold getAmountOut at answer
  split at answer
  · cases answer
  · rename_i given
    split at answer
    · rename_i fits
      cases answer
      exact ⟨Nat.pos_of_ne_zero fun zero => given (.inl zero), fits.1, rfl⟩
    · cases answer

/-- Amounts and reserves that are small enough always get an answer. -/
theorem getAmountOut_isSome {bits : Nat} (given : 0 < amountIn) (hasIn : 0 < reserveIn)
    (hasOut : 0 < reserveOut)
    (amount : amountIn < 2 ^ bits) (in_ : reserveIn < 2 ^ bits) (out : reserveOut < 2 ^ bits)
    (scale : 2 ^ bits * fee.scale * 2 ^ bits ≤ 2 ^ 255) :
    (fee.getAmountOut amountIn reserveIn reserveOut).isSome = true := by
  have product : amountIn * fee.kept ≤ 2 ^ bits * fee.scale :=
    Nat.mul_le_mul (Nat.le_of_lt amount) fee.within
  have whole : amountIn * fee.kept * reserveOut ≤ 2 ^ bits * fee.scale * 2 ^ bits :=
    Nat.mul_le_mul product (Nat.le_of_lt out)
  have single : 2 ^ bits * fee.scale ≤ 2 ^ bits * fee.scale * 2 ^ bits :=
    Nat.le_mul_of_pos_right _ (Nat.two_pow_pos bits)
  have reserve : reserveIn * fee.scale < 2 ^ bits * fee.scale :=
    Nat.mul_lt_mul_of_pos_right in_ fee.positive
  have fits : amountIn * fee.kept * reserveOut < 2 ^ 256 ∧
      reserveIn * fee.scale + amountIn * fee.kept < 2 ^ 256 := by
    constructor <;> omega
  unfold getAmountOut
  rw [if_neg (by omega), if_pos fits]
  rfl

end Fee

end BscMempool.Dex
