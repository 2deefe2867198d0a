/-
Module: BscMempool.Numeric.Saturating
Layer: Numeric
Purpose: The saturating operations of `u64`, which the pipeline, the telemetry and the archive
  limiter share.
Trusted boundary: human-reviewed translation of the documented behaviour of `u64::saturating_add`,
  `saturating_sub` and `saturating_mul`
Main exports: satAddU64, satSubU64, satMulU64, toNat_satSubU64
-/
import Mathlib.Data.Nat.Basic

namespace BscMempool.Numeric

/-- `u64::saturating_add`. -/
def satAddU64 (a b : UInt64) : UInt64 :=
  if a.toNat + b.toNat < UInt64.size then a + b else UInt64.ofNat (UInt64.size - 1)

/-- `u64::saturating_sub`. -/
def satSubU64 (a b : UInt64) : UInt64 := if b ≤ a then a - b else 0

@[simp] theorem toNat_satSubU64 (a b : UInt64) : (satSubU64 a b).toNat = a.toNat - b.toNat := by
  unfold satSubU64
  split
  · exact UInt64.toNat_sub_of_le _ _ ‹_›
  · have above : a.toNat < b.toNat := by
      rw [← UInt64.lt_iff_toNat_lt]
      exact UInt64.not_le.mp ‹_›
    simp only [UInt64.toNat_zero]
    omega

/-- `u64::saturating_mul`. -/
def satMulU64 (a b : UInt64) : UInt64 :=
  if a.toNat * b.toNat < UInt64.size then a * b else UInt64.ofNat (UInt64.size - 1)

end BscMempool.Numeric
