/-
Module: BscMempool.Proofs.BasisPoints
Layer: Proofs
Purpose: On which 256-bit words the basis-point arithmetic of the executors is exact: where the
  product does not wrap or saturate, and where the fraction's product with 10000, an `f64`, is not
  truncated to one basis point less.
Trusted boundary: none
Main exports: applySlippage_exact_iff, bpsHaircutU256_exact_iff, TruncatesLow, f64_bps,
  scaleU256ByFractionF64_exact_iff, basis_points_exact_iff, basis_points_wrap
-/
import BscMempool.Trader.Types

namespace BscMempool.Trader

open Numeric (toF64 toF64_error)

/-- The share of `x` that is asked for. -/
def exactShare (x : U256) (k : Nat) : Nat := x.toNat * k / 10000

theorem exactShare_le (x : U256) {k : Nat} (fraction : k ≤ 10000) : exactShare x k ≤ x.toNat := by
  unfold exactShare
  calc x.toNat * k / 10000 ≤ x.toNat * 10000 / 10000 :=
    Nat.div_le_div_right (Nat.mul_le_mul_left _ fraction)
    _ = x.toNat := Nat.mul_div_cancel _ (by decide)

/-! ### Products that wrap or saturate -/

/-- The quotient of a wrapped product is that of the product only if nothing wrapped. -/
theorem wrapped_div_eq_iff (n : Nat) : n % 2 ^ 256 / 10000 = n / 10000 ↔ n < 2 ^ 256 := by
  constructor
  · intro same
    by_contra wraps
    have rest := Nat.div_add_mod n (2 ^ 256)
    have once : 1 ≤ n / 2 ^ 256 := Nat.div_pos (Nat.le_of_not_lt wraps) (by positivity)
    omega
  · intro fits
    rw [Nat.mod_eq_of_lt fits]

theorem toNat_tenThousand : (BitVec.ofNat 256 10000).toNat = 10000 := rfl

theorem toNat_mul_div (x : U256) {k : Nat} (small : k < 2 ^ 256) :
    (x * BitVec.ofNat 256 k / BitVec.ofNat 256 10000).toNat = x.toNat * k % 2 ^ 256 / 10000 := by
  rw [BitVec.toNat_udiv, BitVec.toNat_mul, toNat_tenThousand, BitVec.toNat_ofNat,
    Nat.mod_eq_of_lt small]

theorem scaleU256ByBps_toNat (x : U256) {bps : Nat} (below : bps < 10000) :
    (scaleU256ByBps x bps).toNat = x.toNat * bps % 2 ^ 256 / 10000 := by
  unfold scaleU256ByBps
  by_cases zero : bps = 0
  · simp [zero]
  · rw [if_neg zero, if_neg (Nat.not_le.mpr below), toNat_mul_div x (by omega)]

theorem applySlippage_eq_scale (x : U256) {k : Nat} (below : k < 10000) :
    (applySlippage x (10000 - k)).toNat = x.toNat * k % 2 ^ 256 / 10000 := by
  unfold applySlippage
  by_cases nothing : x = 0
  · simp [nothing]
  · have slips : ¬ (10000 - k = 0 ∨ x = 0) := by
      rw [not_or]
      exact ⟨by omega, nothing⟩
    by_cases none_ : k = 0
    · rw [if_neg slips, if_pos (by omega), none_]
      simp
    · rw [if_neg slips, if_neg (by omega), Nat.sub_sub_self (Nat.le_of_lt below),
        toNat_mul_div x (by omega)]

/-- `apply_slippage` is exact if it keeps everything or its product fits. -/
theorem applySlippage_exact_iff (x : U256) {k : Nat} (fraction : k ≤ 10000) :
    (applySlippage x (10000 - k)).toNat = exactShare x k ↔ k = 10000 ∨ x.toNat * k < 2 ^ 256 := by
  rcases Nat.lt_or_eq_of_le fraction with below | whole
  · rw [applySlippage_eq_scale x below, exactShare, wrapped_div_eq_iff]
    simp [Nat.ne_of_lt below]
  · have kept : applySlippage x 0 = x := if_pos (Or.inl rfl)
    rw [whole, Nat.sub_self, kept, exactShare, Nat.mul_div_cancel _ (by decide)]
    simp

/-- `bps_haircut_u256` is exact up to the largest product whose quotient is that
of the saturated one. -/
theorem bpsHaircutU256_exact_iff (x : U256) {k : Nat} (fraction : k ≤ 10000) :
    (bpsHaircutU256 x (10000 - k)).toNat = exactShare x k ↔ x.toNat * k < 2 ^ 256 + 64 := by
  have factor : (BitVec.ofNat 256 (10000 - min (10000 - k) 10000)).toNat = k := by
    rw [BitVec.toNat_ofNat, Nat.min_eq_left (Nat.sub_le _ _), Nat.sub_sub_self fraction]
    exact Nat.mod_eq_of_lt (by omega)
  unfold bpsHaircutU256 saturatingMulU256 exactShare
  rw [BitVec.toNat_udiv, factor, toNat_tenThousand]
  split
  · rename_i fits
    rw [BitVec.toNat_mul, factor, Nat.mod_eq_of_lt fits]
    omega
  · rename_i saturates
    rw [BitVec.toNat_allOnes]
    omega

/-! ### Fractions as `f64` -/

/-- `k / 10000` as an `f64`. -/
def f64Fraction (k : Nat) : ℚ := toF64 (k / 10000)

/-- The product of the fraction with 10000 comes out below `k`. -/
def TruncatesLow (k : Nat) : Prop := toF64 (f64Fraction k * 10000) < k

instance (k : Nat) : Decidable (TruncatesLow k) := inferInstanceAs (Decidable (_ < _))

theorem f64Fraction_error (k : Nat) : |f64Fraction k - k / 10000| ≤ k / 10000 / 2 ^ 53 := by
  have error := toF64_error (k / 10000)
  rwa [abs_of_nonneg (show (0 : ℚ) ≤ k / 10000 by positivity)] at error

theorem f64Fraction_nonneg (k : Nat) : 0 ≤ f64Fraction k := by
  have error := (abs_le.mp (f64Fraction_error k)).1
  have share : (k : ℚ) / 10000 / 2 ^ 53 ≤ k / 10000 := div_le_self (by positivity) (by norm_num)
  linarith

/-- A fraction of basis points stays a fraction. -/
theorem f64Fraction_le_one {k : Nat} (fraction : k ≤ 10000) : f64Fraction k ≤ 1 := by
  rcases Nat.lt_or_eq_of_le fraction with below | whole
  · have error := (abs_le.mp (f64Fraction_error k)).2
    have bound : (k : ℚ) ≤ 9999 := by exact_mod_cast Nat.le_of_lt_succ below
    have share : (k : ℚ) / 10000 / 2 ^ 53 ≤ 1 / 10000 := by
      rw [div_div, div_le_div_iff₀ (by positivity) (by positivity)]
      linarith
    linarith
  · have one : f64Fraction 10000 = 1 := by decide +kernel
    rw [whole, one]

/-- The product is less than one basis point off. -/
theorem f64_product_near {k : Nat} (fraction : k ≤ 10000) :
    |toF64 (f64Fraction k * 10000) - k| < 1 := by
  have bound : (k : ℚ) ≤ 10000 := by exact_mod_cast fraction
  have first := abs_le.mp (f64Fraction_error k)
  have second := abs_le.mp (toF64_error (f64Fraction k * 10000))
  have largest := f64Fraction_le_one fraction
  have least := f64Fraction_nonneg k
  rw [abs_of_nonneg (by positivity)] at second
  norm_num at first second
  rw [abs_lt]
  constructor
  · linarith
  · linarith

/-- The basis points of a fraction, after both roundings and the truncation. -/
theorem f64_bps {k : Nat} (fraction : k ≤ 10000) :
    f64AsU64 (toF64 (clamp01 (f64Fraction k) * 10000)) = if TruncatesLow k then k - 1 else k := by
  have near := abs_lt.mp (f64_product_near fraction)
  rw [clamp01_eq_of_mem (f64Fraction_nonneg k) (f64Fraction_le_one fraction), f64AsU64]
  split
  · rename_i low
    have floor : ⌊toF64 (f64Fraction k * 10000)⌋ = (k : ℤ) - 1 := by
      apply Int.floor_eq_iff.mpr
      push_cast
      constructor
      · linarith
      · unfold TruncatesLow at low
        linarith
    rw [show (toF64 (f64Fraction k * 10000)).floor = _ from floor]
    omega
  · rename_i notLow
    have floor : ⌊toF64 (f64Fraction k * 10000)⌋ = (k : ℤ) := by
      apply Int.floor_eq_iff.mpr
      constructor
      · exact_mod_cast le_of_not_gt notLow
      · push_cast
        linarith
    rw [show (toF64 (f64Fraction k * 10000)).floor = _ from floor]
    omega

theorem not_truncatesLow_zero : ¬ TruncatesLow 0 := by
  unfold TruncatesLow f64Fraction
  simp

/-- `scale_u256_by_fraction` is exact if the fraction keeps its basis points and everything is kept
or the product fits, or if a basis point less makes no difference. -/
theorem scaleU256ByFractionF64_exact_iff (x : U256) {k : Nat} (fraction : k ≤ 10000) :
    (scaleU256ByFractionF64 x (f64Fraction k)).toNat = exactShare x k ↔
      if TruncatesLow k then x.toNat * (k - 1) % 10000 + x.toNat < 10000
      else k = 10000 ∨ x.toNat * k < 2 ^ 256 := by
  rw [scaleU256ByFractionF64, f64_bps fraction]
  by_cases low : TruncatesLow k
  · have positive : k ≠ 0 := fun zero => not_truncatesLow_zero (zero ▸ low)
    have more : x.toNat * k = x.toNat * (k - 1) + x.toNat := by
      rw [← Nat.mul_succ, Nat.succ_eq_add_one, Nat.sub_add_cancel (Nat.pos_of_ne_zero positive)]
    have limit : x.toNat < 10000 → x.toNat * (k - 1) ≤ 10000 * 10000 := fun small =>
      Nat.mul_le_mul (Nat.le_of_lt small) (by omega)
    rw [if_pos low, if_pos low, scaleU256ByBps_toNat x (by omega), exactShare, more]
    generalize x.toNat * (k - 1) = product at *
    constructor
    · intro same
      have unwrapped : product < 2 ^ 256 := by
        rw [← wrapped_div_eq_iff]
        have less : product % 2 ^ 256 / 10000 ≤ product / 10000 :=
          Nat.div_le_div_right (Nat.mod_le _ _)
        omega
      rw [Nat.mod_eq_of_lt unwrapped] at same
      omega
    · intro little
      have small := limit (by omega)
      rw [Nat.mod_eq_of_lt (by omega)]
      omega
  · rw [if_neg low, if_neg low]
    rcases Nat.lt_or_eq_of_le fraction with below | whole
    · rw [scaleU256ByBps_toNat x below, exactShare, wrapped_div_eq_iff]
      simp [Nat.ne_of_lt below]
    · have kept : scaleU256ByBps x 10000 = x := rfl
      rw [whole, kept, exactShare, Nat.mul_div_cancel _ (by decide)]
      simp

/-! ### All of them -/

/-- Every copy of the scaling gives the exact share, which is no more than the whole. -/
structure SharesExactly (x : U256) (k : Nat) : Prop where
  slippage : (applySlippage x (10000 - k)).toNat = exactShare x k
  haircut : (bpsHaircutU256 x (10000 - k)).toNat = exactShare x k
  fraction : (scaleU256ByFractionF64 x (f64Fraction k)).toNat = exactShare x k
  within : exactShare x k ≤ x.toNat

/-- All are exact exactly when the product with `k` fits in 256 bits and, where the `f64` product is
truncated low, a basis point less makes no difference. -/
theorem basis_points_exact_iff (x : U256) {k : Nat} (fraction : k ≤ 10000) :
    SharesExactly x k ↔
      x.toNat * k < 2 ^ 256 ∧ (TruncatesLow k → x.toNat * (k - 1) % 10000 + x.toNat < 10000) := by
  have slippage := applySlippage_exact_iff x fraction
  have haircut := bpsHaircutU256_exact_iff x fraction
  have scaled := scaleU256ByFractionF64_exact_iff x fraction
  constructor
  · intro exact_
    have kept := slippage.mp exact_.slippage
    have within := haircut.mp exact_.haircut
    have bps := scaled.mp exact_.fraction
    constructor
    · rcases kept with whole | fits
      · rw [whole] at within ⊢
        omega
      · exact fits
    · intro low
      rwa [if_pos low] at bps
  · intro holds
    rcases holds with ⟨fits, truncated⟩
    constructor
    · exact slippage.mpr (Or.inr fits)
    · exact haircut.mpr (by omega)
    · apply scaled.mpr
      by_cases low : TruncatesLow k
      · rw [if_pos low]
        exact truncated low
      · rw [if_neg low]
        exact Or.inr fits
    · exact exactShare_le x fraction

theorem basis_points_half : SharesExactly 1001 5000 :=
  (basis_points_exact_iff 1001 (by decide)).mpr (by decide +kernel)

/-- The largest word wraps and saturates, and three basis points of 10000 come out as two. -/
theorem basis_points_wrap :
    (applySlippage (BitVec.allOnes 256) (10000 - 9999)).toNat ≠
      exactShare (BitVec.allOnes 256) 9999 ∧
      (bpsHaircutU256 (BitVec.allOnes 256) (10000 - 9999)).toNat ≠
        exactShare (BitVec.allOnes 256) 9999 ∧
      (scaleU256ByFractionF64 10000 (f64Fraction 3)).toNat = 2 ∧ exactShare 10000 3 = 3 ∧
      ¬ SharesExactly (BitVec.allOnes 256) 9999 ∧ ¬ SharesExactly 10000 3 := by
  have slippage : (applySlippage (BitVec.allOnes 256) (10000 - 9999)).toNat ≠
      exactShare (BitVec.allOnes 256) 9999 := by
    decide +kernel
  have fraction : (scaleU256ByFractionF64 10000 (f64Fraction 3)).toNat = 2 := by decide +kernel
  have share : exactShare 10000 3 = 3 := by decide
  have haircut : (bpsHaircutU256 (BitVec.allOnes 256) (10000 - 9999)).toNat ≠
      exactShare (BitVec.allOnes 256) 9999 := by
    decide +kernel
  refine ⟨slippage, haircut, fraction, share, fun exact_ =>
    slippage exact_.slippage, fun exact_ => ?_⟩
  have same := exact_.fraction
  rw [fraction, share] at same
  exact absurd same (by decide)

end BscMempool.Trader
