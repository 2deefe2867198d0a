/-
Module: BscMempool.Trader.Types
Layer: Trader
Purpose: The values the traders compute with: addresses and 256-bit words, routes, decisions, the
  transactions the live trader signs, and the amount arithmetic of the executors. Prices, `f64` in
  the source, are exact rationals; the live trader's fractions are rounded as `f64` rounds them, or
  by any other arithmetic of `Fractions`.
Trusted boundary: human-reviewed translation of trader/types.rs and the free functions of
  trader/executor_live.rs and trader/paper.rs
Main exports: Address, U256, BuyRoute, Decision, TransactionRequest, scaleU256ByFraction,
  scaleU256ByFractionF64, Fractions, saturatingSubU256, applySlippage, bpsHaircutU256
-/
import BscMempool.Numeric.Rounding
import Mathlib.Data.Rat.Floor
import Mathlib.Tactic.Ring
import Mathlib.Tactic.Linarith
import Mathlib.Tactic.NormNum

namespace BscMempool.Trader

abbrev Address := BitVec 160
abbrev B256 := BitVec 256
abbrev U256 := BitVec 256
abbrev U128 := BitVec 128

def PANCAKE_V2_ROUTER : Address := 0x10ED43C718714eb63d5aA57B78B54704E256024E#160
def WBNB : Address := 0xbb4CdB9CBd36B01bD1cBaEBF2De08d9173bc095c#160
/-- Four.Meme bonding-curve launchpad. -/
def FOURMEME : Address := 0x5c952063c7fc8610FFDB798152D69F0B9550762b#160
def BSC_CHAIN_ID : Nat := 56
def DEADLINE_SECS : Nat := 60
def SWAP_GAS_LIMIT : Nat := 300000
def FOURMEME_GAS_LIMIT : Nat := 250000

/-- Which on-chain route a buy or a sell uses. -/
inductive BuyRoute where
  | pancakeV2
  | fourMeme
deriving DecidableEq, Repr, Inhabited

/-- The contract a sell on this route is addressed to, which has to be allowed to move the token. -/
def BuyRoute.spender : BuyRoute → Address
  | .pancakeV2 => PANCAKE_V2_ROUTER
  | .fourMeme => FOURMEME

/-- Which dry run the route picker uses. -/
inductive Action where
  | buy
  | sell
deriving DecidableEq, Repr

inductive SkipReason where
  | notKolHit
  | belowBuyThreshold
  | notASwap
  | alreadyHavePosition
  | noOpenPosition
  | unknownToken
  | unsupportedSide
deriving DecidableEq, Repr

/-- What the strategy decided to do about a KOL hit. -/
inductive Decision where
  | skip (reason : SkipReason)
  | enter (kolName : String) (token : Address) (bnbAmount : U256) (kolBnbInput : U256)
      (kolBlock : Nat) (kolTx : B256)
  | exit (kolName : String) (token : Address) (kolBlock : Nat) (kolTx : B256) (kolAddr : Address)
deriving DecidableEq, Repr

/-- The calls the live trader encodes. -/
inductive Calldata where
  | swapExactETHForTokens (amountOutMin : U256) (path : List Address) (to_ : Address)
    (deadline : U256)
  | swapExactTokensForETH (amountIn amountOutMin : U256) (path : List Address) (to_ : Address)
      (deadline : U256)
  | buyTokenAMAP (token : Address) (amountIn amountOutMin : U256)
  | sellToken (token : Address) (amount : U256)
  | approve (spender : Address) (amount : U256)
deriving DecidableEq, Repr

/-- A fully populated transaction, as handed to the signer. -/
structure TransactionRequest where
  from_ : Address
  to_ : Address
  value : U256
  input : Calldata
  gasLimit : Nat
  maxFeePerGas : U128
  maxPriorityFeePerGas : U128
  nonce : UInt64
  chainId : Nat
deriving DecidableEq, Repr

/-! ### Casts between `f64` and integers -/

/-- `x as u128`: truncates towards zero and saturates. -/
def f64AsU128 (x : ℚ) : U128 := BitVec.ofNat 128 (min x.floor.toNat (2 ^ 128 - 1))

/-- `x as u64`, as a natural number. -/
def f64AsU64 (x : ℚ) : Nat := min x.floor.toNat (2 ^ 64 - 1)

/-- `U256::from(x)` for a `u128`. -/
def U256.ofU128 (x : U128) : U256 := x.setWidth 256

/-- A cast to `u128` is the floor, cut off at the largest `u128`. -/
theorem toNat_ofU128_f64AsU128 (x : ℚ) :
    (U256.ofU128 (f64AsU128 x)).toNat = min ⌊x⌋.toNat (2 ^ 128 - 1) := by
  have floor : x.floor = ⌊x⌋ := rfl
  have cast : (f64AsU128 x).toNat = min ⌊x⌋.toNat (2 ^ 128 - 1) := by
    rw [f64AsU128, BitVec.toNat_ofNat, floor]
    exact Nat.mod_eq_of_lt (by omega)
  rw [U256.ofU128, BitVec.toNat_setWidth, cast]
  exact Nat.mod_eq_of_lt (by omega)

/-- `f64::clamp(0.0, 1.0)`. -/
def clamp01 (f : ℚ) : ℚ := max 0 (min f 1)

/-- `f64::clamp` keeps what is in range. -/
theorem clamp01_eq_of_mem {f : ℚ} (low : 0 ≤ f) (high : f ≤ 1) : clamp01 f = f := by
  rw [clamp01, min_eq_left high, max_eq_right low]

/-! ### Amounts -/

/-- Scale by a fraction in basis points, 1 bp precision.  The product wraps modulo `2^256`. -/
def scaleU256ByFraction (x : U256) (f : ℚ) : U256 :=
  let bps := f64AsU64 (clamp01 f * 10000)
  if bps = 0 then 0
  else if bps ≥ 10000 then x
  else (x * BitVec.ofNat 256 bps) / BitVec.ofNat 256 10000

/-- Scale by basis points.  The product wraps modulo `2^256`. -/
def scaleU256ByBps (x : U256) (bps : Nat) : U256 :=
  if bps = 0 then 0
  else if bps ≥ 10000 then x
  else (x * BitVec.ofNat 256 bps) / BitVec.ofNat 256 10000

/-- `scaleU256ByFraction` with the product in basis points rounded as an `f64` rounds it; `f` is a
value of `f64`. -/
def scaleU256ByFractionF64 (x : U256) (f : ℚ) : U256 :=
  scaleU256ByBps x (f64AsU64 (Numeric.toF64 (clamp01 f * 10000)))

/-- Without the rounding they are the same. -/
theorem scaleU256ByFraction_eq (x : U256) (f : ℚ) :
    scaleU256ByFraction x f = scaleU256ByBps x (f64AsU64 (clamp01 f * 10000)) := rfl

/-- Saturating subtraction. -/
def saturatingSubU256 (a b : U256) : U256 := if b ≤ a then a - b else 0

/-- Saturating addition. -/
def saturatingAddU256 (a b : U256) : U256 :=
  if a.toNat + b.toNat < 2 ^ 256 then a + b else BitVec.allOnes 256

/-- Saturating multiplication. -/
def saturatingMulU256 (a b : U256) : U256 :=
  if a.toNat * b.toNat < 2 ^ 256 then a * b else BitVec.allOnes 256

/-- The paper trader's basis-point haircut; the product saturates. -/
def bpsHaircutU256 (x : U256) (bps : Nat) : U256 :=
  saturatingMulU256 x (BitVec.ofNat 256 (10000 - min bps 10000)) / BitVec.ofNat 256 10000

/-- Basis-point haircut: `amount * (10000 - bps) / 10000`. -/
def applySlippage (amount : U256) (slipBps : Nat) : U256 :=
  if slipBps = 0 ∨ amount = 0 then amount
  else if slipBps ≥ 10000 then 0
  else (amount * BitVec.ofNat 256 (10000 - slipBps)) / BitVec.ofNat 256 10000

/-- The wrapped product never makes a scaled amount larger than the amount. -/
theorem scaleU256ByFraction_le (x : U256) (f : ℚ) :
    (scaleU256ByFraction x f).toNat ≤ x.toNat := by
  simp only [scaleU256ByFraction]
  split
  · simp
  · split
    · exact Nat.le_refl _
    · rename_i _ small
      have wrapped : (x * BitVec.ofNat 256 (f64AsU64 (clamp01 f * 10000))).toNat ≤
          x.toNat * f64AsU64 (clamp01 f * 10000) := by
        rw [BitVec.toNat_mul, BitVec.toNat_ofNat]
        exact (Nat.mod_le _ _).trans (Nat.mul_le_mul_left _ (Nat.mod_le _ _))
      rw [BitVec.toNat_udiv]
      calc _ ≤ x.toNat * f64AsU64 (clamp01 f * 10000) / 10000 := Nat.div_le_div_right wrapped
        _ ≤ x.toNat * 10000 / 10000 :=
          Nat.div_le_div_right (Nat.mul_le_mul_left _ (Nat.le_of_lt (Nat.lt_of_not_le small)))
        _ = x.toNat := Nat.mul_div_cancel _ (by norm_num)

/-- Basis points of a fraction below one. -/
theorem f64AsU64_lt {y : ℚ} (below : y < 10000) : f64AsU64 y < 10000 := by
  have floored : y.floor < 10000 := by
    have := Int.floor_lt.2 (show y < ((10000 : ℤ) : ℚ) by exact_mod_cast below)
    exact this
  unfold f64AsU64
  omega

/-- A slice in basis points below the whole of a non-zero amount leaves something. -/
theorem scaleU256ByBps_lt {x : U256} {bps : Nat} (part : bps < 10000) (some : x ≠ 0) :
    (scaleU256ByBps x bps).toNat < x.toNat := by
  have positive : 0 < x.toNat := Nat.pos_of_ne_zero fun zero => some (BitVec.eq_of_toNat_eq zero)
  unfold scaleU256ByBps
  split
  · simpa using positive
  · split
    · omega
    · rw [BitVec.toNat_udiv, Nat.div_lt_iff_lt_mul (by simp), BitVec.toNat_mul]
      calc _ ≤ x.toNat * (BitVec.ofNat 256 bps).toNat := Nat.mod_le _ _
        _ ≤ x.toNat * bps := by
          rw [BitVec.toNat_ofNat]
          exact Nat.mul_le_mul_left _ (Nat.mod_le _ _)
        _ < x.toNat * 10000 := Nat.mul_lt_mul_of_pos_left part positive
        _ = x.toNat * (BitVec.ofNat 256 10000).toNat := by simp

/-- A slice below the whole of a non-zero amount leaves something. -/
theorem scaleU256ByFraction_lt {x : U256} {f : ℚ} (below : f < 1) (some : x ≠ 0) :
    (scaleU256ByFraction x f).toNat < x.toNat := by
  have clamped : clamp01 f < 1 := max_lt (by norm_num) ((min_le_left _ _).trans_lt below)
  rw [scaleU256ByFraction_eq]
  exact scaleU256ByBps_lt (f64AsU64_lt (by linarith)) some

/-! ### Parts of a balance -/

/-- The arithmetic of an exit: the fraction that a part is of a whole, the fraction from which on an
exit sells everything, and the part of an amount that a fraction comes to. -/
structure Fractions where
  ofPart : U256 → U256 → ℚ
  fullAt : ℚ
  scale : U256 → ℚ → U256
  scale_lt : ∀ {x : U256} {f : ℚ}, f < fullAt → x ≠ 0 → (scale x f).toNat < x.toNat

namespace Fractions

/-- Exact rational numbers. -/
def exact : Fractions where
  ofPart part whole := clamp01 ((part.toNat : ℚ) / (whole.toNat : ℚ))
  fullAt := 99 / 100
  scale := scaleU256ByFraction
  scale_lt below some := scaleU256ByFraction_lt (by linarith) some

/-- Values of `f64`: both balances, their quotient, the threshold and the product are rounded. -/
def f64 : Fractions where
  ofPart part whole :=
    clamp01 (Numeric.toF64 (Numeric.toF64 part.toNat / Numeric.toF64 whole.toNat))
  fullAt := Numeric.toF64 (99 / 100)
  scale := scaleU256ByFractionF64
  scale_lt {x f} below some := by
    have threshold := (abs_le.mp (Numeric.toF64_error (99 / 100))).2
    have low : 0 ≤ clamp01 f := le_max_left _ _
    have high : clamp01 f ≤ 995 / 1000 := by
      apply max_le (by norm_num)
      have size : |(99 / 100 : ℚ)| = 99 / 100 := by norm_num
      rw [size] at threshold
      apply (min_le_left _ _).trans
      linarith
    have product := (abs_le.mp (Numeric.toF64_error (clamp01 f * 10000))).2
    rw [abs_of_nonneg (by linarith)] at product
    exact scaleU256ByBps_lt (f64AsU64_lt (by linarith)) some

end Fractions

theorem saturatingAddU256_toNat {a b : U256} (fits : a.toNat + b.toNat < 2 ^ 256) :
    (saturatingAddU256 a b).toNat = a.toNat + b.toNat := by
  rw [saturatingAddU256, if_pos fits, BitVec.toNat_add, Nat.mod_eq_of_lt fits]

theorem saturatingSubU256_toNat (a b : U256) :
    (saturatingSubU256 a b).toNat = a.toNat - b.toNat := by
  unfold saturatingSubU256
  split
  · rename_i le
    exact BitVec.toNat_sub_of_le le
  · rename_i gt
    rw [BitVec.le_def] at gt
    simp only [BitVec.ofNat_eq_ofNat, BitVec.toNat_ofNat, Nat.zero_mod]
    omega

/-- What a slice leaves behind, together with the slice, is the amount. -/
theorem saturatingSubU256_add {a b : U256} (le : b.toNat ≤ a.toNat) :
    (saturatingSubU256 a b).toNat + b.toNat = a.toNat := by
  rw [saturatingSubU256_toNat]
  omega

end BscMempool.Trader
