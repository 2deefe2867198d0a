/-
Module: BscMempool.Trader.Strategy
Layer: Trader
Purpose: What the strategy decides about a hit: whom it follows, which buys are large enough and for
  how much to buy, and the target token of a PancakeSwap V2 buy, read from its calldata.
Trusted boundary: human-reviewed translation of trader/strategy.rs. The hash and the sender of a hit
  are parsed from what was printed of them; here they are the values themselves.
Main exports: StrategyConfig, scaleSize, evaluate, extractTargetToken
-/
import BscMempool.Trader.Types
import BscMempool.Watch.KolWatch

namespace BscMempool.Trader

open Watch (KolHit)

structure StrategyConfig where
  /-- Only act on these KOL names; empty stands for all of them. -/
  kolFilter : List String := ["D"]
  minBuyUsd : ℚ := 400
  minBuyBnb : ℚ := 0
  sizeFraction : ℚ := 1 / 20
deriving DecidableEq, Repr

/-- Per mille of the KOL's input, at most all of it.  The product saturates. -/
def scaleSize (kolInput : U256) (fraction : ℚ) : U256 :=
  if fraction ≤ 0 then 0
  else
    -- `round` is half away from zero, of a positive number here
    let permille := min (fraction * 1000 + 1 / 2).floor.toNat 1000
    saturatingMulU256 kolInput (BitVec.ofNat 256 permille) / BitVec.ofNat 256 1000

/-- `Strategy::evaluate`. -/
def evaluate (cfg : StrategyConfig) (hit : KolHit) (bnbUsd : ℚ) : Decision :=
  if cfg.kolFilter ≠ [] ∧ hit.kolName ∉ cfg.kolFilter then .skip .notKolHit
  else
    match hit.token, hit.side with
    | none, _ => .skip .notASwap
    | some token, some .sell =>
        .exit hit.kolName token (hit.confirmedBlock.getD 0) hit.txHash hit.fromAddr
    | some token, some .buy =>
        if hit.valueBnb ≤ 0 then .skip .unsupportedSide
        else if 0 < cfg.minBuyBnb ∧ hit.valueBnb < cfg.minBuyBnb then .skip .belowBuyThreshold
        else if 0 < cfg.minBuyUsd ∧ hit.valueBnb * bnbUsd < cfg.minBuyUsd then
          .skip .belowBuyThreshold
        else
          let kolBnb := U256.ofU128 (f64AsU128 (hit.valueBnb * 10 ^ 18))
          -- the block of a pending transaction is filled in from the head later
          .enter hit.kolName token (scaleSize kolBnb cfg.sizeFraction) kolBnb 0 hit.txHash
    | some _, none => .skip .unsupportedSide

/-- What the strategy saw in a hit it enters on. -/
structure Enters (cfg : StrategyConfig) (hit : KolHit) (bnbUsd : ℚ) (token : Address) : Prop where
  followed : cfg.kolFilter = [] ∨ hit.kolName ∈ cfg.kolFilter
  buys : hit.side = some .buy
  target : hit.token = some token
  paid : 0 < hit.valueBnb
  bnb : 0 < cfg.minBuyBnb → cfg.minBuyBnb ≤ hit.valueBnb
  usd : 0 < cfg.minBuyUsd → cfg.minBuyUsd ≤ hit.valueBnb * bnbUsd

/-- What the strategy saw in a hit it exits on. -/
structure Exits (cfg : StrategyConfig) (hit : KolHit) (token : Address) : Prop where
  followed : cfg.kolFilter = [] ∨ hit.kolName ∈ cfg.kolFilter
  sells : hit.side = some .sell
  target : hit.token = some token

section Decisions

variable {cfg : StrategyConfig} {hit : KolHit} {bnbUsd : ℚ}

/-- Whom the filter lets through. -/
theorem followed_of_evaluate (acts : ∀ reason, evaluate cfg hit bnbUsd ≠ .skip reason) :
    cfg.kolFilter = [] ∨ hit.kolName ∈ cfg.kolFilter := by
  by_contra out
  rw [not_or] at out
  apply acts .notKolHit
  rw [evaluate, if_pos out]

theorem evaluate_enter {kolName : String} {token : Address} {bnbAmount kolBnbInput : U256}
    {kolBlock : Nat} {kolTx : B256}
    (decided : evaluate cfg hit bnbUsd = .enter kolName token bnbAmount kolBnbInput kolBlock
      kolTx) :
    Enters cfg hit bnbUsd token := by
  have followed := @followed_of_evaluate cfg hit bnbUsd (by simp [decided])
  unfold evaluate at decided
  split at decided
  · cases decided
  · split at decided
    · cases decided
    · cases decided
    · rename_i target side
      split at decided
      · cases decided
      · rename_i paid
        split at decided
        · cases decided
        · rename_i bnb
          split at decided
          · cases decided
          · rename_i usd
            cases decided
            exact ⟨followed, side, target, lt_of_not_ge paid, fun gate => le_of_not_gt fun below =>
              bnb ⟨gate, below⟩,
              fun gate => le_of_not_gt fun below => usd ⟨gate, below⟩⟩
    · cases decided

theorem evaluate_exit {kolName : String} {token : Address} {kolBlock : Nat} {kolTx : B256}
    {kolAddr : Address}
    (decided : evaluate cfg hit bnbUsd = .exit kolName token kolBlock kolTx kolAddr) :
    Exits cfg hit token := by
  have followed := @followed_of_evaluate cfg hit bnbUsd (by simp [decided])
  unfold evaluate at decided
  split at decided
  · cases decided
  · split at decided
    · cases decided
    · rename_i target side
      cases decided
      exact ⟨followed, side, target⟩
    · split at decided
      · cases decided
      · split at decided
        · cases decided
        · split at decided <;> cases decided
    · cases decided

/-- Without a price nothing is large enough, if the size is gated in dollars. -/
theorem Enters.price_pos {token : Address} (enters : Enters cfg hit bnbUsd token)
    (gated : 0 < cfg.minBuyUsd) :
    0 < bnbUsd := by
  have worth : 0 < hit.valueBnb * bnbUsd := lt_of_lt_of_le gated (enters.usd gated)
  exact pos_of_mul_pos_right worth (le_of_lt enters.paid)

/-- The size never exceeds what the KOL put in. -/
theorem scaleSize_le (kolInput : U256) (fraction : ℚ) :
    (scaleSize kolInput fraction).toNat ≤ kolInput.toNat := by
  unfold scaleSize
  split
  · exact Nat.zero_le _
  · have small : min (fraction * 1000 + 1 / 2).floor.toNat 1000 ≤ 1000 := Nat.min_le_right _ _
    generalize min (fraction * 1000 + 1 / 2).floor.toNat 1000 = permille at small
    have word : (BitVec.ofNat 256 permille).toNat = permille := by
      rw [BitVec.toNat_ofNat]
      exact Nat.mod_eq_of_lt (lt_of_le_of_lt small (by norm_num))
    have product : (saturatingMulU256 kolInput (BitVec.ofNat 256 permille)).toNat ≤ kolInput.toNat *
        permille := by
      unfold saturatingMulU256
      rw [word]
      split
      · rename_i fits
        rw [BitVec.toNat_mul, word, Nat.mod_eq_of_lt fits]
      · rename_i large
        rw [BitVec.toNat_allOnes]
        omega
    show (saturatingMulU256 kolInput (BitVec.ofNat 256 permille) / BitVec.ofNat 256 1000).toNat ≤
        kolInput.toNat
    rw [BitVec.toNat_udiv]
    calc _ ≤ kolInput.toNat * permille / 1000 := Nat.div_le_div_right product
      _ ≤ kolInput.toNat * 1000 / 1000 := Nat.div_le_div_right (Nat.mul_le_mul_left _ small)
      _ = kolInput.toNat := Nat.mul_div_cancel _ (by norm_num)

end Decisions

/-! ### The target token of a V2 buy -/

/-- `swapExactETHForTokens`, `swapETHForExactTokens` and
`swapExactETHForTokensSupportingFeeOnTransferTokens`. -/
def V2_BUY_SELECTORS : List (List UInt8) :=
  [[0x7f, 0xf3, 0x6a, 0xb5], [0xfb, 0x3b, 0xdb, 0x41], [0xb6, 0xf9, 0xde, 0x95]]

/-- A big-endian word. -/
def natOfBytes (bytes : List UInt8) : Nat := bytes.foldl (fun n byte => n * 256 + byte.toNat) 0

/-- The last hop of the path of a V2 buy, unless it is WBNB. -/
def extractTargetToken (calldata : List UInt8) : Option Address :=
  if calldata.length < 4 + 32 * 5 + 32 then none
  else if calldata.take 4 ∉ V2_BUY_SELECTORS then none
  else
    -- the path length sits behind the selector and four head words
    let pathLen := natOfBytes ((calldata.drop 132).take 32)
    if pathLen < 2 ∨ pathLen > 8 then none
    else
      let lastAddrStart := 164 + 32 * (pathLen - 1)
      if calldata.length < lastAddrStart + 32 then none
      else
        let addr : Address :=
          BitVec.ofNat 160 (natOfBytes ((calldata.drop (lastAddrStart + 12)).take 20))
        if addr = WBNB then none else some addr

end BscMempool.Trader
