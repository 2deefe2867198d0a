/-
Module: BscMempool.Proofs.TrailRuns
Layer: Proofs
Purpose: What a whole path of observations makes of a trail state, whatever `step` answered on the
  way. The state has a closed form in the observed prices, and the path of a position is the same in
  every price unit.
Trusted boundary: none
Main exports: TrailState.fresh, trailPath, trailAfter, trail_scale_free, trail_closed_form
-/
import BscMempool.Trader.AdaptiveTrail
import Mathlib.Data.List.Induction

namespace BscMempool.Trader

/-! ### Paths -/

/-- The state of a position nobody has observed yet. -/
def TrailState.fresh (entry : ℚ) (openedBlock lastObservedBlock : Nat) : TrailState :=
  { entryPriceBnbPerToken := entry, peakPrice := entry, lastPrice := entry, openedBlock,
    lastObservedBlock }

/-- What the watcher starts a bought position with is a fresh state. -/
theorem TrailState.ofBuy_fresh (row : LiveEntry) (receipt : BuyReceipt) (block : Nat) :
    TrailState.ofBuy row receipt block =
      .fresh ((row.bnbInWei.toNat : ℚ) / receipt.tokensReceived) (receipt.blockNumber.getD block)
        (receipt.blockNumber.getD block) := rfl

/-- The answer of `step` and the state it left at every observation, exits or not. -/
def trailPath (cfg : TrailConfig) (st : TrailState) :
    List (ℚ × Nat) → List (Option ExitReason × TrailState)
  | [] => []
  | (price, block) :: rest =>
      step st cfg price block :: trailPath cfg (step st cfg price block).2 rest

/-- The state a path ends in. -/
def trailAfter (cfg : TrailConfig) (st : TrailState) (observed : List (ℚ × Nat)) : TrailState :=
  observed.foldl (fun s obs => (step s cfg obs.1 obs.2).2) st

theorem step_snd (st : TrailState) (cfg : TrailConfig) (price : ℚ) (block : Nat) :
    (step st cfg price block).2 = st.observe cfg price block := rfl

theorem trailAfter_concat (cfg : TrailConfig) (st : TrailState) (observed : List (ℚ × Nat))
    (price : ℚ) (block : Nat) : trailAfter cfg st (observed ++ [(price, block)]) =
      (trailAfter cfg st observed).observe cfg price block := by
  simp [trailAfter, step_snd]

/-! ### The unit of the price -/

/-- The same state with its prices in another unit. -/
def TrailState.scale (k : ℚ) (st : TrailState) : TrailState :=
  { st with
    entryPriceBnbPerToken := k * st.entryPriceBnbPerToken
    peakPrice := k * st.peakPrice
    lastPrice := k * st.lastPrice
    priceHistory := st.priceHistory.map (k * ·) }

theorem TrailState.scale_fresh (k entry : ℚ) (opened observed : Nat) :
    (fresh entry opened observed).scale k = fresh (k * entry) opened observed := by
  simp [fresh, scale]

section Scale

variable {k : ℚ} (unit : 0 < k) (st : TrailState) (cfg : TrailConfig) (price : ℚ) (block : Nat)

include unit

theorem scale_le_iff (a b : ℚ) : k * a ≤ k * b ↔ a ≤ b := mul_le_mul_iff_of_pos_left unit

theorem scale_max (a b : ℚ) : max (k * a) (k * b) = k * max a b :=
  (mul_max_of_nonneg a b (le_of_lt unit)).symm

theorem TrailState.localMax_scale : (st.scale k).localMax = k * st.localMax := by
  have folded : st.priceHistory.toList.foldl (fun m p => max m (k * p)) (k * 0) =
      k * st.priceHistory.toList.foldl max 0 := List.foldl_hom (k * ·) (scale_max unit)
  rw [mul_zero, ← List.foldl_map] at folded
  simpa only [localMax, scale, ← Vector.foldl_toList, Vector.toList_map] using folded

omit unit in
theorem TrailState.oldestPrice_scale : (st.scale k).oldestPrice = k * st.oldestPrice := by
  simp [oldestPrice, scale]

/-- Only ratios of prices enter the leading exit. -/
theorem TrailState.signalDump_scale :
    (st.scale k).signalDump (k * price) = st.signalDump price := by
  have nonzero : k ≠ 0 := ne_of_gt unit
  simp only [signalDump, localMax_scale unit, oldestPrice_scale, ← mul_sub,
    mul_div_mul_left _ _ nonzero]
  simp [scale, unit]

theorem TrailState.observe_scale :
    (st.scale k).observe cfg (k * price) block = (st.observe cfg price block).scale k := by
  simp only [observe_eq, scale, scale_max unit, ge_iff_le, mul_assoc, scale_le_iff unit,
    Vector.map_set]

/-- One step does not depend on the unit. -/
theorem step_scale : step (st.scale k) cfg (k * price) block =
    ((step st cfg price block).1, (step st cfg price block).2.scale k) := by
  simp only [step, TrailState.observe_scale unit, TrailState.signalDump_scale unit]
  simp only [TrailState.scale, mul_assoc, scale_max unit, ← mul_ite, scale_le_iff unit, gt_iff_lt,
    mul_lt_mul_iff_of_pos_left unit]
  rfl

end Scale

/-- Exit decisions are scale-free: in another unit of the price, the same answers at every
    observation and the same states in the other unit. -/
theorem trail_scale_free (cfg : TrailConfig) {k : ℚ} (unit : 0 < k) (entry : ℚ)
    (opened observedBlock : Nat) (observed : List (ℚ × Nat)) :
    trailPath cfg (.fresh (k * entry) opened observedBlock)
      (observed.map fun obs => (k * obs.1, obs.2)) =
      (trailPath cfg (.fresh entry opened observedBlock) observed).map fun tick =>
        (tick.1, tick.2.scale k) := by
  rw [← TrailState.scale_fresh]
  generalize TrailState.fresh entry opened observedBlock = st
  induction observed generalizing st with
  | nil => rfl
  | cons obs rest ih =>
      simp only [List.map_cons, trailPath, step_scale unit, ih]

/-- A path counted in hundredths. -/
theorem trail_scale_free_hundredths :
    trailPath { enabled := true } (.fresh (1 / 100) 0 0) [(3 / 200, 1), (1 / 100, 2)] =
      (trailPath { enabled := true } (.fresh 1 0 0) [(3 / 2, 1), (1, 2)]).map fun tick =>
        (tick.1, tick.2.scale (1 / 100)) := by
  have scaled :=
    trail_scale_free { enabled := true } (k := 1 / 100) (by norm_num) 1 0 0 [(3 / 2, 1), (1, 2)]
  norm_num at scaled ⊢
  exact scaled

/-! ### The closed form of a state -/

/-- What a state is in terms of the prices that were observed, the newest `price` among them. -/
structure TrailState.ClosedForm (st : TrailState) (cfg : TrailConfig) (entry : ℚ) (opened : Nat)
    (prices : List ℚ) (price : ℚ) (block : Nat) : Prop where
  entry_eq : st.entryPriceBnbPerToken = entry
  opened_eq : st.openedBlock = opened
  peak_eq : st.peakPrice = prices.foldl max entry
  last_eq : st.lastPrice = price
  block_eq : st.lastObservedBlock = block
  armed_iff : st.armed = true ↔ st.peakPrice ≥ entry * (1 + cfg.armPct)
  ratcheted_iff : st.breakevenRatcheted = true ↔ st.peakPrice ≥ entry * (1 + cfg.breakevenAtPct)

/-- A flag that was set at a threshold the peak had reached agrees with the
threshold at the next peak. -/
theorem sticky_iff {flag : Bool} {peak price threshold : ℚ}
    (reached : flag = true → peak ≥ threshold) :
    (flag || decide (max peak price ≥ threshold)) = true ↔ max peak price ≥ threshold := by
  rw [Bool.or_eq_true, decide_eq_true_iff]
  constructor
  · intro set
    rcases set with before | now
    · exact (reached before).trans (le_max_left peak price)
    · exact now
  · exact Or.inr

/-- What of the closed form holds of a fresh state already and survives every observation. -/
structure TrailState.Follows (st : TrailState) (cfg : TrailConfig) (entry : ℚ) (opened : Nat)
    (prices : List ℚ) :
    Prop where
  entry_eq : st.entryPriceBnbPerToken = entry
  opened_eq : st.openedBlock = opened
  peak_eq : st.peakPrice = prices.foldl max entry
  armed : st.armed = true → st.peakPrice ≥ entry * (1 + cfg.armPct)
  ratcheted : st.breakevenRatcheted = true → st.peakPrice ≥ entry * (1 + cfg.breakevenAtPct)

theorem TrailState.Follows.fresh (cfg : TrailConfig) (entry : ℚ) (opened observedBlock : Nat) :
    (fresh entry opened observedBlock).Follows cfg entry opened [] := by
  constructor <;> simp [TrailState.fresh]

/-- One observation completes the closed form. -/
theorem TrailState.Follows.observe {st : TrailState} {cfg : TrailConfig} {entry : ℚ} {opened : Nat}
    {prices : List ℚ} (follows : st.Follows cfg entry opened prices) (price : ℚ) (block : Nat) :
    (st.observe cfg price block).ClosedForm cfg entry opened (prices ++ [price]) price block := by
  rw [observe_eq]
  constructor
  · exact follows.entry_eq
  · exact follows.opened_eq
  · simp [follows.peak_eq]
  · rfl
  · rfl
  · rw [follows.entry_eq]
    exact sticky_iff follows.armed
  · rw [follows.entry_eq]
    exact sticky_iff follows.ratcheted

theorem TrailState.ClosedForm.follows {st : TrailState} {cfg : TrailConfig} {entry : ℚ}
    {opened : Nat} {prices : List ℚ} {price : ℚ} {block : Nat}
    (closed : st.ClosedForm cfg entry opened prices price block) :
    st.Follows cfg entry opened prices :=
  ⟨closed.entry_eq, closed.opened_eq, closed.peak_eq, closed.armed_iff.mp, closed.ratcheted_iff.mp⟩

theorem trailAfter_follows (cfg : TrailConfig) (entry : ℚ) (opened observedBlock : Nat)
    (observed : List (ℚ × Nat)) :
    (trailAfter cfg (.fresh entry opened observedBlock) observed).Follows cfg entry opened
      (observed.map Prod.fst) := by
  induction observed using List.reverseRecOn with
  | nil => exact .fresh cfg entry opened observedBlock
  | append_singleton before obs ih =>
      rw [trailAfter_concat, List.map_append]
      exact (ih.observe obs.1 obs.2).follows

/-- After any observations and one more, whatever the steps answered: the entry and the opening
    block are the fresh ones, the peak is the largest price seen, the last observation is the
    newest, and each flag says whether the peak has reached its threshold. -/
theorem trail_closed_form (cfg : TrailConfig) (entry : ℚ) (opened observedBlock : Nat)
    (before : List (ℚ × Nat)) (price : ℚ) (block : Nat) :
    (trailAfter cfg (.fresh entry opened observedBlock) (before ++ [(price, block)])).ClosedForm cfg
      entry opened
      ((before ++ [(price, block)]).map Prod.fst) price block := by
  rw [trailAfter_concat, List.map_append]
  exact (trailAfter_follows cfg entry opened observedBlock before).observe price block

end BscMempool.Trader
