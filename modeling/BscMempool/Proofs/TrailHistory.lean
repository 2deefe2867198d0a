/-
Module: BscMempool.Proofs.TrailHistory
Layer: Proofs
Purpose: The price history of a trail state is a buffer written in a circle, and the code's bytes
  represent it: no step of any path reads or writes outside the buffer, and the buffer holds the
  last prices in order.
Trusted boundary: none
Main exports: TrailState.ring, trailAfter_holds, TrailState.record, TrailState.record_step,
  trail_history_exact
-/
import BscMempool.Proofs.TrailRuns
import BscMempool.Storage.Ring
import BscMempool.Trader.TrailRecord

namespace BscMempool.Trader

open Storage (Ring)

/-! ### The buffer of a state -/

/-- The history fields of a state. -/
def TrailState.ring (st : TrailState) : Ring ℚ PRICE_HISTORY_LEN where
  cells := st.priceHistory
  count := st.historyCount
  next := st.historyIdx

/-- An observation pushes its price. -/
theorem TrailState.ring_observe (st : TrailState) (cfg : TrailConfig) (price : ℚ) (block : Nat) :
    (st.observe cfg price block).ring = st.ring.push price := rfl

theorem TrailState.ring_fresh (entry : ℚ) (opened observedBlock : Nat) :
    (fresh entry opened observedBlock).ring = .blank 0 := rfl

theorem ring_trailAfter (cfg : TrailConfig) (st : TrailState) (observed : List (ℚ × Nat)) :
    (trailAfter cfg st observed).ring = (observed.map Prod.fst).foldl Ring.push st.ring := by
  induction observed generalizing st with
  | nil => rfl
  | cons obs rest ih =>
      rw [List.map_cons, List.foldl_cons, ← TrailState.ring_observe st cfg obs.1 obs.2]
      exact ih _

/-- After a path from a fresh state the buffer holds the observed prices. -/
theorem trailAfter_holds (cfg : TrailConfig) (entry : ℚ) (opened observedBlock : Nat)
    (observed : List (ℚ × Nat)) :
    (trailAfter cfg (.fresh entry opened observedBlock) observed).ring.Holds
      (observed.map Prod.fst) := by
  rw [ring_trailAfter, TrailState.ring_fresh]
  exact Ring.holds_pushed 0 _

/-! ### The bytes of a state -/

/-- The record that represents a state. -/
def TrailState.record (st : TrailState) : TrailRecord where
  entryPriceBnbPerToken := st.entryPriceBnbPerToken
  peakPrice := st.peakPrice
  lastPrice := st.lastPrice
  armed := st.armed
  openedBlock := st.openedBlock
  lastObservedBlock := st.lastObservedBlock
  priceHistory := st.priceHistory
  historyCount := UInt8.ofNat st.historyCount
  historyIdx := UInt8.ofNat st.historyIdx
  breakevenRatcheted := st.breakevenRatcheted

theorem TrailState.record_fresh (entry : ℚ) (opened observedBlock : Nat) :
    (fresh entry opened observedBlock).record = .fresh entry opened observedBlock := rfl

theorem TrailState.toNat_idx (st : TrailState) : st.record.historyIdx.toNat = st.historyIdx := by
  have small := st.historyIdx.isLt
  exact UInt8.toNat_ofNat_of_lt' (small.trans (by decide))

/-- The arm transition sets a flag. -/
theorem TrailRecord.arm_eq (r : TrailRecord) (cfg : TrailConfig) :
    r.arm cfg = { r with
      armed := r.armed || decide (r.peakPrice ≥ r.entryPriceBnbPerToken * (1 + cfg.armPct)) } := by
  rw [arm]
  cases armed : r.armed with
  | false => by_cases reached : r.peakPrice ≥ r.entryPriceBnbPerToken * (1 + cfg.armPct)
    <;> simp [reached, ← armed]
  | true => simp [← armed]

/-- So does the ratchet. -/
theorem TrailRecord.ratchet_eq (r : TrailRecord) (cfg : TrailConfig) :
    r.ratchet cfg = { r with
      breakevenRatcheted := r.breakevenRatcheted ||
        decide (r.peakPrice ≥ r.entryPriceBnbPerToken * (1 + cfg.breakevenAtPct)) } := by
  rw [ratchet]
  cases ratcheted : r.breakevenRatcheted with
  | false =>
      by_cases reached : r.peakPrice ≥ r.entryPriceBnbPerToken * (1 + cfg.breakevenAtPct) <;>
        simp [reached, ← ratcheted]
  | true => simp [← ratcheted]

section Record

variable {st : TrailState} (counted : st.historyCount ≤ PRICE_HISTORY_LEN)
include counted

theorem TrailState.toNat_count : st.record.historyCount.toNat = st.historyCount :=
  UInt8.toNat_ofNat_of_lt' (Nat.lt_of_le_of_lt counted (by decide))

theorem observe_counted (cfg : TrailConfig) (price : ℚ) (block : Nat) :
    (st.observe cfg price block).historyCount ≤ PRICE_HISTORY_LEN := by
  simp only [TrailState.observe]
  split <;> omega

omit counted in
/-- The read of the oldest slot is inside the buffer. -/
theorem TrailState.record_oldestPrice (st : TrailState) :
    st.record.oldestPrice = some st.oldestPrice := by
  have slot : st.record.historyIdx.toNat % PRICE_HISTORY_LEN = st.historyIdx := by
    rw [toNat_idx]
    exact Nat.mod_eq_of_lt st.historyIdx.isLt
  rw [TrailRecord.oldestPrice, slot]
  exact Vector.getElem?_eq_getElem st.historyIdx.isLt

theorem TrailState.record_signalDump (price : ℚ) :
    st.record.signalDump price = some (st.signalDump price) := by
  have count := toNat_count counted
  have top : st.record.localMax = st.localMax := rfl
  have armed : st.record.armed = st.armed := rfl
  simp only [TrailRecord.signalDump, record_oldestPrice, count, top, armed, signalDump]
  by_cases ready : st.armed = true ∧ st.historyCount ≥ PRICE_HISTORY_LEN
  · by_cases prices : st.localMax > 0 ∧ st.oldestPrice > 0
    · simp [ready, prices]
    · rw [if_pos ready, if_neg prices]
      rcases not_and_or.mp prices with top | oldest
      · simp [top]
      · simp [oldest]
  · rw [if_neg ready]
    rcases not_and_or.mp ready with unarmed | short
    · simp [unarmed]
    · simp [short]

/-- The exit rules answer as `step` does. -/
theorem record_exitReason (cfg : TrailConfig) (price : ℚ) (block : Nat) :
    (st.observe cfg price block).record.exitReason cfg price block =
      some (step st cfg price block).1 := by
  rw [TrailRecord.exitReason, TrailState.record_signalDump
    (observe_counted counted cfg price block), step]
  cases (st.observe cfg price block).signalDump price with
  | false =>
      simp only [apply_ite some, Bool.false_eq_true, if_false]
      rfl
  | true =>
      simp only [apply_ite some, if_true]
      rfl

/-- The write of a price is inside the buffer. -/
theorem TrailState.record_pushPrice (price : ℚ) :
    st.record.pushPrice price = some (TrailState.record { st with
      priceHistory := st.priceHistory.set st.historyIdx price st.historyIdx.isLt
      historyIdx := st.historyIdx + 1
      historyCount := if st.historyCount < PRICE_HISTORY_LEN then st.historyCount + 1
        else st.historyCount }) := by
  have inside : st.record.historyIdx.toNat < PRICE_HISTORY_LEN := st.toNat_idx ▸ st.historyIdx.isLt
  have next : UInt8.ofNat ((st.historyIdx + 1) % PRICE_HISTORY_LEN) =
      UInt8.ofNat (st.historyIdx + 1 : Fin PRICE_HISTORY_LEN) :=
        congrArg UInt8.ofNat (Fin.val_add st.historyIdx 1).symm
  have count : (if st.historyCount < PRICE_HISTORY_LEN then st.record.historyCount + 1
      else st.record.historyCount) =
      UInt8.ofNat (if st.historyCount < PRICE_HISTORY_LEN then st.historyCount + 1
        else st.historyCount) := by
    rw [apply_ite UInt8.ofNat, UInt8.ofNat_add]
    rfl
  rw [TrailRecord.pushPrice, dif_pos inside]
  simp only [toNat_idx, toNat_count counted, next, count]
  rfl

/-- The updates of a record are those of the state it represents. -/
theorem record_observe (cfg : TrailConfig) (price : ℚ) (block : Nat) :
    ((st.record.seePrice price block).pushPrice price).map (fun r => (r.arm cfg).ratchet cfg) =
      some (st.observe cfg price block).record := by
  let seen : TrailState := { st with
    peakPrice := if price > st.peakPrice then price else st.peakPrice
    lastPrice := price
    lastObservedBlock := block }
  have saw : st.record.seePrice price block = seen.record := rfl
  have seenCount : seen.historyCount ≤ PRICE_HISTORY_LEN := counted
  rw [saw, TrailState.record_pushPrice seenCount, Option.map_some, TrailRecord.ratchet_eq,
    TrailRecord.arm_eq]
  rfl

end Record

/-! ### Runs of the code -/

/-- A step of a record is the step of the state it represents. -/
theorem TrailState.record_step {st : TrailState} (counted : st.historyCount ≤ PRICE_HISTORY_LEN)
    (cfg : TrailConfig) (price : ℚ) (block : Nat) :
    st.record.step cfg price block = some ((Trader.step st cfg price block).1,
      (Trader.step st cfg price block).2.record) := by
  have observed := record_observe counted cfg price block
  rw [TrailRecord.step]
  cases pushed : (st.record.seePrice price block).pushPrice price with
  | none =>
      rw [pushed] at observed
      cases observed
  | some r =>
      rw [pushed, Option.map_some, Option.some_inj] at observed
      simp only [observed, record_exitReason counted, Option.map_some, step_snd]

/-- And so is a run. -/
theorem TrailState.record_run {st : TrailState} (counted : st.historyCount ≤ PRICE_HISTORY_LEN)
    (cfg : TrailConfig) (observed : List (ℚ × Nat)) :
    TrailRecord.run cfg st.record observed = some (trailAfter cfg st observed).record := by
  induction observed generalizing st with
  | nil => rfl
  | cons obs rest ih =>
      rw [TrailRecord.run, record_step counted]
      exact ih (observe_counted counted cfg obs.1 obs.2)

/-- For every configuration and every list of observations stepped from a fresh state: no index is
    out of bounds, the counters are the number of observations up to ten and modulo ten, and the
    slots, read in a circle from the next one once there are ten and from the first before, are the
    last ten prices or all of them, oldest first. -/
theorem trail_history_exact (cfg : TrailConfig) (entry : ℚ) (opened observedBlock : Nat)
    (observed : List (ℚ × Nat)) :
    ∃ r, TrailRecord.run cfg (.fresh entry opened observedBlock) observed = some r ∧
      r.oldestPrice.isSome ∧
      r.historyCount.toNat = min observed.length PRICE_HISTORY_LEN ∧
      r.historyIdx.toNat = observed.length % PRICE_HISTORY_LEN ∧
      r.cyclicPrices (if PRICE_HISTORY_LEN ≤ observed.length then r.historyIdx.toNat else 0)
          (min observed.length PRICE_HISTORY_LEN) =
        (observed.map Prod.fst).rtake PRICE_HISTORY_LEN := by
  have holds := trailAfter_holds cfg entry opened observedBlock observed
  have count := holds.count_eq
  have next := holds.next_eq
  have last := holds.last
  rw [List.length_map] at count next last
  have counted : (trailAfter cfg (.fresh entry opened observedBlock) observed).historyCount ≤
      PRICE_HISTORY_LEN :=
    count.trans_le (Nat.min_le_right _ _)
  refine ⟨(trailAfter cfg (.fresh entry opened observedBlock) observed).record, ?_, ?_, ?_, ?_, ?_⟩
  · rw [← TrailState.record_fresh]
    exact TrailState.record_run (Nat.zero_le _) cfg observed
  · rw [TrailState.record_oldestPrice]
    rfl
  · rw [TrailState.toNat_count counted]
    exact count
  · rw [TrailState.toNat_idx]
    exact next
  · rw [TrailState.toNat_idx]
    exact last

end BscMempool.Trader
