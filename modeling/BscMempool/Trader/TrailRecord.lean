/-
Module: BscMempool.Trader.TrailRecord
Layer: Trader
Purpose: `TrailState` and `step` at the level of the code's bytes and array reads. The counters of
  the price history are `u8`s here, and a read or write outside the buffer, which panics, has no
  result.
Trusted boundary: human-reviewed translation of trader/adaptive_trail.rs (TrailState, step)
Main exports: TrailRecord, TrailRecord.pushPrice, TrailRecord.oldestPrice, TrailRecord.step,
  TrailRecord.run
-/
import BscMempool.Trader.TrailState

namespace BscMempool.Trader

/-- `TrailState` as the code lays it out. -/
structure TrailRecord where
  entryPriceBnbPerToken : ℚ := 0
  peakPrice : ℚ := 0
  lastPrice : ℚ := 0
  armed : Bool := false
  openedBlock : Nat := 0
  lastObservedBlock : Nat := 0
  priceHistory : Vector ℚ PRICE_HISTORY_LEN := Vector.replicate PRICE_HISTORY_LEN 0
  historyCount : UInt8 := 0
  historyIdx : UInt8 := 0
  breakevenRatcheted : Bool := false

namespace TrailRecord

/-- The state that `init_state_from_ledger` makes. -/
def fresh (entry : ℚ) (openedBlock lastObservedBlock : Nat) : TrailRecord :=
  { entryPriceBnbPerToken := entry, peakPrice := entry, lastPrice := entry, openedBlock,
    lastObservedBlock }

/-- Push an observation into the rolling history. -/
def pushPrice (state : TrailRecord) (currentPrice : ℚ) : Option TrailRecord :=
  let idx := state.historyIdx.toNat
  if inside : idx < PRICE_HISTORY_LEN then
    some { state with
      priceHistory := state.priceHistory.set idx currentPrice
      historyIdx := UInt8.ofNat ((idx + 1) % PRICE_HISTORY_LEN)
      historyCount :=
        if state.historyCount.toNat < PRICE_HISTORY_LEN then state.historyCount + 1
        else state.historyCount }
  else none

def localMax (state : TrailRecord) : ℚ := state.priceHistory.foldl max 0

/-- The read of both leading exits. -/
def oldestPrice (state : TrailRecord) : Option ℚ :=
  state.priceHistory[state.historyIdx.toNat % PRICE_HISTORY_LEN]?

/-- Whether the leading exit fires. -/
def signalDump (state : TrailRecord) (currentPrice : ℚ) : Option Bool :=
  if state.armed ∧ state.historyCount.toNat ≥ PRICE_HISTORY_LEN then
    match state.oldestPrice with
    | none => none
    | some oldestPrice =>
        if state.localMax > 0 ∧ oldestPrice > 0 then
          let distFromLocalMax := (state.localMax - currentPrice) / state.localMax
          let vel10 := (currentPrice - oldestPrice) / oldestPrice / 10
          some (decide (distFromLocalMax > 3 / 10 ∧ vel10 < -(1 / 100)))
        else some false
  else some false

/-- Update the peak and what was observed last. -/
def seePrice (state : TrailRecord) (currentPrice : ℚ) (currentBlock : Nat) : TrailRecord :=
  { state with
    peakPrice := if currentPrice > state.peakPrice then currentPrice else state.peakPrice
    lastPrice := currentPrice
    lastObservedBlock := currentBlock }

/-- The arm transition. -/
def arm (state : TrailRecord) (cfg : TrailConfig) : TrailRecord :=
  if state.armed = false ∧ state.peakPrice ≥ state.entryPriceBnbPerToken * (1 + cfg.armPct) then
    { state with armed := true }
  else state

/-- The break-even ratchet. -/
def ratchet (state : TrailRecord) (cfg : TrailConfig) : TrailRecord :=
  if state.breakevenRatcheted = false ∧
      state.peakPrice ≥ state.entryPriceBnbPerToken * (1 + cfg.breakevenAtPct) then
    { state with breakevenRatcheted := true }
  else state

/-- The exit rules, in the order of the code. -/
def exitReason (state : TrailRecord) (cfg : TrailConfig) (currentPrice : ℚ) (currentBlock : Nat) :
    Option (Option ExitReason) :=
  let hardSlFloor := state.entryPriceBnbPerToken * (1 - cfg.hardSlPct)
  let lockFloor := state.entryPriceBnbPerToken * (1 + cfg.breakevenLockPct)
  let effectiveFloor := if state.breakevenRatcheted then max hardSlFloor lockFloor else hardSlFloor
  if currentPrice ≤ effectiveFloor then
    if state.breakevenRatcheted ∧ lockFloor > hardSlFloor then some (some .breakevenLocked)
    else some (some .hardStopLoss)
  else
    match state.signalDump currentPrice with
    | none => none
    | some true => some (some .signalDump)
    | some false =>
        if state.armed ∧ currentPrice ≤ state.peakPrice * (1 - cfg.trailPct) then some (some .trail)
        else if currentBlock - state.openedBlock ≥ cfg.maxHoldBlocks then some (some .timeout)
        else some none

/-- `step`: the exit reason, if one triggers, and the new state. -/
def step (state : TrailRecord) (cfg : TrailConfig) (currentPrice : ℚ) (currentBlock : Nat) :
    Option (Option ExitReason × TrailRecord) :=
  match (state.seePrice currentPrice currentBlock).pushPrice currentPrice with
  | none => none
  | some state =>
      let state := (state.arm cfg).ratchet cfg
      (state.exitReason cfg currentPrice currentBlock).map fun reason => (reason, state)

/-- Observation after observation, whatever `step` answers. -/
def run (cfg : TrailConfig) (state : TrailRecord) : List (ℚ × Nat) → Option TrailRecord
  | [] => some state
  | (price, block) :: rest =>
      match state.step cfg price block with
      | none => none
      | some (_, state) => run cfg state rest

/-- The prices of the next `n` slots from the one at `start` on, in a circle. -/
def cyclicPrices (state : TrailRecord) (start n : Nat) : List ℚ :=
  (List.range n).map fun i => state.priceHistory[Fin.ofNat PRICE_HISTORY_LEN (start + i)]

end TrailRecord

end BscMempool.Trader
