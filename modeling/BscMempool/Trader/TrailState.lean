/-
Module: BscMempool.Trader.TrailState
Layer: Trader
Purpose: The adaptive trailing stop as a pure state machine: the per-position state, one step on an
  observed price, and the four votes of the voting exit.
Trusted boundary: human-reviewed translation of trader/adaptive_trail.rs (TrailConfig, TrailState,
  step, compute_vote_signals)
Main exports: TrailConfig, TrailState, ExitReason, step, computeVoteSignals, TrailState.ExitsAt,
  step_isSome_iff
-/
import BscMempool.Trader.FourMemePrice

namespace BscMempool.Trader

structure TrailConfig where
  enabled : Bool
  armPct : ℚ := 1 / 5
  trailPct : ℚ := 1 / 10
  hardSlPct : ℚ := 3 / 10
  maxHoldBlocks : Nat := 4000
  breakevenAtPct : ℚ := 3 / 20
  breakevenLockPct : ℚ := 1 / 20
deriving Repr

abbrev PRICE_HISTORY_LEN : Nat := 10

instance neZeroHistoryLen : NeZero PRICE_HISTORY_LEN := ⟨by decide⟩

/-- Per-position trail state.  `priceHistory` is a circular buffer of the last observed prices,
`historyCount` the number of valid entries and `historyIdx` the next slot to overwrite; an index
outside the buffer cannot be built. -/
structure TrailState where
  entryPriceBnbPerToken : ℚ := 0
  peakPrice : ℚ := 0
  lastPrice : ℚ := 0
  armed : Bool := false
  openedBlock : Nat := 0
  lastObservedBlock : Nat := 0
  priceHistory : Vector ℚ PRICE_HISTORY_LEN := Vector.replicate PRICE_HISTORY_LEN 0
  historyCount : Nat := 0
  historyIdx : Fin PRICE_HISTORY_LEN := 0
  breakevenRatcheted : Bool := false
deriving Repr

inductive ExitReason where
  | hardStopLoss
  | breakevenLocked
  | signalDump
  | signalVote
  | trail
  | timeout
deriving DecidableEq, Repr

def ExitReason.label : ExitReason → String
  | .hardStopLoss => "hard_sl"
  | .breakevenLocked => "be_locked"
  | .signalDump => "signal_dump"
  | .signalVote => "signal_vote"
  | .trail => "trail"
  | .timeout => "timeout"

/-- Largest price of the buffer, folded from zero. -/
def TrailState.localMax (s : TrailState) : ℚ := s.priceHistory.foldl max 0

/-- The slot about to be overwritten. -/
def TrailState.oldestPrice (s : TrailState) : ℚ := s.priceHistory[s.historyIdx]

/-- Take an observation into the state: peak, last price, history, arming and the
break-even ratchet. -/
def TrailState.observe (s : TrailState) (cfg : TrailConfig) (currentPrice : ℚ)
    (currentBlock : Nat) :
    TrailState :=
  let peakPrice := if currentPrice > s.peakPrice then currentPrice else s.peakPrice
  { s with
    peakPrice := peakPrice
    lastPrice := currentPrice
    lastObservedBlock := currentBlock
    priceHistory := s.priceHistory.set s.historyIdx currentPrice
    historyIdx := s.historyIdx + 1
    historyCount :=
      if s.historyCount < PRICE_HISTORY_LEN then s.historyCount + 1 else s.historyCount
    armed := s.armed || decide (peakPrice ≥ s.entryPriceBnbPerToken * (1 + cfg.armPct))
    breakevenRatcheted := s.breakevenRatcheted ||
      decide (peakPrice ≥ s.entryPriceBnbPerToken * (1 + cfg.breakevenAtPct)) }

/-- The leading exit: armed, the buffer full, far below the local maximum and falling. -/
def TrailState.signalDump (s : TrailState) (currentPrice : ℚ) : Bool :=
  s.armed && decide (s.historyCount ≥ PRICE_HISTORY_LEN) &&
    decide (s.localMax > 0) && decide (s.oldestPrice > 0) &&
    decide ((s.localMax - currentPrice) / s.localMax > 3 / 10) &&
    decide ((currentPrice - s.oldestPrice) / s.oldestPrice / 10 < -(1 / 100))

/-- Step the state with a new observation: the exit reason, if one triggers, and the new state. -/
def step (state : TrailState) (cfg : TrailConfig) (currentPrice : ℚ) (currentBlock : Nat) :
    Option ExitReason × TrailState :=
  let s := state.observe cfg currentPrice currentBlock
  let hardSlFloor := s.entryPriceBnbPerToken * (1 - cfg.hardSlPct)
  let lockFloor := s.entryPriceBnbPerToken * (1 + cfg.breakevenLockPct)
  let effectiveFloor := if s.breakevenRatcheted then max hardSlFloor lockFloor else hardSlFloor
  let reason :=
    if currentPrice ≤ effectiveFloor then
      if s.breakevenRatcheted ∧ lockFloor > hardSlFloor then some .breakevenLocked
      else some .hardStopLoss
    else if s.signalDump currentPrice then some .signalDump
    else if s.armed ∧ currentPrice ≤ s.peakPrice * (1 - cfg.trailPct) then some .trail
    else if currentBlock - s.openedBlock ≥ cfg.maxHoldBlocks then some .timeout
    else none
  (reason, s)

/-- At or after the hold-time cap every observation ends the position, whatever its price. -/
theorem step_isSome_of_timeout (state : TrailState) (cfg : TrailConfig) (currentPrice : ℚ)
    (currentBlock : Nat) (overdue : currentBlock - state.openedBlock ≥ cfg.maxHoldBlocks) :
    (step state cfg currentPrice currentBlock).1.isSome := by
  have opened : (state.observe cfg currentPrice currentBlock).openedBlock = state.openedBlock := rfl
  simp only [step, opened, if_pos overdue]
  split_ifs <;> rfl

/-- The rules of `step` that look at the price, in a state that has taken the price in. -/
inductive TrailState.ExitsAt (s : TrailState) (cfg : TrailConfig) (price : ℚ) : Prop where
  | hardStop (low : price ≤ s.entryPriceBnbPerToken * (1 - cfg.hardSlPct))
  | locked (ratcheted : s.breakevenRatcheted = true)
      (low : price ≤ s.entryPriceBnbPerToken * (1 + cfg.breakevenLockPct))
  | dump (dumped : s.signalDump price = true)
  | trail (armed : s.armed = true) (low : price ≤ s.peakPrice * (1 - cfg.trailPct))

/-- A price is at or below the effective floor when it is at or below a floor that counts. -/
theorem effectiveFloor_iff {s : TrailState} {price hard lock : ℚ} :
    price ≤ (if s.breakevenRatcheted = true then max hard lock else hard) ↔
      price ≤ hard ∨ s.breakevenRatcheted = true ∧ price ≤ lock := by
  cases s.breakevenRatcheted with
  | false => simp
  | true => simp

/-- `step` exits when a price rule fires or the hold time is over. -/
theorem step_isSome_iff (state : TrailState) (cfg : TrailConfig) (currentPrice : ℚ)
    (currentBlock : Nat) :
    (step state cfg currentPrice currentBlock).1.isSome ↔
      (state.observe cfg currentPrice currentBlock).ExitsAt cfg currentPrice ∨
        currentBlock - state.openedBlock ≥ cfg.maxHoldBlocks := by
  have opened : (state.observe cfg currentPrice currentBlock).openedBlock = state.openedBlock := rfl
  constructor
  · intro exits
    simp only [step, opened, effectiveFloor_iff] at exits
    split_ifs at exits with low locked dumped trailed overdue
    · rcases low with hard | ⟨ratcheted, lock⟩
      · exact .inl (.hardStop hard)
      · exact .inl (.locked ratcheted lock)
    · rcases low with hard | ⟨ratcheted, lock⟩
      · exact .inl (.hardStop hard)
      · exact .inl (.locked ratcheted lock)
    · exact .inl (.dump dumped)
    · exact .inl (.trail trailed.1 trailed.2)
    · exact .inr overdue
    · cases exits
  · intro exits
    rcases exits with fires | overdue
    · simp only [step, opened, effectiveFloor_iff]
      cases fires with
      | hardStop low =>
          rw [if_pos (Or.inl low)]
          split <;> rfl
      | locked ratcheted low =>
          rw [if_pos (Or.inr ⟨ratcheted, low⟩)]
          split <;> rfl
      | dump dumped =>
          simp only [dumped, if_true]
          split_ifs <;> rfl
      | trail armed low =>
          simp only [armed, low, true_and, if_true]
          split_ifs <;> rfl
    · exact step_isSome_of_timeout state cfg currentPrice currentBlock overdue

/-- The maximum of some prices and a least one is within a bound if they all are. -/
theorem foldr_max_le_iff {floors : List ℚ} {least bound : ℚ} :
    floors.foldr max least ≤ bound ↔ least ≤ bound ∧ ∀ f ∈ floors, f ≤ bound := by
  induction floors with
  | nil => simp
  | cons f rest ih =>
      simp only [List.foldr_cons, max_le_iff, ih, List.forall_mem_cons]
      tauto

/-! ### What an observation keeps of a state -/

/-- What an observation makes of a state, with the peak as a maximum. -/
theorem TrailState.observe_eq (st : TrailState) (cfg : TrailConfig) (price : ℚ) (block : Nat) :
    st.observe cfg price block =
      { st with
        peakPrice := max st.peakPrice price
        lastPrice := price
        lastObservedBlock := block
        priceHistory := st.priceHistory.set st.historyIdx price
        historyIdx := st.historyIdx + 1
        historyCount :=
          if st.historyCount < PRICE_HISTORY_LEN then st.historyCount + 1 else st.historyCount
        armed := st.armed ||
          decide (max st.peakPrice price ≥ st.entryPriceBnbPerToken * (1 + cfg.armPct))
        breakevenRatcheted := st.breakevenRatcheted ||
          decide (max st.peakPrice price ≥ st.entryPriceBnbPerToken * (1 + cfg.breakevenAtPct))
            } := by
  by_cases higher : price > st.peakPrice
  · simp only [observe, if_pos higher, max_eq_right (le_of_lt higher)]
  · simp only [observe, if_neg higher, max_eq_left (not_lt.mp higher)]

/-- The second state knows all that the first does. -/
structure TrailState.GrowsTo (st st' : TrailState) : Prop where
  peak : st.peakPrice ≤ st'.peakPrice
  armed : st.armed = true → st'.armed = true
  ratcheted : st.breakevenRatcheted = true → st'.breakevenRatcheted = true

theorem TrailState.GrowsTo.rfl {st : TrailState} : st.GrowsTo st := ⟨le_rfl, id, id⟩

theorem observe_grows (st : TrailState) (cfg : TrailConfig) (price : ℚ) (block : Nat) :
    st.GrowsTo (st.observe cfg price block) := by
  constructor
  · rw [TrailState.observe_eq]
    exact le_max_left _ _
  · intro armed
    simp [TrailState.observe, armed]
  · intro ratcheted
    simp [TrailState.observe, ratcheted]

/-- The price of a step is within the peak it leaves. -/
theorem observe_last_le (st : TrailState) (cfg : TrailConfig) (price : ℚ) (block : Nat) :
    (st.observe cfg price block).lastPrice ≤ (st.observe cfg price block).peakPrice := by
  rw [TrailState.observe_eq]
  exact le_max_right _ _

/-! ### Votes -/

/-- Number of voting signals firing now, `none` while a feature has no data. -/
def computeVoteSignals (stats : Option TokenStats) (state : TrailState) (currentPrice : ℚ) :
    Option Nat :=
  let localMax := state.localMax
  if localMax ≤ 0 then none
  else
    let dist := (localMax - currentPrice) / localMax
    let oldest := state.oldestPrice
    if oldest ≤ 0 then none
    else
      let vel10 := (currentPrice - oldest) / oldest / 10
      stats.map fun tokenStats =>
        let bv3 : ℚ := ((tokenStats.buyCountLast 3).toNat : ℚ) / 3
        let bv10 : ℚ := ((tokenStats.buyCountLast 10).toNat : ℚ) / 10
        let collapse := if bv10 > 0 then bv3 / bv10 else 1
        let netFlow3blkBnb : ℚ := (tokenStats.netFlowBnbWeiLast 3 : ℚ) / 10 ^ 18
        (if dist > 3 / 10 then 1 else 0) + (if vel10 < -(1 / 100) then 1 else 0) +
          (if collapse < 1 / 2 then 1 else 0) + (if netFlow3blkBnb < -1 then 1 else 0)

end BscMempool.Trader
