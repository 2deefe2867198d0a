/-
Module: BscMempool.Proofs.TrailFloors
Layer: Proofs
Purpose: The trailing stop never holds a position at or below a floor. The floors are the hard stop,
  the locked gain once the break-even ratchet is set and the trailing one once the position is
  armed; with every observation the highest of the active ones stays or rises.
Trusted boundary: none
Main exports: TrailState.floor, TrailTick, trailRun, TrailTick.Holds, trail_floors
-/
import BscMempool.Trader.TrailState

namespace BscMempool.Trader

/-! ### The floors of a state -/

namespace TrailState

variable (st : TrailState) (cfg : TrailConfig)

def hardSlFloor : ℚ := st.entryPriceBnbPerToken * (1 - cfg.hardSlPct)

def lockFloor : ℚ := st.entryPriceBnbPerToken * (1 + cfg.breakevenLockPct)

def trailFloor : ℚ := st.peakPrice * (1 - cfg.trailPct)

/-- The floors that are active in a state. -/
def activeFloors : List ℚ :=
  st.hardSlFloor cfg ::
    ((if st.breakevenRatcheted then [st.lockFloor cfg] else []) ++
      (if st.armed then [st.trailFloor cfg] else []))

/-- The highest active floor. -/
def floor : ℚ := (st.activeFloors cfg).foldr max (st.hardSlFloor cfg)

end TrailState

theorem le_foldr_max {floors : List ℚ} {least f : ℚ} (member : f ∈ floors) :
    f ≤ floors.foldr max least :=
  (foldr_max_le_iff.mp le_rfl).2 f member

/-- A floor that is active stays active, or a higher one takes its place. -/
theorem TrailState.GrowsTo.floor_le {st st' : TrailState} {cfg : TrailConfig}
    (grows : st.GrowsTo st') (sameEntry : st'.entryPriceBnbPerToken = st.entryPriceBnbPerToken)
    (trailPct : cfg.trailPct ≤ 1) :
    st.floor cfg ≤ st'.floor cfg := by
  have hard : st.hardSlFloor cfg = st'.hardSlFloor cfg := by simp only [hardSlFloor, sameEntry]
  have lock : st.lockFloor cfg = st'.lockFloor cfg := by simp only [lockFloor, sameEntry]
  have trail : st.trailFloor cfg ≤ st'.trailFloor cfg := by
    have share : 0 ≤ 1 - cfg.trailPct := sub_nonneg.mpr trailPct
    exact mul_le_mul_of_nonneg_right grows.peak share
  have hardActive : st'.hardSlFloor cfg ≤ st'.floor cfg := le_foldr_max (by simp [activeFloors])
  apply foldr_max_le_iff.mpr
  constructor
  · rw [hard]
    exact hardActive
  · intro f active
    simp only [activeFloors, List.mem_cons, List.mem_append] at active
    rcases active with rfl | locked | trailing
    · rw [hard]
      exact hardActive
    · cases ratcheted : st.breakevenRatcheted with
      | false => simp [ratcheted] at locked
      | true =>
          have same : f = st.lockFloor cfg := by simpa [ratcheted] using locked
          rw [same, lock]
          exact le_foldr_max (by simp [activeFloors, grows.ratcheted ratcheted])
    · cases armed : st.armed with
      | false => simp [armed] at trailing
      | true =>
          have same : f = st.trailFloor cfg := by simpa [armed] using trailing
          rw [same]
          exact trail.trans (le_foldr_max (by simp [activeFloors, grows.armed armed]))

/-! ### Runs of observations -/

/-- One observation, what `step` decided on it and the state it left. -/
structure TrailTick where
  price : ℚ
  block : Nat
  reason : Option ExitReason
  state : TrailState

/-- Feed observations to `step` until it exits for the first time. -/
def trailRun (cfg : TrailConfig) (st : TrailState) : List (ℚ × Nat) → List TrailTick
  | [] => []
  | (price, block) :: rest =>
      let stepped := step st cfg price block
      ⟨price, block, stepped.1, stepped.2⟩ :: if stepped.1 = none then
        trailRun cfg stepped.2 rest else []

/-- The position is held above every active floor and within its hold time. -/
structure TrailTick.Holds (cfg : TrailConfig) (tick : TrailTick) : Prop where
  hard : tick.price > tick.state.entryPriceBnbPerToken * (1 - cfg.hardSlPct)
  locked : tick.state.breakevenRatcheted = true →
    tick.price > tick.state.entryPriceBnbPerToken * (1 + cfg.breakevenLockPct)
  trailing : tick.state.armed = true → tick.price > tick.state.peakPrice * (1 - cfg.trailPct)
  young : tick.block - tick.state.openedBlock < cfg.maxHoldBlocks

/-- What one step that does not exit says of its price and block. -/
theorem step_holds {st : TrailState} {cfg : TrailConfig} {price : ℚ} {block : Nat}
    (held : (step st cfg price block).1 = none) :
    TrailTick.Holds cfg ⟨price, block, none, (step st cfg price block).2⟩ := by
  have quiet : ¬(step st cfg price block).1.isSome = true := by simp [held]
  rw [step_isSome_iff, not_or] at quiet
  obtain ⟨noRule, young⟩ := quiet
  constructor
  · rw [gt_iff_lt, ← not_le]
    intro low
    exact noRule (.hardStop low)
  · intro ratcheted
    rw [gt_iff_lt, ← not_le]
    intro low
    exact noRule (.locked ratcheted low)
  · intro armed
    rw [gt_iff_lt, ← not_le]
    intro low
    exact noRule (.trail armed low)
  · exact not_le.mp young

/-- Every state of a run grew out of the state it started from. -/
theorem trailRun_grows {cfg : TrailConfig} {st : TrailState} {observed : List (ℚ × Nat)}
    {tick : TrailTick} (member : tick ∈ trailRun cfg st observed) :
    st.GrowsTo tick.state ∧ tick.state.entryPriceBnbPerToken = st.entryPriceBnbPerToken ∧
      tick.state.openedBlock = st.openedBlock := by
  induction observed generalizing st with
  | nil => cases member
  | cons obs rest ih =>
      obtain ⟨price, block⟩ := obs
      have grows := observe_grows st cfg price block
      rcases List.mem_cons.mp member with rfl | later
      · exact ⟨grows, rfl, rfl⟩
      · by_cases quiet : (step st cfg price block).1 = none
        · rw [if_pos quiet] at later
          obtain ⟨further, entry, opened⟩ := ih later
          refine ⟨⟨grows.peak.trans further.peak, ?_, ?_⟩, entry, opened⟩
          · intro armed
            exact further.armed (grows.armed armed)
          · intro ratcheted
            exact further.ratcheted (grows.ratcheted ratcheted)
        · rw [if_neg quiet] at later
          cases later

theorem trailRun_holds {cfg : TrailConfig} {st : TrailState} {observed : List (ℚ × Nat)}
    {tick : TrailTick}
    (member : tick ∈ trailRun cfg st observed) (held : tick.reason = none) : tick.Holds cfg := by
  induction observed generalizing st with
  | nil => cases member
  | cons obs rest ih =>
      obtain ⟨price, block⟩ := obs
      rcases List.mem_cons.mp member with rfl | later
      · have holds := step_holds held
        exact ⟨holds.hard, holds.locked, holds.trailing, holds.young⟩
      · by_cases quiet : (step st cfg price block).1 = none
        · rw [if_pos quiet] at later
          exact ih later
        · rw [if_neg quiet] at later
          cases later

/-- The highest active floor never falls. -/
theorem trailRun_floors {cfg : TrailConfig} (trailPct : cfg.trailPct ≤ 1) (st : TrailState)
    (observed : List (ℚ × Nat)) :
    ((trailRun cfg st observed).map fun tick => tick.state.floor cfg).Pairwise (· ≤ ·) := by
  induction observed generalizing st with
  | nil => simp [trailRun]
  | cons obs rest ih =>
      obtain ⟨price, block⟩ := obs
      simp only [trailRun, List.map_cons, List.pairwise_cons]
      by_cases quiet : (step st cfg price block).1 = none
      · rw [if_pos quiet]
        constructor
        · intro f later
          obtain ⟨tick, member, rfl⟩ := List.mem_map.mp later
          obtain ⟨grows, entry, -⟩ := trailRun_grows member
          exact grows.floor_le entry trailPct
        · exact ih _
      · simp [quiet]

/-- From any state, a fresh one among them: every tick that does not exit is above the floors then
    active and within the hold time, and the highest active floor is non-decreasing over the run. -/
theorem trail_floors (cfg : TrailConfig) (trailPct : cfg.trailPct ≤ 1) (st : TrailState)
    (observed : List (ℚ × Nat)) :
    (∀ tick ∈ trailRun cfg st observed, tick.reason = none → tick.Holds cfg ∧
      tick.state.entryPriceBnbPerToken = st.entryPriceBnbPerToken ∧
      tick.state.openedBlock = st.openedBlock) ∧
    ((trailRun cfg st observed).map fun tick => tick.state.floor cfg).Pairwise (· ≤ ·) := by
  constructor
  · intro tick member held
    obtain ⟨-, entry, opened⟩ := trailRun_grows member
    exact ⟨trailRun_holds member held, entry, opened⟩
  · exact trailRun_floors trailPct st observed

/-- The floors of a position that rises by a fifth and falls below its locked gain. -/
theorem trail_floors_rise_and_fall :
    let cfg : TrailConfig := { enabled := true }
    let ticks := trailRun cfg { entryPriceBnbPerToken := 100, peakPrice := 100, lastPrice := 100 }
      [(110, 1), (120, 2), (109, 3), (104, 4), (90, 5)]
    ticks.map TrailTick.reason = [none, none, none, some .breakevenLocked] ∧
      ticks.map (fun tick => tick.state.floor cfg) = [70, 108, 108, 108] ∧
      (∀ tick ∈ ticks, tick.reason = none → tick.Holds cfg) ∧
      (ticks.map fun tick => tick.state.floor cfg).Pairwise (· ≤ ·) := by
  intro cfg ticks
  have floors := trail_floors cfg (by norm_num [cfg])
    { entryPriceBnbPerToken := 100, peakPrice := 100, lastPrice := 100 }
    [(110, 1), (120, 2), (109, 3), (104, 4), (90, 5)]
  refine ⟨by decide +kernel, by decide +kernel, ?_, floors.2⟩
  intro tick member held
  exact (floors.1 tick member held).1

end BscMempool.Trader
