/-
Module: BscMempool.Proofs.TrailMonotone
Layer: Proofs
Purpose: Tightening the trail never delays an exit. Two configurations follow the same prices in
  step; the state under the tighter one has every flag that the other has, so every rule that fires
  under the looser configuration fires under the tighter one.
Trusted boundary: none
Main exports: TrailConfig.Tightens, TrailState.Leads, firstExit, tightening_never_delays
-/
import BscMempool.Proofs.TrailRuns

namespace BscMempool.Trader

/-- No parameter of `cfg` lets a position live longer than the same parameter of `looser`. -/
structure TrailConfig.Tightens (cfg looser : TrailConfig) : Prop where
  armPct : cfg.armPct ≤ looser.armPct
  trailPct : cfg.trailPct ≤ looser.trailPct
  hardSlPct : cfg.hardSlPct ≤ looser.hardSlPct
  breakevenAtPct : cfg.breakevenAtPct ≤ looser.breakevenAtPct
  maxHoldBlocks : cfg.maxHoldBlocks ≤ looser.maxHoldBlocks
  breakevenLockPct : looser.breakevenLockPct ≤ cfg.breakevenLockPct

/-- The same position with at least the flags of `behind`. -/
structure TrailState.Leads (st behind : TrailState) : Prop where
  entry : st.entryPriceBnbPerToken = behind.entryPriceBnbPerToken
  peak : st.peakPrice = behind.peakPrice
  opened : st.openedBlock = behind.openedBlock
  history : st.priceHistory = behind.priceHistory
  count : st.historyCount = behind.historyCount
  idx : st.historyIdx = behind.historyIdx
  armed : behind.armed = true → st.armed = true
  ratcheted : behind.breakevenRatcheted = true → st.breakevenRatcheted = true

theorem TrailState.Leads.rfl {st : TrailState} : st.Leads st := by
  constructor <;> first | exact id | rfl

/-- A state whose entry is positive and whose peak has not been lost. -/
structure TrailState.Entered (st : TrailState) : Prop where
  entry : 0 < st.entryPriceBnbPerToken
  peak : st.entryPriceBnbPerToken ≤ st.peakPrice

namespace TrailState

variable {st behind : TrailState} {cfg looser : TrailConfig} {price : ℚ} {block : Nat}

theorem Entered.observe (entered : st.Entered) : (st.observe cfg price block).Entered :=
  ⟨entered.entry, entered.peak.trans (observe_grows st cfg price block).peak⟩

/-- A threshold of the looser configuration that is reached was reached under the tighter one. -/
theorem flag_of_flag {flag flag' : Bool} {entry peak pct pct' : ℚ} (positive : 0 ≤ entry)
    (pcts : pct ≤ pct') (flags : flag' = true → flag = true)
    (set : (flag' || decide (peak ≥ entry * (1 + pct'))) = true) :
    (flag || decide (peak ≥ entry * (1 + pct))) = true := by
  have threshold : entry * (1 + pct) ≤ entry * (1 + pct') := by gcongr
  rw [Bool.or_eq_true, decide_eq_true_iff] at set ⊢
  rcases set with before | now
  · exact .inl (flags before)
  · exact .inr (threshold.trans now)

/-- Observing the same price keeps the lead. -/
theorem Leads.observe (leads : st.Leads behind) (tightens : cfg.Tightens looser)
    (entered : behind.Entered) :
    (st.observe cfg price block).Leads (behind.observe looser price block) := by
  have positive := le_of_lt entered.entry
  simp only [observe_eq]
  constructor
  · exact leads.entry
  · simp only [leads.peak]
  · exact leads.opened
  · simp only [leads.history, leads.idx]
  · simp only [leads.count]
  · simp only [leads.idx]
  · simp only [leads.entry, leads.peak]
    exact flag_of_flag positive tightens.armPct leads.armed
  · simp only [leads.entry, leads.peak]
    exact flag_of_flag positive tightens.breakevenAtPct leads.ratcheted

/-- The leading exit reads no parameter but the arming. -/
theorem Leads.signalDump (leads : st.Leads behind) (dumped : behind.signalDump price = true) :
    st.signalDump price = true := by
  simp only [TrailState.signalDump, localMax, oldestPrice, Bool.and_eq_true] at dumped ⊢
  simp only [leads.history, leads.count, leads.idx]
  obtain ⟨⟨⟨⟨⟨armed, full⟩, top⟩, oldest⟩, far⟩, falling⟩ := dumped
  exact ⟨⟨⟨⟨⟨leads.armed armed, full⟩, top⟩, oldest⟩, far⟩, falling⟩

/-- Every price rule that fires under the looser configuration fires under the tighter one. -/
theorem Leads.exitsAt (leads : st.Leads behind) (tightens : cfg.Tightens looser)
    (entered : behind.Entered) (exits : behind.ExitsAt looser price) : st.ExitsAt cfg price := by
  have positive := le_of_lt entered.entry
  have peakPositive := positive.trans entered.peak
  cases exits with
  | hardStop low =>
      apply ExitsAt.hardStop
      rw [leads.entry]
      have floors := sub_le_sub_left tightens.hardSlPct 1
      exact low.trans (mul_le_mul_of_nonneg_left floors positive)
  | locked ratcheted low =>
      apply ExitsAt.locked (leads.ratcheted ratcheted)
      rw [leads.entry]
      have floors := add_le_add_right tightens.breakevenLockPct 1
      exact low.trans (mul_le_mul_of_nonneg_left floors positive)
  | dump dumped => exact .dump (leads.signalDump dumped)
  | trail armed low =>
      apply ExitsAt.trail (leads.armed armed)
      rw [leads.peak]
      have floors := sub_le_sub_left tightens.trailPct 1
      exact low.trans (mul_le_mul_of_nonneg_left floors peakPositive)

end TrailState

/-- One step: if the looser configuration exits, so does the tighter one. -/
theorem step_exits_of_looser {st behind : TrailState} {cfg looser : TrailConfig} {price : ℚ}
    {block : Nat}
    (leads : st.Leads behind) (tightens : cfg.Tightens looser) (entered : behind.Entered)
    (exits : (step behind looser price block).1.isSome) : (step st cfg price block).1.isSome := by
  rw [step_isSome_iff] at exits ⊢
  rcases exits with fires | overdue
  · exact .inl ((leads.observe tightens entered).exitsAt tightens entered.observe fires)
  · right
    rw [leads.opened]
    exact tightens.maxHoldBlocks.trans overdue

/-- The first observation of a path at which `step` exits. -/
def firstExit (cfg : TrailConfig) (st : TrailState) (observed : List (ℚ × Nat)) : Option Nat :=
  (trailPath cfg st observed).findIdx? fun tick => tick.1.isSome

theorem firstExit_of_looser {st behind : TrailState} {cfg looser : TrailConfig}
    {observed : List (ℚ × Nat)}
    {k : Nat} (leads : st.Leads behind) (tightens : cfg.Tightens looser) (entered : behind.Entered)
    (exits : firstExit looser behind observed = some k) :
    ∃ k' ≤ k, firstExit cfg st observed = some k' := by
  induction observed generalizing st behind k with
  | nil => cases exits
  | cons obs rest ih =>
      obtain ⟨price, block⟩ := obs
      simp only [firstExit, trailPath, List.findIdx?_cons] at exits ⊢
      by_cases now : (step st cfg price block).1.isSome = true
      · refine ⟨0, Nat.zero_le k, ?_⟩
        rw [if_pos now]
      · have held : ¬(step behind looser price block).1.isSome = true := by
          intro looserExits
          exact now (step_exits_of_looser leads tightens entered looserExits)
        rw [if_neg held] at exits
        obtain ⟨later, found, rfl⟩ := Option.map_eq_some_iff.mp exits
        obtain ⟨k', earlier, foundTighter⟩ :=
          ih (leads.observe tightens entered) entered.observe found
        refine ⟨k' + 1, Nat.succ_le_succ earlier, ?_⟩
        rw [if_neg now]
        exact Option.map_eq_some_iff.mpr ⟨k', foundTighter, rfl⟩

/-- Tightening never delays an exit: from the same fresh state with a positive entry, over the same
    observations, a run that first exits at `k` under the looser configuration first exits at `k` or
    before under the tighter. -/
theorem tightening_never_delays {cfg looser : TrailConfig} (tightens : cfg.Tightens looser)
    {entry : ℚ}
    (positive : 0 < entry) (opened observedBlock : Nat) (observed : List (ℚ × Nat)) {k : Nat}
    (exits : firstExit looser (.fresh entry opened observedBlock) observed = some k) :
    ∃ k' ≤ k, firstExit cfg (.fresh entry opened observedBlock) observed = some k' :=
  firstExit_of_looser .rfl tightens ⟨positive, le_rfl⟩ exits

/-- A position that rises and falls back, under the defaults and with the trail and
the hard stop halved. -/
theorem tightening_never_delays_halved :
    firstExit { enabled := true } (.fresh 100 0 0) [(125, 1), (115, 2), (112, 3)] = some 2 ∧
      ∃ k' ≤ 2, firstExit { enabled := true, trailPct := 1 / 20, hardSlPct := 3 / 20 }
        (.fresh 100 0 0)
        [(125, 1), (115, 2), (112, 3)] = some k' := by
  have exits : firstExit { enabled := true } (.fresh 100 0 0) [(125, 1), (115, 2), (112, 3)] =
      some 2 := by
    decide +kernel
  refine ⟨exits, tightening_never_delays ?_ (by norm_num) 0 0 _ exits⟩
  constructor <;> norm_num

end BscMempool.Trader
