/-
Module: BscMempool.Proofs.LossCooldown
Layer: Proofs
Purpose: When a loss keeps trades from passing the limits during the cooldown.  The time of the last
  loss is never recorded, so that the cooldown itself refuses nothing, and a check is refused
  exactly when the losses of its day have reached the cap.
Trusted boundary: none
Main exports: LimitsCall, TimedCall.apply, after, CapReached, after_halted_iff, LossWindow,
  cooldown_refuses_iff, cooldown_not_enforced
-/
import BscMempool.Proofs.DailyLossHalt
import Mathlib.Data.List.Induction

namespace BscMempool.Trader.LossCooldown

open DailyLossHalt (syncRealizedLoss_day maybeResetDay_day maybeResetDay_same)

/-! ### Sequences of calls -/

inductive LimitsCall where
  | syncRealizedLoss (lossUsd : ℚ)
  | recordTradeFired
  | check (trade : TradeCheck)

/-- A call and the time it is made at. -/
structure TimedCall where
  nowMs : Nat
  call : LimitsCall

/-- `LimitsRuntime::new`: the counters are those of today. -/
def new (nowMs : Nat) : DailyState := { day := utcDay nowMs }

variable (cfg : LimitsConfig)

/-- What a call makes of the counters. -/
def TimedCall.apply (s : DailyState) (c : TimedCall) : DailyState :=
  match c.call with
  | .syncRealizedLoss lossUsd => cfg.syncRealizedLoss s lossUsd
  | .recordTradeFired => BscMempool.Trader.recordTradeFired s
  | .check trade => (cfg.check s c.nowMs trade).2

/-- The counters of a runtime that was made at `startMs`, after these calls. -/
def after (startMs : Nat) (calls : List TimedCall) : DailyState :=
  calls.foldl (TimedCall.apply cfg) (new startMs)

/-- The clock never goes back. -/
def Monotone (startMs : Nat) (calls : List TimedCall) : Prop :=
  (startMs :: calls.map TimedCall.nowMs).Pairwise (· ≤ ·)

/-- One of the calls set a loss at or above the cap on counters that were those of `day`, and it was
not taken for the loss that was there. -/
def CapReached (startMs : Nat) (calls : List TimedCall) (day : Nat) : Prop :=
  ∃ before t lossUsd later, calls = before ++ ⟨t, .syncRealizedLoss lossUsd⟩ :: later ∧
    (after cfg startMs before).day = day ∧ cfg.limits.dailyLossUsd ≤ max lossUsd 0 ∧
    F64_EPSILON ≤ |max lossUsd 0 - (after cfg startMs before).realizedLossUsd|

variable {cfg} {startMs : Nat} {calls : List TimedCall}

@[simp] theorem after_snoc (c : TimedCall) :
    after cfg startMs (calls ++ [c]) = c.apply cfg (after cfg startMs calls) := by
  simp [after]

theorem Monotone.front {more : List TimedCall} (clock : Monotone startMs (calls ++ more)) :
    Monotone startMs calls := by
  rw [Monotone, List.map_append, ← List.cons_append] at clock
  exact (List.pairwise_append.mp clock).1

/-- A last call comes after all others. -/
theorem Monotone.le_last {c : TimedCall} (clock : Monotone startMs (calls ++ [c])) :
    startMs ≤ c.nowMs ∧ ∀ d ∈ calls, d.nowMs ≤ c.nowMs := by
  rw [Monotone, List.map_append, ← List.cons_append] at clock
  have before := (List.pairwise_append.mp clock).2.2
  constructor
  · exact before startMs List.mem_cons_self c.nowMs (by simp)
  · intro d member
    exact before d.nowMs (List.mem_cons_of_mem _ (List.mem_map_of_mem member)) c.nowMs (by simp)

/-! ### The counters along a sequence -/

variable (cfg) in
/-- Only a check changes the day, to its own. -/
theorem apply_day (s : DailyState) (c : TimedCall) :
    (c.apply cfg s).day = s.day ∨ (c.apply cfg s).day = utcDay c.nowMs := by
  unfold TimedCall.apply
  cases c.call with
  | syncRealizedLoss lossUsd => exact Or.inl (syncRealizedLoss_day s lossUsd)
  | recordTradeFired => exact Or.inl rfl
  | check trade => exact Or.inr (maybeResetDay_day s c.nowMs)

variable (cfg) in
/-- The counters are never those of a day to come. -/
theorem after_day_le {nowMs : Nat} (past : startMs ≤ nowMs ∧ ∀ d ∈ calls, d.nowMs ≤ nowMs) :
    (after cfg startMs calls).day ≤ utcDay nowMs := by
  induction calls using List.reverseRecOn with
  | nil => exact Nat.div_le_div_right past.1
  | append_singleton calls c ih =>
      rw [after_snoc]
      rcases apply_day cfg (after cfg startMs calls) c with same | own
      · rw [same]
        exact ih ⟨past.1, fun d member => past.2 d (List.mem_append_left _ member)⟩
      · rw [own]
        exact Nat.div_le_div_right (past.2 c (by simp))

variable (cfg) in
/-- The day of the counters only grows. -/
theorem after_day_mono {more : List TimedCall} (clock : Monotone startMs (calls ++ more)) :
    (after cfg startMs calls).day ≤ (after cfg startMs (calls ++ more)).day := by
  induction more using List.reverseRecOn with
  | nil => simp
  | append_singleton more c ih =>
      rw [← List.append_assoc] at clock ⊢
      rw [after_snoc]
      apply (ih clock.front).trans
      rcases apply_day cfg (after cfg startMs (calls ++ more)) c with same | own
      · exact Nat.le_of_eq same.symm
      · rw [own]
        exact after_day_le cfg clock.le_last

/-- No call records the time of a loss. -/
theorem after_lastLossUnixMs : (after cfg startMs calls).lastLossUnixMs = 0 := by
  induction calls using List.reverseRecOn with
  | nil => rfl
  | append_singleton calls c ih =>
      rw [after_snoc]
      unfold TimedCall.apply
      cases c.call with
      | syncRealizedLoss lossUsd =>
          unfold LimitsConfig.syncRealizedLoss
          dsimp only
          split
          · exact ih
          · exact ih
      | recordTradeFired => exact ih
      | check trade =>
          unfold LimitsConfig.check maybeResetDay
          dsimp only
          split
          · rfl
          · exact ih

/-- What one more call adds to the losses that reached the cap. -/
theorem capReached_snoc {c : TimedCall} {day : Nat} :
    CapReached cfg startMs (calls ++ [c]) day ↔ CapReached cfg startMs calls day ∨
      ∃ lossUsd, c.call = .syncRealizedLoss lossUsd ∧ (after cfg startMs calls).day = day ∧
        cfg.limits.dailyLossUsd ≤ max lossUsd 0 ∧
        F64_EPSILON ≤ |max lossUsd 0 - (after cfg startMs calls).realizedLossUsd| := by
  constructor
  · intro reached
    rcases reached with ⟨before, t, lossUsd, later, split, onDay, above, apart⟩
    cases later using List.reverseRecOn with
    | nil =>
        rcases List.append_inj' split rfl with ⟨front, last⟩
        cases last
        right
        rw [front]
        exact ⟨lossUsd, rfl, onDay, above, apart⟩
    | append_singleton later d =>
        rw [← List.cons_append, ← List.append_assoc] at split
        left
        exact ⟨before, t, lossUsd, later, (List.append_inj' split rfl).1, onDay, above, apart⟩
  · intro reached
    rcases reached with earlier | ⟨lossUsd, isSync, onDay, above, apart⟩
    · rcases earlier with ⟨before, t, lossUsd, later, split, onDay, above, apart⟩
      exact ⟨before, t, lossUsd, later ++ [c], by simp [split], onDay, above, apart⟩
    · exact ⟨calls, c.nowMs, lossUsd, [], by rw [← isSync], onDay, above, apart⟩

/-- Setting a loss halts if the runtime was halted, or if the loss is new and reaches the cap. -/
theorem syncRealizedLoss_halted_iff (s : DailyState) (lossUsd : ℚ) :
    (cfg.syncRealizedLoss s lossUsd).halted = true ↔ s.halted = true ∨
      cfg.limits.dailyLossUsd ≤ max lossUsd 0 ∧
      F64_EPSILON ≤ |max lossUsd 0 - s.realizedLossUsd| := by
  unfold LimitsConfig.syncRealizedLoss
  dsimp only
  split
  · rename_i near
    simp [not_le.mpr near]
  · rename_i apart
    simp [not_lt.mp apart]

/-- The runtime is halted exactly when the losses of the counters' day reached the cap. -/
theorem after_halted_iff (clock : Monotone startMs calls) :
    (after cfg startMs calls).halted = true ↔
    CapReached cfg startMs calls (after cfg startMs calls).day := by
  induction calls using List.reverseRecOn with
  | nil => simp [after, new, CapReached]
  | append_singleton calls c ih =>
      have before := ih clock.front
      rw [after_snoc, capReached_snoc]
      cases isCall : c.call with
      | syncRealizedLoss lossUsd =>
          have applied : c.apply cfg (after cfg startMs calls) =
              cfg.syncRealizedLoss (after cfg startMs calls) lossUsd := by
            rw [TimedCall.apply, isCall]
          rw [applied, syncRealizedLoss_halted_iff, syncRealizedLoss_day, before]
          simp
      | recordTradeFired =>
          have applied : c.apply cfg (after cfg startMs calls) =
              recordTradeFired (after cfg startMs calls) := by
            rw [TimedCall.apply, isCall]
          rw [applied]
          simpa [recordTradeFired] using before
      | check trade =>
          have applied : c.apply cfg (after cfg startMs calls) =
              maybeResetDay (after cfg startMs calls) c.nowMs := by
            rw [TimedCall.apply, isCall]
            rfl
          rw [applied, maybeResetDay_day]
          by_cases same : (after cfg startMs calls).day = utcDay c.nowMs
          · rw [maybeResetDay_same same, before, same]
            simp
          · have past := after_day_le cfg clock.le_last
            have running : (maybeResetDay (after cfg startMs calls) c.nowMs).halted = false := by
              simp [maybeResetDay, same]
            rw [running]
            constructor
            · intro halted
              cases halted
            · intro reached
              rcases reached with earlier | ⟨_, isSync, _⟩
              · rcases earlier with ⟨before, t, lossUsd, later, split, onDay, _⟩
                have grown :=
                  after_day_mono cfg (split ▸ clock.front : Monotone startMs (before ++ _))
                rw [← split, onDay] at grown
                exact absurd (Nat.le_antisymm past grown) same
              · cases isSync

/-! ### Checks after a loss -/

/-- A verdict that a loss can be the reason of. -/
def refusesForLoss : LimitFail → Bool
  | .inCooldown _ => true
  | .dailyLossHalt .. => true
  | _ => false

/-- With no time of a loss recorded, only the halt refuses for a loss. -/
theorem gates_refusesForLoss_iff {s : DailyState} (never : s.lastLossUnixMs = 0) (nowMs : Nat)
    (trade : TradeCheck) :
    (cfg.gates s nowMs trade).any refusesForLoss = true ↔ s.halted = true := by
  unfold LimitsConfig.gates cooldownRemaining
  cases halted : s.halted with
  | true => simp [refusesForLoss]
  | false =>
      simp only [never, Bool.false_eq_true, if_false, if_true, iff_false]
      repeat' split
      all_goals simp [refusesForLoss]

/-- The runtime refuses a check for a loss exactly when the losses of its day reached the cap. -/
theorem check_refusesForLoss_iff {nowMs : Nat} {trade : TradeCheck}
    (clock : Monotone startMs (calls ++ [⟨nowMs, .check trade⟩])) :
    (cfg.check (after cfg startMs calls) nowMs trade).1.any refusesForLoss = true ↔
      CapReached cfg startMs calls (utcDay nowMs) := by
  have reset : after cfg startMs (calls ++ [⟨nowMs, .check trade⟩]) =
      maybeResetDay (after cfg startMs calls) nowMs := by
    rw [after_snoc]
    rfl
  have never : (maybeResetDay (after cfg startMs calls) nowMs).lastLossUnixMs = 0 := by
    rw [← reset]
    exact after_lastLossUnixMs
  have halted : (after cfg startMs (calls ++ [⟨nowMs, .check trade⟩])).halted = true ↔ _ :=
    after_halted_iff clock
  rw [reset, maybeResetDay_day, capReached_snoc] at halted
  rw [LimitsConfig.check, gates_refusesForLoss_iff never, halted]
  simp

/-- In `calls`, a loss is set at `t` that is larger than the one recorded, and a check follows at
`nowMs`, on the same day and before the cooldown is over. -/
structure LossWindow (cfg : LimitsConfig) (startMs : Nat) (calls before : List TimedCall) (t : Nat)
    (lossUsd : ℚ)
    (between : List TimedCall) (nowMs : Nat) (trade : TradeCheck) (later : List TimedCall) :
    Prop where
  calls : calls = before ++ ⟨t, .syncRealizedLoss lossUsd⟩ :: between ++
    ⟨nowMs, .check trade⟩ :: later
  raised : (after cfg startMs before).realizedLossUsd <
    (cfg.syncRealizedLoss (after cfg startMs before) lossUsd).realizedLossUsd
  cooling : t ≤ nowMs ∧ nowMs < t + cfg.limits.cooldownAfterLossMs
  sameDay : utcDay nowMs = utcDay t

/-- A check during the cooldown is refused for the loss exactly when the losses of the
day reached the cap. -/
theorem cooldown_refuses_iff {cfg : LimitsConfig} {startMs : Nat} {calls before : List TimedCall}
    {t : Nat} {lossUsd : ℚ}
    {between : List TimedCall} {nowMs : Nat} {trade : TradeCheck} {later : List TimedCall}
    (clock : Monotone startMs calls)
    (window : LossWindow cfg startMs calls before t lossUsd between nowMs trade later) :
    (cfg.check (after cfg startMs (before ++ ⟨t, .syncRealizedLoss lossUsd⟩ :: between)) nowMs
      trade).1.any
        refusesForLoss = true ↔
      CapReached cfg startMs (before ++ ⟨t, .syncRealizedLoss lossUsd⟩ :: between)
        (utcDay nowMs) := by
  rw [window.calls, List.append_cons _ _ later] at clock
  exact check_refusesForLoss_iff clock.front

/-- A cap of 50 dollars and a cooldown of five seconds. -/
def coolingConfig : LimitsConfig where
  phase := ⟨false, false, true⟩
  limits := {
    dailyLossUsd := 50
    perTradeMaxBnb := 1
    minWalletBnb := 1 / 20
    maxOpenPositions := 10
    maxTradesPerDay := 30
    maxGasPriceGwei := 10
    slippageBps := 500
    cooldownAfterLossMs := 5000 }
  strategy := {
    publicOnly := true
    kolWhitelist := ["O"]
    tradeSizeUsd := 0
    tradeSizePrivateUsd := 0 }
  tokens := { maxSellTaxBps := 500 }

def smallTrade : TradeCheck where
  kolName := "O"
  visibility := "public"
  bnbAmount := 1 / 1000
  currentOpenPositions := 0
  currentWalletBnb := 1
  currentGasGwei := 3

/-- A loss of 60 dollars at second one, and a check a second later. -/
theorem cooldown_refuses_large_loss :
    (coolingConfig.check (after coolingConfig 0 [⟨1000, .syncRealizedLoss 60⟩]) 2000
      smallTrade).1.any
      refusesForLoss = true := by
  have window : LossWindow coolingConfig 0 [⟨1000, .syncRealizedLoss 60⟩, ⟨2000, .check smallTrade⟩]
      [] 1000 60 []
      2000 smallTrade [] := by
    constructor
    · rfl
    · decide +kernel
    · decide +kernel
    · decide +kernel
  have clock : Monotone 0 [⟨1000, .syncRealizedLoss 60⟩, ⟨2000, .check smallTrade⟩] := by
    simp [Monotone]
  apply (cooldown_refuses_iff clock window).mpr
  exact ⟨[], 1000, 60, [], rfl, by decide +kernel, by decide +kernel, by decide +kernel⟩

/-- A loss of 10 dollars, below the cap: the check a second later lets the trade pass. -/
theorem cooldown_not_enforced :
    LossWindow coolingConfig 0 [⟨1000, .syncRealizedLoss 10⟩, ⟨2000, .check smallTrade⟩] [] 1000 10
      [] 2000 smallTrade [] ∧
      (coolingConfig.check (after coolingConfig 0 [⟨1000, .syncRealizedLoss 10⟩]) 2000
        smallTrade).1 = none := by
  constructor
  · constructor
    · rfl
    · decide +kernel
    · decide +kernel
    · decide +kernel
  · decide +kernel

end BscMempool.Trader.LossCooldown
