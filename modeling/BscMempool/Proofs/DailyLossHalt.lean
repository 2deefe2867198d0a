/-
Module: BscMempool.Proofs.DailyLossHalt
Layer: Proofs
Purpose: When a daily loss at or above the cap stops every later check of its UTC day, and a run in
  which the first check of the day wipes the halt out.
Trusted boundary: none
Main exports: breached, effective, keepsHalt, halt_effective, halt_wiped, keepsHalt_of_lone_consumer
-/
import BscMempool.Concurrent.History
import BscMempool.Concurrent.RelyGuarantee
import BscMempool.Proofs.Scenario

namespace BscMempool.Trader

open Concurrent (Tid Machine Contract Outcome Config)
open Concurrent.Proc

/-! ### What a history says about a day -/

/-- The state of the limits and what was done so far. -/
abbrev SwitchRecorded (cfg : LimitsConfig) := SwitchState × List (KillSwitch.machine cfg).Event

variable {cfg : LimitsConfig}

/-- A loss at or above the cap was set on the UTC day. -/
def breached : List (KillSwitch.machine cfg).Event → Nat → Prop
  | [], _ => False
  | ⟨_, .syncRealizedLoss lossUsd, nowMs, _⟩ :: older, day =>
      (lossUsd ≥ cfg.limits.dailyLossUsd ∧ utcDay nowMs = day) ∨ breached older day
  | _ :: older, day => breached older day

/-- The verdict of a halted check. -/
def LimitFail.halts : LimitFail → Bool
  | .dailyLossHalt .. => true
  | _ => false

/-- Every check whose gates ran after a loss at or above the cap was set on its day was halted. -/
def effective : List (KillSwitch.machine cfg).Event → Prop
  | [] => True
  | ⟨_, .gates nowMs _, _, verdict⟩ :: older =>
      (breached older (utcDay nowMs) → verdict.any LimitFail.halts = true) ∧ effective older
  | _ :: older => effective older

instance decidableBreached : (h : List (KillSwitch.machine cfg).Event) → (day : Nat) →
    Decidable (breached h day)
  | [], _ => .isFalse id
  | ⟨_, .syncRealizedLoss _, _, _⟩ :: older, day =>
      haveI := decidableBreached older day
      inferInstanceAs (Decidable (_ ∨ _))
  | ⟨_, .now, _, _⟩ :: older, day | ⟨_, .walletBalance, _, _⟩ :: older, day
  | ⟨_, .bnbUsd, _, _⟩ :: older, day | ⟨_, .maybeResetDay _, _, _⟩ :: older, day
  | ⟨_, .gates .., _, _⟩ :: older, day | ⟨_, .recordTradeFired, _, _⟩ :: older, day
  | ⟨_, .logBaseline .., _, _⟩ :: older, day => decidableBreached older day

/-- A loss at or above the cap is set on counters that are those of its day already, and it is not
taken for the value that is there while nothing is halted. -/
def haltsItsDay (cfg : LimitsConfig) : (o : SwitchOp) → o.Ans → SwitchState → Bool
  | .syncRealizedLoss lossUsd, nowMs, s =>
      decide (lossUsd < cfg.limits.dailyLossUsd) ||
        (decide (s.daily.day = utcDay nowMs) &&
          (s.daily.halted || decide (F64_EPSILON ≤ |max lossUsd 0 - s.daily.realizedLossUsd|)))
  | _, _, _ => true

/-- A check neither takes the counters back to an earlier day nor judges by those of another day. -/
def judgesItsDay : SwitchOp → SwitchState → Bool
  | .maybeResetDay nowMs, s => decide (s.daily.day ≤ utcDay nowMs)
  | .gates nowMs _, s => s.daily.halted || decide (s.daily.day = utcDay nowMs)
  | _, _ => true

/-- The steps that keep the halt effective. -/
def keepsHalt (cfg : LimitsConfig) (o : SwitchOp) (a : o.Ans) (s : SwitchState) : Bool :=
  haltsItsDay cfg o a s && judgesItsDay o s

instance (o : SwitchOp) (a : (KillSwitch.machine cfg).recording.Ans o) (s : SwitchRecorded cfg) :
    Decidable (keepsHalt cfg o a s.1 = true) := decEq (keepsHalt cfg o a s.1) true

namespace DailyLossHalt

/-! ### The counters, step by step -/

theorem syncRealizedLoss_day (s : DailyState) (lossUsd : ℚ) :
    (cfg.syncRealizedLoss s lossUsd).day = s.day := by
  unfold LimitsConfig.syncRealizedLoss
  dsimp only
  split <;> rfl

theorem syncRealizedLoss_halted {s : DailyState} {lossUsd : ℚ} (halted : s.halted = true) :
    (cfg.syncRealizedLoss s lossUsd).halted = true := by
  unfold LimitsConfig.syncRealizedLoss
  dsimp only
  split
  · exact halted
  · simp [halted]

/-- A loss at or above the cap that is not passed over halts. -/
theorem syncRealizedLoss_halts {s : DailyState} {lossUsd : ℚ}
    (above : lossUsd ≥ cfg.limits.dailyLossUsd)
    (apart : F64_EPSILON ≤ |max lossUsd 0 - s.realizedLossUsd|) :
    (cfg.syncRealizedLoss s lossUsd).halted = true := by
  unfold LimitsConfig.syncRealizedLoss
  dsimp only
  rw [if_neg (not_lt.2 apart)]
  have reaches : max lossUsd 0 ≥ cfg.limits.dailyLossUsd := above.trans (le_max_left _ _)
  simp [reaches]

theorem maybeResetDay_day (s : DailyState) (nowMs : Nat) :
    (maybeResetDay s nowMs).day = utcDay nowMs := by
  unfold maybeResetDay
  dsimp only
  split
  · rfl
  · rename_i same
    exact not_ne_iff.1 same

theorem maybeResetDay_same {s : DailyState} {nowMs : Nat} (same : s.day = utcDay nowMs) :
    maybeResetDay s nowMs = s := by
  simp [maybeResetDay, same]

theorem gates_halted {s : DailyState} {nowMs : Nat} {trade : TradeCheck}
    (halted : s.halted = true) :
    (cfg.gates s nowMs trade).any LimitFail.halts = true := by
  simp [LimitsConfig.gates, halted, LimitFail.halts]

/-! ### Every step -/

/-- Every breach is of a day that is over or halted, and every check so far took notice. -/
structure Inv (s : SwitchRecorded cfg) : Prop where
  halted : ∀ day, breached s.2 day →
    day < s.1.daily.day ∨ (day = s.1.daily.day ∧ s.1.daily.halted = true)
  effective : effective s.2

theorem at_eq_some {s s' : SwitchState} {nowMs : Nat} (passes : s.at nowMs = some s') :
    s.clockMs ≤ nowMs ∧ s' = { s with clockMs := nowMs } := by
  unfold SwitchState.at at passes
  split at passes
  · rename_i le
    cases passes
    exact ⟨le, rfl⟩
  · cases passes

/-- The operations that neither roll the day over nor judge. -/
def outside : SwitchOp → Prop
  | .maybeResetDay _ | .gates .. => False
  | _ => True

/-- None of these turns the clock back, moves the day or lifts a halt. -/
theorem outside_exec {o : SwitchOp} {a : o.Ans} {s : SwitchState}
    {out : Outcome SwitchState SwitchTask o.Res} (did : o.exec cfg a s = some out)
    (kind : outside o) :
    s.clockMs ≤ out.shared.clockMs ∧ out.shared.daily.day = s.daily.day ∧
      (s.daily.halted = true → out.shared.daily.halted = true) := by
  cases o with
  | maybeResetDay | gates => exact kind.elim
  | now | walletBalance =>
      obtain ⟨d, passes, rfl⟩ := Option.map_eq_some_iff.1 did
      obtain ⟨later, rfl⟩ := at_eq_some passes
      exact ⟨later, rfl, id⟩
  | syncRealizedLoss lossUsd =>
      obtain ⟨d, passes, rfl⟩ := Option.map_eq_some_iff.1 did
      obtain ⟨later, rfl⟩ := at_eq_some passes
      exact ⟨later, syncRealizedLoss_day s.daily lossUsd, syncRealizedLoss_halted⟩
  | _ =>
      cases did
      exact ⟨le_rfl, rfl, id⟩

/-- A loss at or above the cap is set where it halts the day it is for. -/
theorem sync_breach {lossUsd : ℚ} {nowMs : Nat} {s : SwitchState}
    (meets : haltsItsDay cfg (.syncRealizedLoss lossUsd) nowMs s = true)
    (above : lossUsd ≥ cfg.limits.dailyLossUsd) :
    utcDay nowMs = (cfg.syncRealizedLoss s.daily lossUsd).day ∧
      (cfg.syncRealizedLoss s.daily lossUsd).halted = true := by
  have kept := Bool.or_eq_true_iff.1 meets
  have current := kept.resolve_left (by simpa using above)
  rw [Bool.and_eq_true, decide_eq_true_eq, Bool.or_eq_true, decide_eq_true_eq] at current
  rw [syncRealizedLoss_day]
  constructor
  · exact current.1.symm
  · rcases current.2 with halted | apart
    · exact syncRealizedLoss_halted halted
    · exact syncRealizedLoss_halts above apart

/-- Rolling over to a day that is not earlier keeps what is known of the breaches. -/
theorem reset_halted {s : DailyState} {nowMs day : Nat} (later : s.day ≤ utcDay nowMs)
    (known : day < s.day ∨ (day = s.day ∧ s.halted = true)) :
    day < (maybeResetDay s nowMs).day ∨
      (day = (maybeResetDay s nowMs).day ∧ (maybeResetDay s nowMs).halted = true) := by
  rcases later.eq_or_lt with same | newer
  · rw [maybeResetDay_same same]
    exact known
  · left
    rw [maybeResetDay_day]
    rcases known with past | ⟨rfl, -⟩
    · exact past.trans newer
    · exact newer

/-- The step lemma. -/
theorem keeps {i : Tid} {o : SwitchOp} {a : o.Ans} {s : SwitchRecorded cfg}
    {out : Outcome SwitchState SwitchTask o.Res} (inv : Inv s)
    (meets : keepsHalt cfg o a s.1 = true) (did : o.exec cfg a s.1 = some out) :
    @Inv cfg (out.shared, ⟨i, o, a, out.res⟩ :: s.2) := by
  obtain ⟨halts, judges⟩ := Bool.and_eq_true_iff.1 meets
  cases o with
  | maybeResetDay nowMs =>
      cases did
      constructor
      · intro day breach
        exact reset_halted (of_decide_eq_true judges) (inv.halted day breach)
      · exact inv.effective
  | gates nowMs trade =>
      cases did
      constructor
      · exact inv.halted
      · refine ⟨fun breach => gates_halted ?_, inv.effective⟩
        rcases Bool.or_eq_true_iff.1 judges with halted | current
        · exact halted
        · rcases inv.halted _ breach with past | ⟨-, halted⟩
          · exact absurd past (of_decide_eq_true current).not_gt
          · exact halted
  | syncRealizedLoss lossUsd =>
      obtain ⟨-, day, halted⟩ := outside_exec did trivial
      constructor
      · rintro d (⟨above, rfl⟩ | breach)
        · obtain ⟨s', passes, rfl⟩ := Option.map_eq_some_iff.1 did
          obtain ⟨later, rfl⟩ := at_eq_some passes
          exact .inr (sync_breach halts above)
        · rw [show (out.shared, _).1.daily.day = s.1.daily.day from day]
          exact (inv.halted d breach).imp_right fun there => ⟨there.1, halted there.2⟩
      · exact inv.effective
  | _ =>
      obtain ⟨-, day, halted⟩ := outside_exec did trivial
      constructor
      · intro d breach
        rw [show (out.shared, _).1.daily.day = s.1.daily.day from day]
        exact (inv.halted d breach).imp_right fun there => ⟨there.1, halted there.2⟩
      · exact inv.effective

/-! ### One consumer

With one consumer the counters are those of the day of the check under way: nobody else rolls them
over between its reading of the clock and its gates. -/

/-- The counters are not ahead of the clock, and every step so far judged by the
counters of its day. -/
structure Guar (i : Tid) (s s' : SwitchRecorded cfg) : Prop where
  clock : s.1.clockMs ≤ s'.1.clockMs
  day : i ≠ 0 → s'.1.daily.day = s.1.daily.day
  judges : ∀ e, s'.2 = e :: s.2 → judgesItsDay e.op s.1 = true

/-- The consumer is the first task. -/
def Starts (i : Tid) : SwitchTask → Prop
  | .consumer _ => i = 0
  | _ => i ≠ 0

def contract (cfg : LimitsConfig) : Contract (KillSwitch.machine cfg).recording where
  cond _ o a s := haltsItsDay cfg o a s.1 = true
  inv s := s.1.daily.day ≤ utcDay s.1.clockMs
  guar := Guar
  pre t i _ := Starts i t
  post _ _ _ _ := True

variable {i : Tid}

/-- What an operation starts. -/
theorem exec_spawned {o : SwitchOp} {a : o.Ans} {s : SwitchState}
    {out : Outcome SwitchState SwitchTask o.Res} (did : o.exec cfg a s = some out) :
    out.spawned = [] := by
  cases o with
  | now | walletBalance | syncRealizedLoss =>
      obtain ⟨d, -, rfl⟩ := Option.map_eq_some_iff.1 did
      rfl
  | _ =>
      cases did
      rfl

/-- Operations outside the checks keep the contract. -/
theorem outside_triple {o : SwitchOp} (kind : outside o) :
    (contract cfg).Triple i (fun _ => True) o fun _ _ => True := by
  intro s inv _ fresh _ a meets out did
  obtain ⟨ran, past⟩ := Machine.exec_of_recording did
  obtain ⟨clock, day, -⟩ := outside_exec ran kind
  refine ⟨.quiet ?_ ⟨clock, fun _ => day, ?_⟩ (exec_spawned ran), trivial⟩
  · calc out.shared.1.daily.day = s.1.daily.day := day
      _ ≤ utcDay s.1.clockMs := inv
      _ ≤ utcDay out.shared.1.clockMs := Nat.div_le_div_right clock
  · intro e noted
    rw [past] at noted
    cases noted
    cases o with
    | maybeResetDay | gates => exact kind.elim
    | _ => rfl

theorem outside_wp {α : Type} {p : Switch α} (all : p.All outside) {s : SwitchRecorded cfg} :
    (contract cfg).wp i p (fun _ _ => True) s :=
  Contract.wp_of_all .true (fun _ kind => outside_triple kind) all (fun _ _ _ => trivial) trivial

theorem syncAll_outside (losses : List ℚ) : (KillSwitch.syncAll losses).All outside := by
  induction losses with
  | nil => trivial
  | cons lossUsd rest ih => exact (all_call.2 trivial).bind fun _ => ih

theorem utcDayNow_outside : KillSwitch.utcDayNow.All outside :=
  (all_call.2 trivial).bind fun _ => trivial

theorem pollTicks_outside (baseline : ℚ) (baselineDay ticks : Nat) :
    (KillSwitch.pollTicks baseline baselineDay ticks).All outside := by
  induction ticks generalizing baseline baselineDay with
  | zero => trivial
  | succ ticks ih =>
      refine (all_call.2 trivial).bind fun read => (all_call.2 trivial).bind fun price => ?_
      dsimp only
      split
      · exact ih _ _
      · apply utcDayNow_outside.bind
        intro today
        split
        · exact (all_call.2 trivial).bind fun _ => (all_call.2 trivial).bind fun _ => ih _ _
        · exact (all_call.2 trivial).bind fun _ => ih _ _

theorem poll_outside (ticks : Nat) : (KillSwitch.poll ticks).All outside := by
  apply (all_call.2 trivial).bind
  intro initial
  split
  · trivial
  · apply utcDayNow_outside.bind
    intro day
    exact (all_call.2 trivial).bind fun _ => pollTicks_outside _ _ _

/-- The clock was read and the day not rolled over past it. -/
def Read (nowMs : Nat) (s : SwitchRecorded cfg) : Prop :=
  s.1.daily.day ≤ utcDay nowMs ∧ nowMs ≤ s.1.clockMs

/-- The counters are those of the day of a time. -/
def Rolled (nowMs : Nat) (s : SwitchRecorded cfg) : Prop := s.1.daily.day = utcDay nowMs

theorem stable_read {nowMs : Nat} : (contract cfg).Stable 0 (Read nowMs) := by
  rintro j s s' ne - - guar ⟨day, clock⟩
  constructor
  · rw [guar.day ne]
    exact day
  · exact clock.trans guar.clock

theorem stable_rolled {nowMs : Nat} : (contract cfg).Stable 0 (Rolled nowMs) := by
  rintro j s s' ne - - guar rolled
  exact (guar.day ne).trans rolled

theorem now_triple : (contract cfg).Triple 0 (fun _ => True) .now Read := by
  intro s inv _ fresh lt nowMs meets out did
  obtain ⟨keeps, -⟩ := outside_triple (o := .now) trivial s inv trivial fresh lt nowMs meets out did
  refine ⟨keeps, ?_⟩
  obtain ⟨ran, -⟩ := Machine.exec_of_recording did
  obtain ⟨s', passes, ended⟩ := Option.map_eq_some_iff.1 ran
  obtain ⟨later, rfl⟩ := at_eq_some passes
  have res : nowMs = out.res := congrArg Outcome.res ended
  have shared : { s.1 with clockMs := nowMs } = out.shared.1 := congrArg Outcome.shared ended
  unfold Read
  rw [← shared, ← res]
  exact ⟨inv.trans (Nat.div_le_div_right later), le_rfl⟩

theorem maybeResetDay_triple (nowMs : Nat) :
    (contract cfg).Triple 0 (Read nowMs) (.maybeResetDay nowMs) fun _ => Rolled nowMs := by
  rintro s inv ⟨day, clock⟩ fresh - a - out did
  cases did
  have rolled := maybeResetDay_day s.1.daily nowMs
  refine ⟨.quiet ?_ ⟨le_rfl, fun ne => absurd rfl ne, ?_⟩ rfl, rolled⟩
  · exact rolled.le.trans (Nat.div_le_div_right clock)
  · intro e noted
    cases noted
    exact decide_eq_true day

theorem gates_triple (nowMs : Nat) (trade : TradeCheck) :
    (contract cfg).Triple 0 (Rolled nowMs) (.gates nowMs trade) fun _ _ => True := by
  intro s inv rolled fresh _ a _ out did
  cases did
  refine ⟨.quiet inv ⟨le_rfl, fun _ => rfl, ?_⟩ rfl, trivial⟩
  intro e noted
  cases noted
  exact Bool.or_eq_true_iff.2 (.inr (decide_eq_true rolled))

theorem check_wp (trade : TradeCheck) (s : SwitchRecorded cfg) :
    (contract cfg).wp 0 (KillSwitch.check trade) (fun _ _ => True) s := by
  refine Contract.wp_call_seq Read .true now_triple (fun nowMs s read => ?_) trivial
  refine Contract.wp_call_seq (fun _ => Rolled nowMs) stable_read (maybeResetDay_triple nowMs)
    (fun _ s rolled => ?_) read
  exact Contract.wp_call stable_rolled (gates_triple nowMs trade) rolled

theorem consume_wp (calls : List LimitsCall) (s : SwitchRecorded cfg) :
    (contract cfg).wp 0 (KillSwitch.consume calls) (fun _ _ => True) s := by
  induction calls generalizing s with
  | nil => trivial
  | cons call rest ih =>
      cases call with
      | check trade => exact Contract.wp_seq _ (check_wp trade s) fun _ s _ => ih s
      | recordTradeFired =>
          exact Contract.wp_seq _ (outside_wp
            (all_call.2 (show outside .recordTradeFired from trivial))) fun _ s _ => ih s

theorem bodies (t : SwitchTask) (i : Tid) (s : SwitchRecorded cfg) (starts : Starts i t) :
    (contract cfg).wp i ((KillSwitch.machine cfg).body t) (fun _ _ => True) s := by
  cases t with
  | consumer calls =>
      obtain rfl : i = 0 := starts
      exact consume_wp calls s
  | syncs losses => exact outside_wp (syncAll_outside losses)
  | poller ticks => exact outside_wp (poll_outside ticks)

end DailyLossHalt

/-- Beside one consumer no check takes the counters back or judges by those of another day. -/
theorem keepsHalt_of_lone_consumer {calls : List LimitsCall} {others : List SwitchTask}
    (lone : ∀ t ∈ others, ∀ calls, t ≠ .consumer calls) {nowMs : Nat}
    {c : Config SwitchSig (SwitchRecorded cfg) SwitchTask Unit}
    (run : (KillSwitch.machine cfg).recording.Run (fun _ o a s => haltsItsDay cfg o a s.1 = true)
      ((KillSwitch.machine cfg).recording.start (SwitchState.new nowMs, [])
        (.consumer calls :: others)) c) :
    (KillSwitch.machine cfg).recording.Run (fun _ o a s => keepsHalt cfg o a s.1 = true)
      ((KillSwitch.machine cfg).recording.start (SwitchState.new nowMs, [])
        (.consumer calls :: others)) c := by
  have bodies : ∀ t i s, (DailyLossHalt.contract cfg).inv s →
      (DailyLossHalt.contract cfg).pre t i s →
      (DailyLossHalt.contract cfg).wp i ((KillSwitch.machine cfg).recording.body t)
        ((DailyLossHalt.contract cfg).post t i) s :=
    fun t i s _ starts => DailyLossHalt.bodies t i s starts
  have pres : ∀ i t, (SwitchTask.consumer calls :: others)[i]? = some t →
      DailyLossHalt.Starts i t := by
    intro i t found
    cases i with
    | zero =>
        cases found
        rfl
    | succ i =>
        have other := lone t (List.mem_of_getElem? found)
        cases t with
        | consumer calls => exact absurd rfl (other calls)
        | syncs | poller => exact Nat.succ_ne_zero i
  induction run with
  | refl => exact .refl
  | tail before step ih =>
      have sound := Contract.sound bodies (show _ ≤ _ from le_rfl) pres before
      obtain ⟨i, step⟩ := step
      have guar := (sound.step bodies step).1
      refine ih.tail ⟨i, ?_⟩
      cases step with
      | @mk t o next a out running ready meets did =>
        have past := (Machine.exec_of_recording did).2
        have judges := guar.judges _ past
        exact .mk running ready (Bool.and_eq_true_iff.2 ⟨meets, judges⟩) did

/-- In every run whose losses at or above the cap are set on the counters of their day and not taken
for what is there, and whose checks judge by the counters of their day, a check that runs after such
a loss on its day is halted. -/
theorem halt_effective {nowMs : Nat} {tasks : List SwitchTask}
    {c : Config SwitchSig (SwitchRecorded cfg) SwitchTask Unit}
    (run : (KillSwitch.machine cfg).recording.Run (fun _ o a s => keepsHalt cfg o a s.1 = true)
      ((KillSwitch.machine cfg).recording.start (SwitchState.new nowMs, []) tasks) c) :
    effective c.shared.2 := by
  have inv : DailyLossHalt.Inv c.shared := by
    refine Machine.invariant_of_exec ?_ run ⟨fun day breach => breach.elim, trivial⟩
    exact fun i fresh o a s out inv meets did => DailyLossHalt.keeps inv meets did
  exact inv.effective

/-- Limits that halt at a loss of 100 USD. -/
abbrev switchLimits : LimitsConfig := scenarioLimits ⟨false, false, true⟩

/-- A check of a small trade of the KOL "D". -/
def switchCheck : LimitsCall := .check ⟨"D", "public", 1 / 2, 0, 1, 1⟩

/-- The latest operation was the gates of a check that gave this verdict after a loss at or above
the cap was set on its day. -/
def judged (verdict : Option LimitFail) : List (KillSwitch.machine cfg).Event → Prop
  | ⟨_, .gates nowMs _, _, res⟩ :: older => res = verdict ∧ breached older (utcDay nowMs)
  | _ => False

instance (verdict : Option LimitFail) (h : List (KillSwitch.machine cfg).Event) :
    Decidable (judged verdict h) := by
  unfold judged
  split <;> infer_instance

theorem halt_effective_met :
    ∃ c, (KillSwitch.machine switchLimits).recording.Run
        (fun _ o a s => keepsHalt switchLimits o a s.1 = true)
        ((KillSwitch.machine switchLimits).recording.start (SwitchState.new 0, [])
          [.consumer [switchCheck, switchCheck], .syncs [200]]) c ∧
      judged (some (.dailyLossHalt 200 100)) c.shared.2 ∧ effective c.shared.2 := by
  let at_ (nowMs : Nat) : SwitchReplies := { nowMs := nowMs }
  obtain ⟨c, run, verdict⟩ : ∃ c, (KillSwitch.machine switchLimits).recording.Run
        (fun _ o a s => keepsHalt switchLimits o a s.1 = true)
        ((KillSwitch.machine switchLimits).recording.start (SwitchState.new 0, [])
          [.consumer [switchCheck, switchCheck], .syncs [200]]) c ∧
      judged (some (.dailyLossHalt 200 100)) c.shared.2 :=
    Machine.exists_run_of_follow
      [(0, 3, (at_ 86400000).ans), (1, 1, (at_ 86400001).ans), (0, 3, (at_ 86400002).ans)]
      (by decide +kernel)
  exact ⟨c, run, verdict, halt_effective run⟩

/-- The poller rolls its baseline over at midnight and then measures a loss of five times the
cap, with no check of the new day in between: the first one resets the counters, halt
included, and passes. -/
theorem halt_wiped :
    ∃ c, (KillSwitch.machine switchLimits).recording.Run
      (KillSwitch.machine switchLimits).recording.anyStep
        ((KillSwitch.machine switchLimits).recording.start (SwitchState.new 0, [])
          [.consumer [switchCheck], .poller 2]) c ∧
      judged none c.shared.2 ∧ ¬ effective c.shared.2 := by
  let at_ (nowMs : Nat) (balance : ℚ) : SwitchReplies := { nowMs := nowMs, balance := some balance }
  obtain ⟨c, run, verdict⟩ : ∃ c, (KillSwitch.machine switchLimits).recording.Run
        (KillSwitch.machine switchLimits).recording.anyStep
        ((KillSwitch.machine switchLimits).recording.start (SwitchState.new 0, [])
          [.consumer [switchCheck], .poller 2]) c ∧ judged none c.shared.2 :=
    Machine.exists_run_of_follow
      [(1, 3, (at_ 2000 2).ans), (1, 5, (at_ 86400000 2).ans), (1, 4, (at_ 86430000 1).ans),
        (0, 3, (at_ 86440000 1).ans)]
      (by decide +kernel)
  refine ⟨c, run, verdict, ?_⟩
  generalize c.shared.2 = h at verdict
  unfold judged at verdict
  split at verdict
  · rintro ⟨halted, -⟩
    have verdictHalts := halted verdict.2
    rw [verdict.1] at verdictHalts
    cases verdictHalts
  · exact verdict.elim

end BscMempool.Trader
