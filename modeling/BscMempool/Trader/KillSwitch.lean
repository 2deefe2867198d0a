/-
Module: BscMempool.Trader.KillSwitch
Layer: Trader
Purpose: The daily-loss kill switch: the poller that turns the wallet's balance into a realized
  loss, the checks and counts of the consumer, and the machine that interleaves their accesses to
  the limits.
Trusted boundary: human-reviewed translation of the kill-switch poller in start_live_only
  (trader/mod.rs) and of the locking of LimitsRuntime (trader/limits.rs); log lines other than the
  two that announce a baseline are left out
Main exports: SwitchState, SwitchOp, LimitsCall, SwitchTask, KillSwitch, KillSwitch.pollTicks,
  KillSwitch.machine
-/
import BscMempool.Concurrent.System
import BscMempool.Trader.Limits

namespace BscMempool.Trader

open Concurrent (Tid Machine Config Outcome Sig Proc)

/-- The counters behind the lock of the limits, and the time. -/
structure SwitchState where
  daily : DailyState
  clockMs : Nat

/-- `LimitsRuntime::new`: the counters are those of the day it is made. -/
def SwitchState.new (nowMs : Nat) : SwitchState :=
  { daily := { day := nowMs / 86400000 }, clockMs := nowMs }

/-- The steps of the tasks. A check holds the lock twice, once to roll the day over and
once to run the gates. -/
inductive SwitchOp where
  | now
  | walletBalance
  | bnbUsd
  | maybeResetDay (nowMs : Nat)
  | gates (nowMs : Nat) (trade : TradeCheck)
  | recordTradeFired
  | syncRealizedLoss (lossUsd : ℚ)
  /-- The log line that announces a baseline and its UTC day. -/
  | logBaseline (baselineBnb : ℚ) (utcDay : Nat)

abbrev SwitchOp.Res : SwitchOp → Type
  | .now => Nat
  | .walletBalance => Option ℚ
  | .bnbUsd => Option ℚ
  | .gates .. => Option LimitFail
  | _ => Unit

/-- Replies, a request that failed being `none`, and the time at which a clock is read, a balance is
read or a loss is set. -/
abbrev SwitchOp.Ans : SwitchOp → Type
  | .now => Nat
  | .walletBalance => Nat × Option ℚ
  | .bnbUsd => Option ℚ
  | .syncRealizedLoss _ => Nat
  | _ => Unit

abbrev SwitchSig : Sig := ⟨SwitchOp, SwitchOp.Res⟩

/-- A task of the kill switch, or a part of one. -/
abbrev Switch (α : Type) := Proc SwitchSig α

/-- What the consumer calls on the limits. -/
inductive LimitsCall where
  | check (trade : TradeCheck)
  | recordTradeFired

/-- The tasks that share the limits: the consumer with its calls, a caller that sets losses, and the
poller, which sets the losses it measures. -/
inductive SwitchTask where
  | consumer (calls : List LimitsCall)
  | syncs (losses : List ℚ)
  | poller (ticks : Nat)

/-- Time passes, if it does not go back. -/
def SwitchState.at (s : SwitchState) (nowMs : Nat) : Option SwitchState :=
  if s.clockMs ≤ nowMs then some { s with clockMs := nowMs } else none

def SwitchOp.exec (cfg : LimitsConfig) : (o : SwitchOp) → o.Ans → SwitchState →
    Option (Outcome SwitchState SwitchTask o.Res)
  | .now, nowMs, s => (s.at nowMs).map fun s => { res := nowMs, shared := s }
  | .walletBalance, (nowMs, reply), s => (s.at nowMs).map fun s => { res := reply, shared := s }
  | .bnbUsd, reply, s => some { res := reply, shared := s }
  | .maybeResetDay nowMs, _, s =>
      some { res := (), shared := { s with daily := Trader.maybeResetDay s.daily nowMs } }
  | .gates nowMs trade, _, s => some { res := cfg.gates s.daily nowMs trade, shared := s }
  | .recordTradeFired, _, s =>
      some { res := (), shared := { s with daily := Trader.recordTradeFired s.daily } }
  | .syncRealizedLoss lossUsd, nowMs, s =>
      (s.at nowMs).map fun s =>
        { res := (), shared := { s with daily := cfg.syncRealizedLoss s.daily lossUsd } }
  | .logBaseline .., _, s => some { res := (), shared := s }

def onSwitch (o : SwitchOp) : Switch o.Res := @Proc.call SwitchSig o

namespace KillSwitch

/-- `LimitsRuntime::check`. -/
def check (trade : TradeCheck) : Switch (Option LimitFail) := do
  let nowMs ← onSwitch .now
  onSwitch (.maybeResetDay nowMs)
  onSwitch (.gates nowMs trade)

/-- The consumer's calls, one after the other. -/
def consume : List LimitsCall → Switch Unit
  | [] => return ()
  | .check trade :: rest => do
      let _ ← check trade
      consume rest
  | .recordTradeFired :: rest => do
      onSwitch .recordTradeFired
      consume rest

def syncAll : List ℚ → Switch Unit
  | [] => return ()
  | lossUsd :: rest => do
      onSwitch (.syncRealizedLoss lossUsd)
      syncAll rest

/-- `utc_day_now`. -/
def utcDayNow : Switch Nat := do
  let nowMs ← onSwitch .now
  return nowMs / 1000 / 86400

/-- The poller's loop.  A balance that cannot be read counts as the baseline, a price that cannot be
read skips the tick. -/
def pollTicks (baseline : ℚ) (baselineDay : Nat) : Nat → Switch Unit
  | 0 => return ()
  | ticks + 1 => do
      let nowBnb := (← onSwitch .walletBalance).getD baseline
      let bnbUsd := (← onSwitch .bnbUsd).getD 0
      if bnbUsd ≤ 0 then pollTicks baseline baselineDay ticks
      else
        let today ← utcDayNow
        if today ≠ baselineDay then
          onSwitch (.logBaseline nowBnb today)
          onSwitch (.syncRealizedLoss 0)
          pollTicks nowBnb today ticks
        else
          onSwitch (.syncRealizedLoss (max (baseline - nowBnb) 0 * bnbUsd))
          pollTicks baseline baselineDay ticks

/-- The poller: without an initial balance there is no kill switch. -/
def poll (ticks : Nat) : Switch Unit := do
  match ← onSwitch .walletBalance with
  | none => return ()
  | some initial =>
      let baselineDay ← utcDayNow
      onSwitch (.logBaseline initial baselineDay)
      pollTicks initial baselineDay ticks

def body : SwitchTask → Switch Unit
  | .consumer calls => consume calls
  | .syncs losses => syncAll losses
  | .poller ticks => poll ticks

/-- The machine of the kill switch under a configuration of the limits. -/
def machine (cfg : LimitsConfig) : Machine SwitchSig SwitchState SwitchTask Unit where
  Ans := SwitchOp.Ans
  exec _ _ := SwitchOp.exec cfg
  waits _ := []
  body := body

end KillSwitch

/-- A configuration of the kill switch. -/
abbrev SwitchConfig := Config SwitchSig SwitchState SwitchTask Unit

end BscMempool.Trader
