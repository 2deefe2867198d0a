/-
Module: BscMempool.Trader.LiveSystem
Layer: Trader
Purpose: The live trader as a concurrent system: the code of each task, the consumer of decisions,
  and the machine whose runs interleave them.
Trusted boundary: human-reviewed translation of the task spawns in trader/mod.rs (start_live_only),
  trader/executor_live.rs and trader/adaptive_trail.rs
Main exports: TrailWatcher.body, TrailWatcher.machine, Done, LiveConfig
-/
import BscMempool.Trader.AdaptiveTrail

namespace BscMempool.Trader

open Concurrent (Tid Machine Config)

/-- What a task returned. -/
inductive Done where
  | unit
  | entered (outcome : EnterOutcome)
  | exited (outcome : ExitOutcome)
  | finalized (report : FinalizeReport)
  | reserved (n : UInt64)
  | resynced (n : Option UInt64)
deriving DecidableEq, Repr

namespace TrailWatcher

variable (w : TrailWatcher)

/-- The consumer loop, over the decisions the strategy makes: exits are ignored while the adaptive
trail is active. -/
def consume (trailActive : Bool) : List (Decision × String) → Live Unit
  | [] => return ()
  | (decision, visibility) :: rest => do
      match decision with
      | .skip _ => consume trailActive rest
      | .exit kolName token kolBlock _ kolAddr =>
          if trailActive then consume trailActive rest
          else
            let _ ← w.exec.executeExit token kolName kolBlock kolAddr
            consume trailActive rest
      | .enter .. =>
          let openPositions ← onEnv .openCount
          let _ ← w.exec.execute decision visibility openPositions
          consume trailActive rest

/-- The code of each task. -/
def body : Task → Live Done
  | .consumer trailActive decisions => do
      w.consume trailActive decisions
      return .unit
  | .execute decision visibility openPositions => do
      let outcome ← w.exec.execute decision visibility openPositions
      return .entered outcome
  | .executeExit token kolName kolBlock kolAddr => do
      let outcome ← w.exec.executeExit token kolName kolBlock kolAddr
      return .exited outcome
  | .finalizePosition token buyTxHash route entry => do
      let report ← w.exec.finalizePosition token buyTxHash route entry
      return .finalized report
  | .persistNonce n => do
      NonceManager.persistNonce n
      return .unit
  | .reserve => do
      let n ← w.exec.reserveNonce
      return .reserved n
  | .resync => do
      let n ← NonceManager.resync
      return .resynced n
  | .trailWatcher blocks => do
      runLoop blocks
      return .unit
  | .processOnePosition token entry blockN => do
      w.processOnePosition token entry blockN
      return .unit

/-- The live trader's machine. -/
def machine : Machine LiveSig World Task Done where
  Ans := Op.Ans
  exec := Op.exec
  waits := Op.waits
  body := w.body

end TrailWatcher

/-- A configuration of the live trader. -/
abbrev LiveConfig := Config LiveSig World Task Done

end BscMempool.Trader
