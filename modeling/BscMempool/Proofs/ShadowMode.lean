/-
Module: BscMempool.Proofs.ShadowMode
Layer: Proofs
Purpose: Under a configuration that `load_config` accepts with the shadow phase on, no task of the
  trader ever hands a transaction to an endpoint.
Trusted boundary: none
Main exports: broadcastEnabled_of_shadow, Task.may.silent, shadow_sends_nothing
-/
import BscMempool.Concurrent.History
import BscMempool.Proofs.Scenario
import BscMempool.Proofs.TaskOps

namespace BscMempool.Trader

open Concurrent (Tid Machine Proc)
open Concurrent.Proc
open LiveExecutor

/-! ### The phase -/

/-- An accepted configuration has one phase. -/
theorem broadcastEnabled_of_shadow {path : String} {contents : Option String}
    {parse : String → Option LimitsConfig} {cfg : LimitsConfig}
    (loaded : loadConfig path contents parse = .ok cfg) (isShadow : cfg.phase.shadow = true) :
    cfg.phase.broadcastEnabled = false := by
  unfold loadConfig at loaded
  split at loaded
  · cases loaded
  · split at loaded
    · cases loaded
    · rename_i c _
      dsimp only at loaded
      split at loaded
      · cases loaded
      · rename_i one
        cases loaded
        rw [isShadow] at one
        cases tiny : cfg.phase.tiny <;> cases full : cfg.phase.full <;>
          simp [tiny, full, PhaseConfig.broadcastEnabled] at one ⊢

/-! ### Operations other than a submission -/

/-- Where nothing is broadcast, no task can ever come to a submission. -/
theorem Task.may.silent {t : Task} {o : Op} (may : t.may false o) : o.silent := by
  cases o with
  | submit => exact absurd may.broadcasts Bool.false_ne_true
  | _ => trivial

variable {w : TrailWatcher}

/-- Nothing was handed to an endpoint since the start. -/
structure ShadowMode.Inv (start : World) (s : World × List w.machine.Event) : Prop where
  silent : ∀ e ∈ s.2, e.op.silent
  wire : s.1.trade.wire = start.trade.wire

/-- Under a configuration that `load_config` accepted with the shadow phase on, no step of any run
of any tasks is a submission, and the wire carries what it carried at the start. -/
theorem shadow_sends_nothing {path : String} {contents : Option String}
    {parse : String → Option LimitsConfig} {cfg : LimitsConfig}
    (loaded : loadConfig path contents parse = .ok cfg) (isShadow : cfg.phase.shadow = true)
    (configured : w.exec.config = cfg) {start : World} {tasks : List Task}
    {c : Concurrent.Config LiveSig (World × List w.machine.Event) Task Done}
    (run : w.machine.recording.Run w.machine.recording.anyStep
      (w.machine.recording.start (start, []) tasks) c) :
    (∀ e ∈ c.shared.2, ∀ tx hash site, e.op ≠ .submit tx hash site) ∧
      c.shared.1.trade.wire = start.trade.wire := by
  have off : w.exec.broadcastEnabled = false := by
    rw [LiveExecutor.broadcastEnabled, configured]
    exact broadcastEnabled_of_shadow loaded isShadow
  let K : Concurrent.Contract w.machine.recording := {
    cond := w.machine.recording.anyStep
    inv := ShadowMode.Inv start
    guar := fun _ _ _ => True
    pre := fun _ _ _ => True
    post := fun _ _ _ _ => True }
  have each : ∀ i o, Op.silent o → K.Triple i (fun _ => True) o fun _ _ => True := by
    intro i o kind s inv _ fresh _ a _ out did
    obtain ⟨ran, past⟩ := Machine.exec_of_recording did
    refine ⟨⟨⟨?_, ?_⟩, trivial, fun _ _ _ => trivial⟩, trivial⟩
    · intro e member
      rw [past] at member
      rcases List.mem_cons.1 member with rfl | member
      · exact kind
      · exact inv.silent e member
    · exact (wire_of_silent kind ran).trans inv.wire
  have bodies : ∀ t i s, K.inv s → K.pre t i s →
      K.wp i (w.machine.recording.body t) (K.post t i) s :=
    fun t i s _ _ => Concurrent.Contract.wp_of_all .true (fun o may => each i o (off ▸ may).silent)
      (body_may t) (fun _ _ _ => trivial) trivial
  have sound :=
    Concurrent.Contract.sound bodies ⟨fun _ member => absurd member List.not_mem_nil, rfl⟩
      (fun _ _ _ => trivial) run
  constructor
  · intro e member tx hash site same
    have silent := sound.inv.silent e member
    rw [same] at silent
    exact silent
  · exact sound.inv.wire

/-- A trader whose configuration was accepted with the shadow phase on. -/
def shadowScenario : TrailWatcher :=
  { cfg := { enabled := true }
    exec := { scenario false |>.exec with config := scenarioLimits ⟨true, false, false⟩ } }

theorem shadow_sends_nothing_met :
    ∃ c, shadowScenario.machine.recording.Run shadowScenario.machine.recording.anyStep
        (shadowScenario.machine.recording.start (World.boot 7 none, []) [buyTask, exitTask]) c ∧
      c.shared.1.env.ledger.map LiveEntry.broadcast = [false, false] ∧
      c.shared.1.trade.wire = [] := by
  let r : Replies := { balance := some 1000 }
  obtain ⟨c, run, rows⟩ : ∃ c, shadowScenario.machine.recording.Run
        shadowScenario.machine.recording.anyStep
        (shadowScenario.machine.recording.start (World.boot 7 none, []) [buyTask, exitTask]) c ∧
      c.shared.1.env.ledger.map LiveEntry.broadcast = [false, false] :=
    Machine.exists_run_of_follow [(0, 16, r.ans), (1, 28, r.ans)] (by decide +kernel)
  have loaded : loadConfig "config/limits.toml" (some "")
      (fun _ => some (scenarioLimits ⟨true, false, false⟩)) = .ok shadowScenario.exec.config := rfl
  exact ⟨c, run, rows, (shadow_sends_nothing loaded rfl rfl run).2⟩

end BscMempool.Trader
