/-
Module: BscMempool.Concurrent.History
Layer: Concurrent
Purpose: Runs with their history. The recording machine behaves as the machine it records and
  remembers every operation that was made, so that conditions and properties may speak about the
  past.
Trusted boundary: none
Main exports: Machine.Event, Machine.latest, Machine.recording, Machine.invariant_of_exec,
  Machine.run_of_recording, Machine.recording_of_run, Contract.recorded_triple
-/
import BscMempool.Concurrent.RelyGuarantee

namespace BscMempool.Concurrent

variable {S : Sig} {σ Task ω : Type}

/-- An operation that was made: by whom, what the environment answered, and what came back. -/
structure Machine.Event (M : Machine S σ Task ω) where
  tid : Tid
  op : S.Op
  ans : M.Ans op
  res : S.Res op

/-- The machine with its history, the latest operation first. -/
def Machine.recording (M : Machine S σ Task ω) : Machine S (σ × List M.Event) Task ω where
  Ans := M.Ans
  exec i fresh o a s := (M.exec i fresh o a s.1).map fun out =>
    { res := out.res, shared := (out.shared, ⟨i, o, a, out.res⟩ :: s.2), spawned := out.spawned }
  waits := M.waits
  body := M.body

/-- The configuration without the history. -/
def Config.forget {η : Type} (c : Config S (σ × η) Task ω) : Config S σ Task ω :=
  { shared := c.shared.1, pool := c.pool }

/-- The configuration with a history. -/
def Config.record {η : Type} (c : Config S σ Task ω) (h : η) : Config S (σ × η) Task ω :=
  { shared := (c.shared, h), pool := c.pool }

namespace Machine

variable {M : Machine S σ Task ω}

/-- What the latest operation of a process that `pick` reads something from gave. -/
def latest {β : Type} (i : Tid) (pick : (o : S.Op) → M.Ans o → S.Res o → Option β)
    (h : List M.Event) : Option β :=
  h.findSome? fun e => if e.tid = i then pick e.op e.ans e.res else none

section Latest

variable {β : Type} {pick : (o : S.Op) → M.Ans o → S.Res o → Option β} {h : List M.Event}

theorem latest_other {i : Tid} {e : M.Event} (ne : e.tid ≠ i) :
    latest i pick (e :: h) = latest i pick h := by
  simp [latest, ne]

theorem latest_none {i : Tid} {o : S.Op} {a : M.Ans o} {r : S.Res o}
    (picked : pick o a r = none) : latest i pick (⟨i, o, a, r⟩ :: h) = latest i pick h := by
  simp [latest, picked]

/-- What was read was read in some event of the history. -/
theorem exists_of_latest {i : Tid} {b : β} (found : latest i pick h = some b) :
    ∃ e ∈ h, e.tid = i ∧ pick e.op e.ans e.res = some b := by
  obtain ⟨e, member, picked⟩ := List.exists_of_findSome?_eq_some found
  split at picked
  · exact ⟨e, member, by assumption, picked⟩
  · cases picked

end Latest

/-- What the recording machine does, the machine does. -/
theorem exec_of_recording {i fresh : Tid} {o : S.Op} {a : M.Ans o} {s : σ × List M.Event}
    {out : Outcome (σ × List M.Event) Task (S.Res o)}
    (did : M.recording.exec i fresh o a s = some out) :
    M.exec i fresh o a s.1 = some ⟨out.res, out.shared.1, out.spawned⟩ ∧
      out.shared.2 = ⟨i, o, a, out.res⟩ :: s.2 := by
  obtain ⟨inner, ran, rfl⟩ := Option.map_eq_some_iff.1 did
  exact ⟨ran, rfl⟩

/-- A step of the recording machine makes one operation and notes it. -/
theorem Step.recorded {C : M.recording.Cond} {i : Tid} {c c' : Config S (σ × List M.Event) Task ω}
    (step : M.recording.Step C i c c') :
    ∃ fresh o a out, C i o a c.shared ∧ M.exec i fresh o a c.shared.1 = some out ∧
      c'.shared = (out.shared, ⟨i, o, a, out.res⟩ :: c.shared.2) := by
  cases step with
  | @mk t o next a out running ready meets did =>
    obtain ⟨ran, past⟩ := exec_of_recording did
    exact ⟨_, o, a, _, meets, ran, Prod.ext rfl past⟩

/-- What every operation keeps of a state and its history, every run keeps. -/
theorem invariant_of_exec {C : M.recording.Cond} {I : σ × List M.Event → Prop}
    (keeps : ∀ i fresh o a s out, I s → C i o a s → M.exec i fresh o a s.1 = some out →
      I (out.shared, ⟨i, o, a, out.res⟩ :: s.2))
    {c c' : Config S (σ × List M.Event) Task ω} (run : M.recording.Run C c c') (init : I c.shared) :
    I c'.shared := by
  refine run.invariant (I := fun c => I c.shared) (fun i d d' holds step => ?_) init
  obtain ⟨fresh, o, a, out, meets, ran, shared⟩ := step.recorded
  rw [shared]
  exact keeps i fresh o a d.shared out holds meets ran

/-- A step of the recording machine is a step of the machine. -/
theorem Step.of_recording {C : M.recording.Cond} {D : M.Cond} {i : Tid}
    {c c' : Config S (σ × List M.Event) Task ω} (implies : ∀ i o a s, C i o a s → D i o a s.1)
    (step : M.recording.Step C i c c') : M.Step D i c.forget c'.forget := by
  cases step with
  | mk running ready meets did =>
    have waited : (M.waits _).all c.forget.finished = true := ready
    exact .mk (c := c.forget) running waited (implies _ _ _ _ meets) (exec_of_recording did).1

/-- A run of the recording machine is a run of the machine; what a step of it meets may follow from
how it was reached and from what the process was about to do. -/
theorem run_of_recording {C : M.recording.Cond} {D : M.Cond}
    {c c' : Config S (σ × List M.Event) Task ω}
    (implies : ∀ i d t o (next : S.Res o → Proc S ω) a, M.recording.Run C c d →
      d.pool[i]? = some (t, .op o next) →
      C i o a d.shared → D i o a d.shared.1)
    (run : M.recording.Run C c c') : M.Run D c.forget c'.forget := by
  induction run with
  | refl => exact .refl
  | @tail d _ before step ih =>
      obtain ⟨i, step⟩ := step
      cases step with
      | mk running ready meets did =>
        have waited : (M.waits _).all d.forget.finished = true := ready
        have meets := implies i d _ _ _ _ before running meets
        exact ih.tail ⟨i, .mk (c := d.forget) running waited meets (exec_of_recording did).1⟩

/-- Every run of the machine has a history. -/
theorem recording_of_run {C : M.Cond} {c c' : Config S σ Task ω} (run : M.Run C c c')
    (h : List M.Event) :
    ∃ h', M.recording.Run (fun i o a s => C i o a s.1) (c.record h) (c'.record h') := by
  induction run with
  | refl => exact ⟨h, .refl⟩
  | tail _ step ih =>
      obtain ⟨past, run⟩ := ih
      obtain ⟨i, step⟩ := step
      cases step with
      | @mk t o next a out running ready meets did =>
        have recorded : M.recording.exec i _ o a (_, past) =
            some ⟨out.res, (out.shared, ⟨i, o, a, out.res⟩ :: past), out.spawned⟩ :=
          Option.map_eq_some_iff.2 ⟨out, did, rfl⟩
        refine ⟨⟨i, o, a, out.res⟩ :: past, run.tail ⟨i, ?_⟩⟩
        exact Step.mk (M := M.recording) (c := Config.record _ past) running ready meets recorded

end Machine

/-- The rule for an operation of the owner of a view of a recorded pool, where it starts nothing. -/
theorem Contract.recorded_triple {M : Machine S σ Task ω} {V : Type} {C : M.recording.Cond}
    {owner : Tid}
    {view : σ × List M.Event → V} {I : V → Prop} {pre : Task → Tid → V → Prop} {o : S.Op}
    {P : V → Prop} {Q : S.Res o → V → Prop}
    (does : ∀ (s : σ × List M.Event) (a : M.Ans o), I (view s) → P (view s) → C owner o a s →
      ∀ fresh out, M.exec owner fresh o a s.1 = some out → out.spawned = [] ∧
        I (view (out.shared, ⟨owner, o, a, out.res⟩ :: s.2)) ∧
        Q out.res (view (out.shared, ⟨owner, o, a, out.res⟩ :: s.2))) :
    (Contract.owned (M := M.recording) C owner view I pre).Triple owner (fun s => P (view s)) o
      fun r s => Q r (view s) := by
  apply Contract.owned_triple
  intro s inv holds fresh _ a meets out did
  obtain ⟨ran, past⟩ := Machine.exec_of_recording did
  obtain ⟨quiet, inv', after⟩ := does s a inv holds meets fresh _ ran
  have shared : out.shared = (out.shared.1, ⟨owner, o, a, out.res⟩ :: s.2) := Prod.ext rfl past
  rw [shared]
  refine ⟨inv', after, fun j t started => ?_⟩
  have quiet : out.spawned = [] := quiet
  rw [quiet] at started
  cases started

end BscMempool.Concurrent
