/-
Module: BscMempool.Concurrent.System
Layer: Concurrent
Purpose: Interleaving semantics for pools of processes over one shared state. A machine says what
  each operation does; a step lets one process of the pool make one operation, with an answer chosen
  by the environment. Runs may be restricted to the steps that meet a condition, and a schedule
  computes a run.
Trusted boundary: none
Main exports: Machine, Config, Machine.Step, Machine.Run, Machine.follow,
  Machine.exists_run_of_follow, Machine.exists_step_of_follow
-/
import BscMempool.Concurrent.Process
import Mathlib.Logic.Relation

namespace BscMempool.Concurrent

/-- Position of a process in the pool.  Positions are never reused. -/
abbrev Tid := Nat

/-- What an operation did: its result, the new shared state and the tasks it started. -/
structure Outcome (σ Task ρ : Type) where
  res : ρ
  shared : σ
  spawned : List Task := []

/-- What the operations of a signature do on a shared state `σ`, and the code of each task.

`Ans o` is what the environment chooses when `o` runs.  `exec` gets the position of the process that
runs the operation and the position the first task it starts will have; it is `none` where the
operation is blocked.  An operation also waits until every process in `waits` has returned. -/
structure Machine (S : Sig) (σ Task ω : Type) where
  Ans : S.Op → Type
  exec : Tid → Tid → (o : S.Op) → Ans o → σ → Option (Outcome σ Task (S.Res o))
  waits : S.Op → List Tid
  body : Task → Proc S ω

/-- A shared state and the pool of processes, each with the task it runs. -/
structure Config (S : Sig) (σ Task ω : Type) where
  shared : σ
  pool : List (Task × Proc S ω)

variable {S : Sig} {σ Task ω : Type}

/-- The process at position `i` has returned. -/
def Config.finished (c : Config S σ Task ω) (i : Tid) : Bool :=
  match c.pool[i]? with
  | some (_, .ret _) => true
  | _ => false

/-- The task that the process at position `i` runs. -/
def Config.taskAt (c : Config S σ Task ω) (i : Tid) : Option Task := c.pool[i]?.map Prod.fst

/-- What the process at position `i` has returned. -/
def Config.returned (c : Config S σ Task ω) (i : Tid) : Option ω :=
  match c.pool[i]? with
  | some (_, .ret value) => some value
  | _ => none

theorem Config.pool_of_returned {c : Config S σ Task ω} {i : Tid} {t : Task} {value : ω}
    (runs : c.taskAt i = some t) (done : c.returned i = some value) :
    c.pool[i]? = some (t, .ret value) := by
  unfold taskAt at runs
  unfold returned at done
  cases found : c.pool[i]? with
  | none =>
      rw [found] at runs
      cases runs
  | some entry =>
      obtain ⟨u, p⟩ := entry
      rw [found] at runs done
      cases runs
      cases p with
      | ret v =>
          cases done
          rfl
      | op o next => cases done

/-- Every process of the pool has returned. -/
def Config.Quiet (c : Config S σ Task ω) : Prop :=
  ∀ i < c.pool.length, c.finished i = true

instance (c : Config S σ Task ω) : Decidable c.Quiet :=
  inferInstanceAs (Decidable (∀ i < c.pool.length, c.finished i = true))

namespace Machine

variable (M : Machine S σ Task ω)

/-- The configuration in which `tasks` are about to start on `s`. -/
def start (s : σ) (tasks : List Task) : Config S σ Task ω :=
  { shared := s, pool := tasks.map fun t => (t, M.body t) }

/-- The configuration after the process at `i`, which runs `t`, has made an operation: it goes on
with `next`, and the tasks the operation started join the pool. -/
def advance (c : Config S σ Task ω) (i : Tid) (t : Task) (shared : σ) (next : Proc S ω)
    (spawned : List Task) : Config S σ Task ω :=
  { shared := shared
    pool := c.pool.set i (t, next) ++ spawned.map fun u => (u, M.body u) }

/-- A condition on single steps: who runs which operation with which answer in which state. -/
abbrev Cond := Tid → (o : S.Op) → M.Ans o → σ → Prop

/-- The condition every step meets. -/
def anyStep : M.Cond := fun _ _ _ _ => True

/-- The process at position `i` makes one operation, meeting `C`. -/
inductive Step (C : M.Cond) (i : Tid) (c : Config S σ Task ω) : Config S σ Task ω → Prop where
  | mk {t : Task} {o : S.Op} {next : S.Res o → Proc S ω} {a : M.Ans o}
      {out : Outcome σ Task (S.Res o)}
      (running : c.pool[i]? = some (t, .op o next))
      (ready : (M.waits o).all c.finished = true)
      (meets : C i o a c.shared)
      (did : M.exec i c.pool.length o a c.shared = some out) :
      Step C i c (M.advance c i t out.shared (next out.res) out.spawned)

/-- Any number of steps by any processes, each meeting `C`. -/
def Run (C : M.Cond) : Config S σ Task ω → Config S σ Task ω → Prop :=
  Relation.ReflTransGen fun c c' => ∃ i, M.Step C i c c'

variable {M}

theorem Step.mono {C D : M.Cond} (implies : ∀ i o a s, C i o a s → D i o a s) {i : Tid}
    {c c' : Config S σ Task ω} (step : M.Step C i c c') : M.Step D i c c' := by
  cases step with
  | mk running ready meets did => exact .mk running ready (implies _ _ _ _ meets) did

theorem Run.mono {C D : M.Cond} (implies : ∀ i o a s, C i o a s → D i o a s)
    {c c' : Config S σ Task ω} (run : M.Run C c c') : M.Run D c c' :=
  Relation.ReflTransGen.mono (fun _ _ ⟨i, step⟩ => ⟨i, step.mono implies⟩) _ _ run

/-- The pool only grows. -/
theorem advance_length_le {c : Config S σ Task ω} {i : Tid} {t : Task} {shared : σ}
    {next : Proc S ω}
    {spawned : List Task} : c.pool.length ≤ (M.advance c i t shared next spawned).pool.length := by
  simp [advance]

/-- An invariant of the steps is an invariant of the runs. -/
theorem Run.invariant {C : M.Cond} {I : Config S σ Task ω → Prop}
    (keeps : ∀ i c c', I c → M.Step C i c c' → I c') {c c' : Config S σ Task ω}
    (run : M.Run C c c') (holds : I c) : I c' := by
  induction run with
  | refl => exact holds
  | tail _ step ih => exact keeps _ _ _ ih step.choose_spec

end Machine

/-! ### Schedules

A schedule names, step by step, the process that moves and the answers the environment gives.
Following it is a computation, so a run on fixed inputs is exhibited by evaluating it. -/

namespace Machine

variable (M : Machine S σ Task ω) (C : M.Cond) [∀ i o a s, Decidable (C i o a s)]

instance (i : Tid) (o : S.Op) (a : M.Ans o) (s : σ) : Decidable (M.anyStep i o a s) :=
  .isTrue trivial

/-- Let the process at position `i` make its next operation with the answers
`env`, if that meets `C`. -/
def stepAt (i : Tid) (env : (o : S.Op) → M.Ans o) (c : Config S σ Task ω) :
    Option (Config S σ Task ω) :=
  match c.pool[i]? with
  | some (t, .op o next) =>
      if (M.waits o).all c.finished = true ∧ C i o (env o) c.shared then
        match M.exec i c.pool.length o (env o) c.shared with
        | some out => some (M.advance c i t out.shared (next out.res) out.spawned)
        | none => none
      else none
  | _ => none

/-- Each entry of a schedule lets one process make a number of operations with the same answers. -/
abbrev Schedule := List (Tid × Nat × ((o : S.Op) → M.Ans o))

/-- `n` operations of the process at `i`. -/
def stepsAt (i : Tid) (env : (o : S.Op) → M.Ans o) : Nat → Config S σ Task ω →
    Option (Config S σ Task ω)
  | 0, c => some c
  | n + 1, c => (M.stepAt C i env c).bind (stepsAt i env n)

/-- Follow a schedule from `c`. -/
def follow : M.Schedule → Config S σ Task ω → Option (Config S σ Task ω)
  | [], c => some c
  | (i, n, env) :: rest, c => (M.stepsAt C i env n c).bind (follow rest)

variable {M C}

theorem step_of_stepAt {i : Tid} {env : (o : S.Op) → M.Ans o} {c c' : Config S σ Task ω}
    (h : M.stepAt C i env c = some c') : M.Step C i c c' := by
  unfold stepAt at h
  split at h
  · rename_i t o next running
    split at h
    · rename_i able
      split at h
      · rename_i out did
        cases h
        exact .mk running able.1 able.2 did
      · cases h
    · cases h
  · cases h

theorem run_of_stepsAt {i : Tid} {env : (o : S.Op) → M.Ans o} {n : Nat}
    {c c' : Config S σ Task ω} (h : M.stepsAt C i env n c = some c') : M.Run C c c' := by
  induction n generalizing c with
  | zero =>
      cases h
      exact .refl
  | succ n ih =>
      obtain ⟨d, first, rest⟩ := Option.bind_eq_some_iff.1 h
      exact .head ⟨i, step_of_stepAt first⟩ (ih rest)

/-- Following a schedule is a run. -/
theorem run_of_follow {sched : M.Schedule} {c c' : Config S σ Task ω}
    (h : M.follow C sched c = some c') : M.Run C c c' := by
  induction sched generalizing c with
  | nil =>
      cases h
      exact .refl
  | cons entry rest ih =>
      obtain ⟨d, first, later⟩ := Option.bind_eq_some_iff.1 h
      exact (run_of_stepsAt first).trans (ih later)

/-- A schedule whose last configuration passes a test exhibits a reachable
configuration that does. -/
theorem exists_run_of_follow (sched : M.Schedule) {c : Config S σ Task ω}
    {P : Config S σ Task ω → Prop} [DecidablePred P]
    (passes : (M.follow C sched c).any (fun c' => decide (P c')) = true) :
    ∃ c', M.Run C c c' ∧ P c' := by
  obtain ⟨c', followed, holds⟩ := (Option.any_eq_true _ _).1 passes
  exact ⟨c', run_of_follow followed, of_decide_eq_true holds⟩

/-- A schedule and one more step that pass a test exhibit a reachable step that does. -/
theorem exists_step_of_follow (sched : M.Schedule) (i : Tid) (env : (o : S.Op) → M.Ans o)
    {c : Config S σ Task ω} {P : Config S σ Task ω → Config S σ Task ω → Prop}
    [∀ d d', Decidable (P d d')]
    (passes : (M.follow C sched c).any (fun d =>
      (M.stepAt C i env d).any fun d' => decide (P d d')) = true) :
    ∃ d d', M.Run C c d ∧ M.Step C i d d' ∧ P d d' := by
  obtain ⟨d, followed, steps⟩ := (Option.any_eq_true _ _).1 passes
  obtain ⟨d', stepped, holds⟩ := (Option.any_eq_true _ _).1 steps
  exact ⟨d, d', run_of_follow followed, step_of_stepAt stepped, of_decide_eq_true holds⟩

end Machine

end BscMempool.Concurrent
