/-
Module: BscMempool.Concurrent.Termination
Layer: Concurrent
Purpose: Runs that come to an end. Where every task starts tasks of a lower rank only, no run of a
  pool goes on for ever, so every run leads on to a configuration in which nobody can move.
Trusted boundary: none
Main exports: Proc.Rest, Machine.kinds_of_run, Machine.Terminates, Machine.terminates,
  Machine.Terminates.endless, Machine.Terminates.exists_last
-/
import BscMempool.Concurrent.System
import Mathlib.Logic.Hydra

namespace BscMempool.Concurrent

variable {S : Sig} {σ Task ω κ α : Type}

/-- What is left of a process after its next operation. -/
inductive Proc.Rest : Proc S α → Proc S α → Prop where
  | mk {o : S.Op} {next : S.Res o → Proc S α} (result : S.Res o) : Rest (next result) (.op o next)

/-- A process is a well-founded tree. -/
theorem Proc.rest_wf : WellFounded (Proc.Rest (S := S) (α := α)) := by
  constructor
  intro p
  induction p with
  | ret value => exact ⟨_, nofun⟩
  | op o next ih =>
      constructor
      rintro _ ⟨result⟩
      exact ih result

namespace Machine

variable {M : Machine S σ Task ω}

/-- No run from here goes on for ever. -/
def Terminates (M : Machine S σ Task ω) (C : M.Cond) (c : Config S σ Task ω) : Prop :=
  Acc (fun after before => ∃ i, M.Step C i before after) c

/-- The processes of a pool keep to the kinds of their tasks. -/
theorem Step.kinds {K : Task → S.Op → Prop} (bodies : ∀ t, (M.body t).All (K t)) {C : M.Cond}
    {i : Tid} {c c' : Config S σ Task ω} (step : M.Step C i c c')
    (kinds : ∀ entry ∈ c.pool, entry.2.All (K entry.1)) :
    ∀ entry ∈ c'.pool, entry.2.All (K entry.1) := by
  cases step with
  | @mk t o next a out running ready meets did =>
    intro entry member
    rcases List.mem_append.mp member with stood | started
    · rcases List.mem_or_eq_of_mem_set stood with old | rfl
      · exact kinds entry old
      · exact (kinds _ (List.mem_of_getElem? running)).2 out.res
    · obtain ⟨u, -, rfl⟩ := List.mem_map.mp started
      exact bodies u

theorem kinds_of_run {K : Task → S.Op → Prop} (bodies : ∀ t, (M.body t).All (K t))
    {C : M.Cond} {s : σ}
    {tasks : List Task} {c : Config S σ Task ω} (run : M.Run C (M.start s tasks) c) :
    ∀ entry ∈ c.pool, entry.2.All (K entry.1) := by
  apply run.invariant (I := fun c => ∀ entry ∈ c.pool, entry.2.All (K entry.1))
  · exact fun i d d' holds step => step.kinds bodies holds
  · intro entry member
    obtain ⟨u, -, rfl⟩ := List.mem_map.mp member
    exact bodies u

section Ranked

variable [Preorder κ] {rank : Task → κ}

/-- A process of a lower rank, or what is left of a process. -/
def Less (rank : Task → κ) : Task × Proc S ω → Task × Proc S ω → Prop :=
  InvImage (Prod.Lex (· < ·) Proc.Rest) fun entry => (rank entry.1, entry.2)

theorem less_wf [WellFoundedLT κ] : WellFounded (Less (S := S) (ω := ω) rank) :=
  InvImage.wf _ (WellFounded.prod_lex wellFounded_lt Proc.rest_wf)

/-- A step replaces a process by what is left of it and by processes of lower ranks. -/
theorem Step.cutExpand {K : Task → S.Op → Prop}
    (lower : ∀ t i fresh o (a : M.Ans o) s out, K t o → M.exec i fresh o a s = some out →
      ∀ u ∈ out.spawned, rank u < rank t)
    {C : M.Cond} {i : Tid} {c c' : Config S σ Task ω}
    (kinds : ∀ entry ∈ c.pool, entry.2.All (K entry.1)) (step : M.Step C i c c') :
    Relation.CutExpand (Less rank) (c'.pool : Multiset (Task × Proc S ω))
      (c.pool : Multiset (Task × Proc S ω)) := by
  cases step with
  | @mk t o next a out running ready meets did =>
    obtain ⟨bound, there⟩ := List.getElem?_eq_some_iff.mp running
    have kind := (kinds _ (List.mem_of_getElem? running)).1
    refine ⟨(t, next out.res) ::ₘ (out.spawned.map fun u => (u, M.body u) : List (Task × Proc S ω)),
      (t, .op o next), ?_, ?_⟩
    · intro entry member
      rcases Multiset.mem_cons.mp member with rfl | started
      · exact Prod.Lex.right _ ⟨out.res⟩
      · obtain ⟨u, spawned, rfl⟩ := List.mem_map.mp (Multiset.mem_coe.mp started)
        exact Prod.Lex.left _ _ (lower t i _ o a _ out kind did u spawned)
    · have moved := Multiset.coe_eq_coe.mpr (List.set_perm_cons_eraseIdx bound (t, next out.res))
      have stood := Multiset.coe_eq_coe.mpr (List.getElem_cons_eraseIdx_perm bound)
      rw [there] at stood
      rw [advance, ← Multiset.coe_add, moved, ← stood, ← Multiset.cons_coe, ← Multiset.cons_coe,
        ← Multiset.singleton_add, ← Multiset.singleton_add, ← Multiset.singleton_add]
      ac_rfl

/-- A pool whose tasks start tasks of lower ranks only terminates. -/
theorem terminates [WellFoundedLT κ] (rank : Task → κ) {K : Task → S.Op → Prop}
    (bodies : ∀ t, (M.body t).All (K t))
    (lower : ∀ t i fresh o (a : M.Ans o) s out, K t o → M.exec i fresh o a s = some out →
      ∀ u ∈ out.spawned, rank u < rank t)
    {C : M.Cond} {c : Config S σ Task ω} (kinds : ∀ entry ∈ c.pool, entry.2.All (K entry.1)) :
    M.Terminates C c := by
  have wf : WellFounded (Relation.CutExpand (Less (S := S) (ω := ω) rank)) := less_wf.cutExpand
  generalize pool : (c.pool : Multiset (Task × Proc S ω)) = left
  induction left using wf.induction generalizing c with
  | _ left ih =>
      subst pool
      constructor
      rintro c' ⟨i, step⟩
      exact ih _ (step.cutExpand lower kinds) (step.kinds bodies kinds) rfl

end Ranked

variable {C : M.Cond} {c : Config S σ Task ω}

/-- A sequence of configurations stops being a run somewhere. -/
theorem Terminates.endless (terminates : M.Terminates C c) (configs : ℕ → Config S σ Task ω)
    (first : configs 0 = c) :
    ∃ n, ∀ i, ¬ M.Step C i (configs n) (configs (n + 1)) := by
  induction terminates generalizing configs with
  | intro c _ ih =>
      by_cases moves : ∃ i, M.Step C i c (configs 1)
      · obtain ⟨n, stops⟩ := ih (configs 1) moves (fun n => configs (n + 1)) rfl
        exact ⟨n + 1, stops⟩
      · refine ⟨0, fun i step => moves ⟨i, ?_⟩⟩
        rwa [first] at step

/-- Every run leads on to where nobody can move. -/
theorem Terminates.exists_last (terminates : M.Terminates C c) :
    ∃ c', M.Run C c c' ∧ ∀ i c'', ¬ M.Step C i c' c'' := by
  induction terminates with
  | intro c _ ih =>
      by_cases moves : ∃ c', ∃ i, M.Step C i c c'
      · obtain ⟨c', step⟩ := moves
        obtain ⟨last, run, stuck⟩ := ih c' step
        exact ⟨last, .head step run, stuck⟩
      · exact ⟨c, .refl, fun i c' step => moves ⟨c', i, step⟩⟩

end Machine

end BscMempool.Concurrent
