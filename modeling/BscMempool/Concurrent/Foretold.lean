/-
Module: BscMempool.Concurrent.Foretold
Layer: Concurrent
Purpose: Refinement of a machine that is told at its start what another machine finds out while it
  runs. The runs of the second are runs of the first that is told all of it, and anything at all of
  what is still to come.
Trusted boundary: none
Main exports: Foretells, Foretells.run, All.interpret, pool_self, pool_other, pool_started
-/
import BscMempool.Concurrent.System

namespace BscMempool.Concurrent

variable {S T : Sig} {σ τ Task Task' ω ω' A : Type}

/-- `told` is what a configuration of `M` has found out, and `open_ c rest` says that `rest` may
still come.  Whatever is still to come, `R` relates the configurations of `M` to those of `N`, and a
step of `M` that finds out something is answered by `N`, to which it was to come. -/
structure Foretells (M : Machine S σ Task ω) (N : Machine T τ Task' ω') (C : M.Cond) (D : N.Cond)
    (told : Config S σ Task ω → List A) (open_ : Config S σ Task ω → List A → Prop)
    (R : List A → Config S σ Task ω → Config T τ Task' ω' → Prop) : Prop where
  step : ∀ {i c c'}, M.Step C i c c' → ∃ new, told c' = told c ++ new ∧ ∀ rest, open_ c' rest →
    open_ c (new ++ rest) ∧ ∀ d, R (new ++ rest) c d → ∃ d', N.Run D d d' ∧ R rest c' d'

/-- A run that has found out `told` is, for every `rest` that may still come, a run
from what is told both. -/
theorem Foretells.run {M : Machine S σ Task ω} {N : Machine T τ Task' ω'} {C : M.Cond} {D : N.Cond}
    {told : Config S σ Task ω → List A} {open_ : Config S σ Task ω → List A → Prop}
    {R : List A → Config S σ Task ω → Config T τ Task' ω' → Prop}
    (foretells : Foretells M N C D told open_ R)
    (begin_ : List A → Config T τ Task' ω') {c c' : Config S σ Task ω} (run : M.Run C c c')
    (start : ∀ rest, open_ c rest → R rest c (begin_ (told c ++ rest))) (rest : List A)
    (may : open_ c' rest) :
    ∃ d, N.Run D (begin_ (told c' ++ rest)) d ∧ R rest c' d := by
  induction run generalizing rest with
  | refl => exact ⟨_, .refl, start rest may⟩
  | tail _ step ih =>
      obtain ⟨i, step⟩ := step
      obtain ⟨new, grown, answers⟩ := foretells.step step
      obtain ⟨before, answer⟩ := answers rest may
      obtain ⟨d, ran, related⟩ := ih (new ++ rest) before
      obtain ⟨d', goes, after⟩ := answer d related
      refine ⟨d', ?_, after⟩
      rw [grown, List.append_assoc]
      exact ran.trans goes

/-- An interpreted process makes only what stands for the operations of the process. -/
theorem Proc.All.interpret {α : Type} {P : T.Op → Prop} {K : S.Op → Prop}
    {handle : (o : S.Op) → Proc T (S.Res o)}
    (each : ∀ o, K o → (handle o).All P) {p : Proc S α} (all : p.All K) :
    (p.interpret handle).All P := by
  induction p with
  | ret value => trivial
  | op o next ih => exact (each o all.1).bind fun result => ih result (all.2 result)

/-! ### A pool after a step -/

section Pool

variable {α : Type} {pool started : List α} {i j : Tid} {entry : α}

theorem pool_self (bound : i < pool.length) : (pool.set i entry ++ started)[i]? = some entry := by
  rw [List.getElem?_append_left (by simpa using bound), List.getElem?_set_self bound]

theorem pool_other (ne : j ≠ i) (bound : j < pool.length) :
    (pool.set i entry ++ started)[j]? = pool[j]? := by
  rw [List.getElem?_append_left (by simpa using bound), List.getElem?_set_ne (Ne.symm ne)]

theorem pool_started (new : pool.length ≤ j) :
    (pool.set i entry ++ started)[j]? = started[j - pool.length]? := by
  rw [List.getElem?_append_right (by simpa using new), List.length_set]

end Pool

end BscMempool.Concurrent
