/-
Module: BscMempool.Concurrent.InOrder
Layer: Concurrent
Purpose: Processes that follow a plan. Operations may carry a mark; a process follows a plan if the
  marks of what it makes come in the order of the plan, each entry of the plan serving at most once.
Trusted boundary: none
Main exports: behind, Protocol.inOrder, Protocol.inOrder_kinds, Obeys.marked, Machine.marks,
  Machine.marks_sublist
-/
import BscMempool.Concurrent.Trace

namespace BscMempool.Concurrent

variable {S : Sig} {σ Task ω K : Type}

/-! ### Plans -/

section Behind

variable [DecidableEq K]

/-- What comes behind the first `k` of a plan. -/
def behind (k : K) : List K → List K
  | [] => []
  | first :: rest => if first = k then rest else behind k rest

theorem cons_behind_sublist {k : K} {plan : List K} (planned : k ∈ plan) :
    (k :: behind k plan).Sublist plan := by
  induction plan with
  | nil => cases planned
  | cons first rest ih =>
      by_cases here : first = k
      · rw [behind, if_pos here, here]
      · have later : k ∈ rest := (List.mem_cons.mp planned).resolve_left fun same => here same.symm
        rw [behind, if_neg here]
        exact (ih later).cons first

/-- What is left of a plan behind one of its entries is left of it behind the first such entry. -/
theorem suffix_behind {k : K} {plan rest : List K} (left : (k :: rest) <:+ plan) :
    rest <:+ behind k plan := by
  induction plan with
  | nil => exact absurd left.length_le (by simp)
  | cons first later ih =>
      by_cases here : first = k
      · rw [behind, if_pos here]
        rcases List.suffix_cons_iff.mp left with same | inside
        · cases same
          exact List.suffix_refl _
        · exact (List.suffix_cons k rest).trans inside
      · rw [behind, if_neg here]
        apply ih
        rcases List.suffix_cons_iff.mp left with same | inside
        · cases same
          exact absurd rfl here
        · exact inside

end Behind

/-! ### Marks -/

section Marks

variable {M : Machine S σ Task ω} {mark : S.Op → Option K} {i j : Tid} {h : List M.Event}

/-- The marks of what the process at `i` made, the earliest first. -/
def Machine.marks (mark : S.Op → Option K) (i : Tid) (h : List M.Event) : List K :=
  Machine.collect (fun j o _ => if j = i then mark o else none) h

theorem Machine.marks_other {o : S.Op} {a : M.Ans o} {result : S.Res o} (ne : j ≠ i) :
    Machine.marks mark i (⟨j, o, a, result⟩ :: h) = Machine.marks mark i h :=
      Machine.collect_none (if_neg ne)

theorem Machine.marks_own {o : S.Op} {a : M.Ans o} {result : S.Res o} :
    Machine.marks mark i (⟨i, o, a, result⟩ :: h) = Machine.marks mark i h ++ (mark o).toList := by
  unfold marks
  rw [collect_cons]
  simp

theorem Machine.marks_fresh (fresh : ∀ e ∈ h, e.tid ≠ i) : Machine.marks mark i h = [] := by
  unfold marks collect
  rw [List.filterMap_eq_nil_iff.mpr fun e member => if_neg (fresh e member), List.reverse_nil]

end Marks

/-! ### Processes -/

variable [DecidableEq K] (mark : S.Op → Option K)

/-- The order of a plan.  Its phases are what is left of the plan. -/
def Protocol.inOrder : Protocol S (List K) where
  allows plan o := ∀ k, mark o = some k → k ∈ plan
  next plan o _ := match mark o with
    | some k => behind k plan
    | none => plan

variable {mark}

/-- Operations without a mark are in no order. -/
theorem Protocol.inOrder_kinds :
    (Protocol.inOrder mark).Kinds (fun o => mark o = none) (fun o => mark o = none) where
  allowed plan o unmarked k marked := by
    rw [unmarked] at marked
    cases marked
  still_free _ unmarked := unmarked
  kept plan o unmarked result := by
    show (match mark o with
      | some k => behind k plan
      | none => plan) = plan
    rw [unmarked]

/-- A marked operation serves an entry of the plan. -/
theorem Proc.Obeys.marked {α : Type} {ends : List K → α → Prop} {plan rest : List K} {o : S.Op}
    {f : S.Res o → Proc S α} {k : K} (marked : mark o = some k) (left : (k :: rest) <:+ plan)
    (after : ∀ plan result, rest <:+ plan → (f result).Obeys (Protocol.inOrder mark) ends plan) :
    (Proc.call o >>= f).Obeys (Protocol.inOrder mark) ends plan := by
  apply Proc.Obeys.call
  · intro k' same
    rw [marked] at same
    cases same
    exact left.subset List.mem_cons_self
  · intro result
    have next : (Protocol.inOrder mark).next plan o result = behind k plan := by
      show (match mark o with
        | some k => behind k plan
        | none => plan) = behind k plan
      rw [marked]
    rw [next]
    exact after _ result (suffix_behind left)

/-! ### Runs -/

namespace Machine

variable {M : Machine S σ Task ω} {i : Tid}

/-- What a process has made, and what is left of its plan. -/
theorem marks_phase_sublist {plan : Task → List K} {ends : Task → List K → ω → Prop}
    (bodies : ∀ t, (M.body t).Obeys (Protocol.inOrder mark) (ends t) (plan t))
    {C : M.recording.Cond} {s : σ} {tasks : List Task} {c : Config S (σ × List M.Event) Task ω}
    (run : M.recording.Run C (M.recording.start (s, []) tasks) c) {t : Task} {p : Proc S ω}
    (found : c.pool[i]? = some (t, p)) :
    (marks mark i c.shared.2 ++ (Protocol.inOrder mark).phase i (plan t) c.shared.2).Sublist
      (plan t) := by
  have kept : Obeyed (fun _ => Protocol.inOrder mark) ends plan c ∧ ∀ (i : Tid) (t : Task)
      (p : Proc S ω),
      c.pool[i]? = some (t, p) →
        (marks mark i c.shared.2 ++ (Protocol.inOrder mark).phase i (plan t) c.shared.2).Sublist
          (plan t) := by
    apply run.invariant (I := fun c => Obeyed (fun _ => Protocol.inOrder mark) ends plan c ∧
      ∀ i t p,
      c.pool[i]? = some (t, p) →
        (marks mark i c.shared.2 ++ (Protocol.inOrder mark).phase i (plan t) c.shared.2).Sublist
          (plan t))
    · rintro j d d' ⟨obeyed, holds⟩ step
      refine ⟨obeyed.step bodies step, fun i u q found => ?_⟩
      obtain ⟨t, o, next, a, out, running, -, -, -, shared, pool⟩ := step.inversion
      have bound : j < d.pool.length := (List.getElem?_eq_some_iff.mp running).1
      rw [pool] at found
      rw [shared]
      rcases pool_cases bound found with ⟨rfl, same⟩ | ⟨ne, before⟩ | ⟨new, -, -⟩
      · cases same
        have before := holds i u _ running
        have allowed := obeyed.allows running
        simp only [marks_own, Protocol.phase_own]
        show (marks mark i d.shared.2 ++ (mark o).toList ++ match mark o with
          | some k => behind k ((Protocol.inOrder mark).phase i (plan u) d.shared.2)
          | none => (Protocol.inOrder mark).phase i (plan u) d.shared.2).Sublist (plan u)
        cases marked : mark o with
        | none => simpa using before
        | some k =>
            have one := cons_behind_sublist (allowed k marked)
            simpa using (one.append_left (marks mark i d.shared.2)).trans before
      · rw [marks_other (Ne.symm ne), Protocol.phase_other (Ne.symm ne)]
        exact holds i u q before
      · have fresh : ∀ e ∈ d.shared.2, e.tid ≠ i := fun e member =>
          Nat.ne_of_lt (Nat.lt_of_lt_of_le (obeyed.known e member) new)
        rw [marks_other (Nat.ne_of_lt (Nat.lt_of_lt_of_le bound new)), marks_fresh fresh,
          obeyed.phase_new bound new, List.nil_append]
    · refine ⟨.start bodies s tasks, fun i t p _ => ?_⟩
      exact List.Sublist.refl _
  exact kept.2 i t p found

/-- What a process makes follows the plan of its task. -/
theorem marks_sublist {plan : Task → List K} {ends : Task → List K → ω → Prop}
    (bodies : ∀ t, (M.body t).Obeys (Protocol.inOrder mark) (ends t) (plan t))
    {C : M.recording.Cond} {s : σ} {tasks : List Task} {c : Config S (σ × List M.Event) Task ω}
    (run : M.recording.Run C (M.recording.start (s, []) tasks) c) {t : Task} {p : Proc S ω}
    (found : c.pool[i]? = some (t, p)) : (marks mark i c.shared.2).Sublist (plan t) :=
  (List.sublist_append_left _ _).trans (marks_phase_sublist bodies run found)

end Machine

end BscMempool.Concurrent
