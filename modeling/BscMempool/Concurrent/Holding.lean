/-
Module: BscMempool.Concurrent.Holding
Layer: Concurrent
Purpose: Locks and permits. What there is one of has one holder after the other. Where a process
  holds one resource at a time, waits for nothing while it holds one, and is waited for by others
  only outside of waits of its own, some process of the pool can always move.
Trusted boundary: none
Main exports: Act, Protocol.holding, obeys_bracket, Machine.holders, Machine.Lawful,
  Machine.Lawful.given_back, Machine.Held, Machine.exists_step_of_level, Machine.exists_step_of_held
-/
import BscMempool.Concurrent.Trace
import Mathlib.Data.Finset.Card

namespace BscMempool.Concurrent

variable {S : Sig} {σ Task ω R α β : Type}

/-! ### What processes hold -/

/-- What an operation has to do with resources: it takes one, gives one back, waits for another
process, or nothing. -/
inductive Act (R : Type) where
  | take (r : R)
  | give (r : R)
  | wait
  | pass
deriving DecidableEq

/-- How far what it waits for may be away. -/
def Act.level : Act R → ℕ
  | .wait => 2
  | .take _ => 1
  | .give _ | .pass => 0

/-- A process takes a resource and waits with empty hands only, and gives back what it holds. -/
def Protocol.holding (act : S.Op → Act R) : Protocol S (Option R) where
  allows q o := match act o with
    | .take _ | .wait => q = none
    | .give r => q = some r
    | .pass => True
  next q o _ := match act o with
    | .take r => some r
    | .give _ => none
    | .wait | .pass => q

section Protocol

open Proc

variable {act : S.Op → Act R} {o : S.Op} {r : R} {q : Option R} {result : S.Res o}

theorem holding_next_take (takes : act o = .take r) :
    (Protocol.holding act).next q o result = some r := by
  simp [Protocol.holding, takes]

theorem holding_next_give (gives : act o = .give r) :
    (Protocol.holding act).next q o result = none := by
  simp [Protocol.holding, gives]

theorem holding_next_wait (waits : act o = .wait) : (Protocol.holding act).next q o result = q := by
  simp [Protocol.holding, waits]

theorem holding_next_pass (passes : act o = .pass) :
    (Protocol.holding act).next q o result = q := by
  simp [Protocol.holding, passes]

theorem holding_kinds :
    (Protocol.holding act).Kinds (fun o => act o = .pass) (fun o => act o = .pass) where
  allowed q o passes := by simp [Protocol.holding, passes]
  still_free _ := id
  kept q o passes result := holding_next_pass passes

/-- What neither takes nor gives leaves the hands as they are. -/
theorem obeys_pass {p : Proc S α} (all : p.All fun o => act o = .pass) :
    p.Obeys (Protocol.holding act) (fun q' _ => q' = q) q :=
  (holding_kinds.obeys_still all (Ends.any p)).mono fun _ _ same => same.1

/-- A resource that is taken is given back. -/
theorem obeys_bracket {o' : S.Op} (takes : act o = .take r) (gives : act o' = .give r)
    {p : Proc S α} (inside : p.All fun o => act o = .pass) :
    (call o >>= fun _ => p >>= fun value => call o' >>= fun _ => .ret value).Obeys
      (Protocol.holding act)
      (fun q _ => q = none) none := by
  constructor
  · simp [Protocol.holding, takes]
  · intro result
    rw [holding_next_take takes]
    apply (obeys_pass inside).bind
    rintro q value rfl
    constructor
    · simp [Protocol.holding, gives]
    · exact fun result' => holding_next_give gives

end Protocol

/-! ### Who holds a resource -/

namespace Machine

variable {M : Machine S σ Task ω} {act : S.Op → Act R}

/-- What the process at `i` holds after the operations of a history. -/
abbrev holds (act : S.Op → Act R) (i : Tid) (h : List M.Event) : Option R :=
  (Protocol.holding act).phase i none h

section Holders

variable [DecidableEq R] {r : R} {h : List M.Event} {e : M.Event}

/-- The processes that hold `r`. -/
def holders (act : S.Op → Act R) (r : R) (h : List M.Event) : Finset Tid :=
  (h.map fun e => e.tid).toFinset.filter fun i => holds act i h = some r

theorem mem_holders {i : Tid} : i ∈ holders act r h ↔ holds act i h = some r := by
  unfold holders
  rw [Finset.mem_filter, List.mem_toFinset, List.mem_map]
  constructor
  · exact And.right
  · intro held
    refine ⟨?_, held⟩
    by_contra fresh
    have unbegun : ∀ e ∈ h, e.tid ≠ i := fun e member same => fresh ⟨e, member, same⟩
    rw [holds, Protocol.phase_fresh unbegun] at held
    cases held

/-- A resource that is taken has a holder more. -/
theorem holders_take (takes : act e.op = .take r) :
    holders act r (e :: h) = insert e.tid (holders act r h) := by
  ext i
  rw [Finset.mem_insert, mem_holders, mem_holders]
  by_cases own : i = e.tid
  · subst own
    simp [holds, Protocol.phase_own, holding_next_take takes]
  · simp [holds, Protocol.phase_other (Ne.symm own), own]

theorem holders_give (gives : act e.op = .give r) :
    holders act r (e :: h) = (holders act r h).erase e.tid := by
  ext i
  rw [Finset.mem_erase, mem_holders, mem_holders]
  by_cases own : i = e.tid
  · subst own
    simp [holds, Protocol.phase_own, holding_next_give gives]
  · simp [holds, Protocol.phase_other (Ne.symm own), own]

/-- What an operation neither takes nor gives back stays in the hands it is in. -/
theorem holders_other (allowed : (Protocol.holding act).allows (holds act e.tid h) e.op)
    (takes : act e.op ≠ .take r)
    (gives : act e.op ≠ .give r) : holders act r (e :: h) = holders act r h := by
  ext i
  rw [mem_holders, mem_holders]
  by_cases own : i = e.tid
  · subst own
    unfold holds at allowed ⊢
    rw [Protocol.phase_own rfl]
    cases kind : act e.op with
    | take r' =>
        have empty : (Protocol.holding act).phase e.tid none h = none := by
          simpa [Protocol.holding, kind] using allowed
        rw [holding_next_take kind, empty]
        have apart : r' ≠ r := by
          rintro rfl
          exact takes kind
        simp [apart]
    | give r' =>
        have full : (Protocol.holding act).phase e.tid none h = some r' := by
          simpa [Protocol.holding, kind] using allowed
        rw [holding_next_give kind, full]
        have apart : r' ≠ r := by
          rintro rfl
          exact gives kind
        simp [apart]
    | wait => rw [holding_next_wait kind]
    | pass => rw [holding_next_pass kind]
  · simp [holds, Protocol.phase_other (Ne.symm own)]

end Holders

/-! ### One holder after the other -/

/-- Every operation of the history was allowed to who made it, and what there is one of
was taken from nobody. -/
def Lawful (act : S.Op → Act R) (single : R → Prop) : List M.Event → Prop
  | [] => True
  | e :: h => (Protocol.holding act).allows (holds act e.tid h) e.op ∧
      (∀ r, single r → act e.op = .take r → ∀ j, holds act j h ≠ some r) ∧ Lawful act single h

namespace Lawful

variable {single : R → Prop} {r : R} {e : M.Event} {h between older : List M.Event} {i j : Tid}

theorem of_append (lawful : Lawful act single (between ++ older)) : Lawful act single older := by
  induction between with
  | nil => exact lawful
  | cons e between ih => exact ih lawful.2.2

/-- Who stops holding `r` gives it back. -/
theorem gives (lawful : Lawful act single (e :: h)) (before : holds act i h = some r)
    (after : holds act i (e :: h) ≠ some r) : e.tid = i ∧ act e.op = .give r := by
  by_cases own : e.tid = i
  · subst own
    refine ⟨rfl, ?_⟩
    rw [holds, Protocol.phase_own rfl, show (Protocol.holding act).phase e.tid none h =
      some r from before] at after
    have allowed := lawful.1
    rw [before] at allowed
    cases kind : act e.op with
    | take r' => simp [Protocol.holding, kind] at allowed
    | give r' =>
        have same : r = r' := by simpa [Protocol.holding, kind] using allowed
        rw [same]
    | wait => exact absurd (holding_next_wait kind) after
    | pass => exact absurd (holding_next_pass kind) after
  · rw [holds, Protocol.phase_other own] at after
    exact absurd before after

/-- Who starts holding `r` takes it. -/
theorem takes (before : holds act i h ≠ some r) (after : holds act i (e :: h) = some r) :
    e.tid = i ∧ act e.op = .take r := by
  by_cases own : e.tid = i
  · subst own
    refine ⟨rfl, ?_⟩
    rw [holds, Protocol.phase_own rfl] at after
    cases kind : act e.op with
    | take r' =>
        rw [holding_next_take kind] at after
        rw [Option.some.inj after]
    | give r' =>
        rw [holding_next_give kind] at after
        cases after
    | wait =>
        rw [holding_next_wait kind] at after
        exact absurd after before
    | pass =>
        rw [holding_next_pass kind] at after
        exact absurd after before
  · rw [holds, Protocol.phase_other own] at after
    exact absurd after before

/-- What there is one of has one holder. -/
theorem alone (lawful : Lawful act single h) (one : single r) (mine : holds act i h = some r)
    (theirs : holds act j h = some r) : i = j := by
  induction h with
  | nil => cases mine
  | cons e h ih =>
      have before : ∀ {k l}, holds act k h ≠ some r → holds act k (e :: h) = some r →
          holds act l (e :: h) = some r →
          l = k := by
        intro k l free has other
        obtain ⟨own, kind⟩ := takes free has
        by_contra apart
        rw [holds, Protocol.phase_other (own ▸ Ne.symm apart)] at other
        exact lawful.2.1 r one kind l other
      by_cases had : holds act i h = some r
      · by_cases had' : holds act j h = some r
        · exact ih lawful.2.2 had had'
        · exact before had' theirs mine
      · exact (before had mine theirs).symm

theorem lost (lawful : Lawful act single (between ++ older)) (before : holds act i older = some r)
    (after : holds act i (between ++ older) ≠ some r) :
    ∃ later give earlier, between = later ++ give :: earlier ∧ give.tid = i ∧
      act give.op = .give r := by
  obtain ⟨later, give, earlier, rfl, -, had, gone⟩ :=
    exists_turn (R := fun q => q = some r) before after
  rw [List.append_assoc, List.cons_append] at lawful
  exact ⟨later, give, earlier, rfl, lawful.of_append.gives had gone⟩

/-- Before what there is one of is taken, whoever had it gave it back. -/
theorem given_back (lawful : Lawful act single (e :: (between ++ older))) (one : single r)
    (taken : act e.op = .take r) (held : holds act i older = some r) :
    ∃ later give earlier, between = later ++ give :: earlier ∧ give.tid = i ∧
      act give.op = .give r :=
  lawful.2.2.lost held (lawful.2.1 r one taken i)

end Lawful

/-! ### Somebody can move -/

/-- The process at `i`, which runs `t`, is about to make the operation `o`. -/
def AboutTo {σ : Type} (c : Config S σ Task ω) (i : Tid) (t : Task) (o : S.Op) : Prop :=
  ∃ next : S.Res o → Proc S ω, c.pool[i]? = some (t, .op o next)

/-- What is ready and is not blocked can be made. -/
theorem AboutTo.moves {M : Machine S σ Task ω} {C : M.recording.Cond}
    {c : Config S (σ × List M.Event) Task ω} {i : Tid}
    {t : Task} {o : S.Op} (about : AboutTo c i t o) (ready : (M.waits o).all c.finished = true)
    (does : ∃ a out, C i o a c.shared ∧ M.exec i c.pool.length o a c.shared.1 = some out) :
    ∃ c', M.recording.Step C i c c' := by
  obtain ⟨next, running⟩ := about
  obtain ⟨a, out, meets, did⟩ := does
  have recorded : M.recording.exec i c.pool.length o a c.shared =
      some ⟨out.res, (out.shared, ⟨i, o, a, out.res⟩ :: c.shared.2), out.spawned⟩ :=
    Option.map_eq_some_iff.mpr ⟨out, did, rfl⟩
  exact ⟨_, .mk running ready meets recorded⟩

/-- Every process holds what its past left it, and returns with empty hands. -/
abbrev Held (act : S.Op → Act R) (c : Config S (σ × List M.Event) Task ω) : Prop :=
  Obeyed (M := M) (fun _ : Task => Protocol.holding act) (fun _ q _ => q = none) (fun _ => none) c

section Progress

variable {C : M.recording.Cond} {c : Config S (σ × List M.Event) Task ω}

/-- Who holds something is about to do something else than to take or to wait. -/
theorem Held.busy (held : Held act c) {i : Tid} {r : R} (has : holds act i c.shared.2 = some r) :
    ∃ t o, AboutTo c i t o ∧ (act o = .pass ∨ act o = .give r) := by
  have acted : ∃ e ∈ c.shared.2, e.tid = i := by
    by_contra idle
    have unbegun : ∀ e ∈ c.shared.2, e.tid ≠ i := fun e member same => idle ⟨e, member, same⟩
    rw [holds, Protocol.phase_fresh unbegun] at has
    cases has
  obtain ⟨e, member, rfl⟩ := acted
  obtain ⟨⟨t, p⟩, found⟩ : ∃ entry, c.pool[e.tid]? = some entry :=
    ⟨_, List.getElem?_eq_getElem (held.known e member)⟩
  have obeys := held.obeys _ t p found
  rw [show (Protocol.holding act).phase e.tid none c.shared.2 = some r from has] at obeys
  cases p with
  | ret value => cases obeys
  | op o next =>
      refine ⟨t, o, ⟨next, found⟩, ?_⟩
      have allowed := obeys.1
      cases kind : act o with
      | take r' => simp [Protocol.holding, kind] at allowed
      | give r' =>
          have same : r = r' := by simpa [Protocol.holding, kind] using allowed
          rw [same]
          exact .inr rfl
      | wait => simp [Protocol.holding, kind] at allowed
      | pass => exact .inl rfl

/-- Once all have returned nobody holds anything. -/
theorem Held.quiet (held : Held act c) (quiet : c.Quiet) (i : Tid) :
    holds act i c.shared.2 = none := by
  cases has : holds act i c.shared.2 with
  | none => rfl
  | some r =>
      obtain ⟨t, o, ⟨next, found⟩, -⟩ := held.busy has
      have done := quiet i (List.getElem?_eq_some_iff.mp found).1
      simp [Config.finished, found] at done

end Progress

/-- If who cannot move waits for one whose operation is of a lower level, somebody can. -/
theorem exists_step_of_level {M : Machine S σ Task ω} {C : M.Cond} {c : Config S σ Task ω}
    (level : S.Op → ℕ) (waits : ∀ i t o, AboutTo c i t o →
      (∃ c', M.Step C i c c') ∨ ∃ j u o', AboutTo c j u o' ∧ level o' < level o)
    (busy : ¬ c.Quiet) : ∃ i c', M.Step C i c c' := by
  have moves : ∀ n i t o, level o = n → AboutTo c i t o → ∃ i c', M.Step C i c c' := by
    intro n
    induction n using Nat.strong_induction_on with
    | _ n ih =>
        rintro i t o rfl about
        rcases waits i t o about with ⟨c', step⟩ | ⟨j, u, o', other, lower⟩
        · exact ⟨i, c', step⟩
        · exact ih (level o') lower j u o' rfl other
  unfold Config.Quiet at busy
  push Not at busy
  obtain ⟨i, bound, unfinished⟩ := busy
  obtain ⟨⟨t, p⟩, found⟩ : ∃ entry, c.pool[i]? = some entry := ⟨_, List.getElem?_eq_getElem bound⟩
  cases p with
  | ret value => simp [Config.finished, found] at unfinished
  | op o next => exact moves _ i t o rfl ⟨next, found⟩

/-- Somebody can move if what takes nothing is never blocked, what somebody holds is all that is not
to be had, and what is waited for does not wait itself. -/
theorem exists_step_of_held {C : M.recording.Cond} {c : Config S (σ × List M.Event) Task ω}
    (held : Held act c) (free : ∀ i t o, AboutTo c i t o → act o = .pass ∨ (∃ r, act o = .give r) →
      ∃ c', M.recording.Step C i c c')
    (taken : ∀ i t o r, AboutTo c i t o → act o = .take r →
      (∃ c', M.recording.Step C i c c') ∨ ∃ j, holds act j c.shared.2 = some r)
    (joined : ∀ i t o, AboutTo c i t o → act o = .wait →
      (∃ c', M.recording.Step C i c c') ∨ ∃ j u o', AboutTo c j u o' ∧ act o' ≠ .wait)
    (busy : ¬ c.Quiet) : ∃ i c', M.recording.Step C i c c' := by
  apply exists_step_of_level (fun o => (act o).level) _ busy
  intro i t o about
  cases kind : act o with
  | pass => exact .inl (free i t o about (.inl kind))
  | give r => exact .inl (free i t o about (.inr ⟨r, kind⟩))
  | take r =>
      rcases taken i t o r about kind with moves | ⟨j, has⟩
      · exact .inl moves
      · obtain ⟨u, o', other, passes | gives⟩ := held.busy has
        · exact .inr ⟨j, u, o', other, by simp [passes, Act.level]⟩
        · exact .inr ⟨j, u, o', other, by simp [gives, Act.level]⟩
  | wait =>
      rcases joined i t o about kind with moves | ⟨j, u, o', other, moving⟩
      · exact .inl moves
      · refine .inr ⟨j, u, o', other, ?_⟩
        cases kind' : act o' with
        | wait => exact absurd kind' moving
        | _ => simp [Act.level]

end Machine

end BscMempool.Concurrent
