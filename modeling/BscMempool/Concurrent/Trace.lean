/-
Module: BscMempool.Concurrent.Trace
Layer: Concurrent
Purpose: Readings of a history: what the operations of a kind gave, in the order they were made, and
  which task each position of a pool runs where no operation starts tasks.
Trusted boundary: none
Main exports: Machine.collect, Machine.exists_turn, Machine.allowed_of_run, Machine.task_or_started,
  Machine.task_of_closed, Machine.Fixed, Machine.taskAt_of_run, filterMap_single, exists_read,
  perm_filterMap_set
-/
import BscMempool.Concurrent.Protocol
import Mathlib.Data.List.Perm.Basic

namespace BscMempool.Concurrent

variable {S : Sig} {σ Task ω : Type}

namespace Machine

variable {M : Machine S σ Task ω}

/-- What `pick` reads of each operation made, the earliest first. -/
def collect {β : Type} (pick : Tid → (o : S.Op) → S.Res o → Option β) (h : List M.Event) : List β :=
  (h.filterMap fun e => pick e.tid e.op e.res).reverse

section Collect

variable {β : Type} {pick : Tid → (o : S.Op) → S.Res o → Option β} {h : List M.Event}

@[simp] theorem collect_nil : collect pick ([] : List M.Event) = [] := rfl

theorem collect_cons (e : M.Event) :
    collect pick (e :: h) = collect pick h ++ (pick e.tid e.op e.res).toList := by
  unfold collect
  cases picked : pick e.tid e.op e.res with
  | none => simp [picked]
  | some value => simp [picked]

theorem collect_none {e : M.Event} (nothing : pick e.tid e.op e.res = none) :
    collect pick (e :: h) = collect pick h := by
  rw [collect_cons, nothing, Option.toList_none, List.append_nil]

theorem collect_some {e : M.Event} {value : β} (picked : pick e.tid e.op e.res = some value) :
    collect pick (e :: h) = collect pick h ++ [value] := by
  rw [collect_cons, picked, Option.toList_some]

theorem mem_collect {value : β} : value ∈ collect pick h ↔
    ∃ e ∈ h, pick e.tid e.op e.res = some value := by
  unfold collect
  rw [List.mem_reverse, List.mem_filterMap]

end Collect

section Past

variable {Q : Type} {P : Protocol S Q} {first : Q} {i : Tid} {between older : List M.Event}

/-- What a phase has and a later one has not was lost by an operation of the process. -/
theorem exists_turn {R : Q → Prop} (before : R (P.phase i first older))
    (after : ¬ R (P.phase i first (between ++ older))) :
    ∃ later e earlier, between = later ++ e :: earlier ∧ e.tid = i ∧
      R (P.phase i first (earlier ++ older)) ∧
      ¬ R (P.phase i first (e :: (earlier ++ older))) := by
  induction between with
  | nil => exact absurd before after
  | cons e between ih =>
      by_cases still : R (P.phase i first (between ++ older))
      · refine ⟨[], e, between, rfl, ?_, still, after⟩
        by_contra foreign
        rw [List.cons_append, Protocol.phase_other foreign] at after
        exact after still
      · obtain ⟨later, turn, earlier, rfl, rest⟩ := ih still
        exact ⟨e :: later, turn, earlier, rfl, rest⟩

/-- In every run each operation of the history was allowed in the phase it was made in. -/
theorem allowed_of_run {ends : Task → Q → ω → Prop}
    (bodies : ∀ t, (M.body t).Obeys P (ends t) first)
    {C : M.recording.Cond} {s : σ} {tasks : List Task} {c : Config S (σ × List M.Event) Task ω}
    (run : M.recording.Run C (M.recording.start (s, []) tasks) c) {newer : List M.Event}
    {e : M.Event}
    (history : c.shared.2 = newer ++ e :: older) : P.allows (P.phase e.tid first older) e.op := by
  apply invariant_of_obeyed (P := fun _ => P) (I := fun s =>
    ∀ newer e older, s.2 = newer ++ e :: older → P.allows (P.phase e.tid first older) e.op) bodies _
      run _ _ _ _ history
  · intro i fresh t o a s out holds _ allowed _ _ newer e older split_
    cases newer with
    | nil =>
        obtain ⟨rfl, rfl⟩ := List.cons.inj split_
        exact allowed
    | cons latest newer => exact holds newer e older (List.cons.inj split_).2
  · intro newer e older split_
    cases newer <;> cases split_

end Past

/-- A run takes no process out of the pool. -/
theorem length_le_of_run {C : M.Cond} {c c' : Config S σ Task ω} (run : M.Run C c c') :
    c.pool.length ≤ c'.pool.length := by
  apply run.invariant (I := fun d => c.pool.length ≤ d.pool.length) _ (Nat.le_refl _)
  intro i d d' long step
  cases step with
  | mk running ready meets did => exact Nat.le_trans long advance_length_le

/-- A process of the pool runs the task that it was started with there, or one that an operation
started: `G` is what the operations that the tasks make start. -/
theorem task_or_started {K : Task → S.Op → Prop} (bodies : ∀ t, (M.body t).All (K t))
    {G : Task → Prop} (starts : ∀ t i fresh o (a : M.Ans o) s out (j : Nat) u, K t o →
      M.exec i fresh o a s = some out →
      out.spawned[j]? = some u → G u)
    {C : M.recording.Cond} {s : σ} {tasks : List Task} {c : Config S (σ × List M.Event) Task ω}
    (run : M.recording.Run C (M.recording.start (s, []) tasks) c) {i : Tid} {t : Task}
    {p : Proc S ω}
    (found : c.pool[i]? = some (t, p)) : tasks[i]? = some t ∨ tasks.length ≤ i ∧ G t := by
  have kept : tasks.length ≤ c.pool.length ∧ ∀ (i : Tid) (t : Task)
      (p : Proc S ω), c.pool[i]? = some (t, p) →
      p.All (K t) ∧ (tasks[i]? = some t ∨ tasks.length ≤ i ∧ G t) := by
    apply run.invariant (I := fun c => tasks.length ≤ c.pool.length ∧
      ∀ i t p, c.pool[i]? = some (t, p) →
      p.All (K t) ∧ (tasks[i]? = some t ∨ tasks.length ≤ i ∧ G t))
    · rintro j d d' ⟨long, holds⟩ step
      obtain ⟨u, o, next, a, out, running, -, -, did, -, pool⟩ := step.inversion
      have bound : j < d.pool.length := (List.getElem?_eq_some_iff.mp running).1
      have before := holds j u _ running
      constructor
      · rw [pool]
        simp only [List.length_append, List.length_set]
        exact Nat.le_add_right_of_le long
      · intro i t p found
        rw [pool] at found
        rcases pool_cases bound found with ⟨rfl, same⟩ | ⟨-, old⟩ | ⟨new, started, rfl⟩
        · cases same
          exact ⟨before.1.2 out.res, before.2⟩
        · exact holds i t p old
        · exact ⟨bodies t,
            .inr ⟨Nat.le_trans long new, starts u j _ o a _ out _ t before.1.1 did started⟩⟩
    · refine ⟨by simp [start], fun i t p found => ?_⟩
      simp only [start, List.getElem?_map, Option.map_eq_some_iff] at found
      obtain ⟨u, there, same⟩ := found
      cases same
      exact ⟨bodies t, .inl there⟩
  exact (kept.2 i t p found).2

/-- A pool stays among tasks that start only tasks of their kind. -/
theorem task_of_closed {K : Task → S.Op → Prop} (bodies : ∀ t, (M.body t).All (K t))
    {G : Task → Prop} (starts : ∀ t i fresh o (a : M.Ans o) s out (j : Nat) u, G t → K t o →
      M.exec i fresh o a s = some out →
      out.spawned[j]? = some u → G u)
    {C : M.recording.Cond} {s : σ} {tasks : List Task} {c : Config S (σ × List M.Event) Task ω}
    (kind : ∀ t ∈ tasks, G t)
    (run : M.recording.Run C (M.recording.start (s, []) tasks) c) {i : Tid} {t : Task}
    {p : Proc S ω} (found : c.pool[i]? = some (t, p)) : G t ∧ p.All (K t) := by
  apply run.invariant (I := fun c => ∀ i t p, c.pool[i]? = some (t, p) → G t ∧ p.All (K t)) _ _ i
    t p found
  · intro j d d' holds step i t p found
    obtain ⟨u, o, next, a, out, running, -, -, did, -, pool⟩ := step.inversion
    obtain ⟨same, all⟩ := holds j u _ running
    rw [pool] at found
    rcases pool_cases (List.getElem?_eq_some_iff.mp running).1 found
      with ⟨rfl, moved⟩ | ⟨-, old⟩ | ⟨-, started, rfl⟩
    · cases moved
      exact ⟨same, all.2 out.res⟩
    · exact holds i t p old
    · exact ⟨starts u j _ o a _ out _ t same all.1 did started, bodies t⟩
  · intro i t p found
    simp only [start, List.getElem?_map, Option.map_eq_some_iff] at found
    obtain ⟨u, there, same⟩ := found
    cases same
    exact ⟨kind t (List.mem_of_getElem? there), bodies t⟩

/-- No operation starts a task. -/
def Fixed (M : Machine S σ Task ω) : Prop :=
  ∀ i fresh (o : S.Op) (a : M.Ans o) s out, M.exec i fresh o a s = some out → out.spawned = []

/-- A pool to which no task is added keeps its tasks. -/
theorem tasks_of_run (fixed : M.Fixed) {C : M.recording.Cond}
    {c c' : Config S (σ × List M.Event) Task ω}
    (run : M.recording.Run C c c') : c'.pool.map Prod.fst = c.pool.map Prod.fst := by
  apply run.invariant (I := fun d => d.pool.map Prod.fst = c.pool.map Prod.fst) _ rfl
  intro i d d' same step
  obtain ⟨t, o, next, a, out, running, -, -, did, -, pool⟩ := step.inversion
  rw [pool, fixed _ _ o a _ out did, List.map_nil, List.append_nil, ← same]
  apply List.ext_getElem?
  intro j
  rw [List.getElem?_map, List.getElem?_map, List.getElem?_set]
  by_cases here : i = j
  · subst here
    obtain ⟨bound, -⟩ := List.getElem?_eq_some_iff.mp running
    rw [if_pos rfl, if_pos bound, running]
    rfl
  · rw [if_neg here]

theorem task_of_run (fixed : M.Fixed) {C : M.recording.Cond} {s : σ} {tasks : List Task}
    {c : Config S (σ × List M.Event) Task ω}
    (run : M.recording.Run C (M.recording.start (s, []) tasks) c) :
    c.pool.map Prod.fst = tasks := by
  rw [tasks_of_run fixed run]
  simp [start, Function.comp_def]

/-- The task at a position is the one the pool was started with. -/
theorem taskAt_of_run (fixed : M.Fixed) {C : M.recording.Cond} {s : σ} {tasks : List Task}
    {c : Config S (σ × List M.Event) Task ω}
    (run : M.recording.Run C (M.recording.start (s, []) tasks) c)
    {i : Tid} {t : Task} {p : Proc S ω} (found : c.pool[i]? = some (t, p)) :
    tasks[i]? = some t := by
  rw [← task_of_run fixed run, List.getElem?_map, found]
  rfl

theorem length_of_run (fixed : M.Fixed) {C : M.recording.Cond} {s : σ} {tasks : List Task}
    {c : Config S (σ × List M.Event) Task ω}
    (run : M.recording.Run C (M.recording.start (s, []) tasks) c) :
    c.pool.length = tasks.length := by
  rw [← task_of_run fixed run, List.length_map]

end Machine

/-- A list of which only one entry is read. -/
theorem filterMap_single {α β : Type} {read : α → Option β} {l : List α} {w : Nat} {a : α}
    (there : l[w]? = some a) (others : ∀ j b, l[j]? = some b → j ≠ w → read b = none) :
    l.filterMap read = (read a).toList := by
  obtain ⟨bound, same⟩ := List.getElem?_eq_some_iff.mp there
  have before : (l.take w).filterMap read = [] := by
    apply List.filterMap_eq_nil_iff.mpr
    intro b member
    obtain ⟨j, early, rfl⟩ := List.mem_take_iff_getElem.mp member
    have small : j < w := Nat.lt_of_lt_of_le early (Nat.min_le_left _ _)
    exact others j _ (List.getElem?_eq_getElem (Nat.lt_trans small bound)) (Nat.ne_of_lt small)
  have after : (l.drop (w + 1)).filterMap read = [] := by
    apply List.filterMap_eq_nil_iff.mpr
    intro b member
    obtain ⟨j, late, rfl⟩ := List.mem_drop_iff_getElem.mp member
    have large : j + (w + 1) ≠ w := by omega
    have at_ : l[j + (w + 1)]? = some l[j + (w + 1)] := List.getElem?_eq_getElem (by omega)
    simpa only [Nat.add_comm] using others _ _ at_ large
  have whole : l = l.take w ++ a :: l.drop (w + 1) := by
    rw [← same, List.getElem_cons_drop, List.take_append_drop]
  rw [whole, List.filterMap_append, before, List.nil_append]
  cases found : read a with
  | none => rw [List.filterMap_cons_none found, after]; rfl
  | some value => rw [List.filterMap_cons_some found, after]; rfl

/-- What is read of a list comes from entries of its own. -/
theorem exists_read {α β : Type} {read : α → Option β} {l : List α} {s : List β}
    (among : s.Sublist (l.filterMap read)) :
    ∃ l' : List α, l'.Sublist l ∧ List.Forall₂ (fun a b => read a = some b) l' s := by
  induction l generalizing s with
  | nil =>
      rw [List.filterMap_nil, List.sublist_nil] at among
      exact ⟨[], List.Sublist.refl _, among ▸ .nil⟩
  | cons a l ih =>
      cases found : read a with
      | none =>
          rw [List.filterMap_cons_none found] at among
          obtain ⟨l', sub, each⟩ := ih among
          exact ⟨l', sub.cons a, each⟩
      | some b =>
          rw [List.filterMap_cons_some found] at among
          rcases List.sublist_cons_iff.mp among with later | ⟨s', rfl, later⟩
          · obtain ⟨l', sub, each⟩ := ih later
            exact ⟨l', sub.cons a, each⟩
          · obtain ⟨l', sub, each⟩ := ih later
            exact ⟨a :: l', sub.cons_cons a, .cons found each⟩

/-- Replacing an entry of a list replaces what is read of it. -/
theorem perm_filterMap_set {α β : Type} (read : α → Option β) {l : List α} {i : Nat} {old : α}
    (new : α) (there : l[i]? = some old) :
    ((l.set i new).filterMap read ++ (read old).toList).Perm
      (l.filterMap read ++ (read new).toList) := by
  obtain ⟨bound, same⟩ := List.getElem?_eq_some_iff.mp there
  have apart := (List.set_perm_cons_eraseIdx bound new).filterMap read
  have whole := (List.getElem_cons_eraseIdx_perm bound).filterMap read
  have head : ∀ a (rest : List α), (a :: rest).filterMap read = (read a).toList ++
      rest.filterMap read := by
    intro a rest
    cases found : read a with
    | none => simp [found]
    | some value => simp [found]
  rw [head] at apart whole
  rw [same] at whole
  calc ((l.set i new).filterMap read ++ (read old).toList).Perm
        (((read new).toList ++ (l.eraseIdx i).filterMap read) ++ (read old).toList) :=
          apart.append_right _
    _ = (read new).toList ++ ((l.eraseIdx i).filterMap read ++ (read old).toList) :=
      List.append_assoc _ _ _
    List.Perm _ ((read new).toList ++ ((read old).toList ++ (l.eraseIdx i).filterMap read)) :=
        List.perm_append_comm.append_left _
    List.Perm _ ((read new).toList ++ l.filterMap read) := whole.append_left _
    List.Perm _ (l.filterMap read ++ (read new).toList) := List.perm_append_comm

end BscMempool.Concurrent
