/-
Module: BscMempool.Concurrent.Protocol
Layer: Concurrent
Purpose: The order in which a process makes its operations. A protocol is an automaton over
  operations and their results; a process that obeys it from its first phase is, in every run, in
  the phase that its own past operations lead to.
Trusted boundary: none
Main exports: Protocol, Proc.Obeys, Obeys.bind, Obeys.interpret, Protocol.Kinds, Protocol.phase,
  Machine.Obeyed, Machine.obeyed_of_run, Machine.body_of_unbegun, Machine.invariant_of_obeyed
-/
import BscMempool.Concurrent.History

namespace BscMempool.Concurrent

variable {S : Sig} {σ Task ω α β Q : Type}

/-- Which operations may be made in a phase, and the phase that each leads to. -/
structure Protocol (S : Sig) (Q : Type) where
  allows : Q → S.Op → Prop
  next : Q → (o : S.Op) → S.Res o → Q

namespace Proc

variable {P : Protocol S Q}

/-- From the phase `q` on the process makes allowed operations only, whatever results they get, and
the phase it returns in and the value it returns satisfy `ends`. -/
def Obeys (P : Protocol S Q) (ends : Q → α → Prop) : Q → Proc S α → Prop
  | q, .ret value => ends q value
  | q, .op o rest => P.allows q o ∧ ∀ result, (rest result).Obeys P ends (P.next q o result)

theorem Obeys.mono {ends ends' : Q → α → Prop} {p : Proc S α} {q : Q}
    (implies : ∀ q value, ends q value → ends' q value) (obeys : p.Obeys P ends q) :
    p.Obeys P ends' q := by
  induction p generalizing q with
  | ret value => exact implies q value obeys
  | op o rest ih => exact ⟨obeys.1, fun result => ih result (obeys.2 result)⟩

/-- A sequence obeys if its second part does from every phase the first may return in. -/
theorem Obeys.bind {mid : Q → α → Prop} {ends : Q → β → Prop} {p : Proc S α}
    {f : α → Proc S β} {q : Q}
    (first : p.Obeys P mid q) (rest : ∀ q value, mid q value → (f value).Obeys P ends q) :
    (p >>= f).Obeys P ends q := by
  induction p generalizing q with
  | ret value => exact rest q value first
  | op o next ih => exact ⟨first.1, fun result => ih result (first.2 result)⟩

/-- An interpreted process obeys if what stands for each of its operations starts and
ends in the same phase. -/
theorem Obeys.interpret {T : Sig} {P : Protocol T Q}
    {handle : (o : S.Op) → Proc T (S.Res o)} {q : Q}
    (each : ∀ o, (handle o).Obeys P (fun q' _ => q' = q) q) (p : Proc S α) :
    (p.interpret handle).Obeys P (fun q' _ => q' = q) q := by
  induction p with
  | ret value => exact rfl
  | op o next ih =>
      apply (each o).bind
      rintro _ result rfl
      exact ih result

/-- An allowed operation, and what follows it in the phase it leads to. -/
theorem Obeys.call {ends : Q → α → Prop} {q : Q} {o : S.Op} {f : S.Res o → Proc S α}
    (allowed : P.allows q o) (rest : ∀ result, (f result).Obeys P ends (P.next q o result)) :
    (call o >>= f).Obeys P ends q :=
  ⟨allowed, rest⟩

/-- A process whose operations are allowed in the phases of a set and stay in
the set returns in it. -/
theorem Obeys.of_kept {K : S.Op → Prop} {J : Q → Prop} {q : Q}
    (allowed : ∀ q o, J q → K o → P.allows q o)
    (kept : ∀ q o, J q → K o → ∀ result, J (P.next q o result)) {p : Proc S α} (all : p.All K)
    (now : J q) :
    p.Obeys P (fun q' _ => J q') q := by
  induction p generalizing q with
  | ret value => exact now
  | op o rest ih =>
      constructor
      · exact allowed q o now all.1
      · exact fun result => ih result (all.2 result) (kept q o now all.1 result)

/-- A process all of whose operations are allowed in every phase obeys. -/
theorem Obeys.of_allowed {K : S.Op → Prop} {q : Q} (allowed : ∀ q o, K o → P.allows q o)
    {p : Proc S α} (all : p.All K) : p.Obeys P (fun _ _ => True) q :=
  Obeys.of_kept (J := fun _ => True) (fun q o _ => allowed q o) (fun _ _ _ _ _ => trivial)
    all trivial

/-- A process all of whose operations are allowed and keep the phase returns in that phase. -/
theorem Obeys.of_all {K : S.Op → Prop} {R : α → Prop} {q : Q} (allowed : ∀ o, K o → P.allows q o)
    (keeps : ∀ o, K o → ∀ result, P.next q o result = q) {p : Proc S α} (all : p.All K)
    (ends : p.Ends R) :
    p.Obeys P (fun q' value => q' = q ∧ R value) q := by
  induction p with
  | ret value => exact ⟨rfl, ends⟩
  | op o rest ih =>
      constructor
      · exact allowed o all.1
      · intro result
        rw [keeps o all.1 result]
        exact ih result (all.2 result) (ends result)

end Proc

/-- Two kinds of operations that a protocol does not order: it allows the `free` ones in every
phase, and the `still` ones keep the phase as well. -/
structure Protocol.Kinds (P : Protocol S Q) (free still : S.Op → Prop) : Prop where
  allowed : ∀ q o, free o → P.allows q o
  still_free : ∀ o, still o → free o
  kept : ∀ q o, still o → ∀ result, P.next q o result = q

namespace Protocol.Kinds

open Proc

variable {P : Protocol S Q} {free still : S.Op → Prop} {q : Q} {p : Proc S α} {f : α → Proc S β}
  {R : α → Prop} {ends : Q → β → Prop}

/-- What makes only free operations may run in every phase. -/
theorem obeys_free (kinds : P.Kinds free still) (all : p.All free) :
    p.Obeys P (fun _ _ => True) q :=
  .of_allowed kinds.allowed all

/-- What makes only still operations returns in the phase it started in. -/
theorem obeys_still (kinds : P.Kinds free still) (all : p.All still) (returns : p.Ends R) :
    p.Obeys P (fun q' value => q' = q ∧ R value) q :=
  .of_all (fun o kind => kinds.allowed q o (kinds.still_free o kind))
    (fun o kind => kinds.kept q o kind) all returns

/-- What follows free operations goes on from any phase. -/
theorem then_free (kinds : P.Kinds free still) (all : p.All free)
    (rest : ∀ q value, (f value).Obeys P ends q) : (p >>= f).Obeys P ends q :=
  (kinds.obeys_free all).bind fun q value _ => rest q value

/-- What follows still operations goes on from the phase they started in. -/
theorem after_still (kinds : P.Kinds free still) (all : p.All still) (returns : p.Ends R)
    (rest : ∀ value, R value → (f value).Obeys P ends q) : (p >>= f).Obeys P ends q := by
  apply (kinds.obeys_still all returns).bind
  rintro q' value ⟨rfl, holds⟩
  exact rest value holds

/-- The same where nothing is known of the value. -/
theorem then_still (kinds : P.Kinds free still) (all : p.All still)
    (rest : ∀ value, (f value).Obeys P ends q) :
    (p >>= f).Obeys P ends q :=
  kinds.after_still all (Ends.any p) fun value _ => rest value

end Protocol.Kinds

/-- The protocol allows the operation in every phase. -/
def Protocol.Free (P : Protocol S Q) (o : S.Op) : Prop := ∀ q, P.allows q o

/-- It keeps the phase as well. -/
def Protocol.Still (P : Protocol S Q) (o : S.Op) : Prop :=
  P.Free o ∧ ∀ q result, P.next q o result = q

theorem Protocol.kinds (P : Protocol S Q) : P.Kinds P.Free P.Still where
  allowed q _ free := free q
  still_free _ still := still.1
  kept q _ still := still.2 q

/-- The phase that the past operations of the process at `i` lead to from `first`. -/
def Protocol.phase {M : Machine S σ Task ω} (P : Protocol S Q) (i : Tid) (first : Q) :
    List M.Event → Q
  | [] => first
  | e :: older =>
      if e.tid = i then P.next (P.phase i first older) e.op e.res else P.phase i first older

section Phase

variable {M : Machine S σ Task ω} {P : Protocol S Q} {i : Tid} {first : Q} {older : List M.Event}

theorem Protocol.phase_own {e : M.Event} (own : e.tid = i) :
    P.phase i first (e :: older) = P.next (P.phase i first older) e.op e.res := by
  simp [phase, own]

theorem Protocol.phase_other {e : M.Event} (ne : e.tid ≠ i) :
    P.phase i first (e :: older) = P.phase i first older := by
  simp [phase, ne]

/-- A process that made no operation is in its first phase. -/
theorem Protocol.phase_fresh {h : List M.Event} (fresh : ∀ e ∈ h, e.tid ≠ i) :
    P.phase i first h = first := by
  induction h with
  | nil => rfl
  | cons e older ih =>
      rw [phase_other (fresh e List.mem_cons_self)]
      exact ih fun d member => fresh d (List.mem_cons_of_mem _ member)

/-- What holds of every process that acted, and of a first phase, holds of every process. -/
theorem Protocol.forall_phase {h : List M.Event} {R : Tid → Q → Prop}
    (acted : ∀ e ∈ h, R e.tid (P.phase e.tid first h)) (unstarted : ∀ j, R j first) (j : Tid) :
    R j (P.phase j first h) := by
  by_cases began : ∃ e ∈ h, e.tid = j
  · obtain ⟨e, member, rfl⟩ := began
    exact acted e member
  · rw [phase_fresh fun e member same => began ⟨e, member, same⟩]
    exact unstarted j

end Phase

namespace Machine

variable {M : Machine S σ Task ω}

/-- Every process obeys the protocol of its task from the phase that its past leads to, and nobody
acted that is not in the pool. -/
structure Obeyed (P : Task → Protocol S Q) (ends : Task → Q → ω → Prop) (first : Task → Q)
    (c : Config S (σ × List M.Event) Task ω) : Prop where
  obeys : ∀ (i : Tid) (t : Task) (p : Proc S ω), c.pool[i]? = some (t, p) →
    p.Obeys (P t) (ends t) ((P t).phase i (first t) c.shared.2)
  known : ∀ e ∈ c.shared.2, e.tid < c.pool.length

variable {P : Task → Protocol S Q} {ends : Task → Q → ω → Prop} {first : Task → Q}

theorem Obeyed.start (bodies : ∀ t, (M.body t).Obeys (P t) (ends t) (first t)) (s : σ)
    (tasks : List Task) : Obeyed P ends first (M.recording.start (s, []) tasks) where
  obeys i t p found := by
    simp only [Machine.start, List.getElem?_map, Option.map_eq_some_iff] at found
    obtain ⟨u, -, same⟩ := found
    cases same
    exact bodies _
  known e member := by cases member

/-- What a step of the recording machine does to the pool and the history. -/
theorem Step.inversion {C : M.recording.Cond} {i : Tid} {c c' : Config S (σ × List M.Event) Task ω}
    (step : M.recording.Step C i c c') :
    ∃ t o next, ∃ a : M.Ans o, ∃ out, c.pool[i]? = some (t, .op o next) ∧
      (M.waits o).all c.finished = true ∧
      C i o a c.shared ∧ M.exec i c.pool.length o a c.shared.1 = some out ∧
      c'.shared = (out.shared, ⟨i, o, a, out.res⟩ :: c.shared.2) ∧
      c'.pool = c.pool.set i (t, next out.res) ++ out.spawned.map fun u => (u, M.body u) := by
  cases step with
  | @mk t o next a out running ready meets did =>
    obtain ⟨ran, past⟩ := exec_of_recording did
    exact ⟨t, o, next, a, _, running, ready, meets, ran, Prod.ext rfl past, rfl⟩

/-- A process of the pool after a step: the one that moved, one that did not, or
one that was started. -/
theorem pool_cases {pool : List (Task × Proc S ω)} {i j : Tid} {entry : Task × Proc S ω}
    {spawned : List Task} {t : Task} {p : Proc S ω} (bound : i < pool.length)
    (found : (pool.set i entry ++ spawned.map fun u => (u, M.body u))[j]? = some (t, p)) :
    j = i ∧ (t, p) = entry ∨ j ≠ i ∧ pool[j]? = some (t, p) ∨
      pool.length ≤ j ∧ spawned[j - pool.length]? = some t ∧ p = M.body t := by
  by_cases old : j < pool.length
  · rw [List.getElem?_append_left (by simpa using old)] at found
    by_cases same : i = j
    · subst same
      rw [List.getElem?_set_self bound] at found
      exact .inl ⟨rfl, (Option.some.inj found).symm⟩
    · rw [List.getElem?_set_ne same] at found
      exact .inr (.inl ⟨Ne.symm same, found⟩)
  · rw [List.getElem?_append_right (by simpa using Nat.le_of_not_lt old), List.length_set,
      List.getElem?_map, Option.map_eq_some_iff] at found
    obtain ⟨u, started, same⟩ := found
    cases same
    exact .inr (.inr ⟨Nat.le_of_not_lt old, started, rfl⟩)

/-- A process keeps its task through a step. -/
theorem pool_keeps {pool : List (Task × Proc S ω)} {i j : Tid} {t u : Task} {p q r : Proc S ω}
    {started : List (Task × Proc S ω)} (running : pool[i]? = some (t, p))
    (found : pool[j]? = some (u, q)) :
    ∃ q', (pool.set i (t, r) ++ started)[j]? = some (u, q') := by
  have bound : j < pool.length := (List.getElem?_eq_some_iff.1 found).1
  rw [List.getElem?_append_left (by simpa using bound)]
  by_cases same : i = j
  · subst same
    rw [running] at found
    cases found
    exact ⟨r, List.getElem?_set_self bound⟩
  · rw [List.getElem?_set_ne same]
    exact ⟨q, found⟩

/-- A process that a step starts is in its first phase. -/
theorem Obeyed.phase_new {c : Config S (σ × List M.Event) Task ω} (obeyed : Obeyed P ends first c)
    {R : Protocol S Q}
    {start : Q} {i j : Tid} {o : S.Op} {a : M.Ans o} {r : S.Res o} (bound : i < c.pool.length)
    (new : c.pool.length ≤ j) : R.phase j start (⟨i, o, a, r⟩ :: c.shared.2) = start := by
  rw [Protocol.phase_other (Nat.ne_of_lt (Nat.lt_of_lt_of_le bound new))]
  apply Protocol.phase_fresh
  exact fun e member => Nat.ne_of_lt (Nat.lt_of_lt_of_le (obeyed.known e member) new)

theorem Obeyed.step (bodies : ∀ t, (M.body t).Obeys (P t) (ends t) (first t)) {C : M.recording.Cond}
    {i : Tid} {c c' : Config S (σ × List M.Event) Task ω} (obeyed : Obeyed P ends first c)
    (step : M.recording.Step C i c c') : Obeyed P ends first c' := by
  obtain ⟨t, o, next, a, out, running, -, -, -, shared, pool⟩ := step.inversion
  have bound : i < c.pool.length := (List.getElem?_eq_some_iff.1 running).1
  constructor
  · intro j u p found
    rw [shared]
    rw [pool] at found
    rcases pool_cases bound found with ⟨rfl, same⟩ | ⟨ne, before⟩ | ⟨new, -, rfl⟩
    · cases same
      have after := (obeyed.obeys j t _ running).2 out.res
      rw [← Protocol.phase_own (e := ⟨j, o, a, out.res⟩) rfl] at after
      exact after
    · rw [Protocol.phase_other (Ne.symm ne)]
      exact obeyed.obeys j u p before
    · rw [obeyed.phase_new bound new]
      exact bodies u
  · intro e member
    have grown : c.pool.length ≤ c'.pool.length := by simp [pool]
    rw [shared] at member
    rcases List.mem_cons.1 member with rfl | before
    · exact Nat.lt_of_lt_of_le bound grown
    · exact Nat.lt_of_lt_of_le (obeyed.known e before) grown

/-- In every run every process obeys the protocol of its task. -/
theorem obeyed_of_run (bodies : ∀ t, (M.body t).Obeys (P t) (ends t) (first t))
    {C : M.recording.Cond} {s : σ} {tasks : List Task} {c : Config S (σ × List M.Event) Task ω}
    (run : M.recording.Run C (M.recording.start (s, []) tasks) c) : Obeyed P ends first c :=
  run.invariant (fun _ _ _ obeyed step => obeyed.step bodies step) (.start bodies s tasks)

/-- A process that has made no operation is still the code of its task. -/
theorem body_of_unbegun {C : M.recording.Cond} {s : σ} {tasks : List Task}
    {c : Config S (σ × List M.Event) Task ω}
    (run : M.recording.Run C (M.recording.start (s, []) tasks) c) {i : Tid}
    {t : Task} {p : Proc S ω} (found : c.pool[i]? = some (t, p))
    (unbegun : ∀ e ∈ c.shared.2, e.tid ≠ i) :
    p = M.body t := by
  apply run.invariant (I := fun c => ∀ j u q, c.pool[j]? = some (u, q) →
    (∀ e ∈ c.shared.2, e.tid ≠ j) → q = M.body u)
    _ _ i t p found unbegun
  · intro i d d' holds step j u q found unbegun
    obtain ⟨t, o, next, a, out, running, -, -, -, shared, pool⟩ := step.inversion
    rw [shared] at unbegun
    rw [pool] at found
    rcases pool_cases (List.getElem?_eq_some_iff.1 running).1 found
      with ⟨rfl, -⟩ | ⟨-, before⟩ | ⟨-, -, started⟩
    · exact absurd rfl (unbegun _ List.mem_cons_self)
    · exact holds j u q before fun e member => unbegun e (List.mem_cons_of_mem _ member)
    · exact started
  · intro j u q found _
    simp only [Machine.start, List.getElem?_map, Option.map_eq_some_iff] at found
    obtain ⟨v, -, same⟩ := found
    cases same
    rfl

/-- What a process is about to do its protocol allows. -/
theorem Obeyed.allows {c : Config S (σ × List M.Event) Task ω} (obeyed : Obeyed P ends first c)
    {i : Tid} {t : Task} {o : S.Op} {next : S.Res o → Proc S ω}
    (running : c.pool[i]? = some (t, .op o next)) :
    (P t).allows ((P t).phase i (first t) c.shared.2) o :=
  (obeyed.obeys i t _ running).1

/-- What every allowed operation keeps of a state and its history, every run of
obeying processes keeps. -/
theorem invariant_of_obeyed (bodies : ∀ t, (M.body t).Obeys (P t) (ends t) (first t))
    {C : M.recording.Cond} {I : σ × List M.Event → Prop}
    (keeps : ∀ i fresh t o a s out, I s → (∀ e ∈ s.2, e.tid < fresh) →
      (P t).allows ((P t).phase i (first t) s.2) o → C i o a s →
      M.exec i fresh o a s.1 = some out → I (out.shared, ⟨i, o, a, out.res⟩ :: s.2))
    {s : σ} {tasks : List Task} {c : Config S (σ × List M.Event) Task ω}
    (run : M.recording.Run C (M.recording.start (s, []) tasks) c) (init : I (s, [])) :
    I c.shared := by
  have kept : Obeyed P ends first c ∧ I c.shared := by
    apply run.invariant (I := fun c => Obeyed P ends first c ∧ I c.shared)
    · rintro i d d' ⟨obeyed, holds⟩ step
      constructor
      · exact obeyed.step bodies step
      · obtain ⟨t, o, next, a, out, running, -, meets, did, shared, -⟩ := step.inversion
        rw [shared]
        exact keeps i _ t o a d.shared out holds obeyed.known (obeyed.allows running) meets did
    · exact ⟨.start bodies s tasks, init⟩
  exact kept.2

end Machine

end BscMempool.Concurrent
