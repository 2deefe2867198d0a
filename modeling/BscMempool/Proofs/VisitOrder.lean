/-
Module: BscMempool.Proofs.VisitOrder
Layer: Proofs
Purpose: A token has one visit at a time: the trail watcher starts one visit for each cached
  position and waits for all of them before it reads the cache again.
Trusted boundary: none
Main exports: Round, rounds, Visiting, OneVisit, Task.beside, InOrder, inOrder_of_run
-/
import BscMempool.Concurrent.Protocol
import BscMempool.Proofs.TaskOps

namespace BscMempool.Trader

open Concurrent (Tid Machine Config Proc Protocol Outcome)
open Concurrent.Proc

variable {w : TrailWatcher}

/-! ### The watcher's rounds -/

/-- What is left of a round: the positions without a visit so far, and the visits to wait for. -/
structure Round where
  todo : List (Address × EntryId) := []
  joins : List Tid := []

namespace Round

def allows (q : Round) : Op → Prop
  | .trade .positionSnapshot => q.todo = [] ∧ q.joins = []
  | .spawn (.processOnePosition token entry _) => q.todo.head? = some (token, entry)
  | .join i => q.joins.head? = some i
  | _ => False

def next (q : Round) : (o : Op) → o.Res → Round
  | .trade .positionSnapshot, positions => { todo := positions }
  | .spawn _, i => { todo := q.todo.tail, joins := q.joins ++ [i] }
  | .join _, _ => { q with joins := q.joins.tail }
  | _, _ => q

end Round

/-- The operation starts no watcher and no visit. -/
def Op.visitless : Op → Prop
  | .spawn (.trailWatcher _) | .spawn (.processOnePosition ..) => False
  | _ => True

/-- The watcher goes by rounds and no other task starts a visit. -/
def rounds : Task → Protocol LiveSig Round
  | .trailWatcher _ => ⟨Round.allows, Round.next⟩
  | _ => ⟨fun _ o => o.visitless, fun q _ _ => q⟩

section Obeys

variable {blocks : List Nat}

theorem spawnPositions_obeys (blockN : Nat) (positions : List (Address × EntryId))
    (joins : List Tid) :
    (TrailWatcher.spawnPositions blockN positions).Obeys (rounds (.trailWatcher blocks))
      (fun q started => q = ⟨[], joins ++ started⟩) ⟨positions, joins⟩ := by
  induction positions generalizing joins with
  | nil => simp [TrailWatcher.spawnPositions, Obeys]
  | cons held rest ih =>
      constructor
      · rfl
      · intro i
        apply (ih (joins ++ [i])).bind
        intro q started done
        simp [Obeys, done]

theorem joinAll_obeys (tasks : List Tid) :
    (TrailWatcher.joinAll tasks).Obeys (rounds (.trailWatcher blocks)) (fun q _ => q = {})
      ⟨[], tasks⟩ := by
  induction tasks with
  | nil => rfl
  | cons task rest ih => exact ⟨rfl, fun _ => ih⟩

/-- A round that has started ends with nothing left of it. -/
theorem onBlock_obeys (blockN : Nat) :
    (TrailWatcher.onBlock blockN).Obeys (rounds (.trailWatcher blocks)) (fun q _ => q = {}) {} := by
  constructor
  · exact ⟨rfl, rfl⟩
  · intro positions
    apply (spawnPositions_obeys blockN positions []).bind
    intro q started done
    subst done
    exact joinAll_obeys started

theorem runLoop_obeys (heads : List Nat) :
    (TrailWatcher.runLoop heads).Obeys (rounds (.trailWatcher blocks)) (fun q _ => q = {}) {} := by
  induction heads with
  | nil => rfl
  | cons blockN rest ih =>
      apply (onBlock_obeys blockN).bind
      intro q _ done
      subst done
      exact ih

end Obeys

section Kinds

variable {broadcast : Bool} {o : Op}

theorem Op.basic.visitless (basic : o.basic) : o.visitless := by
  unfold Op.visitless
  split
  · exact basic.elim id id
  · exact basic.elim id id
  · trivial

/-- Only the watcher starts visits. -/
theorem Task.may.visitless {t : Task} (may : t.may broadcast o)
    (other : ∀ blocks, t ≠ .trailWatcher blocks) :
    o.visitless := by
  unfold Op.visitless
  split
  case h_3 => trivial
  -- the start of a watcher and of a visit
  all_goals
    cases t with
    | trailWatcher heads => exact absurd rfl (other heads)
    | consumer =>
        rcases may with same | basic | basic
        · cases same
        · exact Op.basic.visitless basic
        · exact Op.basic.visitless basic
    | _ => exact Op.basic.visitless may

end Kinds

/-- Every task goes by its protocol. -/
theorem body_rounds (t : Task) : (w.body t).Obeys (rounds t) (fun _ _ => True) {} := by
  by_cases watches : ∃ blocks, t = .trailWatcher blocks
  · obtain ⟨blocks, rfl⟩ := watches
    exact (runLoop_obeys blocks).bind fun _ _ _ => trivial
  · have other : ∀ blocks, t ≠ .trailWatcher blocks := fun blocks same => watches ⟨blocks, same⟩
    have plain : rounds t = ⟨fun _ o => o.visitless, fun q _ _ => q⟩ := by
      unfold rounds
      split
      · exact absurd rfl (other _)
      · rfl
    rw [plain]
    apply Obeys.mono (fun _ _ _ => trivial)
    exact Obeys.of_all (fun o may => Task.may.visitless may other) (fun _ _ _ => rfl) (body_may t)
      (.any _)

/-! ### Visits under way -/

variable {σ : Type}

/-- A visit of `token` is under way at `j`. -/
def Visiting (c : Config LiveSig σ Task Done) (j : Tid) (token : Address) : Prop :=
  ∃ entry blockN o next, c.pool[j]? = some (.processOnePosition token entry blockN, .op o next)

/-- A visit under way was so before the step, or the step started it. -/
theorem visiting_cases {c c' : Config LiveSig σ Task Done} {i j : Tid} {token : Address} {t : Task}
    {o : Op} {next : o.Res → Live Done} {p : Live Done} {spawned : List Task}
    (running : c.pool[i]? = some (t, .op o next))
    (pool : c'.pool = c.pool.set i (t, p) ++ spawned.map fun u => (u, w.body u))
    (visiting : Visiting c' j token) : Visiting c j token ∨ c.pool.length ≤ j ∧
      ∃ entry blockN, spawned[j - c.pool.length]? =
        some (.processOnePosition token entry blockN) := by
  obtain ⟨entry, blockN, op, rest, found⟩ := visiting
  rw [pool] at found
  have bound : i < c.pool.length := (List.getElem?_eq_some_iff.1 running).1
  rcases Machine.pool_cases (M := w.machine) bound found
    with ⟨rfl, same⟩ | ⟨-, before⟩ | ⟨new, started, -⟩
  · cases same
    exact .inl ⟨entry, blockN, o, next, running⟩
  · exact .inl ⟨entry, blockN, op, rest, before⟩
  · exact .inr ⟨new, entry, blockN, started⟩

/-- The visits under way are waited for and are of different tokens, none of which
is to be visited yet. -/
structure OneVisit (q : Round) (c : Config LiveSig σ Task Done) : Prop where
  waited : ∀ j token, Visiting c j token → j ∈ q.joins ∧ token ∉ q.todo.map Prod.fst
  apart : (q.todo.map Prod.fst).Nodup
  unique : ∀ i j token, Visiting c i token → Visiting c j token → i = j

namespace OneVisit

variable {q : Round} {c c' : Config LiveSig σ Task Done}

/-- No visit is started. -/
theorem mono (one : OneVisit q c) (before : ∀ j token, Visiting c' j token → Visiting c j token) :
    OneVisit q c' where
  waited j token visiting := one.waited j token (before j token visiting)
  apart := one.apart
  unique i j token first second :=
    one.unique i j token (before i token first) (before j token second)

/-- A round begins when no visit is under way. -/
theorem begins (one : OneVisit q c) (idle : q.joins = []) {positions : List (Address × EntryId)}
    (apart : (positions.map Prod.fst).Nodup) : OneVisit { todo := positions } c := by
  have none_ : ∀ j token, ¬ Visiting c j token := by
    intro j token visiting
    have waited := (one.waited j token visiting).1
    rw [idle] at waited
    cases waited
  constructor
  · intro j token visiting
    exact absurd visiting (none_ j token)
  · exact apart
  · intro i j token visiting
    exact absurd visiting (none_ i token)

/-- A visit of the first position that has none is started. -/
theorem spawns (one : OneVisit q c) {token : Address} {entry : EntryId} {n : Tid}
    (head : q.todo.head? = some (token, entry))
    (cases_ : ∀ j other, Visiting c' j other → Visiting c j other ∨ j = n ∧ other = token) :
    OneVisit { todo := q.todo.tail, joins := q.joins ++ [n] } c' := by
  obtain ⟨rest, todo⟩ := List.head?_eq_some_iff.1 head
  have apart := one.apart
  have waited := one.waited
  simp only [todo, List.map_cons, List.nodup_cons, List.mem_cons, not_or] at apart waited
  constructor
  · intro j other visiting
    simp only [todo, List.tail_cons, List.mem_append, List.mem_singleton]
    rcases cases_ j other visiting with before | ⟨rfl, rfl⟩
    · exact ⟨.inl (waited j other before).1, (waited j other before).2.2⟩
    · exact ⟨.inr rfl, apart.1⟩
  · simpa [todo] using apart.2
  · intro i j other first second
    rcases cases_ i other first with first | ⟨rfl, rfl⟩
    · rcases cases_ j other second with second | ⟨rfl, rfl⟩
      · exact one.unique i j other first second
      · exact absurd rfl (waited i other first).2.1
    · rcases cases_ j other second with second | ⟨rfl, -⟩
      · exact absurd rfl (waited j other second).2.1
      · rfl

/-- A visit that has returned is waited for no longer. -/
theorem joins (one : OneVisit q c) {i : Tid} (head : q.joins.head? = some i)
    (returned : ∀ token, ¬ Visiting c i token) : OneVisit { q with joins := q.joins.tail } c := by
  obtain ⟨rest, joins⟩ := List.head?_eq_some_iff.1 head
  constructor
  · intro j token visiting
    have waited := one.waited j token visiting
    rw [joins] at waited
    simp only [joins, List.tail_cons]
    rcases List.mem_cons.1 waited.1 with rfl | later
    · exact absurd visiting (returned token)
    · exact ⟨later, waited.2⟩
  · exact one.apart
  · exact one.unique

end OneVisit

/-! ### The trader -/

/-- The tasks beside the watcher and its visits. -/
def Task.beside : Task → Bool
  | .trailWatcher _ | .processOnePosition .. => false
  | _ => true

/-- The watcher is the first task, it is the only one, and its round is what its past leads to. -/
structure InOrder (blocks : List Nat) (c : Config LiveSig (LiveRecorded w) Task Done) : Prop where
  obeyed : Machine.Obeyed (M := w.machine) rounds (fun _ _ _ => True) (fun _ => {}) c
  watcher : ∃ p, c.pool[0]? = some (.trailWatcher blocks, p)
  only : ∀ i heads p, c.pool[i]? = some (.trailWatcher heads, p) → i = 0
  visits : OneVisit ((rounds (.trailWatcher blocks)).phase 0 {} c.shared.2) c

theorem InOrder.start (blocks : List Nat) {others : List Task}
    (beside : others.all Task.beside = true) (s : World) :
    InOrder blocks (w.machine.recording.start (s, []) (.trailWatcher blocks :: others)) := by
  have other : ∀ (i : Tid) (t : Task) (p : Live Done),
      (w.machine.recording.start (s, []) (.trailWatcher blocks :: others)).pool[i]? = some (t, p) →
        i = 0 ∧ t = .trailWatcher blocks ∨ t.beside = true := by
    intro i t p found
    cases i with
    | zero =>
        cases found
        exact .inl ⟨rfl, rfl⟩
    | succ i =>
        simp only [Machine.start, List.map_cons, List.getElem?_cons_succ, List.getElem?_map,
          Option.map_eq_some_iff] at found
        obtain ⟨u, member, same⟩ := found
        cases same
        exact .inr (List.all_eq_true.1 beside t (List.mem_of_getElem? member))
  have none_ : ∀ j token,
      ¬ Visiting (w.machine.recording.start (s, []) (.trailWatcher blocks :: others)) j token := by
    rintro j token ⟨entry, blockN, o, next, found⟩
    rcases other j _ _ found with ⟨-, same⟩ | beside
    · cases same
    · cases beside
  constructor
  · exact .start body_rounds s _
  · exact ⟨_, rfl⟩
  · intro i heads p found
    rcases other i _ _ found with ⟨first, -⟩ | beside
    · exact first
    · cases beside
  · constructor
    · intro j token visiting
      exact absurd visiting (none_ j token)
    · exact List.nodup_nil
    · intro i j token visiting
      exact absurd visiting (none_ i token)

/-- A visitless operation starts neither a visit nor a watcher. -/
theorem started_visitless {i fresh : Tid} {o : Op} {a : o.Ans} {s : World}
    {out : Outcome World Task o.Res}
    (visitless : o.visitless) (did : o.exec i fresh a s = some out) {j : Nat} {t : Task}
    (started : out.spawned[j]? = some t) : t.beside = true := by
  rcases exec_started did started with rfl | ⟨token, route, bnbIn, txHash, e, -, rfl⟩
  · cases t with
    | trailWatcher => exact visitless.elim
    | processOnePosition => exact visitless.elim
    | _ => rfl
  · rfl

/-- What a task may do is visitless, or the task is a watcher in a round that allows it. -/
theorem rounds_allows {t : Task} {q : Round} {o : Op} (allowed : (rounds t).allows q o) :
    o.visitless ∧ (∀ heads, t ≠ .trailWatcher heads) ∨ (∃ heads, t = .trailWatcher heads) ∧
    q.allows o := by
  cases t with
  | trailWatcher heads => exact .inr ⟨⟨heads, rfl⟩, allowed⟩
  | _ => exact .inl ⟨allowed, nofun⟩

/-- A watcher starts visits only. -/
theorem Round.allows.started {q : Round} {i fresh : Tid} {o : Op} {a : o.Ans} {s : World}
    {out : Outcome World Task o.Res} (allowed : q.allows o) (did : o.exec i fresh a s = some out)
    {j : Nat} {t : Task} (started : out.spawned[j]? = some t) (heads : List Nat) :
    t ≠ .trailWatcher heads := by
  rintro rfl
  rcases exec_started did started with rfl | ⟨_, _, _, _, _, rfl, -⟩
  · exact allowed
  · exact allowed

/-- The watcher moves on in its round. -/
theorem OneVisit.watch {q : Round} {o : Op} {a : o.Ans} {s : World} {out : Outcome World Task o.Res}
    {c c' : Config LiveSig σ Task Done} {i : Tid} (one : OneVisit q c) (allowed : q.allows o)
    (ready : o.waits.all c.finished = true) (did : o.exec i c.pool.length a s = some out)
    (before : ∀ j token, Visiting c' j token → Visiting c j token ∨ c.pool.length ≤ j ∧
      ∃ entry blockN, out.spawned[j - c.pool.length]? =
        some (.processOnePosition token entry blockN)) :
    OneVisit (q.next o out.res) c' := by
  have quiet : out.spawned = [] → ∀ j token, Visiting c' j token → Visiting c j token := by
    intro none_ j token visiting
    rcases before j token visiting with old | ⟨-, entry, blockN, started⟩
    · exact old
    · rw [none_] at started
      cases started
  unfold Round.allows at allowed
  split at allowed
  · cases did
    apply (one.mono (quiet rfl)).begins allowed.2
    rw [List.map_map]
    exact s.trade.book.positions.nodupKeys
  · rename_i token entry blockN
    cases did
    apply one.spawns allowed
    intro j other visiting
    rcases before j other visiting with old | ⟨new, entry, blockN, started⟩
    · exact .inl old
    · cases gap : j - c.pool.length with
      | zero =>
          rw [gap] at started
          cases started
          exact .inr ⟨Nat.le_antisymm (Nat.sub_eq_zero_iff_le.1 gap) new, rfl⟩
      | succ n =>
          rw [gap] at started
          cases started
  · rename_i task
    cases did
    apply OneVisit.mono _ (quiet rfl)
    apply one.joins allowed
    rintro token ⟨entry, blockN, o, next, found⟩
    simp [Op.waits, Config.finished, found] at ready
  · exact allowed.elim

theorem InOrder.step {blocks : List Nat} {C : w.machine.recording.Cond} {i : Tid}
    {c c' : Config LiveSig (LiveRecorded w) Task Done} (order : InOrder blocks c)
    (step : w.machine.recording.Step C i c c') : InOrder blocks c' := by
  have obeyed := order.obeyed.step body_rounds step
  obtain ⟨t, o, next, a, out, running, ready, -, did, shared, pool⟩ := step.inversion
  have bound : i < c.pool.length := (List.getElem?_eq_some_iff.1 running).1
  obtain ⟨p, watcher⟩ := order.watcher
  have allowed := rounds_allows (order.obeyed.allows running)
  constructor
  · exact obeyed
  · rw [pool]
    exact Machine.pool_keeps running watcher
  · intro j heads r found
    rw [pool] at found
    rcases Machine.pool_cases bound found with ⟨rfl, same⟩ | ⟨-, before⟩ | ⟨-, started, -⟩
    · cases same
      exact order.only j heads _ running
    · exact order.only j heads r before
    · rcases allowed with ⟨visitless, -⟩ | ⟨-, allowed⟩
      · cases started_visitless visitless did started
      · exact absurd rfl (allowed.started did started heads)
  · have before : ∀ j token, Visiting c' j token → Visiting c j token ∨ c.pool.length ≤ j ∧
        ∃ entry blockN, out.spawned[j - c.pool.length]? =
          some (.processOnePosition token entry blockN) :=
      fun j token visiting => visiting_cases running pool visiting
    rw [shared]
    rcases allowed with ⟨visitless, other⟩ | ⟨⟨heads, rfl⟩, allowed⟩
    · have ne : i ≠ 0 := by
        rintro rfl
        rw [watcher] at running
        cases running
        exact other blocks rfl
      rw [Protocol.phase_other ne]
      apply order.visits.mono
      intro j token visiting
      rcases before j token visiting with old | ⟨-, entry, blockN, started⟩
      · exact old
      · cases started_visitless visitless did started
    · obtain rfl := order.only i heads _ running
      rw [watcher] at running
      cases running
      have after := order.visits.watch allowed ready did before
      have phase : (rounds (.trailWatcher blocks)).phase 0 {} (⟨0, o, a, out.res⟩ :: c.shared.2) =
          ((rounds (.trailWatcher blocks)).phase 0 {} c.shared.2).next o out.res :=
            Protocol.phase_own rfl
      rw [← phase] at after
      exact after

/-- In every run of the watcher with other tasks beside it, the visits under way are
of different tokens. -/
theorem inOrder_of_run {blocks : List Nat} {others : List Task} {C : w.machine.recording.Cond}
    {s : World}
    {c : Config LiveSig (LiveRecorded w) Task Done} (beside : others.all Task.beside = true)
    (run : w.machine.recording.Run C
      (w.machine.recording.start (s, []) (.trailWatcher blocks :: others)) c) :
    InOrder blocks c :=
  run.invariant (I := InOrder blocks) (fun _ _ _ order step => order.step step)
    (.start blocks beside s)

end BscMempool.Trader
