/-
Module: BscMempool.Proofs.KnownPairs
Layer: Proofs
Purpose: How long the cache of V2 pairs remembers a pair. The insert after a factory query
  overwrites whatever the cache holds by then, so a query that found nothing and comes to its insert
  late replaces the pair that another call has found meanwhile. A pair is kept, and every later call
  returns it, as long as no such query comes late.
Trusted boundary: none
Main exports: pairLookups, Op.Overwrites, inTime, trader_keeps_known_pair, late_forgets,
  known_pair_kept
-/
import BscMempool.Concurrent.Protocol
import BscMempool.Proofs.Scenario

namespace BscMempool.Trader

open Concurrent (Tid Machine Outcome Proc Protocol Config Sig)
open Concurrent.Proc
open LiveExecutor (v2PairCached)

/-- Calls of `v2_pair_cached`, each for a token, over the caches of one process.
They start no tasks. -/
def pairLookups : Machine LiveSig World Address (Option Address) where
  Ans := Op.Ans
  exec self fresh o a s :=
    (o.exec self fresh a s).map fun out => { res := out.res, shared := out.shared }
  waits := Op.waits
  body := v2PairCached

/-- An insert of something else than the pair that the cache knows. -/
def Op.Overwrites (s : World) : Op → Prop
  | .env (.cachePair token found) =>
      ∃ pair, s.env.v2PairCache token = some (some pair) ∧ found ≠ some pair
  | _ => False

/-! ### What an operation does to a known pair -/

theorem EnvOp.exec_known {o : EnvOp} {a : o.Ans} {s : World} {res : o.Res} {env : Env}
    {token pair : Address}
    (did : o.exec a s.env = some (res, env)) (keeps : ¬ Op.Overwrites s (.env o))
    (known : s.env.v2PairCache token = some (some pair)) :
    env.v2PairCache token = some (some pair) := by
  cases o with
  | cachePair other found =>
      cases did
      by_cases same : token = other
      · subst same
        by_cases agrees : found = some pair
        · rw [agrees]
          exact Function.update_self ..
        · exact absurd ⟨pair, known, agrees⟩ keeps
      · change Function.update s.env.v2PairCache other (some found) token = some (some pair)
        rw [Function.update_of_ne same]
        exact known
  | ledgerAppend row =>
      simp only [EnvOp.exec] at did
      split at did <;> cases did <;> exact known
  | acquirePermit =>
      simp only [EnvOp.exec] at did
      split at did
      · cases did
      · cases did
        exact known
  | _ =>
      cases did
      exact known

/-- An operation that does not overwrite a pair keeps every pair that the cache knows. -/
theorem Op.exec_known {self fresh : Tid} {o : Op} {a : o.Ans} {s : World}
    {out : Outcome World Task o.Res}
    {token pair : Address} (did : o.exec self fresh a s = some out) (keeps : ¬ o.Overwrites s)
    (known : s.env.v2PairCache token = some (some pair)) :
    out.shared.env.v2PairCache token = some (some pair) := by
  cases o with
  | trade o =>
      obtain ⟨inner, -, rfl⟩ := Option.map_eq_some_iff.mp did
      exact known
  | env o =>
      obtain ⟨⟨res, env⟩, ran, rfl⟩ := Option.map_eq_some_iff.mp did
      exact EnvOp.exec_known ran keeps known
  | sign tx =>
      cases a <;> cases did <;> exact known
  | _ =>
      cases did
      exact known

/-- In every run of the live trader without an overwriting insert, a pair that
the cache knows stays. -/
theorem trader_keeps_known_pair (w : TrailWatcher) {c c' : LiveConfig} {token pair : Address}
    (run : w.machine.Run (fun _ o _ s => ¬ o.Overwrites s) c c')
    (known : c.shared.env.v2PairCache token = some (some pair)) :
    c'.shared.env.v2PairCache token = some (some pair) := by
  apply run.invariant (I := fun c => c.shared.env.v2PairCache token = some (some pair)) _ known
  intro i d d' holds step
  cases step with
  | mk running ready meets did => exact Op.exec_known did meets holds

/-! ### What a call inserts -/

/-- A call reads the cache of its token, asks the factory, and inserts what it answered. -/
def lookupOrder (token : Address) : Protocol LiveSig (Option (Option Address)) where
  allows
    | _, .env (.pairCached other) => other = token
    | _, .ask (.getPair other) => other = token
    | answered, .env (.cachePair other found) => other = token ∧ answered = some found
    | _, _ => False
  next
    | _, .ask (.getPair _), answer => some answer
    | answered, _, _ => answered

theorem v2PairCached_obeys (token : Address) :
    (v2PairCached token).Obeys (lookupOrder token) (fun _ _ => True) none := by
  unfold v2PairCached
  apply Obeys.call rfl
  intro cached
  cases cached with
  | some found => trivial
  | none =>
      apply Obeys.call rfl
      intro answer
      apply Obeys.call
      · exact ⟨rfl, rfl⟩
      · intro _
        trivial

/-- What the factory answered the call at `i`, if it has. -/
def answered (i : Tid) : List pairLookups.Event → Option (Option Address) :=
  (lookupOrder 0).phase i none

/-- The token whose entry is inserted. -/
def Op.inserts : Op → Option Address
  | .env (.cachePair token _) => some token
  | _ => none

/-- The steps with which no call is late: when a call comes to its insert and the cache knows a pair
    by then, the factory answered the call with that pair. -/
def inTime (i : Tid) (o : Op) (_ : o.Ans) (s : World × List pairLookups.Event) : Bool :=
  (o.inserts.bind fun token => (s.1.env.v2PairCache token).join).all fun pair =>
    answered i s.2 = some (some pair)

instance (i : Tid) (o : Op) (a : pairLookups.recording.Ans o) (s : World × List pairLookups.Event) :
    Decidable (inTime i o a s = true) :=
  decEq (inTime i o a s) true

/-! ### Runs -/

theorem phase_answered (token : Address) (i : Tid) (h : List pairLookups.Event) :
    (lookupOrder token).phase i none h = answered i h := by
  induction h with
  | nil => rfl
  | cons e older ih =>
      by_cases own : e.tid = i
      · rw [Protocol.phase_own own, ih, answered, Protocol.phase_own own]
        rfl
      · rw [Protocol.phase_other own, ih, answered, Protocol.phase_other own]

/-- A late insert, and no other, overwrites a pair. -/
theorem overwrites_iff_late {token : Address} {i : Tid} {o : Op} {a : o.Ans} {s : World}
    {h : List pairLookups.Event} (allowed : (lookupOrder token).allows (answered i h) o) :
    o.Overwrites s ↔ ¬ inTime i o a (s, h) = true := by
  cases o with
  | env o =>
      cases o with
      | cachePair other found =>
          obtain ⟨-, mine⟩ := allowed
          simp only [Op.Overwrites, inTime, Op.inserts, mine, Option.bind_some]
          rcases s.env.v2PairCache other with _ | _ | pair <;> simp
      | _ => simp [Op.Overwrites, inTime, Op.inserts]
  | _ => simp [Op.Overwrites, inTime, Op.inserts]

theorem exec_of_pairLookups {self fresh : Tid} {o : Op} {a : o.Ans} {s : World}
    {out : Outcome World Address o.Res} (did : pairLookups.exec self fresh o a s = some out) :
    ∃ inner, o.exec self fresh a s = some inner ∧
      out = { res := inner.res, shared := inner.shared } := by
  obtain ⟨inner, ran, same⟩ := Option.map_eq_some_iff.mp did
  exact ⟨inner, ran, same.symm⟩

/-- A known pair is what the cache hands out. -/
theorem pairCached_known {self fresh : Tid} {token pair : Address} {believed : Bool} {s : World}
    {out : Outcome World Task (Option (Option Address))}
    (did : (Op.env (.pairCached token)).exec self fresh believed s = some out)
    (known : s.env.v2PairCache token = some (some pair)) : out.res = some (some pair) := by
  cases did
  simp only [known]

/-- Concurrent calls, with what they have done so far. -/
abbrev Lookups := Config LiveSig (World × List pairLookups.Event) Address (Option Address)

/-- No step of the call at `i` was made. -/
def Unbegun (i : Tid) (c : Lookups) : Prop := ∀ e ∈ c.shared.2, e.tid ≠ i

/-- The cache knows the pair, and a call for the token that had not begun at `c` has not begun yet
    or has returned the pair. -/
structure Remembers (token pair : Address) (c d : Lookups) : Prop where
  known : d.shared.1.env.v2PairCache token = some (some pair)
  returns : ∀ i, c.taskAt i = some token → Unbegun i c → Unbegun i d ∧ d.taskAt i = some token ∨
    d.returned i = some (some pair)

/-- A step in time keeps the pair, and a call that begins finds it and returns it. -/
theorem Remembers.step {s : World} {calls : List Address} {token pair : Address} {i : Tid}
    {c d d' : Lookups} (remembers : Remembers token pair c d)
    (run : pairLookups.recording.Run pairLookups.recording.anyStep
      (pairLookups.recording.start (s, []) calls) d)
    (step : pairLookups.recording.Step (fun i o a s => inTime i o a s = true) i d d') :
    Remembers token pair c d' := by
  have obeyed : Machine.Obeyed lookupOrder (fun _ _ _ => True) (fun _ => none) d :=
    Machine.obeyed_of_run v2PairCached_obeys run
  obtain ⟨t, o, next, a, out, running, -, meets, did, shared, pool⟩ := step.inversion
  obtain ⟨inner, ran, rfl⟩ := exec_of_pairLookups did
  have allowed := obeyed.allows running
  rw [phase_answered] at allowed
  rw [List.map_nil, List.append_nil] at pool
  constructor
  · have keeps : ¬ o.Overwrites d.shared.1 :=
      fun overwrites => (overwrites_iff_late allowed).mp overwrites meets
    rw [shared]
    exact Op.exec_known ran keeps remembers.known
  · intro j called fresh
    by_cases own : j = i
    · subst own
      rcases remembers.returns j called fresh with ⟨unbegun, runs⟩ | returned
      · -- it reads the cache, which knows the pair
        right
        have sameTask : t = token := by
          rw [Config.taskAt, running] at runs
          exact Option.some.inj runs
        have begins := Machine.body_of_unbegun run running unbegun
        rw [sameTask] at begins
        cases begins
        unfold Config.returned
        rw [pool, List.getElem?_set_self (List.getElem?_eq_some_iff.mp running).1,
          pairCached_known ran remembers.known]
        rfl
      · unfold Config.returned at returned
        rw [running] at returned
        cases returned
    · have same : d'.pool[j]? = d.pool[j]? := by rw [pool, List.getElem?_set_ne (Ne.symm own)]
      rcases remembers.returns j called fresh with ⟨unbegun, runs⟩ | returned
      · left
        constructor
        · intro e member
          rw [shared] at member
          rcases List.mem_cons.mp member with rfl | before
          · exact Ne.symm own
          · exact unbegun e before
        · rw [Config.taskAt, same]
          exact runs
      · right
        unfold Config.returned
        rw [same]
        exact returned

/-- A step that is late loses a pair. -/
theorem late_forgets {s : World} {calls : List Address} {i : Tid} {c c' : Lookups}
    (run : pairLookups.recording.Run pairLookups.recording.anyStep
      (pairLookups.recording.start (s, []) calls) c)
    (step : pairLookups.recording.Step (fun i o a s => ¬ inTime i o a s = true) i c c') :
    ∃ token pair, c.shared.1.env.v2PairCache token = some (some pair) ∧
      c'.shared.1.env.v2PairCache token ≠ some (some pair) := by
  have obeyed : Machine.Obeyed lookupOrder (fun _ _ _ => True) (fun _ => none) c :=
    Machine.obeyed_of_run v2PairCached_obeys run
  obtain ⟨t, o, next, a, out, running, -, late, did, shared, -⟩ := step.inversion
  obtain ⟨inner, ran, rfl⟩ := exec_of_pairLookups did
  have allowed := obeyed.allows running
  rw [phase_answered] at allowed
  have overwrites := (overwrites_iff_late allowed).mpr late
  cases o with
  | env o =>
      cases o with
      | cachePair token found =>
          obtain ⟨pair, known, differs⟩ := overwrites
          cases ran
          refine ⟨token, pair, known, ?_⟩
          rw [shared]
          change Function.update c.shared.1.env.v2PairCache token (some found) token ≠
              some (some pair)
          rw [Function.update_self]
          exact fun same => differs (Option.some.inj same)
      | _ => exact overwrites.elim
  | _ => exact overwrites.elim

/-- In every run of concurrent calls, from any state of the caches: once the cache knows the pair of
    a token, and as long as no call is late, the cache knows this pair, and each call for the token
    that begins from then on returns it. -/
theorem known_pair_kept (s : World) (calls : List Address) (c c' : Lookups) (token pair : Address)
    (before : pairLookups.recording.Run pairLookups.recording.anyStep
      (pairLookups.recording.start (s, []) calls) c)
    (known : c.shared.1.env.v2PairCache token = some (some pair))
    (later : pairLookups.recording.Run (fun i o a s => inTime i o a s = true) c c') :
    c'.shared.1.env.v2PairCache token = some (some pair) ∧
      ∀ i, c.taskAt i = some token → Unbegun i c →
        Unbegun i c' ∨ c'.returned i = some (some pair) := by
  have kept : Remembers token pair c c' := by
    induction later with
    | refl => exact ⟨known, fun i called fresh => .inl ⟨fresh, called⟩⟩
    | tail run step ih =>
        obtain ⟨i, step⟩ := step
        exact ih.step (before.trans (Machine.Run.mono (fun _ _ _ _ _ => trivial) run)) step
  constructor
  · exact kept.known
  · exact fun i called fresh => (kept.returns i called fresh).imp_left And.left

/-- The first call, whose query finds nothing, inserts before the second, which finds the pair; the
third returns it. -/
theorem known_pair_kept_in_time :
    ∃ c c', pairLookups.recording.Run (fun i o a s => inTime i o a s = true) c c' ∧
      c.shared.1.env.v2PairCache 7#160 = some (some 1#160) ∧ Unbegun 2 c ∧ ¬ Unbegun 2 c' ∧
      c'.shared.1.env.v2PairCache 7#160 = some (some 1#160) ∧
      c'.returned 2 = some (some 1#160) := by
  obtain ⟨c, before, known, fresh, called, late⟩ : ∃ c,
      pairLookups.recording.Run pairLookups.recording.anyStep
        (pairLookups.recording.start (World.boot 0 none, []) [7#160, 7#160, 7#160]) c ∧
      c.shared.1.env.v2PairCache 7#160 = some (some 1#160) ∧ (∀ e ∈ c.shared.2, e.tid ≠ 2) ∧
      c.taskAt 2 = some 7#160 ∧
      (pairLookups.recording.follow (fun i o a s => inTime i o a s = true)
        [(2, 1, ({} : Replies).ans)] c).any
        (fun c' => decide (¬ ∀ e ∈ c'.shared.2, e.tid ≠ 2)) = true :=
    Machine.exists_run_of_follow (C := pairLookups.recording.anyStep)
      [(0, 2, ({ pair := none } : Replies).ans), (1, 2, ({ pair := some 1#160 } : Replies).ans),
        (0, 1, ({} : Replies).ans), (1, 1, ({} : Replies).ans)] (by decide +kernel)
  obtain ⟨c', later, began⟩ := Machine.exists_run_of_follow _ late
  obtain ⟨kept, returns⟩ := known_pair_kept _ _ c c' 7#160 1#160 before known later
  exact ⟨c, c', later, known, fresh, began, kept, (returns 2 called fresh).resolve_left began⟩

/-- The first call asks the factory and finds nothing; the second asks later, finds the pair
    and inserts it; then the first inserts that there is none, and a third, which begins after
    that, returns none. -/
theorem known_pair_forgotten :
    ∃ c c', pairLookups.recording.Run pairLookups.recording.anyStep
        (pairLookups.recording.start (World.boot 0 none, []) [7#160, 7#160, 7#160]) c ∧
      c.shared.1.env.v2PairCache 7#160 = some (some 1#160) ∧ c.taskAt 2 = some 7#160 ∧ Unbegun 2 c ∧
      pairLookups.recording.Run pairLookups.recording.anyStep c c' ∧
      c'.shared.1.env.v2PairCache 7#160 = some none ∧ c'.returned 2 = some none := by
  obtain ⟨c, before, known, called, fresh, later⟩ : ∃ c,
      pairLookups.recording.Run pairLookups.recording.anyStep
        (pairLookups.recording.start (World.boot 0 none, []) [7#160, 7#160, 7#160]) c ∧
      c.shared.1.env.v2PairCache 7#160 = some (some 1#160) ∧ c.taskAt 2 = some 7#160 ∧
      (∀ e ∈ c.shared.2, e.tid ≠ 2) ∧
      (pairLookups.recording.follow pairLookups.recording.anyStep
        [(0, 1, ({} : Replies).ans), (2, 3, ({ pair := none } : Replies).ans)] c).any
        (fun c' => decide (c'.shared.1.env.v2PairCache 7#160 = some none ∧
          c'.returned 2 = some none)) = true :=
    Machine.exists_run_of_follow (C := pairLookups.recording.anyStep)
      [(0, 2, ({ pair := none } : Replies).ans), (1, 3, ({ pair := some 1#160 } : Replies).ans)]
        (by decide +kernel)
  obtain ⟨c', run, forgot⟩ := Machine.exists_run_of_follow _ later
  exact ⟨c, c', before, known, called, fresh, run, forgot⟩

end BscMempool.Trader
