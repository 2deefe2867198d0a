/-
Module: BscMempool.Proofs.DedupeLifetimes
Layer: Proofs
Purpose: Every hash is emitted once per lifetime and none of its observations is lost. What the
  table holds of a hash is followed through the calls on its own (`FirstSeen.next`): a lifetime
  starts with a fresh record, collects every record of the hash, and ends only with a sweep later
  than the entry's expiry.
Trusted boundary: none
Main exports: observations, Expires, DedupeLifetimes, dedupe_lifetimes
-/
import BscMempool.Bus.Dedupe
import Mathlib.Data.List.Induction

namespace BscMempool.Bus

open Numeric (satAddU64)

/-- The observations of a hash among some calls, in the order of the calls. -/
def observations (hash : TxHash) (calls : List DedupeCall) : List (SourceId × UInt64) :=
  calls.filterMap fun
    | .record h source recvNs => if h = hash then some (source, recvNs) else none
    | .sweep _ => none

@[simp] theorem observations_nil (hash : TxHash) : observations hash [] = [] := rfl

@[simp] theorem observations_append (hash : TxHash) (calls rest : List DedupeCall) :
    observations hash (calls ++ rest) = observations hash calls ++ observations hash rest := by
  simp [observations]

@[simp] theorem observations_sweep (hash : TxHash) (nowNs : UInt64) :
    observations hash [.sweep nowNs] = [] := rfl

theorem observations_record (hash h : TxHash) (source : SourceId) (recvNs : UInt64) :
    observations hash [.record h source recvNs] = if h = hash then [(source, recvNs)] else [] := by
  by_cases same : h = hash <;> simp [observations, same]

/-- A sweep at this time is too late for an entry that expires at `deadline`. -/
def Expires (deadline : UInt64) (c : DedupeCall) : Prop :=
  ∃ nowNs, c = .sweep nowNs ∧ deadline < nowNs

namespace FirstSeen

/-- A call that does not expire an entry adds the observation it makes of the hash, if any. -/
theorem next_live {ttlNs : UInt64} {hash : TxHash} (entry : FirstSeen) {c : DedupeCall}
    (kept : ¬ Expires entry.expiresAtNs c) :
    next ttlNs hash (some entry) c = some { entry with
        sources := entry.sources ++ observations hash [c] } := by
  cases c with
  | record h source recvNs =>
      by_cases same : h = hash <;> simp [next, observations_record, same]
  | sweep nowNs =>
      have onTime : nowNs ≤ entry.expiresAtNs := by
        rw [← UInt64.not_lt]
        intro late
        exact kept ⟨nowNs, rfl, late⟩
      simp [next, Option.filter, onTime]

/-- Only a sweep after its expiry drops an entry. -/
theorem next_expired {ttlNs : UInt64} {hash : TxHash} {entry : FirstSeen} {c : DedupeCall}
    (expired : Expires entry.expiresAtNs c) : next ttlNs hash (some entry) c = none := by
  obtain ⟨nowNs, rfl, late⟩ := expired
  have notKept : ¬ nowNs ≤ entry.expiresAtNs := UInt64.not_le.mpr late
  simp [next, Option.filter, notKept]

/-- A call that leaves an entry behind found one, or recorded the hash for the first time. -/
theorem next_some {ttlNs : UInt64} {hash : TxHash} {found : Option FirstSeen} {c : DedupeCall}
    {entry : FirstSeen} (left : next ttlNs hash found c = some entry) :
    (∃ e, found = some e ∧ entry = { e with sources := e.sources ++ observations hash [c] }) ∨
    ∃ source recvNs, found = none ∧ c = .record hash source recvNs ∧
      entry = ⟨recvNs, [(source, recvNs)], satAddU64 recvNs ttlNs⟩ := by
  cases found with
  | some e =>
      left
      by_cases expired : Expires e.expiresAtNs c
      · rw [next_expired expired] at left
        cases left
      · rw [next_live e expired] at left
        injection left with same
        exact ⟨e, rfl, same.symm⟩
  | none =>
      right
      cases c with
      | sweep nowNs => cases left
      | record h source recvNs =>
          by_cases same : h = hash
          · simp only [next, same, if_true] at left
            injection left with entered
            exact ⟨source, recvNs, rfl, by rw [same], entered.symm⟩
          · simp [next, same] at left

end FirstSeen

/-! ### One lifetime -/

theorem snapshot_after_concat (d : Dedupe) (calls : List DedupeCall) (c : DedupeCall)
    (hash : TxHash) :
    (d.after (calls ++ [c])).snapshot hash = FirstSeen.next d.ttlNs hash
      ((d.after calls).snapshot hash) c := by
  rw [Dedupe.after_append, Dedupe.after_cons, Dedupe.after_nil, snapshot_call, Dedupe.after_ttlNs]

/-- Until a sweep expires it, an entry stays and collects what is observed of its hash. -/
theorem snapshot_after_live {d : Dedupe} {hash : TxHash} {entry : FirstSeen}
    (live : d.snapshot hash = some entry) {calls : List DedupeCall}
    (kept : ∀ c ∈ calls, ¬ Expires entry.expiresAtNs c) :
    (d.after calls).snapshot hash = some { entry with
        sources := entry.sources ++ observations hash calls } := by
  induction calls using List.reverseRecOn with
  | nil => simpa using live
  | append_singleton calls c ih =>
      have before := ih fun c' member => kept c' (List.mem_append_left _ member)
      have now : ¬ Expires entry.expiresAtNs c := kept c (by simp)
      rw [snapshot_after_concat, before,
        FirstSeen.next_live { entry with sources := entry.sources ++ observations hash calls } now]
      simp

/-- The entry a fresh record makes. -/
theorem snapshot_record {d : Dedupe} {hash : TxHash} (absent : d.snapshot hash = none)
    (source : SourceId) (recvNs : UInt64) :
    (d.call (.record hash source recvNs)).snapshot hash =
      some ⟨recvNs, [(source, recvNs)], satAddU64 recvNs d.ttlNs⟩ := by
  rw [snapshot_call, absent]
  simp [FirstSeen.next]

/-- What a fresh outcome says of the table. -/
theorem fresh_absent {d : Dedupe} {hash : TxHash} {source : SourceId} {recvNs : UInt64}
    {entry : FirstSeen}
    (fresh : (d.record hash source recvNs).1 = .fresh entry) : d.snapshot hash = none := by
  cases live : d.snapshot hash with
  | none => rfl
  | some e =>
      rw [record_live live] at fresh
      cases fresh

/-- `calls` is the life so far of an entry that a record of `hash` started after
the calls `earlier`. -/
structure Life (d : Dedupe) (hash : TxHash) (earlier : List DedupeCall) (source : SourceId)
    (recvNs : UInt64) (since : List DedupeCall) : Prop where
  /-- The entry was not there before. -/
  starts : (d.after earlier).snapshot hash = none
  /-- And was there ever since. -/
  lasts : ∀ mid rest, since = mid ++ rest →
    ((d.after (earlier ++ .record hash source recvNs :: mid)).snapshot hash).isSome

/-- An entry in the table has a life, and its sources are what was observed in it. -/
theorem life_of_live {d : Dedupe} {hash : TxHash} (empty : d.snapshot hash = none)
    {calls : List DedupeCall}
    {entry : FirstSeen} (live : (d.after calls).snapshot hash = some entry) :
    ∃ earlier source recvNs since, calls = earlier ++ .record hash source recvNs :: since ∧
      Life d hash earlier source recvNs since ∧
      entry = ⟨recvNs, (source, recvNs) :: observations hash since, satAddU64 recvNs d.ttlNs⟩ := by
  induction calls using List.reverseRecOn generalizing entry with
  | nil =>
      rw [Dedupe.after_nil, empty] at live
      cases live
  | append_singleton calls c ih =>
      have found := live
      rw [snapshot_after_concat] at found
      rcases FirstSeen.next_some found
        with ⟨e, held, grown⟩ | ⟨source, recvNs, absent, recorded, entered⟩
      · -- the entry was there before the last call: its life goes on
        obtain ⟨earlier, source, recvNs, since, split, life, same⟩ := ih held
        subst split
        refine ⟨earlier, source, recvNs, since ++ [c], by simp, ⟨life.starts, ?_⟩, ?_⟩
        · intro mid rest cut
          rcases List.eq_nil_or_concat rest with rfl | ⟨rest', last, rfl⟩
          · rw [← List.append_nil mid, ← cut]
            simpa using congrArg Option.isSome live
          · rw [List.concat_eq_append, ← List.append_assoc] at cut
            have sinceEq : since = mid ++ rest' := (List.append_inj' cut rfl).1
            exact life.lasts mid rest' sinceEq
        · rw [grown, same, observations_append, List.cons_append]
      · -- the last call starts a new one
        subst recorded
        refine ⟨calls, source, recvNs, [], rfl, ⟨absent, ?_⟩, ?_⟩
        · intro mid rest cut
          obtain ⟨rfl, -⟩ := List.append_eq_nil_iff.mp cut.symm
          rw [live]
          rfl
        · rw [entered, observations_nil]

/-- A record within a life is a duplicate. -/
theorem Life.duplicate {d : Dedupe} {hash : TxHash} {earlier : List DedupeCall} {source : SourceId}
    {recvNs : UInt64} {since : List DedupeCall} (life : Life d hash earlier source recvNs since)
    {mid rest : List DedupeCall} {source' : SourceId} {recvNs' : UInt64}
    (split : since = mid ++ .record hash source' recvNs' :: rest) :
    ((d.after (earlier ++ .record hash source recvNs :: mid)).record hash source' recvNs').1 =
      .duplicate := by
  have there := life.lasts mid _ split
  obtain ⟨entry, live⟩ := Option.isSome_iff_exists.mp there
  exact record_live live source' recvNs'

/-- If an entry is gone, a sweep has expired it. -/
theorem exists_expiry {d : Dedupe} {hash : TxHash} {entry : FirstSeen}
    (live : d.snapshot hash = some entry)
    {calls : List DedupeCall} (gone : (d.after calls).snapshot hash = none) :
    ∃ nowNs, .sweep nowNs ∈ calls ∧ entry.expiresAtNs < nowNs := by
  by_contra none
  push Not at none
  have kept : ∀ c ∈ calls, ¬ Expires entry.expiresAtNs c := by
    intro c member expired
    obtain ⟨nowNs, rfl, late⟩ := expired
    exact none nowNs member late
  rw [snapshot_after_live live kept] at gone
  cases gone

/-- What the dedupe stage promises of every sequence of calls. -/
structure DedupeLifetimes (d : Dedupe) : Prop where
  /-- Between two fresh records of one hash a sweep came after the first one's time to live. -/
  once : ∀ calls hash source recvNs entry between source' recvNs' entry',
    ((d.after calls).record hash source recvNs).1 = .fresh entry →
    ((d.after (calls ++ .record hash source recvNs :: between)).record hash source' recvNs').1 =
      .fresh entry' →
    ∃ nowNs, .sweep nowNs ∈ between ∧ satAddU64 recvNs d.ttlNs < nowNs
  /-- Every other record is a duplicate and appends its observation. -/
  merged : ∀ calls hash source recvNs,
    ((d.after calls).record hash source recvNs).1 =
      .fresh ⟨recvNs, [(source, recvNs)], satAddU64 recvNs d.ttlNs⟩ ∨
    ((d.after calls).record hash source recvNs).1 = .duplicate ∧
    ∃ entry, (d.after calls).snapshot hash = some entry ∧
      (d.after (calls ++ [.record hash source recvNs])).snapshot hash =
        some { entry with sources := entry.sources ++ [(source, recvNs)] }
  /-- A live entry holds the observations since its fresh one, in the order of the calls. -/
  collected : ∀ calls hash entry, (d.after calls).snapshot hash = some entry →
    ∃ earlier source recvNs since, calls = earlier ++ .record hash source recvNs :: since ∧
      ((d.after earlier).record hash source recvNs).1 =
        .fresh ⟨recvNs, [(source, recvNs)], satAddU64 recvNs d.ttlNs⟩ ∧
      (∀ mid source' recvNs' rest, since = mid ++ .record hash source' recvNs' :: rest →
        ((d.after (earlier ++ .record hash source recvNs :: mid)).record hash source' recvNs').1 =
          .duplicate) ∧
      entry = ⟨recvNs, (source, recvNs) :: observations hash since, satAddU64 recvNs d.ttlNs⟩
  /-- A record of another hash changes nothing of an entry, and a sweep changes nothing of one that
      has not expired. -/
  apart : ∀ calls hash entry c, (d.after calls).snapshot hash = some entry →
    (match c with
      | .record h _ _ => h ≠ hash
      | .sweep nowNs => nowNs ≤ entry.expiresAtNs) →
    (d.after (calls ++ [c])).snapshot hash = some entry

/-- From an empty table on, every hash is emitted once per lifetime and loses no observation. -/
theorem dedupe_lifetimes (ttlSecs : UInt64) : DedupeLifetimes (Dedupe.new ttlSecs) where
  once := by
    intro calls hash source recvNs entry between source' recvNs' entry' first second
    have absent := fresh_absent first
    have gone := fresh_absent second
    rw [Dedupe.after_append, Dedupe.after_cons] at gone
    have live := snapshot_record absent source recvNs
    rw [Dedupe.after_ttlNs] at live
    exact exists_expiry live gone
  merged := by
    intro calls hash source recvNs
    cases held : ((Dedupe.new ttlSecs).after calls).snapshot hash with
    | none =>
        left
        rw [record_absent held, Dedupe.after_ttlNs]
    | some entry =>
        right
        refine ⟨record_live held source recvNs, entry, rfl, ?_⟩
        rw [snapshot_after_concat, held]
        simp [FirstSeen.next]
  collected := by
    intro calls hash entry live
    have empty : (Dedupe.new ttlSecs).snapshot hash = none := by simp [Dedupe.new, Dedupe.snapshot]
    obtain ⟨earlier, source, recvNs, since, split, life, same⟩ := life_of_live empty live
    refine ⟨earlier, source, recvNs, since, split, ?_, ?_, same⟩
    · rw [record_absent life.starts, Dedupe.after_ttlNs]
    · intro mid source' recvNs' rest cut
      exact life.duplicate cut
  apart := by
    intro calls hash entry c live other
    rw [snapshot_after_concat, live]
    cases c with
    | record h source recvNs => simp [FirstSeen.next, other]
    | sweep nowNs => simp [FirstSeen.next, Option.filter, other]

end BscMempool.Bus
