/-
Module: BscMempool.Proofs.FirstSeenOrder
Layer: Proofs
Purpose: When the first-seen time of a hash is its earliest observation. An entry keeps the time of
  the record that made it, so it is the earliest exactly as long as no later record of the hash is
  dated before it; the order in which a batch is delivered is without effect, on the times and on
  what the block oracle computes from them, exactly when each hash that is new in it is dated once.
Trusted boundary: none
Main exports: Dedupe.EarliestFirst, DatedInOrder, Observed, OrderFree, DatedOnce,
  earliest_first_iff, order_free_iff
-/
import BscMempool.Proofs.DedupeLifetimes
import BscMempool.Telemetry.BlockOracle
import Mathlib.Data.List.Perm.Basic

namespace BscMempool.Bus

open Telemetry

/-! ### The least of a list -/

/-- A least element stays least when a later one is added exactly if that is not below it. -/
theorem min?_concat_iff {times : List UInt64} {least : UInt64} (before : times.min? = some least)
    (time : UInt64) :
    (times ++ [time]).min? = some least ↔ least ≤ time := by
  obtain ⟨member, below⟩ := List.min?_eq_some_iff.mp before
  rw [List.min?_eq_some_iff]
  constructor
  · intro still
    exact still.2 time (by simp)
  · intro notBelow
    constructor
    · exact List.mem_append_left _ member
    · intro t t_mem
      rcases List.mem_append.mp t_mem with old | new
      · exact below t old
      · rw [List.mem_singleton.mp new]
        exact notBelow

/-! ### One order of delivery -/

/-- The times at which the sources of an entry saw its hash. -/
def FirstSeen.times (entry : FirstSeen) : List UInt64 := entry.sources.map Prod.snd

/-- The first-seen time of every hash in the table is the least of its observations. -/
def Dedupe.EarliestFirst (d : Dedupe) : Prop :=
  ∀ hash entry, d.snapshot hash = some entry → d.firstSeenNs hash = entry.times.min?

/-- No record of a hash that is in the table is dated before the one that entered it. -/
def DatedInOrder (d : Dedupe) (calls : List DedupeCall) : Prop :=
  ∀ earlier hash source recvNs rest entry, calls = earlier ++ .record hash source recvNs :: rest →
    (d.after earlier).snapshot hash = some entry → entry.firstNs ≤ recvNs

theorem Dedupe.firstSeenNs_of_live {d : Dedupe} {hash : TxHash} {entry : FirstSeen}
    (live : d.snapshot hash = some entry) : d.firstSeenNs hash = some entry.firstNs := by
  rw [Dedupe.firstSeenNs, live, Option.map_some]

theorem Dedupe.EarliestFirst.min? {d : Dedupe} (earliest : d.EarliestFirst) {hash : TxHash}
    {entry : FirstSeen}
    (live : d.snapshot hash = some entry) : entry.times.min? = some entry.firstNs := by
  rw [← earliest hash entry live, Dedupe.firstSeenNs_of_live live]

/-- The call that leaves every first-seen time earliest is one that dates no live hash earlier. -/
theorem earliestFirst_concat {d : Dedupe} {calls : List DedupeCall}
    (earliest : (d.after calls).EarliestFirst) (c : DedupeCall) :
    (d.after (calls ++ [c])).EarliestFirst ↔
      ∀ hash source recvNs entry, c = .record hash source recvNs →
        (d.after calls).snapshot hash = some entry → entry.firstNs ≤ recvNs := by
  constructor
  · rintro after hash source recvNs entry rfl live
    have merged : (d.after (calls ++ [.record hash source recvNs])).snapshot hash =
        some { entry with sources := entry.sources ++ [(source, recvNs)] } := by
      rw [snapshot_after_concat, live]
      simp [FirstSeen.next]
    have least := after.min? merged
    simp only [FirstSeen.times, List.map_append, List.map_cons, List.map_nil] at least
    exact (min?_concat_iff (earliest.min? live) recvNs).mp least
  · intro inOrder hash entry live
    rw [Dedupe.firstSeenNs_of_live live, eq_comm]
    have left := live
    rw [snapshot_after_concat] at left
    rcases FirstSeen.next_some left with ⟨e, held, grown⟩ | ⟨source, recvNs, -, -, entered⟩
    · -- the entry was there: the call may have added one observation of its hash
      have least := earliest.min? held
      rw [grown]
      cases c with
      | sweep nowNs => simpa [FirstSeen.times] using least
      | record h source recvNs =>
          by_cases same : h = hash
          · subst same
            have notBelow := inOrder h source recvNs e rfl held
            have still := (min?_concat_iff least recvNs).mpr notBelow
            simpa [FirstSeen.times, observations_record] using still
          · simpa [FirstSeen.times, observations_record, same] using least
    · rw [entered]
      simp [FirstSeen.times]

/-- From a table whose first-seen times are earliest, they stay so exactly along the
calls dated in order. -/
theorem earliestFirst_after_iff {d : Dedupe} (start : d.EarliestFirst) (calls : List DedupeCall) :
    (∀ earlier rest, calls = earlier ++ rest → (d.after earlier).EarliestFirst) ↔
    DatedInOrder d calls := by
  constructor
  · intro always earlier hash source recvNs rest entry split live
    have before := always earlier _ split
    have now := always (earlier ++ [.record hash source recvNs]) rest (by simpa using split)
    exact (earliestFirst_concat before _).mp now hash source recvNs entry rfl live
  · intro inOrder earlier
    induction earlier using List.reverseRecOn with
    | nil =>
        intro rest split
        exact start
    | append_singleton earlier c ih =>
        intro rest split
        have split' : calls = earlier ++ c :: rest := by simpa using split
        have before := ih (c :: rest) split'
        apply (earliestFirst_concat before c).mpr
        rintro hash source recvNs entry rfl live
        exact inOrder earlier hash source recvNs rest entry split' live

theorem earliestFirst_new (ttlSecs : UInt64) : (Dedupe.new ttlSecs).EarliestFirst := by
  intro hash entry live
  simp [Dedupe.new, Dedupe.snapshot] at live

/-! ### Every order of delivery -/

/-- An observation as the decoder hands it on. -/
structure Observed where
  hash : TxHash
  source : SourceId
  recvNs : UInt64
deriving DecidableEq, Repr

def Observed.record (o : Observed) : DedupeCall := .record o.hash o.source o.recvNs

/-- The table after a batch was delivered, no sweep in between. -/
def Dedupe.deliver (d : Dedupe) (batch : List Observed) : Dedupe :=
  d.after (batch.map Observed.record)

/-- Whatever the order in which a batch is delivered, the first-seen times and the verdicts on
blocks are the same. -/
def OrderFree (d : Dedupe) (batch : List Observed) : Prop :=
  ∀ reordered : List Observed, reordered.Perm batch →
    (∀ hash, (d.deliver reordered).firstSeenNs hash = (d.deliver batch).firstSeenNs hash) ∧
    ∀ fetched agg, processBlock (d.deliver reordered) fetched agg =
      processBlock (d.deliver batch) fetched agg

/-- Of a hash that is not in the table, all the observations carry one time. -/
def DatedOnce (d : Dedupe) (batch : List Observed) : Prop :=
  ∀ o ∈ batch, ∀ o' ∈ batch, o.hash = o'.hash → d.snapshot o.hash = none → o.recvNs = o'.recvNs

/-- The times of a hash in a batch. -/
def timesOf (hash : TxHash) (batch : List Observed) : List UInt64 :=
  (batch.filter fun o => o.hash = hash).map Observed.recvNs

theorem mem_timesOf {hash : TxHash} {batch : List Observed} {time : UInt64} :
    time ∈ timesOf hash batch ↔ ∃ o ∈ batch, o.hash = hash ∧ o.recvNs = time := by
  simp [timesOf, and_assoc]

theorem timesOf_perm {batch reordered : List Observed} (perm : reordered.Perm batch)
    (hash : TxHash) :
    (timesOf hash reordered).Perm (timesOf hash batch) :=
  (perm.filter _).map _

theorem firstSeenNs_record (d : Dedupe) (o : Observed) (hash : TxHash) :
    (d.call o.record).firstSeenNs hash = (d.firstSeenNs hash).or
      (if o.hash = hash then some o.recvNs else none) := by
  rw [Dedupe.firstSeenNs, Dedupe.firstSeenNs, Observed.record, snapshot_call]
  by_cases same : o.hash = hash
  · cases d.snapshot hash <;> simp [FirstSeen.next, same]
  · cases d.snapshot hash <;> simp [FirstSeen.next, same]

/-- A hash that is not in the table is dated by its first delivery. -/
theorem firstSeenNs_deliver (d : Dedupe) (batch : List Observed) (hash : TxHash) :
    (d.deliver batch).firstSeenNs hash = (d.firstSeenNs hash).or (timesOf hash batch).head? := by
  induction batch generalizing d with
  | nil => simp [Dedupe.deliver, timesOf]
  | cons o rest ih =>
      have step : d.deliver (o :: rest) = (d.call o.record).deliver rest := rfl
      rw [step, ih, firstSeenNs_record, Option.or_assoc]
      by_cases same : o.hash = hash <;> simp [timesOf, same]

/-- Of two lists that are one but for the order the heads agree if all elements are equal. -/
theorem head?_perm {times times' : List UInt64} (perm : times.Perm times')
    (equal : ∀ t ∈ times', ∀ t' ∈ times', t = t') : times.head? = times'.head? := by
  cases times with
  | nil => rw [List.nil_perm.mp perm]
  | cons t rest =>
      cases times' with
      | nil => cases List.perm_nil.mp perm
      | cons t' rest' =>
          have member : t ∈ t' :: rest' := perm.subset (List.mem_cons_self)
          simp [equal t member t' List.mem_cons_self]

theorem snapshot_none_iff (d : Dedupe) (hash : TxHash) :
    d.snapshot hash = none ↔ d.firstSeenNs hash = none := by
  rw [Dedupe.firstSeenNs, Option.map_eq_none_iff]

/-- The order of a batch is without effect exactly when each hash that is new
in it is dated once. -/
theorem orderFree_iff (d : Dedupe) (batch : List Observed) :
    OrderFree d batch ↔ DatedOnce d batch := by
  constructor
  · intro free o o_mem o' o'_mem same absent
    -- each of the two observations can be the one delivered first
    have first : ∀ p ∈ batch, p.hash = o.hash →
        some p.recvNs = (d.deliver batch).firstSeenNs o.hash := by
      intro p p_mem p_hash
      have front : (p :: batch.erase p).Perm batch := (List.perm_cons_erase p_mem).symm
      rw [← (free _ front).1 o.hash, firstSeenNs_deliver, (snapshot_none_iff d o.hash).mp absent]
      simp [timesOf, p_hash]
    have times := (first o o_mem rfl).trans (first o' o'_mem same.symm).symm
    exact Option.some.inj times
  · intro once reordered perm
    have times : ∀ hash, (d.deliver reordered).firstSeenNs hash =
        (d.deliver batch).firstSeenNs hash := by
      intro hash
      rw [firstSeenNs_deliver, firstSeenNs_deliver]
      cases seen : d.firstSeenNs hash with
      | some time => rfl
      | none =>
          have equal : ∀ t ∈ timesOf hash batch, ∀ t' ∈ timesOf hash batch, t = t' := by
            intro t t_mem t' t'_mem
            obtain ⟨o, o_mem, o_hash, rfl⟩ := mem_timesOf.mp t_mem
            obtain ⟨o', o'_mem, o'_hash, rfl⟩ := mem_timesOf.mp t'_mem
            have absent : d.snapshot o.hash = none := by rw [snapshot_none_iff, o_hash, seen]
            exact once o o_mem o' o'_mem (o_hash.trans o'_hash.symm) absent
          simp [head?_perm (timesOf_perm perm hash) equal]
    exact ⟨times, fun fetched agg => processBlock_congr times fetched agg⟩

/-- When first-seen times are the earliest ones, and when they do not depend on
the order of delivery. -/
theorem first_seen_earliest_iff (ttlSecs : UInt64) (calls : List DedupeCall)
    (batch : List Observed) :
    ((∀ earlier rest, calls = earlier ++ rest →
      ((Dedupe.new ttlSecs).after earlier).EarliestFirst) ↔
      DatedInOrder (Dedupe.new ttlSecs) calls) ∧
    (OrderFree ((Dedupe.new ttlSecs).after calls) batch ↔
      DatedOnce ((Dedupe.new ttlSecs).after calls) batch) := by
  constructor
  · exact earliestFirst_after_iff (earliestFirst_new ttlSecs) calls
  · exact orderFree_iff _ batch

/-- Two sources see a transaction 10 ns before and 10 ns after the timestamp of the block that mines
    it, and the later observation is delivered first: the first-seen time is the later one, and the
    block does not count as covered. -/
theorem first_seen_not_earliest :
    (¬ ∀ calls : List DedupeCall, ((Dedupe.new 120).after calls).EarliestFirst) ∧
    ¬ ∀ batch, OrderFree (Dedupe.new 120) batch := by
  constructor
  · intro always
    have wrong := always [.record 7 0 1000000010, .record 7 1 999999990] 7
      ⟨1000000010, [(0, 1000000010), (1, 999999990)], 121000000010⟩ (by decide)
    revert wrong
    decide
  · intro always
    have wrong :=
      (always [⟨7, 1, 999999990⟩, ⟨7, 0, 1000000010⟩] [⟨7, 0, 1000000010⟩, ⟨7, 1, 999999990⟩]
      (by decide)).2 (.ok (some ⟨1, [7]⟩)) ⟨0, 0, 0⟩
    revert wrong
    decide

end BscMempool.Bus
