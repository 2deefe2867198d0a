/-
Module: BscMempool.Proofs.PublishedOnce
Layer: Proofs
Purpose: The dedupe stage publishes in the order in which it takes, each transaction with its own
  first observation, and no hash more often than its entry has expired in between, whatever the
  janitor sweeps meanwhile.
Trusted boundary: none
Main exports: published, headsSeen, Emits, published_in_order, recordTimes, lateSweeps,
  awaitsDecoded, published_once_per_lifetime
-/
import BscMempool.Proofs.PipelineFlow

namespace BscMempool.Bus

open Concurrent (Config Machine Outcome Proc Protocol Tid)
open Numeric (satAddU64)

variable {Envelope : Type}

namespace PipeOp

def publishes : (o : PipeOp Envelope) → o.Res → Option (PendingTx Envelope)
  | .publish p, _ => some p
  | _, _ => none

def updates : (o : PipeOp Envelope) → o.Res → Option CurrentBlock
  | .onNewHead block, _ => some block
  | _, _ => none

/-- When a hash was observed, if the operation records it. -/
def records (hash : TxHash) : (o : PipeOp Envelope) → o.Res → Option UInt64
  | .record h _ recvNs, _ => if h = hash then some recvNs else none
  | _, _ => none

/-- The entry that a record of a hash makes. -/
def begins (hash : TxHash) : (o : PipeOp Envelope) → o.Res → Option FirstSeen
  | .record h _ _, .fresh fs => if h = hash then some fs else none
  | _, _ => none

end PipeOp

section Histories

variable {x : Pipeline Envelope}

/-- What was published, in the order of the publishing. -/
def published (h : List x.machine.Event) : List (PendingTx Envelope) :=
  Machine.collect (fun _ => PipeOp.publishes) h

/-- The heads that were seen, after the empty one. -/
def headsSeen (h : List x.machine.Event) : List CurrentBlock :=
  {} :: Machine.collect (fun _ => PipeOp.updates) h

/-- When the observations of a hash that were recorded had arrived. -/
def recordTimes (hash : TxHash) (h : List x.machine.Event) : List UInt64 :=
  Machine.collect (fun _ => PipeOp.records hash) h

/-- The entries that were made for a hash, one after the other. -/
def lives (hash : TxHash) (h : List x.machine.Event) : List FirstSeen :=
  Machine.collect (fun _ => PipeOp.begins hash) h

/-- The sweep goes over the shard of a hash, later than the expiry of one of these
observations of it. -/
def expires (x : Pipeline Envelope) (hash : TxHash) (times : List UInt64) : PipeOp Envelope → Bool
  | .sweepShard shard nowNs =>
      x.shardOf hash == shard &&
        times.any fun recvNs =>
          decide (satAddU64 recvNs (Dedupe.new x.cfg.dedupeTtlSecs).ttlNs < nowNs)
  | _ => false

/-- How many sweeps of its shard came later than the expiry of an observation of the hash before. -/
def lateSweeps (hash : TxHash) : List x.machine.Event → Nat
  | [] => 0
  | e :: older =>
      lateSweeps hash older + if expires x hash (recordTimes hash older) e.op then 1 else 0

end Histories

/-- The entry of a hash that is observed for the first time. -/
def firstSight (x : Pipeline Envelope) (d : DecodedTx Envelope) : FirstSeen where
  firstNs := d.recvNs
  sources := [(d.source, d.recvNs)]
  expiresAtNs := satAddU64 d.recvNs (Dedupe.new x.cfg.dedupeTtlSecs).ttlNs

/-- What the dedupe task makes of a transaction it took, if that is the first observation of its
hash: the observation alone, and the context of a head it has seen. -/
def Emits (x : Pipeline Envelope) (heads : List CurrentBlock) (d : DecodedTx Envelope)
    (p : PendingTx Envelope) : Prop :=
  ∃ block ∈ heads, p = Pipeline.pendingOf d (firstSight x d) (block.blockContextFor d.recvNs)

theorem Emits.later {x : Pipeline Envelope} {heads : List CurrentBlock} {d : DecodedTx Envelope}
    {p : PendingTx Envelope} (emits : Emits x heads d p) (more : List CurrentBlock) :
    Emits x (heads ++ more) d p := by
  obtain ⟨block, member, same⟩ := emits
  exact ⟨block, List.mem_append_left _ member, same⟩

/-! ### The table -/

@[simp] theorem sweepOn_ttlNs (d : Dedupe) (here : TxHash → Bool) (nowNs : UInt64) :
    (d.sweepOn here nowNs).ttlNs = d.ttlNs := rfl

theorem snapshot_sweepOn (d : Dedupe) (here : TxHash → Bool) (nowNs : UInt64) (hash : TxHash) :
    (d.sweepOn here nowNs).snapshot hash =
      if here hash then (d.snapshot hash).filter fun e => decide (nowNs ≤ e.expiresAtNs)
      else d.snapshot hash :=
  lookup_retainOn here d.map _ hash

theorem record_ttlNs (d : Dedupe) (hash : TxHash) (source : SourceId) (recvNs : UInt64) :
    (d.record hash source recvNs).2.ttlNs = d.ttlNs :=
  Dedupe.call_ttlNs d (.record hash source recvNs)

/-- What a record does to the entry of a hash. -/
theorem snapshot_record_next (d : Dedupe) (h : TxHash) (source : SourceId) (recvNs : UInt64)
    (hash : TxHash) :
    (d.record h source recvNs).2.snapshot hash =
      FirstSeen.next d.ttlNs hash (d.snapshot hash) (.record h source recvNs) :=
  snapshot_call d (.record h source recvNs) hash

/-- The table of a state in a history: an entry of a hash was made by a record, as many lives have
ended as sweeps came late, and a hash that was recorded has lived. -/
structure Lived (x : Pipeline Envelope) (d : Dedupe) (h : List x.machine.Event) (hash : TxHash) :
    Prop where
  ttl : d.ttlNs = (Dedupe.new x.cfg.dedupeTtlSecs).ttlNs
  dead : d.snapshot hash = none → (lives hash h).length ≤ lateSweeps hash h
  live : ∀ e, d.snapshot hash = some e → (lives hash h).length ≤ lateSweeps hash h + 1 ∧
    ∃ recvNs ∈ recordTimes hash h, e.expiresAtNs = satAddU64 recvNs d.ttlNs
  seen : recordTimes hash h ≠ [] → lives hash h ≠ []
  unseen : recordTimes hash h = [] → d.snapshot hash = none

namespace Lived

variable {x : Pipeline Envelope} {d : Dedupe} {h : List x.machine.Event} {hash : TxHash}

theorem start : Lived x (.new x.cfg.dedupeTtlSecs) ([] : List x.machine.Event) hash where
  ttl := rfl
  dead _ := Nat.le_refl 0
  live e found := by cases found
  seen some := absurd rfl some
  unseen _ := rfl

/-- A step that neither records nor sweeps changes nothing. -/
theorem other (lived : Lived x d h hash) {e : x.machine.Event}
    (recorded : PipeOp.records hash e.op e.res = none)
    (began : PipeOp.begins hash e.op e.res = none)
    (onTime : expires x hash (recordTimes hash h) e.op = false) :
    Lived x d (e :: h) hash := by
  have times : recordTimes hash (e :: h) = recordTimes hash h := Machine.collect_none recorded
  have same : lives hash (e :: h) = lives hash h := Machine.collect_none began
  have late : lateSweeps hash (e :: h) = lateSweeps hash h := by simp [lateSweeps, onTime]
  constructor
  · exact lived.ttl
  · rw [same, late]
    exact lived.dead
  · rw [same, late, times]
    exact lived.live
  · rw [times, same]
    exact lived.seen
  · rw [times]
    exact lived.unseen

/-- A record makes an entry where there is none, and keeps the expiry of one that is there. -/
theorem record (lived : Lived x d h hash) {i : Tid} (source : SourceId) (recvNs : UInt64)
    {k : TxHash} {a : x.machine.Ans (.record k source recvNs)} :
    Lived x (d.record k source recvNs).2
      (⟨i, .record k source recvNs, a, (d.record k source recvNs).1⟩ :: h)
      hash := by
  by_cases own : k = hash
  · subst own
    have times :
        recordTimes k (⟨i, .record k source recvNs, a, (d.record k source recvNs).1⟩ :: h) =
        recordTimes k h ++ [recvNs] := by
      apply Machine.collect_some
      simp [PipeOp.records]
    have late : lateSweeps k (⟨i, .record k source recvNs, a, (d.record k source recvNs).1⟩ :: h) =
        lateSweeps k h := by
      simp [lateSweeps, expires]
    have notEmpty : recordTimes k h ++ [recvNs] ≠ [] := by simp
    cases held : d.snapshot k with
    | none =>
        have began : lives k (⟨i, .record k source recvNs, a, (d.record k source recvNs).1⟩ :: h) =
            lives k h ++ [⟨recvNs, [(source, recvNs)], satAddU64 recvNs d.ttlNs⟩] := by
          apply Machine.collect_some
          simp [PipeOp.begins, record_absent held]
        have entered : (d.record k source recvNs).2.snapshot k =
            some ⟨recvNs, [(source, recvNs)], satAddU64 recvNs d.ttlNs⟩ := by
          rw [snapshot_record_next, held]
          simp [FirstSeen.next]
        constructor
        · rw [record_ttlNs]
          exact lived.ttl
        · intro absent
          rw [entered] at absent
          cases absent
        · intro e found
          rw [entered] at found
          cases found
          rw [began, late, times, record_ttlNs, List.length_append, List.length_singleton]
          constructor
          · exact Nat.add_le_add_right (lived.dead held) 1
          · exact ⟨recvNs, by simp, rfl⟩
        · intro _
          rw [began]
          simp
        · intro none
          rw [times] at none
          exact absurd none notEmpty
    | some e =>
        have same : lives k (⟨i, .record k source recvNs, a, (d.record k source recvNs).1⟩ :: h) =
            lives k h := by
          apply Machine.collect_none
          simp [PipeOp.begins, record_live held]
        have merged : (d.record k source recvNs).2.snapshot k =
            some { e with sources := e.sources ++ [(source, recvNs)] } := by
          rw [snapshot_record_next, held]
          simp [FirstSeen.next]
        obtain ⟨bound, made, member, expiry⟩ := lived.live e held
        constructor
        · rw [record_ttlNs]
          exact lived.ttl
        · intro absent
          rw [merged] at absent
          cases absent
        · intro e' found
          rw [merged] at found
          cases found
          rw [same, late, times, record_ttlNs]
          exact ⟨bound, made, List.mem_append_left _ member, expiry⟩
        · intro _
          rw [same]
          apply lived.seen
          intro none
          rw [none] at member
          cases member
        · intro none
          rw [times] at none
          exact absurd none notEmpty
  · have untouched : (d.record k source recvNs).2.snapshot hash = d.snapshot hash := by
      rw [snapshot_record_next]
      simp [FirstSeen.next, own]
    have nothing : PipeOp.begins hash (.record k source recvNs : PipeOp Envelope)
        (d.record k source recvNs).1 =
        none := by
      cases (d.record k source recvNs).1 <;> simp [PipeOp.begins, own]
    have kept := lived.other (e := ⟨i, .record k source recvNs, a, (d.record k source recvNs).1⟩)
      (by simp [PipeOp.records, own]) nothing rfl
    constructor
    · rw [record_ttlNs]
      exact lived.ttl
    · rw [untouched]
      exact kept.dead
    · rw [untouched, record_ttlNs]
      exact kept.live
    · exact kept.seen
    · rw [untouched]
      exact kept.unseen

/-- A sweep ends a life only where it comes late. -/
theorem sweep (lived : Lived x d h hash) {i : Tid} (shard : Nat) (nowNs : UInt64)
    {a : x.machine.Ans (.sweepShard shard nowNs)} :
    Lived x (d.sweepOn (fun k => x.shardOf k == shard) nowNs)
      (⟨i, .sweepShard shard nowNs, a, ()⟩ :: h) hash := by
  have times : recordTimes hash (⟨i, .sweepShard shard nowNs, a, ()⟩ :: h) = recordTimes hash h :=
    Machine.collect_none rfl
  have same : lives hash (⟨i, .sweepShard shard nowNs, a, ()⟩ :: h) = lives hash h :=
    Machine.collect_none rfl
  have grown : lateSweeps hash h ≤ lateSweeps hash (⟨i, .sweepShard shard nowNs, a, ()⟩ :: h) :=
    Nat.le_add_right _ _
  have swept := snapshot_sweepOn d (fun k => x.shardOf k == shard) nowNs hash
  cases held : d.snapshot hash with
  | none =>
      have absent : (d.sweepOn (fun k => x.shardOf k == shard) nowNs).snapshot hash = none := by
        rw [swept, held]
        split <;> rfl
      constructor
      · exact lived.ttl
      · intro _
        rw [same]
        exact Nat.le_trans (lived.dead held) grown
      · intro e found
        rw [absent] at found
        cases found
      · rw [times, same]
        exact lived.seen
      · exact fun _ => absent
  | some e =>
      obtain ⟨bound, made, member, expiry⟩ := lived.live e held
      constructor
      · exact lived.ttl
      · -- the entry was dropped: the sweep was late for it
        intro absent
        rw [swept, held] at absent
        have onShard : (x.shardOf hash == shard) = true := by
          by_contra elsewhere
          rw [if_neg elsewhere] at absent
          cases absent
        have late : e.expiresAtNs < nowNs := by
          rw [if_pos onShard] at absent
          rw [← UInt64.not_le]
          intro early
          simp [Option.filter, early] at absent
        have counted : expires x hash (recordTimes hash h) (.sweepShard shard nowNs) = true := by
          simp only [expires, onShard, Bool.true_and, List.any_eq_true, decide_eq_true_eq]
          rw [← lived.ttl]
          exact ⟨made, member, expiry ▸ late⟩
        rw [same]
        simp only [lateSweeps, counted, if_true]
        exact bound
      · intro e' found
        have kept : e' = e := by
          rw [swept, held] at found
          split at found
          · exact (Option.some.inj (Option.filter_eq_some_iff.mp found).1).symm
          · exact (Option.some.inj found).symm
        subst kept
        rw [same, times]
        exact ⟨Nat.le_trans bound (Nat.add_le_add_right grown 1), made, member, expiry⟩
      · rw [times, same]
        exact lived.seen
      · intro none
        rw [times] at none
        rw [none] at member
        cases member

/-- But for one, sweeps came late for all that have lived. -/
theorem bound (lived : Lived x d h hash) : (lives hash h).length ≤ lateSweeps hash h + 1 := by
  cases held : d.snapshot hash with
  | none => exact Nat.le_succ_of_le (lived.dead held)
  | some e => exact (lived.live e held).1

end Lived

/-- The table in every run. -/
theorem lived_of_run {x : Pipeline Envelope} {C : x.machine.recording.Cond}
    {workers subscribers : Nat} {all : List (PipeTask Envelope)}
    {c : Config (PipeSig Envelope) (PipeState Envelope × List x.machine.Event)
      (PipeTask Envelope) Unit}
    (run : x.machine.recording.Run C
      (x.machine.recording.start (x.build workers subscribers, []) all) c)
    (hash : TxHash) : Lived x c.shared.1.dedupe c.shared.2 hash := by
  apply Machine.invariant_of_exec (I := fun s : PipeState Envelope × List x.machine.Event =>
    Lived x s.1.dedupe s.2 hash) _ run
  · exact .start
  · intro i fresh o a s out lived _ did
    have same : PipeOp.exec x o a s.1 = some out := did
    cases o with
    | record k source recvNs =>
        cases same
        exact lived.record source recvNs
    | sweepShard shard nowNs =>
        cases same
        exact lived.sweep shard nowNs
    | trySendRaw raw =>
        simp only [PipeOp.exec] at same
        split at same <;> cases same <;> exact lived.other rfl rfl rfl
    | recvRaw =>
        obtain ⟨_, -, rfl⟩ := Option.map_eq_some_iff.mp same
        exact lived.other rfl rfl rfl
    | sendDecoded d =>
        obtain ⟨_, -, rfl⟩ := Option.map_eq_some_iff.mp same
        exact lived.other rfl rfl rfl
    | recvDecoded =>
        obtain ⟨_, -, rfl⟩ := Option.map_eq_some_iff.mp same
        exact lived.other rfl rfl rfl
    | recv j =>
        obtain ⟨_, -, rfl⟩ := Option.map_eq_some_iff.mp same
        exact lived.other rfl rfl rfl
    | _ =>
        cases same
        exact lived.other rfl rfl rfl

/-! ### The dedupe task -/

namespace Stage

/-- The transaction that was taken and is not done with. -/
def item : Stage Envelope → Option (DecodedTx Envelope)
  | .taken d => some d
  | .fresh d _ => some d
  | .stamped d _ _ => some d
  | _ => none

/-- The transaction that was taken and is not recorded. -/
def unrecorded : Stage Envelope → Option (DecodedTx Envelope)
  | .taken d => some d
  | _ => none

/-- The transaction that is to be published. -/
def pending : Stage Envelope → Option (DecodedTx Envelope)
  | .fresh d _ => some d
  | .stamped d _ _ => some d
  | _ => none

/-- What the dedupe task holds was made from the transaction. -/
def Made (x : Pipeline Envelope) (heads : List CurrentBlock) : Stage Envelope → Prop
  | .fresh d fs => fs = firstSight x d
  | .stamped d fs context =>
      fs = firstSight x d ∧ ∃ block ∈ heads, context = block.blockContextFor d.recvNs
  | _ => True

theorem Made.later {x : Pipeline Envelope} {heads : List CurrentBlock} {q : Stage Envelope}
    (made : q.Made x heads) (more : List CurrentBlock) : q.Made x (heads ++ more) := by
  cases q with
  | stamped d fs context =>
      obtain ⟨same, block, member, from_⟩ := made
      exact ⟨same, block, List.mem_append_left _ member, from_⟩
  | _ => exact made

end Stage

/-- The dedupe task at a stage, in a history: it published, in order, some of the transactions it is
done with; as many of a hash as have lived, but for the one it is about to publish; and it recorded
all but the one it just took. -/
structure Emitting (x : Pipeline Envelope) (s : PipeState Envelope) (h : List x.machine.Event)
    (q : Stage Envelope) :
    Prop where
  block : s.block ∈ headsSeen h
  made : q.Made x (headsSeen h)
  order : ∃ done ds, taken h = done ++ q.item.toList ∧ ds.Sublist done ∧
    List.Forall₂ (Emits x (headsSeen h)) ds (published h)
  count : ∀ hash, (published h).countP (fun p => p.hash = hash) +
    q.pending.toList.countP (fun d => d.hash = hash) =
    (lives hash h).length
  recorded : ∃ recorded, taken h = recorded ++ q.unrecorded.toList ∧
    ∀ hash, recordTimes hash h = (recorded.filter fun d => d.hash = hash).map DecodedTx.recvNs

namespace Emitting

variable {x : Pipeline Envelope} {s : PipeState Envelope} {h : List x.machine.Event}
  {q : Stage Envelope} {d : DecodedTx Envelope}

theorem start (workers subscribers : Nat) :
    Emitting x (x.build workers subscribers) ([] : List x.machine.Event) .idle where
  block := List.mem_singleton_self _
  made := trivial
  order := ⟨[], [], rfl, .refl _, .nil⟩
  count _ := rfl
  recorded := ⟨[], rfl, fun _ => rfl⟩

/-- No more is published of a hash than has lived. -/
theorem published_le (emitting : Emitting x s h q) (hash : TxHash) :
    (published h).countP (fun p => p.hash = hash) ≤ (lives hash h).length := by
  rw [← emitting.count hash]
  exact Nat.le_add_right _ _

/-- What a step leaves alone that neither takes, nor records, nor publishes. -/
theorem other {s' : PipeState Envelope} (emitting : Emitting x s h q) {e : x.machine.Event}
    (untaken : PipeOp.takes e.op e.res = none) (unpublished : PipeOp.publishes e.op e.res = none)
    (unrecorded : ∀ hash, PipeOp.records hash e.op e.res = none)
    (unbegun : ∀ hash, PipeOp.begins hash e.op e.res = none)
    (block : s'.block ∈ headsSeen (e :: h)) :
    Emitting x s' (e :: h) q := by
  have heads : headsSeen (e :: h) = headsSeen h ++ (PipeOp.updates e.op e.res).toList := by
    simp [headsSeen, Machine.collect_cons]
  have same : taken (e :: h) = taken h := Machine.collect_none untaken
  have out : published (e :: h) = published h := Machine.collect_none unpublished
  obtain ⟨done, ds, split, sub, each⟩ := emitting.order
  obtain ⟨recorded, all, times⟩ := emitting.recorded
  constructor
  · exact block
  · rw [heads]
    exact emitting.made.later _
  · rw [same, out, heads]
    exact ⟨done, ds, split, sub, each.imp fun _ _ emits => emits.later _⟩
  · intro hash
    rw [out, emitting.count hash]
    exact (congrArg List.length (Machine.collect_none (unbegun hash))).symm
  · rw [same]
    refine ⟨recorded, all, fun hash => ?_⟩
    rw [← times hash]
    exact Machine.collect_none (unrecorded hash)

/-- The next transaction is taken. -/
theorem takes {s' : PipeState Envelope} (emitting : Emitting x s h .idle)
    (same : s'.block = s.block) {i : Tid}
    {a : x.machine.Ans .recvDecoded} (d : DecodedTx Envelope) :
    Emitting x s' (⟨i, .recvDecoded, a, some d⟩ :: h) (.taken d) := by
  have all : taken (⟨i, .recvDecoded, a, some d⟩ :: h : List x.machine.Event) = taken h ++ [d] :=
    Machine.collect_some rfl
  obtain ⟨done, ds, split, sub, each⟩ := emitting.order
  obtain ⟨recorded, held, times⟩ := emitting.recorded
  constructor
  · rw [same]
    exact emitting.block
  · trivial
  · refine ⟨done, ds, ?_, sub, each⟩
    rw [all, split]
    simp [Stage.item]
  · exact emitting.count
  · refine ⟨recorded, ?_, times⟩
    rw [all, held]
    simp [Stage.unrecorded]

/-- What a record adds to the recorded ones. -/
theorem recorded_record (emitting : Emitting x s h (.taken d)) {i : Tid}
    {a : x.machine.Ans (.record d.hash d.source d.recvNs)} (outcome : DedupeOutcome) :
    ∃ recorded, taken h = recorded ∧ ∀ hash,
      recordTimes hash
        (⟨i, .record d.hash d.source d.recvNs, a, outcome⟩ :: h : List x.machine.Event) =
        (recorded.filter fun d => d.hash = hash).map DecodedTx.recvNs := by
  obtain ⟨recorded, held, times⟩ := emitting.recorded
  refine ⟨recorded ++ [d], held, fun hash => ?_⟩
  by_cases own : d.hash = hash
  · have one : recordTimes hash
        (⟨i, .record d.hash d.source d.recvNs, a, outcome⟩ :: h : List x.machine.Event) =
        recordTimes hash h ++ [d.recvNs] := by
      apply Machine.collect_some
      simp [PipeOp.records, own]
    rw [one, times hash]
    simp [own]
  · have none : recordTimes hash
        (⟨i, .record d.hash d.source d.recvNs, a, outcome⟩ :: h : List x.machine.Event) =
        recordTimes hash h := by
      apply Machine.collect_none
      simp [PipeOp.records, own]
    rw [none, times hash]
    simp [own]

/-- The first observation of a hash is to be published. -/
theorem recordsFresh {s' : PipeState Envelope} (emitting : Emitting x s h (.taken d))
    (same : s'.block = s.block)
    {i : Tid} {a : x.machine.Ans (.record d.hash d.source d.recvNs)} {fs : FirstSeen}
    (first : fs = firstSight x d) :
    Emitting x s' (⟨i, .record d.hash d.source d.recvNs, a, .fresh fs⟩ :: h) (.fresh d fs) := by
  obtain ⟨done, ds, split, sub, each⟩ := emitting.order
  obtain ⟨recorded, held, times⟩ := emitting.recorded_record (a := a) (i := i) (.fresh fs)
  constructor
  · rw [same]
    exact emitting.block
  · exact first
  · exact ⟨done, ds, split, sub, each⟩
  · intro hash
    have before := emitting.count hash
    simp only [Stage.pending, Option.toList_none, List.countP_nil, Nat.add_zero] at before
    have grown : lives hash
        (⟨i, .record d.hash d.source d.recvNs, a, .fresh fs⟩ :: h : List x.machine.Event) =
        lives hash h ++ (if d.hash = hash then some fs else none).toList := Machine.collect_cons _
    rw [grown, List.length_append, ← before]
    by_cases own :
      d.hash = hash <;> simp [own, Stage.pending, published, Machine.collect_cons, PipeOp.publishes]
  · refine ⟨recorded, ?_, times⟩
    rw [← held]
    simp [Stage.unrecorded, taken, Machine.collect_cons, PipeOp.takes]

/-- An observation of a hash that is known is done with. -/
theorem recordsDuplicate {s' : PipeState Envelope} (emitting : Emitting x s h (.taken d))
    (same : s'.block = s.block) {i : Tid} {a : x.machine.Ans (.record d.hash d.source d.recvNs)} :
    Emitting x s' (⟨i, .record d.hash d.source d.recvNs, a, .duplicate⟩ :: h) .idle := by
  obtain ⟨done, ds, split, sub, each⟩ := emitting.order
  obtain ⟨recorded, held, times⟩ := emitting.recorded_record (a := a) (i := i) .duplicate
  constructor
  · rw [same]
    exact emitting.block
  · trivial
  · refine ⟨done ++ [d], ds, ?_, sub.trans (List.sublist_append_left _ _), each⟩
    simpa [Stage.item, taken, Machine.collect_cons, PipeOp.takes] using split
  · intro hash
    have before := emitting.count hash
    have still : lives hash
        (⟨i, .record d.hash d.source d.recvNs, a, .duplicate⟩ :: h : List x.machine.Event) =
        lives hash h := Machine.collect_none rfl
    rw [still, ← before]
    rfl
  · refine ⟨recorded, ?_, times⟩
    rw [← held]
    simp [Stage.unrecorded, taken, Machine.collect_cons, PipeOp.takes]

/-- It is stamped with the newest head. -/
theorem stamps {s' : PipeState Envelope} {fs : FirstSeen} (emitting : Emitting x s h (.fresh d fs))
    (same : s'.block = s.block) {i : Tid} {a : x.machine.Ans (.blockContextFor d.recvNs)} :
    Emitting x s' (⟨i, .blockContextFor d.recvNs, a, s.block.blockContextFor d.recvNs⟩ :: h)
      (.stamped d fs (s.block.blockContextFor d.recvNs)) where
  block := by
    rw [same]
    exact emitting.block
  made := ⟨emitting.made, s.block, emitting.block, rfl⟩
  order := emitting.order
  count := emitting.count
  recorded := emitting.recorded

/-- It is published. -/
theorem publishes {s' : PipeState Envelope} {fs : FirstSeen} {context : BlockContext}
    (emitting : Emitting x s h (.stamped d fs context)) (same : s'.block = s.block) {i : Tid}
    {a : x.machine.Ans (.publish (Pipeline.pendingOf d fs context))} (receivers : Nat) :
    Emitting x s' (⟨i, .publish (Pipeline.pendingOf d fs context), a, receivers⟩ :: h) .idle := by
  have out : published
      (⟨i, .publish (Pipeline.pendingOf d fs context), a, receivers⟩ :: h : List x.machine.Event) =
      published h ++ [Pipeline.pendingOf d fs context] := Machine.collect_some rfl
  obtain ⟨done, ds, split, sub, each⟩ := emitting.order
  obtain ⟨first, block, seen, stamp⟩ := emitting.made
  constructor
  · rw [same]
    exact emitting.block
  · trivial
  · refine ⟨done ++ [d], ds ++ [d], ?_, sub.append_right _, ?_⟩
    · simpa [Stage.item, taken, Machine.collect_cons, PipeOp.takes] using split
    · rw [out]
      apply List.rel_append each
      exact .cons ⟨block, seen, by rw [first, stamp]⟩ .nil
  · intro hash
    rw [out, List.countP_append]
    exact emitting.count hash
  · exact emitting.recorded

end Emitting

/-- A step that neither records nor publishes, and no head, leaves the newest head. -/
theorem exec_block {x : Pipeline Envelope} {o : PipeOp Envelope} {a : o.Ans}
    {s : PipeState Envelope}
    {out : Outcome (PipeState Envelope) (PipeTask Envelope) o.Res} (did : o.exec x a s = some out) :
    out.shared.block = (o.updates out.res).getD s.block := by
  cases o with
  | trySendRaw raw =>
      simp only [PipeOp.exec] at did
      split at did <;> cases did <;> rfl
  | recvRaw =>
      obtain ⟨_, -, rfl⟩ := Option.map_eq_some_iff.mp did
      rfl
  | sendDecoded d =>
      obtain ⟨_, -, rfl⟩ := Option.map_eq_some_iff.mp did
      rfl
  | recvDecoded =>
      obtain ⟨_, -, rfl⟩ := Option.map_eq_some_iff.mp did
      rfl
  | recv j =>
      obtain ⟨_, -, rfl⟩ := Option.map_eq_some_iff.mp did
      rfl
  | _ =>
      cases did
      rfl

section Runs

variable {x : Pipeline Envelope} {C : x.machine.recording.Cond} {workers : List Nat}
  {dedupeRounds janitorTicks : Nat}
  {sources : List (List (RawTx Envelope))} {heads : List CurrentBlock} {subscribers : List Nat}
  {c : Config (PipeSig Envelope) (PipeState Envelope × List x.machine.Event)
    (PipeTask Envelope) Unit}

/-- The dedupe task is the first one. -/
theorem dedupe_position {i n : Nat}
    (found : (Pipeline.tasks workers dedupeRounds janitorTicks sources heads subscribers)[i]? =
      some (.dedupe n)) :
    i = 0 := by
  match i with
  | 0 => rfl
  | 1 | 2 => cases found
  | i + 3 =>
      simp only [Pipeline.tasks, List.getElem?_cons_succ] at found
      have member := List.mem_of_getElem? found
      rcases List.mem_append.mp member with inner | subscriber
      · rcases List.mem_append.mp inner with worker | source
        · obtain ⟨_, -, wrong⟩ := List.mem_map.mp worker
          cases wrong
        · obtain ⟨_, -, wrong⟩ := List.mem_map.mp source
          cases wrong
      · obtain ⟨_, _, wrong⟩ := List.mem_mapIdx.mp subscriber
        cases wrong

/-- The stage that the dedupe task has come to. -/
abbrev dedupeStage (x : Pipeline Envelope) (rounds : Nat) (h : List x.machine.Event) :
    Stage Envelope :=
  (x.protocol (.dedupe rounds)).phase 0 .idle h

/-- The newest head is one that was seen. -/
theorem block_seen {o : PipeOp Envelope} {a : x.machine.Ans o} {s : PipeState Envelope}
    {h : List x.machine.Event}
    {out : Outcome (PipeState Envelope) (PipeTask Envelope) o.Res} (did : o.exec x a s = some out)
    (before : s.block ∈ headsSeen h) {i : Tid} :
    out.shared.block ∈ headsSeen (⟨i, o, a, out.res⟩ :: h) := by
  have heads : headsSeen (⟨i, o, a, out.res⟩ :: h) = headsSeen h ++ (o.updates out.res).toList := by
    simp [headsSeen, Machine.collect_cons]
  rw [exec_block did, heads]
  cases o.updates out.res with
  | none => simpa using before
  | some block => simp

/-- The other tasks take, record and publish nothing. -/
theorem other_task {t : PipeTask Envelope} {o : PipeOp Envelope} (other : ∀ n, t ≠ .dedupe n)
    (does : t.Does o) (result : o.Res) : o.takes result = none ∧ o.publishes result = none ∧
      ∀ hash, o.records hash result = none ∧ o.begins hash result = none := by
  cases o with
  | recvDecoded =>
      cases t with
      | dedupe n => exact absurd rfl (other n)
      | _ => cases does
  | record hash source recvNs =>
      cases t with
      | dedupe n => exact absurd rfl (other n)
      | _ => cases does
  | publish p =>
      cases t with
      | dedupe n => exact absurd rfl (other n)
      | _ => cases does
  | _ => exact ⟨rfl, rfl, fun _ => ⟨rfl, rfl⟩⟩

/-- A step of the dedupe task. -/
theorem emitting_step {s : PipeState Envelope} {h : List x.machine.Event} {q : Stage Envelope}
    {rounds : Nat}
    (emitting : Emitting x s h q) (ttl : s.dedupe.ttlNs = (Dedupe.new x.cfg.dedupeTtlSecs).ttlNs)
    {o : PipeOp Envelope} {a : x.machine.Ans o}
    (does : (PipeTask.dedupe rounds : PipeTask Envelope).Does o)
    (admits : q.Admits o) {out : Outcome (PipeState Envelope) (PipeTask Envelope) o.Res}
    (did : o.exec x a s = some out) {i : Tid} :
    Emitting x out.shared (⟨i, o, a, out.res⟩ :: h) (q.next x o out.res) := by
  cases o with
  | recvDecoded =>
      have idle : q = .idle := admits
      subst idle
      obtain ⟨⟨got, rest⟩, -, rfl⟩ := Option.map_eq_some_iff.mp did
      cases got with
      | none =>
          exact emitting.other rfl rfl (fun _ => rfl) (fun _ => rfl) (block_seen did emitting.block)
      | some d => exact emitting.takes (by rfl) d
  | dropDecodedRx =>
      have idle : q = .idle := admits
      subst idle
      cases did
      exact emitting.other rfl rfl (fun _ => rfl) (fun _ => rfl) emitting.block
  | record hash source recvNs =>
      obtain ⟨d, rfl, rfl, rfl, rfl⟩ := admits
      rcases recorded : s.dedupe.record d.hash d.source d.recvNs with ⟨outcome, dedupe⟩
      simp only [PipeOp.exec, recorded] at did
      cases did
      have outcome_eq : outcome = (s.dedupe.record d.hash d.source d.recvNs).1 := by rw [recorded]
      cases held : s.dedupe.snapshot d.hash with
      | none =>
          rw [record_absent held, ttl] at outcome_eq
          subst outcome_eq
          exact emitting.recordsFresh (by rfl) rfl
      | some e =>
          rw [record_live held] at outcome_eq
          subst outcome_eq
          exact emitting.recordsDuplicate (by rfl)
  | blockContextFor unixNs =>
      obtain ⟨d, fs, rfl, rfl⟩ := admits
      cases did
      exact emitting.stamps rfl
  | publish p =>
      obtain ⟨d, fs, context, rfl, rfl⟩ := admits
      cases did
      exact emitting.publishes (by rfl) _
  | _ => cases does

/-- In every run the dedupe task publishes as its stage says. -/
theorem emitting_of_run (run : x.machine.recording.Run C
      (x.machine.recording.start (x.build workers.length subscribers.length, [])
        (Pipeline.tasks workers dedupeRounds janitorTicks sources heads subscribers)) c) :
    Emitting x c.shared.1 c.shared.2 (dedupeStage x dedupeRounds c.shared.2) := by
  induction run with
  | refl => exact .start workers.length subscribers.length
  | @tail d c before step ih =>
      obtain ⟨i, step⟩ := step
      obtain ⟨t, o, next, a, out, running, -, -, did, shared, -⟩ := step.inversion
      obtain ⟨does, admits⟩ := (Machine.obeyed_of_run Pipeline.obeys before).allows running
      have task := Machine.taskAt_of_run Pipeline.fixed before running
      rw [shared]
      by_cases own : i = 0
      · subst own
        cases task
        have ttl := (lived_of_run before 0).ttl
        have after := emitting_step ih ttl does admits did (i := 0)
        simp only [dedupeStage, Protocol.phase_own]
        exact after
      · have other : ∀ n, t ≠ .dedupe n := by
          rintro n rfl
          exact own (dedupe_position task)
        obtain ⟨untaken, unpublished, unrecorded⟩ := other_task other does out.res
        have same : dedupeStage x dedupeRounds (⟨i, o, a, out.res⟩ :: d.shared.2) =
            dedupeStage x dedupeRounds d.shared.2 :=
          Protocol.phase_other own
        rw [same]
        exact ih.other untaken unpublished (fun hash => (unrecorded hash).1)
          (fun hash => (unrecorded hash).2)
          (block_seen did ih.block)

/-- The process is about to take a decoded transaction. -/
def takesNext (p : Piping Envelope Unit) : Bool :=
  match p with
  | .op .recvDecoded _ => true
  | _ => false

/-- The dedupe task waits for its next transaction. -/
def awaitsDecoded
    (c : Config (PipeSig Envelope) (PipeState Envelope × List x.machine.Event)
      (PipeTask Envelope) Unit) :
    Bool :=
  c.pool[0]?.any fun entry => takesNext entry.2

/-- A dedupe task that waits has nothing in its hands. -/
theorem stage_of_awaits (run : x.machine.recording.Run C
      (x.machine.recording.start (x.build workers.length subscribers.length, [])
        (Pipeline.tasks workers dedupeRounds janitorTicks sources heads subscribers)) c)
    (awaits : awaitsDecoded c = true) : dedupeStage x dedupeRounds c.shared.2 = .idle := by
  obtain ⟨⟨t, p⟩, running, next⟩ := (Option.any_eq_true _ _).mp awaits
  have task := Machine.taskAt_of_run Pipeline.fixed run running
  cases task
  cases p with
  | ret value => cases next
  | op o rest =>
      have admits := ((Machine.obeyed_of_run Pipeline.obeys run).allows running).2
      cases o with
      | recvDecoded => exact admits
      | _ => cases next

/-- When the dedupe task waits, something was published of every hash it took. -/
theorem published_of_taken (run : x.machine.recording.Run C
      (x.machine.recording.start (x.build workers.length subscribers.length, [])
        (Pipeline.tasks workers dedupeRounds janitorTicks sources heads subscribers)) c)
    (awaits : awaitsDecoded c = true) {d : DecodedTx Envelope} (took : d ∈ taken c.shared.2) :
    0 < (published c.shared.2).countP fun p => p.hash = d.hash := by
  have emitting := emitting_of_run run
  have count := emitting.count d.hash
  obtain ⟨recorded, all, times⟩ := emitting.recorded
  rw [stage_of_awaits run awaits] at count all
  simp only [Stage.pending, Stage.unrecorded, Option.toList_none, List.countP_nil, Nat.add_zero,
    List.append_nil] at count all
  have observed : recordTimes d.hash c.shared.2 ≠ [] := by
    rw [times d.hash, ← all]
    intro none
    have member : d ∈ (taken c.shared.2).filter fun e => e.hash = d.hash :=
      List.mem_filter.mpr ⟨took, by simp⟩
    rw [List.map_eq_nil_iff.mp none] at member
    cases member
  rw [count]
  exact List.length_pos_iff.mpr ((lived_of_run run d.hash).seen observed)

end Runs

/-- Of each hash no more is published than, but for one, sweeps came late for it; and when the
dedupe task waits for its next transaction, of every hash it took something was published. -/
theorem published_once_per_lifetime (x : Pipeline Envelope) {C : x.machine.recording.Cond}
    (workers : List Nat) (dedupeRounds janitorTicks : Nat) (sources : List (List (RawTx Envelope)))
    (heads : List CurrentBlock) (subscribers : List Nat)
    {c : Config (PipeSig Envelope) (PipeState Envelope × List x.machine.Event)
      (PipeTask Envelope) Unit}
    (run : x.machine.recording.Run C
      (x.machine.recording.start (x.build workers.length subscribers.length, [])
        (Pipeline.tasks workers dedupeRounds janitorTicks sources heads subscribers)) c)
    (hash : TxHash) :
    (published c.shared.2).countP (fun p => p.hash = hash) ≤ lateSweeps hash c.shared.2 + 1 ∧
      (awaitsDecoded c = true → (∃ d ∈ taken c.shared.2, d.hash = hash) →
        0 < (published c.shared.2).countP fun p => p.hash = hash) := by
  constructor
  · exact Nat.le_trans ((emitting_of_run run).published_le hash) (lived_of_run run hash).bound
  · rintro awaits ⟨d, took, rfl⟩
    exact published_of_taken run awaits took

/-- The janitor sweeps 100 seconds later, between the two observations of the transaction: it is
published twice. -/
theorem published_twice_after_sweep :
    ∃ c, numberPipeline.machine.recording.Run numberPipeline.machine.recording.anyStep
        (numberPipeline.machine.recording.start (numberPipeline.build 1 1, [])
          (Pipeline.tasks [5] 5 1 [localRaws, providerRaws] [] [4])) c ∧
      ((published c.shared.2).countP (fun p => p.hash = 1) = 2 ∧ lateSweeps 1 c.shared.2 = 1) ∧
      (published c.shared.2).countP (fun p => p.hash = 1) ≤ lateSweeps 1 c.shared.2 + 1 ∧
        (awaitsDecoded c = true → (∃ d ∈ taken c.shared.2, d.hash = 1) →
          0 < (published c.shared.2).countP fun p => p.hash = 1) := by
  obtain ⟨c, run, twice⟩ : ∃ c, numberPipeline.machine.recording.Run
      numberPipeline.machine.recording.anyStep
        (numberPipeline.machine.recording.start (numberPipeline.build 1 1, [])
          (Pipeline.tasks [5] 5 1 [localRaws, providerRaws] [] [4])) c ∧
      ((published c.shared.2).countP (fun p => p.hash = 1) = 2 ∧ lateSweeps 1 c.shared.2 = 1) :=
    Machine.exists_run_of_follow (C := numberPipeline.machine.recording.anyStep)
      [(4, 2, clockAt 0), (5, 2, clockAt 0), (3, 7, clockAt 0), (0, 8, clockAt 0),
        (1, 2, clockAt 100000000000),
        (0, 4, clockAt 0)] (by decide +kernel)
  exact ⟨c, run, twice,
    published_once_per_lifetime numberPipeline [5] 5 1 [localRaws, providerRaws] [] [4] run 1⟩

end BscMempool.Bus
