/-
Module: BscMempool.Proofs.DeliveredOnce
Layer: Proofs
Purpose: What a subscriber of the bus is given is the published sequence, with gaps that it is told
  the length of and that are older than the ring keeps. From the sources to a subscriber that missed
  nothing, each hash is delivered exactly once.
Trusted boundary: none
Main exports: given, subscriber_stream, sweepTimes, Settled, delivered_exactly_once
-/
import BscMempool.Proofs.PublishedOnce

namespace BscMempool.Bus

open Concurrent (Broadcast Config Machine Outcome Reads Received Tid)
open Numeric (satAddU64)

variable {Envelope : Type}

/-- What the subscriber `i` is given. -/
def PipeOp.gives (i : Nat) : (o : PipeOp Envelope) → o.Res → Option (Received (PendingTx Envelope))
  | .recv j, result => if j = i then some result else none
  | _, _ => none

/-- The times of the sweeps. -/
def PipeOp.sweepsAt : (o : PipeOp Envelope) → o.Res → Option UInt64
  | .sweepShard _ nowNs, _ => some nowNs
  | _, _ => none

section Histories

variable {x : Pipeline Envelope}

def given (i : Nat) (h : List x.machine.Event) : List (Received (PendingTx Envelope)) :=
  Machine.collect (fun _ => PipeOp.gives i) h

def sweepTimes (h : List x.machine.Event) : List UInt64 :=
  Machine.collect (fun _ => PipeOp.sweepsAt) h

end Histories

/-! ### The bus -/

theorem subscribed_carries (capacity n : Nat) :
    (Pipeline.subscribed (.new capacity) n : Broadcast (PendingTx Envelope)).Carries [] (fun _ => 0)
      (fun _ => []) ∧
      (Pipeline.subscribed (.new capacity) n : Broadcast (PendingTx Envelope)).capacity =
        capacity := by
  induction n with
  | zero =>
      refine ⟨⟨rfl, rfl, ?_, ?_⟩, rfl⟩
      · intro i next there
        cases there
      · intro i next there
        cases there
  | succ n ih =>
      obtain ⟨⟨tail, kept, reads, behind⟩, same⟩ := ih
      -- the new cursor is at the start, as nothing was sent
      have fresh : ∀ i next,
          (Pipeline.subscribed (.new capacity) (n + 1) : Broadcast (PendingTx Envelope)).cursor i =
          some next → next = 0 := by
        intro i next there
        simp only [Pipeline.subscribed, Broadcast.subscribe, Broadcast.cursor] at there
        rw [List.getElem?_append] at there
        split at there
        · have early := behind i next there
          rw [tail] at early
          exact Nat.le_zero.mp early
        · cases at_ : i - (Pipeline.subscribed
            (Broadcast.new capacity : Broadcast (PendingTx Envelope)) n).cursors.length with
          | zero =>
              rw [at_] at there
              exact (Option.some.inj there).symm.trans tail
          | succ k =>
              rw [at_] at there
              cases there
      refine ⟨⟨tail, kept, ?_, ?_⟩, same⟩
      · intro i next there
        rw [fresh i next there]
        exact .nil
      · intro i next there
        rw [fresh i next there]
        exact Nat.zero_le _

/-- The bus of a state in a history: each subscriber has read of what was published, all of which
went through the ring as long as somebody listens. -/
structure Streams (x : Pipeline Envelope) (b : Broadcast (PendingTx Envelope))
    (h : List x.machine.Event) : Prop where
  capacity : b.capacity = x.cfg.broadcastCapacity
  carries : ∃ sent, b.Carries sent (fun _ => 0) (fun i => given i h) ∧
    ∀ i next, b.cursor i = some next → sent = published h

namespace Streams

variable {x : Pipeline Envelope} {b : Broadcast (PendingTx Envelope)} {h : List x.machine.Event}

theorem other (streams : Streams x b h) {e : x.machine.Event}
    (unpublished : PipeOp.publishes e.op e.res = none)
    (ungiven : ∀ i, PipeOp.gives i e.op e.res = none) : Streams x b (e :: h) := by
  obtain ⟨sent, carries, all⟩ := streams.carries
  have same : (fun i => given i (e :: h)) = fun i => given i h :=
    funext fun i => Machine.collect_none (ungiven i)
  refine ⟨streams.capacity, sent, same ▸ carries, ?_⟩
  have out : published (e :: h) = published h := Machine.collect_none unpublished
  rw [out]
  exact all

theorem publish (streams : Streams x b h) {i : Tid} (p : PendingTx Envelope)
    {a : x.machine.Ans (.publish p)}
    (receivers : Nat) : Streams x (b.send p) (⟨i, .publish p, a, receivers⟩ :: h) := by
  obtain ⟨sent, carries, all⟩ := streams.carries
  have same : (fun j => given j (⟨i, .publish p, a, receivers⟩ :: h)) = fun j => given j h :=
    funext fun j => Machine.collect_none rfl
  have out : published (⟨i, .publish p, a, receivers⟩ :: h : List x.machine.Event) =
      published h ++ [p] :=
    Machine.collect_some rfl
  unfold Broadcast.send
  split
  · -- nobody listens: the message is not kept
    rename_i nobody
    refine ⟨streams.capacity, sent, same ▸ carries, ?_⟩
    intro j next there
    have listens : b.cursors.countP Option.isSome ≠ 0 := by
      unfold Broadcast.cursor at there
      cases found : b.cursors[j]? with
      | none => simp [found] at there
      | some position =>
          rw [found] at there
          have held : position = some next := there
          rw [← Nat.pos_iff_ne_zero, List.countP_pos_iff]
          exact ⟨position, List.mem_of_getElem? found, by rw [held]; rfl⟩
    exact absurd nobody listens
  · refine ⟨streams.capacity, sent ++ [p], same ▸ carries.keep p, ?_⟩
    intro j next there
    rw [out, all j next there]

theorem recv (streams : Streams x b h) {i j : Nat} {result : Received (PendingTx Envelope)}
    {b' : Broadcast (PendingTx Envelope)} (got : b.recv j = some (result, b'))
    {a : x.machine.Ans (.recv j)} :
    Streams x b' (⟨i, .recv j, a, result⟩ :: h) := by
  obtain ⟨sent, carries, all⟩ := streams.carries
  have grown : (fun k => given k (⟨i, .recv j, a, result⟩ :: h)) =
      Function.update (fun k => given k h) j (given j h ++ [result]) := by
    funext k
    by_cases own : j = k
    · subst own
      rw [Function.update_self]
      apply Machine.collect_some
      simp [PipeOp.gives]
    · rw [Function.update_of_ne (Ne.symm own)]
      apply Machine.collect_none
      simp [PipeOp.gives, own]
  obtain ⟨same, -⟩ := Broadcast.recv_frame got
  refine ⟨same.trans streams.capacity, sent, grown ▸ carries.recv got, ?_⟩
  intro k next there
  obtain ⟨before, held⟩ := Broadcast.cursor_of_recv got there
  exact all k before held

theorem drop (streams : Streams x b h) {i : Tid} (j : Nat)
    {a : x.machine.Ans (.dropSubscription j)} :
    Streams x (b.drop j) (⟨i, .dropSubscription j, a, ()⟩ :: h) := by
  have kept := streams.other (e := ⟨i, .dropSubscription j, a, ()⟩) rfl fun _ => rfl
  obtain ⟨sent, carries, all⟩ := kept.carries
  refine ⟨streams.capacity, sent, carries.drop j, ?_⟩
  intro k next there
  exact all k next (Broadcast.cursor_drop b j k there)

end Streams

theorem streams_of_run {x : Pipeline Envelope} {C : x.machine.recording.Cond}
    {workers subscribers : Nat} {all : List (PipeTask Envelope)}
    {c : Config (PipeSig Envelope) (PipeState Envelope × List x.machine.Event)
      (PipeTask Envelope) Unit}
    (run : x.machine.recording.Run C
      (x.machine.recording.start (x.build workers subscribers, []) all) c) :
    Streams x c.shared.1.bus c.shared.2 := by
  apply Machine.invariant_of_exec (I := fun s : PipeState Envelope × List x.machine.Event =>
    Streams x s.1.bus s.2) _ run
  · obtain ⟨carries, same⟩ := @subscribed_carries Envelope x.cfg.broadcastCapacity subscribers
    exact ⟨same, [], carries, fun _ _ _ => rfl⟩
  · intro i fresh o a s out streams _ did
    have same : PipeOp.exec x o a s.1 = some out := did
    cases o with
    | publish p =>
        cases same
        exact streams.publish p _
    | recv j =>
        obtain ⟨⟨result, b⟩, got, rfl⟩ := Option.map_eq_some_iff.mp same
        exact streams.recv got
    | dropSubscription j =>
        cases same
        exact streams.drop j
    | trySendRaw raw =>
        simp only [PipeOp.exec] at same
        split at same <;> cases same <;> exact streams.other rfl fun _ => rfl
    | recvRaw =>
        obtain ⟨_, -, rfl⟩ := Option.map_eq_some_iff.mp same
        exact streams.other rfl fun _ => rfl
    | sendDecoded d =>
        obtain ⟨_, -, rfl⟩ := Option.map_eq_some_iff.mp same
        exact streams.other rfl fun _ => rfl
    | recvDecoded =>
        obtain ⟨_, -, rfl⟩ := Option.map_eq_some_iff.mp same
        exact streams.other rfl fun _ => rfl
    | _ =>
        cases same
        exact streams.other rfl fun _ => rfl

/-- What a subscriber is given is what is published, in its order: it counts what it missed, and
misses only what as many later transactions were published after as the ring keeps. -/
theorem subscriber_stream (x : Pipeline Envelope) {C : x.machine.recording.Cond}
    (workers : List Nat) (dedupeRounds janitorTicks : Nat) (sources : List (List (RawTx Envelope)))
    (heads : List CurrentBlock) (subscribers : List Nat)
    {c : Config (PipeSig Envelope) (PipeState Envelope × List x.machine.Event)
      (PipeTask Envelope) Unit}
    (run : x.machine.recording.Run C
      (x.machine.recording.start (x.build workers.length subscribers.length, [])
        (Pipeline.tasks workers dedupeRounds janitorTicks sources heads subscribers)) c)
    {i next : Nat} (listens : c.shared.1.bus.cursor i = some next) :
    Reads x.cfg.broadcastCapacity (published c.shared.2) 0 (given i c.shared.2) next ∧
      (Received.messages (given i c.shared.2)).Sublist (published c.shared.2) ∧
      (Received.messages (given i c.shared.2)).length +
        Received.missed (given i c.shared.2) = next ∧
      next ≤ (published c.shared.2).length := by
  obtain ⟨capacity, sent, carries, all⟩ := streams_of_run run
  have reads := carries.reads i next listens
  have behind := carries.behind i next listens
  rw [carries.tail_eq, all i next listens] at behind
  rw [capacity, all i next listens] at reads
  refine ⟨reads, ?_, ?_, behind⟩
  · exact reads.sublist.trans ((List.drop_sublist _ _).trans (List.take_sublist _ _))
  · rw [← reads.count, Nat.zero_add]

/-- The pipeline with a ring that keeps one message. -/
def narrowPipeline : Pipeline Nat := { numberPipeline with cfg := { broadcastCapacity := 1 } }

/-- The subscriber missed the first of two transactions, and knows it. -/
theorem subscriber_stream_lagged :
    ∃ c, narrowPipeline.machine.recording.Run narrowPipeline.machine.recording.anyStep
        (narrowPipeline.machine.recording.start (narrowPipeline.build 1 1, [])
          (Pipeline.tasks [5] 5 1 [localRaws] [] [4])) c ∧
      ((Received.messages (given 0 c.shared.2)).map PendingTx.hash = [2] ∧
        c.shared.1.bus.cursor 0 = some 2) ∧
      Reads 1 (published c.shared.2) 0 (given 0 c.shared.2) 2 ∧
      (Received.messages (given 0 c.shared.2)).Sublist (published c.shared.2) ∧
      (Received.messages (given 0 c.shared.2)).length + Received.missed (given 0 c.shared.2) = 2 ∧
      2 ≤ (published c.shared.2).length := by
  obtain ⟨c, run, lagged⟩ : ∃ c, narrowPipeline.machine.recording.Run
      narrowPipeline.machine.recording.anyStep
        (narrowPipeline.machine.recording.start (narrowPipeline.build 1 1, [])
          (Pipeline.tasks [5] 5 1 [localRaws] [] [4])) c ∧
      ((Received.messages (given 0 c.shared.2)).map PendingTx.hash = [2] ∧
        c.shared.1.bus.cursor 0 = some 2) :=
    Machine.exists_run_of_follow (C := narrowPipeline.machine.recording.anyStep)
      [(4, 2, clockAt 0), (3, 4, clockAt 0), (0, 8, clockAt 0), (5, 2, clockAt 0)]
        (by decide +kernel)
  exact ⟨c, run, lagged, subscriber_stream narrowPipeline [5] 5 1 [localRaws] [] [4] run lagged.2⟩

/-! ### From the sources to a subscriber -/

/-- Nothing is under way: both queues are open and empty, no worker has anything in its hands, and
the dedupe task waits. -/
structure Settled {x : Pipeline Envelope}
    (c : Config (PipeSig Envelope) (PipeState Envelope × List x.machine.Event) (PipeTask Envelope)
      Unit) : Prop where
  rawOpen : c.shared.1.raw.isOpen = true
  decodedOpen : c.shared.1.decoded.isOpen = true
  rawEmpty : c.shared.1.raw.queue = []
  decodedEmpty : c.shared.1.decoded.queue = []
  handsEmpty : hands c = []
  awaits : awaitsDecoded c = true

theorem exists_of_bind_ok {ε α β : Type} {m : Except ε α} {f : α → Except ε β} {b : β}
    (ok : m >>= f = .ok b) :
    ∃ a, m = .ok a ∧ f a = .ok b := by
  cases m with
  | error e => cases ok
  | ok a => exact ⟨a, rfl, ok⟩

/-- A transaction keeps its hash and its arrival when it is decoded. -/
theorem decodes_some {x : Pipeline Envelope} {raw : RawTx Envelope} {d : DecodedTx Envelope}
    (decoded : x.decodes raw = some d) : d.hash = raw.hash ∧ d.recvNs = raw.recvNs := by
  unfold Pipeline.decodes at decoded
  cases ok : x.lib.decodeToDecoded raw with
  | error e =>
      rw [ok] at decoded
      cases decoded
  | ok d' =>
      rw [ok] at decoded
      cases decoded
      unfold Envelopes.decodeToDecoded at ok
      obtain ⟨⟨tx, rawBytes⟩, -, rest⟩ := exists_of_bind_ok ok
      obtain ⟨from_, -, last⟩ := exists_of_bind_ok rest
      cases last
      exact ⟨rfl, rfl⟩

/-- No sweep is late that comes before every expiry. -/
theorem lateSweeps_eq_zero {x : Pipeline Envelope} {h : List x.machine.Event} {hash : TxHash}
    (early : ∀ recvNs ∈ recordTimes hash h, ∀ nowNs ∈ sweepTimes h,
      nowNs ≤ satAddU64 recvNs (Dedupe.new x.cfg.dedupeTtlSecs).ttlNs) : lateSweeps hash h = 0 := by
  induction h with
  | nil => rfl
  | cons e older ih =>
      have before : lateSweeps hash older = 0 := by
        apply ih
        intro recvNs recorded nowNs swept
        apply early
        · rw [recordTimes, Machine.collect_cons]
          exact List.mem_append_left _ recorded
        · rw [sweepTimes, Machine.collect_cons]
          exact List.mem_append_left _ swept
      have onTime : expires x hash (recordTimes hash older) e.op = false := by
        by_contra late
        rw [Bool.not_eq_false] at late
        obtain ⟨i, o, a, r⟩ := e
        cases o with
        | sweepShard shard nowNs =>
            simp only [expires, Bool.and_eq_true, List.any_eq_true, decide_eq_true_eq] at late
            obtain ⟨-, recvNs, recorded, passed⟩ := late
            have bound : nowNs ≤ satAddU64 recvNs (Dedupe.new x.cfg.dedupeTtlSecs).ttlNs := by
              apply early recvNs
              · rw [recordTimes, Machine.collect_cons]
                exact List.mem_append_left _ recorded
              · rw [sweepTimes, Machine.collect_cons]
                exact List.mem_append_right _ (List.mem_singleton_self nowNs)
            exact absurd passed (UInt64.not_lt.mpr bound)
        | _ => cases late
      simp [lateSweeps, before, onTime]

section Settled

variable {x : Pipeline Envelope} {C : x.machine.recording.Cond} {workers : List Nat}
  {dedupeRounds janitorTicks : Nat}
  {sources : List (List (RawTx Envelope))} {heads : List CurrentBlock} {subscribers : List Nat}
  {c : Config (PipeSig Envelope) (PipeState Envelope × List x.machine.Event)
    (PipeTask Envelope) Unit}

/-- Once nothing is under way, the dedupe task has taken what was accepted and decodes. -/
theorem mem_taken (run : x.machine.recording.Run C
      (x.machine.recording.start (x.build workers.length subscribers.length, [])
        (Pipeline.tasks workers dedupeRounds janitorTicks sources heads subscribers)) c)
    (settled : Settled c) (d : DecodedTx Envelope) :
    d ∈ taken c.shared.2 ↔ ∃ raw ∈ accepted c.shared.2, x.decodes raw = some d := by
  obtain ⟨raw, decoded⟩ := queues_account run
  have conserved := workers_account run settled.decodedOpen
  have sent := decoded settled.decodedOpen
  have got := raw settled.rawOpen
  rw [settled.decodedEmpty, List.append_nil] at sent
  rw [settled.rawEmpty, List.append_nil] at got
  rw [settled.handsEmpty, List.append_nil, ← got, sent] at conserved
  rw [← conserved.mem_iff, List.mem_filterMap]

/-- A subscriber that missed nothing and has read all was given what was published. -/
theorem given_all (run : x.machine.recording.Run C
      (x.machine.recording.start (x.build workers.length subscribers.length, [])
        (Pipeline.tasks workers dedupeRounds janitorTicks sources heads subscribers)) c)
    {i next : Nat} (listens : c.shared.1.bus.cursor i = some next)
    (readAll : c.shared.1.bus.recv i = none)
    (missedNone : Received.missed (given i c.shared.2) = 0) :
    Received.messages (given i c.shared.2) = published c.shared.2 := by
  obtain ⟨-, sent, carries, all⟩ := streams_of_run run
  have past := Broadcast.recv_none listens readAll
  rw [carries.tail_eq, all i next listens] at past
  have complete := (carries.reads i next listens).complete missedNone
  rwa [all i next listens, List.drop_zero, List.take_of_length_le past] at complete

/-- Where no sweep comes later than an expiry, nothing is published twice. -/
theorem published_nodup (run : x.machine.recording.Run C
      (x.machine.recording.start (x.build workers.length subscribers.length, [])
        (Pipeline.tasks workers dedupeRounds janitorTicks sources heads subscribers)) c)
    (settled : Settled c)
    (early : ∀ raw ∈ accepted c.shared.2, ∀ nowNs ∈ sweepTimes c.shared.2,
      nowNs ≤ satAddU64 raw.recvNs (Dedupe.new x.cfg.dedupeTtlSecs).ttlNs) :
    ((published c.shared.2).map PendingTx.hash).Nodup := by
  obtain ⟨recorded, all, times⟩ := (emitting_of_run run).recorded
  rw [List.nodup_iff_count_le_one]
  intro hash
  have onTime : lateSweeps hash c.shared.2 = 0 := by
    apply lateSweeps_eq_zero
    intro recvNs observed
    rw [times hash, List.mem_map] at observed
    obtain ⟨d, member, rfl⟩ := observed
    have took : d ∈ taken c.shared.2 := by
      rw [all]
      exact List.mem_append_left _ (List.mem_filter.mp member).1
    obtain ⟨raw, held, decoded⟩ := (mem_taken run settled d).mp took
    rw [(decodes_some decoded).2]
    exact early raw held
  calc ((published c.shared.2).map PendingTx.hash).count hash
      = (published c.shared.2).countP fun p => p.hash = hash := by
        rw [List.count, List.countP_map]
        rfl
    _ ≤ (lives hash c.shared.2).length := (emitting_of_run run).published_le hash
    _ ≤ lateSweeps hash c.shared.2 + 1 := (lived_of_run run hash).bound
    _ = 1 := by rw [onTime]

theorem exists_left_of_mem {α β : Type} {R : α → β → Prop} {as : List α} {bs : List β}
    (each : List.Forall₂ R as bs) {b : β} (member : b ∈ bs) : ∃ a ∈ as, R a b := by
  induction each with
  | nil => cases member
  | @cons a b' as bs related _ ih =>
      rcases List.mem_cons.mp member with rfl | later
      · exact ⟨a, List.mem_cons_self, related⟩
      · obtain ⟨a', inside, holds⟩ := ih later
        exact ⟨a', List.mem_cons_of_mem _ inside, holds⟩

/-- Once nothing is under way, something was published of every hash that was
taken, and of no other. -/
theorem mem_published (run : x.machine.recording.Run C
      (x.machine.recording.start (x.build workers.length subscribers.length, [])
        (Pipeline.tasks workers dedupeRounds janitorTicks sources heads subscribers)) c)
    (settled : Settled c) (hash : TxHash) :
    hash ∈ (published c.shared.2).map PendingTx.hash ↔ ∃ d ∈ taken c.shared.2, d.hash = hash := by
  constructor
  · intro member
    obtain ⟨done, ds, split, sub, each⟩ := (emitting_of_run run).order
    obtain ⟨p, out, rfl⟩ := List.mem_map.mp member
    obtain ⟨d, from_, block, -, rfl⟩ := exists_left_of_mem each out
    refine ⟨d, ?_, rfl⟩
    rw [split]
    exact List.mem_append_left _ (sub.subset from_)
  · rintro ⟨d, took, own⟩
    have some := published_of_taken run settled.awaits took
    obtain ⟨p, out, same⟩ := List.countP_pos_iff.mp some
    rw [decide_eq_true_eq] at same
    exact List.mem_map.mpr ⟨p, out, same.trans own⟩

end Settled

/-- Once nothing is under way, a subscriber that missed nothing and is given nothing more was given
one transaction of each hash that the sources had accepted and that decodes, and no other: provided
that no sweep came later than the expiry of what was accepted. -/
theorem delivered_exactly_once (x : Pipeline Envelope) {C : x.machine.recording.Cond}
    (workers : List Nat) (dedupeRounds janitorTicks : Nat) (sources : List (List (RawTx Envelope)))
    (heads : List CurrentBlock) (subscribers : List Nat)
    {c : Config (PipeSig Envelope) (PipeState Envelope × List x.machine.Event)
      (PipeTask Envelope) Unit}
    (run : x.machine.recording.Run C
      (x.machine.recording.start (x.build workers.length subscribers.length, [])
        (Pipeline.tasks workers dedupeRounds janitorTicks sources heads subscribers)) c)
    (settled : Settled c)
    (early : ∀ raw ∈ accepted c.shared.2, ∀ nowNs ∈ sweepTimes c.shared.2,
      nowNs ≤ satAddU64 raw.recvNs (Dedupe.new x.cfg.dedupeTtlSecs).ttlNs)
    {i next : Nat} (listens : c.shared.1.bus.cursor i = some next)
    (readAll : c.shared.1.bus.recv i = none)
    (missedNone : Received.missed (given i c.shared.2) = 0) :
    ((Received.messages (given i c.shared.2)).map PendingTx.hash).Nodup ∧
      ∀ hash, hash ∈ (Received.messages (given i c.shared.2)).map PendingTx.hash ↔
        ∃ raw ∈ accepted c.shared.2, raw.hash = hash ∧ (x.decodes raw).isSome = true := by
  rw [given_all run listens readAll missedNone]
  refine ⟨published_nodup run settled early, fun hash => ?_⟩
  rw [mem_published run settled hash]
  constructor
  · rintro ⟨d, took, own⟩
    obtain ⟨raw, held, decoded⟩ := (mem_taken run settled d).mp took
    refine ⟨raw, held, ?_, ?_⟩
    · rw [← own, (decodes_some decoded).1]
    · rw [decoded]
      rfl
  · rintro ⟨raw, held, own, decodable⟩
    obtain ⟨d, decoded⟩ := Option.isSome_iff_exists.mp decodable
    refine ⟨d, (mem_taken run settled d).mpr ⟨raw, held, decoded⟩, ?_⟩
    rw [(decodes_some decoded).1, own]

/-- Two sources send three transactions that decode, of two hashes: the subscriber is given both. -/
theorem delivered_exactly_once_two :
    ∃ c, numberPipeline.machine.recording.Run numberPipeline.machine.recording.anyStep
        (numberPipeline.machine.recording.start (numberPipeline.build 2 1, [])
          (Pipeline.tasks [5, 5] 5 1 [localRaws, providerRaws] [] [4])) c ∧
      (Received.messages (given 0 c.shared.2)).length = 2 ∧
      ((Received.messages (given 0 c.shared.2)).map PendingTx.hash).Nodup ∧
      ∀ hash, hash ∈ (Received.messages (given 0 c.shared.2)).map PendingTx.hash ↔
        ∃ raw ∈ accepted c.shared.2, raw.hash = hash ∧
          (numberPipeline.decodes raw).isSome = true := by
  obtain ⟨c, run, two, opened, empty, handsEmpty, awaits, early, listens, readAll, missedNone⟩ :
      ∃ c,
      numberPipeline.machine.recording.Run numberPipeline.machine.recording.anyStep
        (numberPipeline.machine.recording.start (numberPipeline.build 2 1, [])
          (Pipeline.tasks [5, 5] 5 1 [localRaws, providerRaws] [] [4])) c ∧
      (Received.messages (given 0 c.shared.2)).length = 2 ∧
      (c.shared.1.raw.isOpen = true ∧ c.shared.1.decoded.isOpen = true) ∧
      (c.shared.1.raw.queue = [] ∧ c.shared.1.decoded.queue = []) ∧ hands c = [] ∧
      awaitsDecoded c = true ∧
      ((accepted c.shared.2).all fun raw => (sweepTimes c.shared.2).all fun nowNs =>
        decide (nowNs ≤ satAddU64 raw.recvNs (Dedupe.new numberPipeline.cfg.dedupeTtlSecs).ttlNs)) =
          true ∧
      c.shared.1.bus.cursor 0 = some 2 ∧ (c.shared.1.bus.recv 0).isNone = true ∧
      Received.missed (given 0 c.shared.2) = 0 :=
    Machine.exists_run_of_follow (C := numberPipeline.machine.recording.anyStep)
      [(5, 2, clockAt 0), (6, 2, clockAt 0), (4, 3, clockAt 0), (3, 3, clockAt 0),
        (4, 1, clockAt 0),
        (0, 6, clockAt 0), (1, 2, clockAt 1000000000), (7, 1, clockAt 0), (0, 4, clockAt 0),
        (7, 1, clockAt 0)]
      (by decide +kernel)
  simp only [List.all_eq_true, decide_eq_true_eq] at early
  exact ⟨c, run, two, delivered_exactly_once numberPipeline [5, 5] 5 1 [localRaws, providerRaws]
    [] [4] run
    ⟨opened.1, opened.2, empty.1, empty.2, handsEmpty, awaits⟩ early listens
      (Option.isNone_iff_eq_none.mp readAll)
    missedNone⟩

end BscMempool.Bus
