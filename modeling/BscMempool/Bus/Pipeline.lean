/-
Module: BscMempool.Bus.Pipeline
Layer: Bus
Purpose: The pipeline from the sources to the subscribers of the bus: a queue of raw transactions, a
  pool of workers that decode them, a queue of decoded ones, one task that dedupes and publishes,
  the janitor that sweeps the dedupe table, and the newest head that each published transaction is
  stamped with.
Trusted boundary: human-reviewed translation of
  bsc-bus/src/{pipeline,decoder,fanout,subscription,current_block}.rs, with the tokio channels as
  atomic steps and the tables' shards swept one at a time. A task that is told to shut down ends
  after a round; metrics and log lines are left out.
Main exports: RawTx, DecodedTx, PendingTx, CurrentBlock, PipeOp, Pipeline, Pipeline.machine,
  Pipeline.build
-/
import BscMempool.Bus.Dedupe
import BscMempool.Concurrent.Broadcast
import BscMempool.Concurrent.Fifo
import BscMempool.Concurrent.Trace

namespace BscMempool.Bus

open Concurrent (Broadcast Fifo Machine Outcome Proc Received Sig Tid)
open Numeric (satSubU64)

abbrev Address := BitVec 160

/-! ### What flows through the pipeline -/

/-- What a source saw of a transaction: the envelope, or its network encoding. -/
inductive RawPayload (Envelope : Type) where
  | decoded (tx : Envelope) (raw : Option (List UInt8))
  | rlpBytes (rlp : List UInt8)
deriving DecidableEq, Repr

structure RawTx (Envelope : Type) where
  source : SourceId
  recvNs : UInt64
  hash : TxHash
  payload : RawPayload Envelope
deriving DecidableEq, Repr

structure DecodedTx (Envelope : Type) where
  hash : TxHash
  from_ : Address
  tx : Envelope
  source : SourceId
  recvNs : UInt64
  raw : Option (List UInt8)
deriving DecidableEq, Repr

structure BlockContext where
  blockNumber : UInt64
  parentBlockHash : TxHash
  msIntoBlock : UInt32
deriving DecidableEq, Repr

structure PendingTx (Envelope : Type) where
  hash : TxHash
  from_ : Address
  tx : Envelope
  firstSeenNs : UInt64
  sourceSeen : List (SourceId × UInt64)
  raw : Option (List UInt8)
  blockContext : Option BlockContext
deriving DecidableEq, Repr

/-! ### Decoding -/

inductive DecodeError where
  | rlp (reason : String)
  | recover (reason : String)
deriving DecidableEq, Repr

/-- The decoder and the signature recovery of the envelope type. -/
structure Envelopes (Envelope : Type) where
  decode : List UInt8 → Except String Envelope
  recoverSigner : Envelope → Except String Address

namespace Envelopes

variable {Envelope : Type} (lib : Envelopes Envelope)

def decodeEnvelope (rlp : List UInt8) : Except DecodeError Envelope :=
  (lib.decode rlp).mapError .rlp

def recoverSigner' (tx : Envelope) : Except DecodeError Address :=
  (lib.recoverSigner tx).mapError .recover

/-- The envelope of a payload, and its network encoding. -/
def unpack : RawPayload Envelope → Except DecodeError (Envelope × Option (List UInt8))
  | .decoded tx rawBytes => .ok (tx, rawBytes)
  | .rlpBytes rlp => (lib.decodeEnvelope rlp).map fun tx => (tx, some rlp)

/-- Turn what a source sent into a decoded transaction.  The hash is the one the source gave. -/
def decodeToDecoded (raw : RawTx Envelope) : Except DecodeError (DecodedTx Envelope) := do
  let (tx, rawBytes) ← lib.unpack raw.payload
  let from_ ← lib.recoverSigner' tx
  return {
    hash := raw.hash
    from_ := from_
    tx := tx
    source := raw.source
    recvNs := raw.recvNs
    raw := rawBytes }

end Envelopes

/-! ### The newest head -/

structure CurrentBlock where
  blockNumber : UInt64 := 0
  blockHash : TxHash := 0
  parentBlockHash : TxHash := 0
  /-- When the head arrived, in Unix nanoseconds. -/
  seenAtUnixNs : UInt64 := 0
deriving DecidableEq, Repr

/-- `u32::try_from(ms).unwrap_or(u32::MAX)`. -/
def clampU32 (ms : UInt64) : UInt32 :=
  if ms.toNat < UInt32.size then ms.toUInt32 else UInt32.ofNat (UInt32.size - 1)

/-- The block context of a transaction observed at `unixNs`. -/
def CurrentBlock.blockContextFor (block : CurrentBlock) (unixNs : UInt64) : BlockContext where
  blockNumber := block.blockNumber
  parentBlockHash := block.parentBlockHash
  msIntoBlock := clampU32 (satSubU64 unixNs block.seenAtUnixNs / 1000000)

/-! ### The atomic steps -/

/-- `retain` on the hashes of one shard. -/
def retainOn (here : TxHash → Bool) (m : AList fun _ : TxHash => FirstSeen)
    (keep : FirstSeen → Bool) :
    AList fun _ : TxHash => FirstSeen :=
  ⟨m.entries.filter fun entry => !here entry.1 || keep entry.2,
    m.nodupKeys.sublist List.filter_sublist⟩

theorem lookup_retainOn (here : TxHash → Bool) (m : AList fun _ : TxHash => FirstSeen)
    (keep : FirstSeen → Bool) (hash : TxHash) :
    (retainOn here m keep).lookup hash = if here hash then (m.lookup hash).filter keep
      else m.lookup hash := by
  ext entry
  have stays : entry ∈ (retainOn here m keep).lookup hash ↔
      entry ∈ m.lookup hash ∧ (!here hash || keep entry) = true := by
    constructor
    · intro found
      have member := List.of_mem_dlookup found
      simp only [retainOn, List.mem_filter] at member
      exact ⟨(List.mem_dlookup_iff m.nodupKeys).2 member.1, member.2⟩
    · rintro ⟨found, kept⟩
      apply (List.mem_dlookup_iff (retainOn here m keep).nodupKeys).2
      simp only [retainOn, List.mem_filter]
      exact ⟨List.of_mem_dlookup found, kept⟩
  rw [← Option.mem_def, stays, Option.mem_def]
  cases onShard : here hash with
  | false => simp
  | true => simp [Option.filter_eq_some_iff]

/-- The sweep of one shard of the table. -/
def Dedupe.sweepOn (d : Dedupe) (here : TxHash → Bool) (nowNs : UInt64) : Dedupe :=
  { d with map := retainOn here d.map fun entry => decide (nowNs ≤ entry.expiresAtNs) }

inductive PipeOp (Envelope : Type) where
  | trySendRaw (raw : RawTx Envelope)
  | recvRaw
  | dropRawRx
  | sendDecoded (d : DecodedTx Envelope)
  | dropDecodedTx
  | recvDecoded
  | dropDecodedRx
  | record (hash : TxHash) (source : SourceId) (recvNs : UInt64)
  | blockContextFor (unixNs : UInt64)
  | publish (p : PendingTx Envelope)
  | unixNowNs
  | sweepShard (shard : Nat) (nowNs : UInt64)
  | onNewHead (block : CurrentBlock)
  | recv (subscriber : Nat)
  | dropSubscription (subscriber : Nat)

abbrev PipeOp.Res {Envelope : Type} : PipeOp Envelope → Type
  | .trySendRaw _ => Bool
  | .recvRaw => Option (RawTx Envelope)
  | .sendDecoded _ => Bool
  | .recvDecoded => Option (DecodedTx Envelope)
  | .record .. => DedupeOutcome
  | .blockContextFor _ => BlockContext
  | .publish _ => Nat
  | .unixNowNs => UInt64
  | .recv _ => Received (PendingTx Envelope)
  | _ => Unit

abbrev PipeSig (Envelope : Type) : Sig := ⟨PipeOp Envelope, PipeOp.Res⟩

abbrev Piping (Envelope α : Type) := Proc (PipeSig Envelope) α

def onPipe {Envelope : Type} (o : PipeOp Envelope) : Piping Envelope o.Res :=
  @Proc.call (PipeSig Envelope) o

/-- The channels and tables that the tasks share. -/
structure PipeState (Envelope : Type) where
  raw : Fifo (RawTx Envelope)
  decoded : Fifo (DecodedTx Envelope)
  dedupe : Dedupe
  block : CurrentBlock
  bus : Broadcast (PendingTx Envelope)

structure PipelineConfig where
  rawChannelCapacity : Nat := 32768
  decodedChannelCapacity : Nat := 32768
  broadcastCapacity : Nat := 65536
  dedupeTtlSecs : UInt64 := 60
deriving DecidableEq, Repr

/-- What the pipeline is built with: its configuration, the envelope library and the
shards of the table. -/
structure Pipeline (Envelope : Type) where
  cfg : PipelineConfig
  lib : Envelopes Envelope
  shards : Nat
  shardOf : TxHash → Nat

/-- The tasks.  A worker, the dedupe task, the janitor and a subscriber end after a number of
rounds; a source sends what it sees. -/
inductive PipeTask (Envelope : Type) where
  | worker (rounds : Nat)
  | dedupe (rounds : Nat)
  | janitor (ticks : Nat)
  | source (raws : List (RawTx Envelope))
  | heads (blocks : List CurrentBlock)
  | subscriber (i rounds : Nat)
deriving DecidableEq, Repr

namespace Pipeline

variable {Envelope : Type} (x : Pipeline Envelope)

def stopWorker : Piping Envelope Unit := do
  onPipe .dropRawRx
  onPipe .dropDecodedTx

/-- The lock around the receiving end is held for the one step that takes from the queue. -/
def runDecoderWorker : Nat → Piping Envelope Unit
  | 0 => stopWorker
  | rounds + 1 => do
      match ← onPipe .recvRaw with
      | none => stopWorker
      | some raw =>
          match x.lib.decodeToDecoded raw with
          | .ok decoded =>
              let sent ← onPipe (.sendDecoded decoded)
              if sent then runDecoderWorker rounds else stopWorker
          | .error _ => runDecoderWorker rounds

def pendingOf (d : DecodedTx Envelope) (fs : FirstSeen) (context : BlockContext) :
    PendingTx Envelope where
  hash := d.hash
  from_ := d.from_
  tx := d.tx
  firstSeenNs := fs.firstNs
  sourceSeen := fs.sources
  raw := d.raw
  blockContext := some context

def runDedupe : Nat → Piping Envelope Unit
  | 0 => onPipe .dropDecodedRx
  | rounds + 1 => do
      match ← onPipe .recvDecoded with
      | none => onPipe .dropDecodedRx
      | some d =>
          match ← onPipe (.record d.hash d.source d.recvNs) with
          | .duplicate => runDedupe rounds
          | .fresh fs =>
              let context ← onPipe (.blockContextFor d.recvNs)
              let _ ← onPipe (.publish (pendingOf d fs context))
              runDedupe rounds

/-- The sweep of one shard after the other. -/
def sweepShards (nowNs : UInt64) : List Nat → Piping Envelope Unit
  | [] => return ()
  | shard :: rest => do
      onPipe (.sweepShard shard nowNs)
      sweepShards nowNs rest

def runJanitor : Nat → Piping Envelope Unit
  | 0 => return ()
  | ticks + 1 => do
      let nowNs ← onPipe .unixNowNs
      sweepShards nowNs (List.range x.shards)
      runJanitor ticks

/-- A source drops what the queue does not take. -/
def runSource : List (RawTx Envelope) → Piping Envelope Unit
  | [] => return ()
  | raw :: rest => do
      let _ ← onPipe (.trySendRaw raw)
      runSource rest

def runHeads : List CurrentBlock → Piping Envelope Unit
  | [] => return ()
  | block :: rest => do
      onPipe (.onNewHead block)
      runHeads rest

/-- A subscriber that lagged goes on. -/
def runSubscriber (i : Nat) : Nat → Piping Envelope Unit
  | 0 => onPipe (.dropSubscription i)
  | rounds + 1 => do
      let _ ← onPipe (.recv i)
      runSubscriber i rounds

def body : PipeTask Envelope → Piping Envelope Unit
  | .worker rounds => x.runDecoderWorker rounds
  | .dedupe rounds => runDedupe rounds
  | .janitor ticks => x.runJanitor ticks
  | .source raws => runSource raws
  | .heads blocks => runHeads blocks
  | .subscriber i rounds => runSubscriber i rounds

end Pipeline

/-- The clock is the only thing the environment answers. -/
abbrev PipeOp.Ans {Envelope : Type} : PipeOp Envelope → Type
  | .unixNowNs => UInt64
  | _ => Unit

def PipeOp.exec {Envelope : Type} (x : Pipeline Envelope) :
    (o : PipeOp Envelope) → o.Ans → PipeState Envelope →
      Option (Outcome (PipeState Envelope) (PipeTask Envelope) o.Res)
  | .trySendRaw raw, _, s =>
      match s.raw.trySend raw with
      | some sent => some { res := true, shared := { s with raw := sent } }
      | none => some { res := false, shared := s }
  | .recvRaw, _, s =>
      s.raw.await.map fun got => { res := got.1, shared := { s with raw := got.2 } }
  | .dropRawRx, _, s => some { res := (), shared := { s with raw := s.raw.dropReceiver } }
  | .sendDecoded d, _, s =>
      (s.decoded.sendAwait d).map fun did => { res := did.1, shared := { s with decoded := did.2 } }
  | .dropDecodedTx, _, s => some { res := (), shared := { s with decoded := s.decoded.dropSender } }
  | .recvDecoded, _, s =>
      s.decoded.await.map fun got => { res := got.1, shared := { s with decoded := got.2 } }
  | .dropDecodedRx, _, s =>
      some { res := (), shared := { s with decoded := s.decoded.dropReceiver } }
  | .record hash source recvNs, _, s =>
      let (outcome, dedupe) := s.dedupe.record hash source recvNs
      some { res := outcome, shared := { s with dedupe := dedupe } }
  | .blockContextFor unixNs, _, s => some { res := s.block.blockContextFor unixNs, shared := s }
  | .publish p, _, s =>
      some { res := s.bus.receiverCount, shared := { s with bus := s.bus.send p } }
  | .unixNowNs, nowNs, s => some { res := nowNs, shared := s }
  | .sweepShard shard nowNs, _, s =>
      let dedupe := s.dedupe.sweepOn (fun hash => x.shardOf hash == shard) nowNs
      some { res := (), shared := { s with dedupe := dedupe } }
  | .onNewHead block, _, s => some { res := (), shared := { s with block := block } }
  | .recv i, _, s =>
      (s.bus.recv i).map fun got => { res := got.1, shared := { s with bus := got.2 } }
  | .dropSubscription i, _, s => some { res := (), shared := { s with bus := s.bus.drop i } }

namespace Pipeline

variable {Envelope : Type} (x : Pipeline Envelope)

def machine : Machine (PipeSig Envelope) (PipeState Envelope) (PipeTask Envelope) Unit where
  Ans := PipeOp.Ans
  exec _ _ := PipeOp.exec x
  waits _ := []
  body := x.body

/-- A number of subscriptions, one after the other. -/
def subscribed (bus : Broadcast (PendingTx Envelope)) : Nat → Broadcast (PendingTx Envelope)
  | 0 => bus
  | n + 1 => (subscribed bus n).subscribe

/-- The channels and tables for a number of workers and subscribers.  The subscriptions are made
before the first source is started. -/
def build (workers subscribers : Nat) : PipeState Envelope where
  raw := .new x.cfg.rawChannelCapacity 1 workers
  decoded := .new x.cfg.decodedChannelCapacity workers 1
  dedupe := .new x.cfg.dedupeTtlSecs
  block := {}
  bus := subscribed (.new x.cfg.broadcastCapacity) subscribers

/-- The tasks of a pipeline: the workers, the dedupe task, the janitor, the sources, the head
follower and the subscribers. -/
def tasks (workers : List Nat) (dedupeRounds janitorTicks : Nat)
    (sources : List (List (RawTx Envelope)))
    (heads : List CurrentBlock) (subscribers : List Nat) : List (PipeTask Envelope) :=
  .dedupe dedupeRounds :: .janitor janitorTicks :: .heads heads ::
    (workers.map .worker ++ sources.map .source ++
      subscribers.mapIdx fun i rounds => .subscriber i rounds)

end Pipeline

end BscMempool.Bus
