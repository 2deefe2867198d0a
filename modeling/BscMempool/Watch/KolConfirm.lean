/-
Module: BscMempool.Watch.KolConfirm
Layer: Watch
Purpose: The confirmation watcher: each transaction of a new block is looked up among the pending
  hits and, if it is not there, in the index of wallets; what it trades is offered to the sinks. The
  tasks of both watchers share the registry.
Trusted boundary: human-reviewed translation of kol_confirm.rs (process_block, sweep_expired,
  confirmed_hit, forward_or_log). Log lines and latency metrics are left out.
Main exports: confirmedHit, KolWatch.processBlock, KolWatch.sweepExpired, WatchTask,
  KolWatch.machine
-/
import BscMempool.Watch.KolWatch

namespace BscMempool.Watch

open Concurrent (Machine Outcome Tid)
open Trader (Address B256)

/-- 300 s, in nanoseconds. -/
def TTL : Nat := 300 * 10 ^ 9

/-- The hit of a transaction that was mined. -/
def confirmedHit (kolName : String) (hash : B256) (txn : Transaction) (side : Side)
    (token : Address) (blockNumber : Nat) (visibility : Visibility) : KolHit where
  kolName := kolName
  txHash := hash
  fromAddr := txn.signer
  valueBnb := weiToBnb txn.value
  sourceSeen := "confirmed"
  calldata := txn.input
  token := some token
  side := some side
  confirmedBlock := some blockNumber
  visibility := visibility

namespace KolWatch

variable (x : KolWatch)

/-- A pending SELL that is mined goes to all three sinks. -/
def confirmPublic (blockNumber : Nat) (hash : B256) (m : PendingMeta) : Watching Unit :=
  match m.side, m.token with
  | some .sell, some token => do
      let hit := confirmedHit m.kolName hash (x.txOf hash) .sell token blockNumber .public_
      x.offer .trader hit
      x.offer .private_ hit
      x.offer .live hit
  | _, _ => return ()

/-- A KOL's transaction that is not among the pending ones: its SELL goes to all three sinks, its
BUY to the private and the live one. -/
def confirmPrivate (blockNumber : Nat) (hash : B256) (kol : Kol) : Watching Unit :=
  match (x.txOf hash).swap with
  | none => return ()
  | some g => do
      let hit := confirmedHit kol.name hash (x.txOf hash) g.side g.token blockNumber .private_
      x.offer .private_ hit
      match g.side with
      | .sell => do
          x.offer .trader hit
          x.offer .live hit
      | .buy => x.offer .live hit

def confirmTxn (blockNumber : Nat) (hash : B256) : Watching Unit := do
  match ← onWatch (.remove hash) with
  | some m => x.confirmPublic blockNumber hash m
  | none =>
      match x.confirmIndex.lookup (x.txOf hash).signer with
      | some kol => x.confirmPrivate blockNumber hash kol
      | none => return ()

/-- The transactions of a block, in their order. -/
def confirmTxns (blockNumber : Nat) : List B256 → Watching Unit
  | [] => return ()
  | hash :: rest => do
      x.confirmTxn blockNumber hash
      confirmTxns blockNumber rest

def processBlock (blockHash : B256) (blockNumber : Nat) : Watching Unit := do
  match ← onWatch (.getBlockByHash blockHash) with
  | none => return ()
  | some txns => x.confirmTxns blockNumber txns

/-- The sweep of one shard after the other. -/
def sweepShards (now : Nat) : List Nat → Watching Unit
  | [] => return ()
  | shard :: rest => do
      onWatch (.retainShard shard now)
      sweepShards now rest

def sweepExpired : Watching Unit := do
  let now ← onWatch .unixNowNs
  sweepShards now (List.range x.shards)

end KolWatch

/-- A pending transaction on the bus, a head, and a tick of the sweeper. -/
inductive WatchTask where
  | pending (hash : B256) (firstSeenNs : Nat) (sourceSeen : String)
    (blockContext : Option BlockContext)
  | head (blockHash : B256) (blockNumber : Nat)
  | tick
deriving DecidableEq, Repr

/-- The clock, whether a block is fetched, and how a channel takes a hit. -/
abbrev WatchOp.Ans : WatchOp → Type
  | .unixNowNs => Nat
  | .getBlockByHash _ => Bool
  | .trySend .. => TrySend
  | _ => Unit

def WatchOp.exec (x : KolWatch) :
    (o : WatchOp) → o.Ans → ConfirmRegistry → Option (Outcome ConfirmRegistry WatchTask o.Res)
  | .unixNowNs, nowNs, registry => some { res := nowNs, shared := registry }
  | .register hash entry, _, registry => some { res := (), shared := registry.register hash entry }
  | .remove hash, _, registry =>
      some { res := registry.pending hash, shared := registry.remove hash }
  | .retainShard shard now, _, registry =>
      some {
        res := ()
        shared := registry.retain (fun hash => x.shardOf hash == shard)
          fun m => decide (now - m.registeredNs < TTL) }
  | .getBlockByHash blockHash, fetched, registry =>
      some { res := if fetched then some (x.blockOf blockHash) else none, shared := registry }
  | .trySend _ _, answer, registry => some { res := answer, shared := registry }

namespace KolWatch

variable (x : KolWatch)

def body : WatchTask → Watching Unit
  | .pending hash firstSeenNs sourceSeen blockContext =>
      x.processOne {
        hash := hash
        from_ := (x.txOf hash).signer
        tx := x.txOf hash
        firstSeenNs := firstSeenNs
        sourceSeen := sourceSeen
        blockContext := blockContext }
  | .head blockHash blockNumber => x.processBlock blockHash blockNumber
  | .tick => x.sweepExpired

/-- The tasks of both watchers, in any order and any number of times each. -/
def machine : Machine WatchSig ConfirmRegistry WatchTask Unit where
  Ans := WatchOp.Ans
  exec _ _ := WatchOp.exec x
  waits _ := []
  body := x.body

end KolWatch

end BscMempool.Watch
