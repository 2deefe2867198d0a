/-
Module: BscMempool.Watch.KolWatch
Layer: Watch
Purpose: The pending-transaction watcher: a transaction of a watched wallet is registered for
  confirmation, if it is a trade, and fired to the sinks.
Trusted boundary: human-reviewed translation of kol_watch.rs (KolHit::from_pending, process_one,
  fire_hit) and of the registry of kol_confirm.rs. Hashes and addresses are not printed, and prices
  are exact rationals.
Main exports: Transaction, KolHit, PendingMeta, ConfirmRegistry, WatchOp, KolWatch,
  KolWatch.processOne
-/
import BscMempool.Concurrent.System
import BscMempool.Watch.Gmgn

namespace BscMempool.Watch

open Concurrent (Proc Sig)
open Trader (Address B256 U256)

structure Kol where
  name : String
  emoji : Option String := none
  groups : List String := []
deriving DecidableEq, Repr

/-- The watched wallets. -/
structure KolIndex where
  byAddress : Address → Option Kol

def KolIndex.lookup (index : KolIndex) (addr : Address) : Option Kol := index.byAddress addr

/-- A signed transaction, as far as the watchers read it. -/
structure Transaction where
  signer : Address
  to_ : Option Address
  input : List UInt8
  value : U256
  gasPrice : Option Nat := none
  maxFeePerGas : Nat := 0
  gasLimit : Nat := 0
  nonce : Nat := 0
deriving DecidableEq, Repr

/-- What the transaction trades, if it is a GMGN trade. -/
def Transaction.swap (txn : Transaction) : Option GmgnSwap := decode txn.input txn.value

structure BlockContext where
  blockNumber : Nat
  msIntoBlock : Nat
deriving DecidableEq, Repr

/-- A pending transaction of the bus.  `from_` was recovered from the signature. -/
structure PendingTx where
  hash : B256
  from_ : Address
  tx : Transaction
  firstSeenNs : Nat
  sourceSeen : String
  blockContext : Option BlockContext
deriving DecidableEq, Repr

/-- The channel that a hit was observed on. -/
inductive Visibility where
  | public_
  | private_
deriving DecidableEq, Repr

structure KolHit where
  kolName : String
  kolEmoji : Option String := none
  kolGroups : List String := []
  txHash : B256
  fromAddr : Address
  toAddr : Option Address := none
  valueBnb : Rat
  gasPriceGwei : Rat := 0
  gasLimit : Nat := 0
  nonce : Nat := 0
  sourceSeen : String
  calldata : List UInt8
  token : Option Address
  side : Option Side
  /-- The block that the transaction was mined in; `none` for a pending one. -/
  confirmedBlock : Option Nat
  visibility : Visibility
deriving DecidableEq, Repr

def weiToBnb (wei : U256) : Rat := wei.toNat / 10 ^ 18

def weiToGwei (wei : Nat) : Rat := wei / 10 ^ 9

def KolHit.fromPending (kol : Kol) (p : PendingTx) : KolHit where
  kolName := kol.name
  kolEmoji := kol.emoji
  kolGroups := kol.groups
  txHash := p.hash
  fromAddr := p.from_
  toAddr := p.tx.to_
  valueBnb := weiToBnb p.tx.value
  gasPriceGwei := weiToGwei (p.tx.gasPrice.getD p.tx.maxFeePerGas)
  gasLimit := p.tx.gasLimit
  nonce := p.tx.nonce
  sourceSeen := p.sourceSeen
  calldata := p.tx.input
  token := p.tx.swap.map GmgnSwap.token
  side := p.tx.swap.map GmgnSwap.side
  confirmedBlock := none
  visibility := .public_

/-! ### The registry of pending hits -/

structure PendingMeta where
  kolName : String
  side : Option Side
  token : Option Address
  firstSeenNs : Nat
  registeredNs : Nat
  seenBlock : Option Nat
  msIntoBlock : Nat
deriving DecidableEq, Repr

structure ConfirmRegistry where
  pending : B256 → Option PendingMeta := fun _ => none

namespace ConfirmRegistry

variable (registry : ConfirmRegistry)

/-- The same transaction seen again is registered anew. -/
def register (hash : B256) (entry : PendingMeta) : ConfirmRegistry :=
  { pending := Function.update registry.pending hash (some entry) }

/-- `pending.remove`. -/
def remove (hash : B256) : ConfirmRegistry :=
  { pending := Function.update registry.pending hash none }

/-- `pending.retain` on the hashes that meet `here`. -/
def retain (here : B256 → Bool) (keep : PendingMeta → Bool) : ConfirmRegistry :=
  { pending := fun hash => if here hash then (registry.pending hash).filter keep
    else registry.pending hash }

end ConfirmRegistry

/-! ### The watchers' operations -/

inductive Sink where
  | telegram
  | trader
  | private_
  | live
deriving DecidableEq, Repr

/-- How `try_send` ends. -/
inductive TrySend where
  | sent
  | full
  | closed
deriving DecidableEq, Repr

/-- The atomic steps of both watchers.  A `retain` goes from one shard of the table to the next. -/
inductive WatchOp where
  | unixNowNs
  | register (hash : B256) (entry : PendingMeta)
  | remove (hash : B256)
  | retainShard (shard now : Nat)
  | getBlockByHash (blockHash : B256)
  | trySend (sink : Sink) (hit : KolHit)

abbrev WatchOp.Res : WatchOp → Type
  | .unixNowNs => Nat
  | .register .. => Unit
  | .remove _ => Option PendingMeta
  | .retainShard .. => Unit
  | .getBlockByHash _ => Option (List B256)
  | .trySend .. => TrySend

abbrev WatchSig : Sig := ⟨WatchOp, WatchOp.Res⟩

abbrev Watching (α : Type) := Proc WatchSig α

def onWatch (o : WatchOp) : Watching o.Res := @Proc.call WatchSig o

/-- What the watchers are started with, and the chain they watch: the transaction of each hash and
the transactions of each block.  `kol_confirm` loads a copy of the index of its own, which is empty
where that fails. -/
structure KolWatch where
  index : KolIndex
  confirmIndex : KolIndex
  sinks : Sink → Bool
  txOf : B256 → Transaction
  blockOf : B256 → List B256
  shards : Nat
  shardOf : B256 → Nat

namespace KolWatch

variable (x : KolWatch)

/-- A sink that is not configured is left out. -/
def offer (sink : Sink) (hit : KolHit) : Watching Unit :=
  if x.sinks sink then do
    let _ ← onWatch (.trySend sink hit)
    return ()
  else return ()

/-- Offer a hit to all sinks of `kol_watch`, whether or not the one before takes it. -/
def fireHit (hit : KolHit) : Watching Unit := do
  x.offer .telegram hit
  x.offer .trader hit
  x.offer .live hit

/-- Only trades are registered, before the hit is dispatched. -/
def processOne (p : PendingTx) : Watching Unit :=
  match x.index.lookup p.from_ with
  | none => return ()
  | some kol => do
      let hit := KolHit.fromPending kol p
      match hit.side with
      | some side =>
          let registeredNs ← onWatch .unixNowNs
          onWatch (.register p.hash {
            kolName := hit.kolName
            side := some side
            token := hit.token
            firstSeenNs := p.firstSeenNs
            registeredNs := registeredNs
            seenBlock := p.blockContext.map BlockContext.blockNumber
            msIntoBlock := (p.blockContext.map BlockContext.msIntoBlock).getD 0 })
      | none => pure ()
      x.fireHit hit

end KolWatch

end BscMempool.Watch
