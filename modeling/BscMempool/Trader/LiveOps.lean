/-
Module: BscMempool.Trader.LiveOps
Layer: Trader
Purpose: The atomic steps of the live trader's tasks and what each does to the shared state. A task
  may be interleaved with others wherever the source awaits; what it does between two awaits is one
  step, except that the load and the store of a nonce resync are two. A write of the nonce file is
  one step as well: it completes with the whole number or fails and leaves the file as it was. (The
  same call of the budget file is cut into its pieces in `Trader.KolBudgetFile`.)
Trusted boundary: human-reviewed; every operation names the access or the request it stands for
Main exports: Task, Query, Op, LiveSig, Op.exec
-/
import BscMempool.Trader.LiveState

namespace BscMempool.Trader

open Concurrent (Tid Outcome Sig Proc)

/-- The tasks of the live trader, with the arguments they were spawned with. -/
inductive Task where
  | consumer (trailActive : Bool) (decisions : List (Decision × String))
  | execute (decision : Decision) (visibility : String) (openPositions : Nat)
  | executeExit (token : Address) (kolName : String) (kolBlock : Nat) (kolAddr : Address)
  | finalizePosition (token : Address) (buyTxHash : B256) (route : BuyRoute) (entry : EntryId)
  | persistNonce (n : UInt64)
  | reserve
  | resync
  | trailWatcher (blocks : List Nat)
  | processOnePosition (token : Address) (entry : EntryId) (blockN : Nat)
deriving DecidableEq, Repr

/-! ### Questions to the outside

A reply of `none` is a request that failed, whatever way it failed. -/

/-- The receipt of a BUY, as far as the trail watcher reads it: the amounts of the token's transfer
logs, last one first, and the block. -/
structure BuyReceipt where
  transfers : List U256
  blockNumber : Option Nat
deriving DecidableEq, Repr

inductive Query where
  | balanceOf (token : Address)
  | balanceOfAt (who token : Address) (block : Nat)
  | allowance (token spender : Address)
  | getPair (token : Address)
  | acceptsBuy (token : Address) (amount : U256)
  | acceptsSell (token : Address) (amount : U256)
  | getAmountsOut (amountIn : U256) (path : List Address)
  | gasPrice
  | pendingNonce
  | receiptStatus (txHash : B256)
  | buyReceipt (txHash : B256)
  | observedPrice (token : Address) (fromBlock toBlock : Nat)
  | cachedPrice (token : Address)
  | tokenStats (token : Address)
  | bnbUsd
  | walletBnb
  | unixSecs
  /-- How many half-second polls fit before a deadline this many seconds away. -/
  | polls (secs : Nat)
deriving DecidableEq, Repr

abbrev Query.Reply : Query → Type
  | .balanceOf _ => Option U256
  | .balanceOfAt .. => Option U256
  | .allowance .. => Option U256
  | .getPair _ => Option Address
  | .acceptsBuy .. => Bool
  | .acceptsSell .. => Bool
  | .getAmountsOut .. => Option U256
  | .gasPrice => Option U128
  | .pendingNonce => Option UInt64
  | .receiptStatus _ => Option Bool
  | .buyReceipt _ => Option BuyReceipt
  | .observedPrice .. => Option ℚ
  | .cachedPrice _ => Option PricePoint
  | .tokenStats _ => Option TokenStats
  | .bnbUsd => Option ℚ
  | .walletBnb => ℚ
  | .unixSecs => Nat
  | .polls _ => Nat

/-! ### Accesses to the shared state -/

/-- Accesses to the position cache, its entries and the exit locks.

`writeBack token tokens sized` is the cache update after a broadcast SELL: it looks the token up
again and stores `tokens` in whatever entry it finds.  What it carries besides (`sized`, the entry
the SELL was sized from, and `balanceRead` of `storeApproved`, the balance its task had read) is
known to the task and has no effect. -/
inductive TradeOp where
  | positionsGet (token : Address)
  | positionsRemove (token : Address)
  | openPosition (token : Address) (route : BuyRoute) (bnbIn : U256) (txHash : B256)
  | positionSnapshot
  | loadEntry (entry : EntryId)
  | storeTokensBought (entry : EntryId) (tokens : U256)
  | storeApproved (entry : EntryId) (balanceRead : U256)
  | writeBack (token : Address) (tokens : U256) (sized : Option EntryId)
  | lockExit (token : Address)
  | unlockExit (token : Address)
deriving DecidableEq, Repr

abbrev TradeOp.Res : TradeOp → Type
  | .positionsGet _ => Option (EntryId × PositionEntry)
  | .openPosition .. => EntryId
  | .positionSnapshot => List (Address × EntryId)
  | .loadEntry _ => PositionEntry
  | _ => Unit

/-- `lockExit` is blocked while another task holds the lock. -/
def TradeOp.exec (self fresh : Tid) : (o : TradeOp) → Trade → Option (Outcome Trade Task o.Res)
  | .positionsGet token, t => some { res := t.cached token, shared := t }
  | .positionsRemove token, t =>
      some { res := (), shared := { t with book := t.book.remove token } }
  | .openPosition token route bnbIn txHash, t =>
      some {
        res := t.book.entries.length
        shared := { t with book := t.book.insert (t.freshEntry token route bnbIn fresh) }
        spawned := [.finalizePosition token txHash route t.book.entries.length] }
  | .positionSnapshot, t =>
      some { res := t.book.positions.entries.map fun held => (held.1, held.2), shared := t }
  | .loadEntry entry, t => t.book.entries[entry]?.map fun p => { res := p, shared := t }
  | .storeTokensBought entry tokens, t =>
      some { res := (), shared := { t with book := t.book.setTokens entry tokens } }
  | .storeApproved entry _, t =>
      some { res := (), shared := { t with book := t.book.setApproved entry } }
  | .writeBack token tokens _, t =>
      some {
        res := ()
        shared := { t with
          book := t.book.writeBack token tokens
          unsettled := Function.update t.unsettled token 0 } }
  | .lockExit token, t =>
      if t.exitLocks token = none then
        some {
          res := ()
          shared := { t with exitLocks := Function.update t.exitLocks token (some self) } }
      else none
  | .unlockExit token, t =>
      some { res := (), shared := { t with exitLocks := Function.update t.exitLocks token none } }

/-- Accesses to the nonce counter and its file. `store` carries the two values its
maximum was taken of, `write` the value to persist; a write completes at once or fails,
and nobody sees a part of it. -/
inductive NonceOp where
  | fetchAdd
  | load
  | store (chain loaded : UInt64)
  | write (next : UInt64)
deriving DecidableEq, Repr

abbrev NonceOp.Res : NonceOp → Type
  | .fetchAdd => UInt64
  | .load => UInt64
  | _ => Unit

abbrev NonceOp.Ans : NonceOp → Type
  | .write _ => Bool
  | _ => Unit

def NonceOp.exec : (o : NonceOp) → o.Ans → NonceState → o.Res × NonceState
  | .fetchAdd, _, n =>
      (n.current, { n with
        current := n.current + 1
        handedOut := n.handedOut ++ [n.current]
        inFlight := n.inFlight ++ [n.current] })
  | .load, _, n => (n.current, n)
  | .store chain loaded, _, n => ((), { n with current := max chain loaded })
  | .write next, completed, n =>
      ((), if completed then { n with file := some next, written := n.written ++ [next] } else n)

/-- Accesses to the caches, the limits, the ledger, the finalize permits and the trail states.  The
answers are what the clock decides: whether a cached value is still within its time to live, the
time of a limits check, and whether a ledger row reaches the disk. -/
inductive EnvOp where
  | gasCached
  | cacheGas (wei : U128)
  | pairCached (token : Address)
  | cachePair (token : Address) (pair : Option Address)
  | checkLimits (config : LimitsConfig) (trade : TradeCheck)
  | recordTradeFired
  | ledgerAppend (row : LiveEntry)
  | ledgerRows
  | recordOpened
  | recordClosed
  | openCount
  | acquirePermit
  | releasePermit
  | trailGet (token : Address)
  | trailInsert (token : Address) (state : TrailState)
  | trailRemove (token : Address)
  /-- The log line of an exit the trail watcher fires. -/
  | trailExit (token : Address) (reason : String) (state : TrailState) (blockN : Nat)

abbrev EnvOp.Res : EnvOp → Type
  | .gasCached => Option U128
  | .pairCached _ => Option (Option Address)
  | .checkLimits .. => Option LimitFail
  | .ledgerRows => List LiveEntry
  | .openCount => Nat
  | .trailGet _ => Option TrailState
  | _ => Unit

abbrev EnvOp.Ans : EnvOp → Type
  | .gasCached => Bool
  | .pairCached _ => Bool
  | .checkLimits .. => Nat
  | .ledgerAppend _ => Bool
  | _ => Unit

/-- `acquirePermit` is blocked while no permit is left. -/
def EnvOp.exec : (o : EnvOp) → o.Ans → Env → Option (o.Res × Env)
  | .gasCached, fresh, v => some (if v.gasCache ≠ 0 ∧ fresh then some v.gasCache else none, v)
  | .cacheGas wei, _, v => some ((), { v with gasCache := wei })
  | .pairCached token, fresh, v =>
      -- a pair that exists is permanent, the absence of one is believed for a while
      some (match v.v2PairCache token with
        | some (some pair) => some (some pair)
        | some none => if fresh then some none else none
        | none => none, v)
  | .cachePair token pair, _, v =>
      some ((), { v with v2PairCache := Function.update v.v2PairCache token (some pair) })
  | .checkLimits config trade, nowMs, v =>
      let (failed, daily) := config.check v.daily nowMs trade
      some (failed, { v with daily := daily })
  | .recordTradeFired, _, v => some ((), { v with daily := Trader.recordTradeFired v.daily })
  | .ledgerAppend row, written, v =>
      some ((), if written then { v with ledger := v.ledger ++ [row] } else v)
  | .ledgerRows, _, v => some (v.ledger, v)
  | .recordOpened, _, v => some ((), { v with openCount := v.openCount + 1 })
  | .recordClosed, _, v => some ((), { v with openCount := v.openCount - 1 })
  | .openCount, _, v => some (v.openCount, v)
  | .acquirePermit, _, v =>
      if v.bgPermits = 0 then none else some ((), { v with bgPermits := v.bgPermits - 1 })
  | .releasePermit, _, v => some ((), { v with bgPermits := v.bgPermits + 1 })
  | .trailGet token, _, v => some (v.trailStates token, v)
  | .trailInsert token state, _, v =>
      some ((), { v with trailStates := Function.update v.trailStates token (some state) })
  | .trailRemove token, _, v =>
      some ((), { v with trailStates := Function.update v.trailStates token none })
  | .trailExit .., _, v => some ((), v)

/-! ### The signature of the live trader -/

/-- `sign` yields the hash of the signed transaction, or nothing when signing fails; `submit` hands
a signed transaction to its endpoint and `shadow` logs it instead. -/
inductive Op where
  | ask (q : Query)
  | trade (o : TradeOp)
  | nonce (o : NonceOp)
  | env (o : EnvOp)
  | sign (tx : TransactionRequest)
  | submit (tx : TransactionRequest) (hash : B256) (site : Site)
  | shadow (tx : TransactionRequest)
  | spawn (task : Task)
  | join (task : Tid)

abbrev Op.Res : Op → Type
  | .ask q => q.Reply
  | .trade o => o.Res
  | .nonce o => o.Res
  | .env o => o.Res
  | .sign _ => Option B256
  | .submit .. => Bool
  | .shadow _ => Unit
  | .spawn _ => Tid
  | .join _ => Unit

/-- What became of a submission: whether the network took the transaction, and whether the
endpoint's reply counted as success. -/
structure Submitted where
  accepted : Bool
  ok : Bool
deriving DecidableEq, Repr

abbrev Op.Ans : Op → Type
  | .ask q => q.Reply
  | .nonce o => o.Ans
  | .env o => o.Ans
  | .sign _ => Option B256
  | .submit .. => Submitted
  | _ => Unit

abbrev LiveSig : Sig := ⟨Op, Op.Res⟩

/-- A task of the live trader, or a part of one. -/
abbrev Live (α : Type) := Proc LiveSig α

/-- A reserved nonce is spoken for no longer. -/
def NonceState.settle (n : NonceState) (nonce : UInt64) : NonceState :=
  { n with inFlight := n.inFlight.erase nonce }

def Op.exec (self fresh : Tid) : (o : Op) → o.Ans → World → Option (Outcome World Task o.Res)
  | .ask _, reply, w => some { res := reply, shared := w }
  | .trade o, _, w =>
      (o.exec self fresh w.trade).map fun out =>
        { res := out.res, shared := { w with trade := out.shared }, spawned := out.spawned }
  | .nonce o, a, w =>
      some { res := (o.exec a w.nonce).1, shared := { w with nonce := (o.exec a w.nonce).2 } }
  | .env o, a, w =>
      (o.exec a w.env).map fun out => { res := out.1, shared := { w with env := out.2 } }
  | .sign _, some hash, w => some { res := some hash, shared := w }
  | .sign tx, none, w =>
      some { res := none, shared := { w with nonce := w.nonce.settle tx.nonce } }
  | .submit tx hash site, sent, w =>
      some {
        res := sent.ok
        shared := { w with
          trade := w.trade.transmit {
            tx := tx
            hash := hash
            site := site
            sender := self
            accepted := sent.accepted
            ok := sent.ok }
          nonce := w.nonce.settle tx.nonce } }
  | .shadow tx, _, w =>
      some { res := (), shared := { w with nonce := w.nonce.settle tx.nonce } }
  | .spawn task, _, w => some { res := fresh, shared := w, spawned := [task] }
  | .join _, _, w => some { res := (), shared := w }

/-- The tasks an operation waits for. -/
def Op.waits : Op → List Tid
  | .join task => [task]
  | _ => []

/-! ### Single operations, as the tasks write them -/

def ask (q : Query) : Live q.Reply := @Proc.call LiveSig (.ask q)
def onTrade (o : TradeOp) : Live o.Res := @Proc.call LiveSig (.trade o)
def onNonce (o : NonceOp) : Live o.Res := @Proc.call LiveSig (.nonce o)
def onEnv (o : EnvOp) : Live o.Res := @Proc.call LiveSig (.env o)
def sign (tx : TransactionRequest) : Live (Option B256) := @Proc.call LiveSig (.sign tx)
def submit (tx : TransactionRequest) (hash : B256) (site : Site) : Live Bool :=
  @Proc.call LiveSig (.submit tx hash site)
def shadow (tx : TransactionRequest) : Live Unit := @Proc.call LiveSig (.shadow tx)
def spawn (task : Task) : Live Tid := @Proc.call LiveSig (.spawn task)
def join (task : Tid) : Live Unit := @Proc.call LiveSig (.join task)

end BscMempool.Trader
