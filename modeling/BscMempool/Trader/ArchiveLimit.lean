/-
Module: BscMempool.Trader.ArchiveLimit
Layer: Trader
Purpose: The requests of the paper traders to the archive node. The questions about prices and
  balances that may reach the archive are spelled out: what is asked of the local node first, the
  two counters that a request is admitted by, and the requests themselves. Both paper traders of the
  process share the counters.
Trusted boundary: human-reviewed translation of archive_balance,
  measured_chain_swap_price_at_kol_plus1, measured_v2v3_fill_at_kol_plus1, kol_exec_price and
  balance_of_at in trader/paper.rs, of try_quote in trader/sim.rs and of quote_best_tier in
  bsc-dex/v3.rs. No time passes between the reading of the clock and the request that it admits:
  there is no await between them. Floating point is exact, and pauses between attempts are left out.
Main exports: ArchiveOp, ArchiveWorld, PaperExecutor.archiveBudget, PaperExecutor.kolExecPrice,
  PaperExecutor.measuredChainSwapPriceAtKolPlus1, PaperExecutor.measuredV2V3FillAtKolPlus1,
  PaperExecutor.spell, paperTraders
-/
import BscMempool.Dex.V3
import BscMempool.Numeric.Saturating
import BscMempool.Trader.Paper
import Mathlib.Data.List.Sort

namespace BscMempool.Trader

open Concurrent (Tid Machine Outcome Sig Proc Config)
open Dex (WBNB PANCAKE_V3_FEE_TIERS)
open Numeric (satSubU64)

def ARCHIVE_DAILY_CAP : UInt64 := 800
def ARCHIVE_MIN_GAP_NS : UInt64 := 400000000

/-- What is read of a receipt: `transfers` are the contracts and amounts of its Transfer
logs, if it has logs. -/
structure TxReceipt where
  status : Bool
  blockNumber : Option Nat
  transfers : Option (List (Address × ℚ))
  gasUsed : ℚ
  effectiveGasPrice : ℚ
deriving DecidableEq, Repr

/-- Requests to the local node.  `none` is a request that failed or found nothing. -/
inductive NodeQuery where
  | receipt (tx : B256)
  | headBlock
  | txValue (tx : B256)
  | txFrom (tx : B256)
  | balance (who : Address) (block : Nat)
  | simulate (isBuy : Bool) (amountIn : U256) (token : Address) (block : Nat)
deriving DecidableEq, Repr

abbrev NodeQuery.Reply : NodeQuery → Type
  | .receipt _ => Option TxReceipt
  | .headBlock => Option Nat
  | .txValue _ => Option ℚ
  | .txFrom _ => Option Address
  | .balance .. => Option ℚ
  | .simulate .. => Option QuoteResult

/-- Requests to the archive node. -/
inductive ArchiveRequest where
  | getBalance (who : Address) (block : Nat)
  | getLogs (token : Address) (fromBlock toBlock : Nat)
  | quoteV2 (isBuy : Bool) (amountIn : U256) (token : Address) (block : Nat)
  | quoteV3 (isBuy : Bool) (amountIn : U256) (token : Address) (feeTier : UInt32) (block : Nat)
  | balanceOf (who token : Address) (block : Nat)
deriving DecidableEq, Repr

/-- `getLogs` yields the transaction hashes of the logs. -/
abbrev ArchiveRequest.Reply : ArchiveRequest → Type
  | .getBalance .. => Option ℚ
  | .getLogs .. => Option (List B256)
  | .quoteV2 .. => Option U256
  | .quoteV3 .. => Option U256
  | .balanceOf .. => Option U256

/-- The paper trader of pending trades and that of private ones. -/
inductive PaperSide where
  | public_
  | private_
deriving DecidableEq, Repr

/-- The steps of the tasks. A request is posted at the reading of the clock that
admitted it, if one did. -/
inductive ArchiveOp where
  | paper (side : PaperSide) (o : PaperOp)
  | node (q : NodeQuery)
  | loadCalls
  | unixNs
  | loadLastNs
  | storeLastNs (now : UInt64)
  | fetchAddCalls
  | post (admitted : Option UInt64) (r : ArchiveRequest)

abbrev ArchiveOp.Res : ArchiveOp → Type
  | .paper _ o => o.Res
  | .node q => q.Reply
  | .loadCalls | .unixNs | .loadLastNs => UInt64
  | .post _ r => r.Reply
  | _ => Unit

/-- Replies, and the time: of a reading of the clock, and of a request that none admitted. -/
abbrev ArchiveOp.Ans : ArchiveOp → Type
  | .paper _ o => o.Ans
  | .node q => q.Reply
  | .unixNs => UInt64
  | .post _ r => UInt64 × r.Reply
  | _ => Unit

abbrev ArchiveSig : Sig := ⟨ArchiveOp, ArchiveOp.Res⟩

/-- A task of a paper trader, or a part of one, with its requests to the archive. -/
abbrev Archive (α : Type) := Proc ArchiveSig α

/-- What the tasks share: the state of each trader, `ARCHIVE_CALLS` and `ARCHIVE_LAST_NS`.  The last
field is not in the program: when each request to the archive was posted, the latest first. -/
structure ArchiveWorld where
  traders : PaperSide → PaperWorld
  calls : UInt64 := 0
  lastNs : UInt64 := 0
  sent : List UInt64 := []

def ArchiveOp.exec (self : Tid) : (o : ArchiveOp) → o.Ans → ArchiveWorld →
    Option (Outcome ArchiveWorld (PaperSide × PaperTask) o.Res)
  | .paper side o, a, w =>
      (o.exec self a (w.traders side)).map fun out =>
        { res := out.res,
          shared := { w with traders := Function.update w.traders side out.shared } }
  | .node _, reply, w => some { res := reply, shared := w }
  | .loadCalls, _, w => some { res := w.calls, shared := w }
  | .unixNs, now, w => some { res := now, shared := w }
  | .loadLastNs, _, w => some { res := w.lastNs, shared := w }
  | .storeLastNs now, _, w => some { res := (), shared := { w with lastNs := now } }
  | .fetchAddCalls, _, w => some { res := (), shared := { w with calls := w.calls + 1 } }
  | .post admitted _, (at_, reply), w =>
      some { res := reply, shared := { w with sent := admitted.getD at_ :: w.sent } }

def onArchive (o : ArchiveOp) : Archive o.Res := @Proc.call ArchiveSig o
def askNode (q : NodeQuery) : Archive q.Reply := @Proc.call ArchiveSig (.node q)
def post (admitted : Option UInt64) (r : ArchiveRequest) : Archive r.Reply :=
  @Proc.call ArchiveSig (.post admitted r)

namespace PaperExecutor

variable (x : PaperExecutor)

/-! ### The limiter -/

/-- The check that three functions make before a request: the reading of the clock that admits it,
unless the calls are used up or the last one is too close. -/
def archiveBudget : Archive (Option UInt64) := do
  let calls ← onArchive .loadCalls
  if calls ≥ ARCHIVE_DAILY_CAP then return none
  else
    let now ← onArchive .unixNs
    let last ← onArchive .loadLastNs
    if satSubU64 now last < ARCHIVE_MIN_GAP_NS then return none
    else
      onArchive (.storeLastNs now)
      onArchive .fetchAddCalls
      return some now

/-- Rate-capped archive `eth_getBalance`. -/
def archiveBalance (who : Address) (block : Nat) : Archive (Option ℚ) := do
  if x.archiveRpc = false then return none
  else
    match ← archiveBudget with
    | none => return none
    | some now => post (some now) (.getBalance who block)

/-! ### The price of a KOL's own trade -/

/-- The receipt of a transaction, at the first of some attempts that finds it. -/
def awaitReceipt (tx : B256) : Nat → Archive (Option TxReceipt)
  | 0 => return none
  | attempts + 1 => do
      match ← askNode (.receipt tx) with
      | some receipt => return some receipt
      | none => awaitReceipt tx attempts

/-- The largest transfers of the token and of WBNB. -/
def legs (token : Address) (transfers : List (Address × ℚ)) : ℚ × ℚ :=
  transfers.foldl (fun (tokAmt, wbnbAmt) (address, amount) =>
    if address = token then (max tokAmt amount, wbnbAmt)
    else if address = WBNB then (tokAmt, max wbnbAmt amount)
    else (tokAmt, wbnbAmt)) (0, 0)

/-- A balance, from the archive where the local node has none. -/
def balanceAt (who : Address) (block : Nat) : Archive (Option ℚ) := do
  match ← askNode (.balance who block) with
  | some balance => return some balance
  | none => x.archiveBalance who block

/-- The proceeds of a sell that paid native BNB: what its sender's balance gained, and the gas that
the sell burned. -/
def nativeProceeds (tx : B256) (receipt : TxReceipt) : Archive (Option ℚ) := do
  match receipt.blockNumber with
  | none => return none
  | some blk =>
      match ← askNode (.txFrom tx) with
      | none => return none
      | some seller =>
          match ← x.balanceAt seller blk with
          | none => return none
          | some after =>
              if blk = 0 then return none
              else
                match ← x.balanceAt seller (blk - 1) with
                | none => return none
                | some before =>
                    let proceeds := after - before + receipt.gasUsed * receipt.effectiveGasPrice
                    return if proceeds ≤ 0 then none else some (proceeds / 10 ^ 18)

/-- The BNB leg of a trade. -/
def bnbLeg (tx : B256) (receipt : TxReceipt) (wbnbAmt : ℚ) (isBuy : Bool) : Archive (Option ℚ) := do
  if isBuy then
    let value := (← askNode (.txValue tx)).getD 0
    return some (if value > 0 then value / 10 ^ 18 else wbnbAmt / 10 ^ 18)
  else if wbnbAmt > 0 then return some (wbnbAmt / 10 ^ 18)
  else x.nativeProceeds tx receipt

/-- `kol_exec_price`: BNB per whole token in the KOL's own transaction. -/
def kolExecPrice (tx : B256) (token : Address) (decimals : Nat) (isBuy : Bool) :
    Archive (Option ℚ) := do
  match ← awaitReceipt tx 8 with
  | none => return none
  | some receipt =>
      match receipt.transfers with
      | none => return none
      | some transfers =>
          let (tokAmt, wbnbAmt) := legs token transfers
          if tokAmt ≤ 0 then return none
          else
            let tokWhole := tokAmt / 10 ^ decimals
            match ← x.bnbLeg tx receipt wbnbAmt isBuy with
            | none => return none
            | some bnb => return if bnb ≤ 0 ∨ tokWhole ≤ 0 then none else some (bnb / tokWhole)

/-! ### Prices one block after the KOL's trade -/

/-- The block of a transaction that succeeded, at the first of some attempts that finds it. -/
def kolBlockOf (tx : B256) : Nat → Archive (Option Nat)
  | 0 => return none
  | attempts + 1 => do
      match ← askNode (.receipt tx) with
      | none => kolBlockOf tx attempts
      | some receipt =>
          if receipt.status = false then return none
          else
            match receipt.blockNumber with
            | some block => return some block
            | none => kolBlockOf tx attempts

/-- Wait for a block, for some attempts. -/
def awaitHead (target : Nat) : Nat → Archive Unit
  | 0 => return ()
  | attempts + 1 => do
      let head := (← askNode .headBlock).getD 0
      if head ≥ target then return () else awaitHead target attempts

/-- The prices of some trades, those that have one. -/
def tradePrices (token : Address) (decimals : Nat) (isBuy : Bool) : List B256 → Archive (List ℚ)
  | [] => return []
  | tx :: rest => do
      let price ← x.kolExecPrice tx token decimals isBuy
      let prices ← tradePrices token decimals isBuy rest
      return (price.filter fun p => decide (p > 0)).toList ++ prices

/-- The upper median. -/
def median (prices : List ℚ) : Option ℚ := (prices.insertionSort (· ≤ ·))[prices.length / 2]?

/-- `measured_chain_swap_price_at_kol_plus1`: one archive request for the transfers of the token in
the five blocks after the KOL's, and the median price of the first twelve trades among them. -/
def measuredChainSwapPriceAtKolPlus1 (isBuy : Bool) (token : Address) (decimals : Nat)
    (kolTx : B256) :
    Archive (Option ℚ) := do
  if x.archiveRpc = false then return none
  else
    match ← kolBlockOf kolTx 10 with
    | none => return none
    | some kolBlock =>
        awaitHead (kolBlock + 1) 10
        match ← archiveBudget with
        | none => return none
        | some now =>
            match ← post (some now) (.getLogs token (kolBlock + 1) (kolBlock + 5)) with
            | none => return none
            | some hashes =>
                let txHashes := (hashes.insertionSort (· ≤ ·)).dedup
                let prices ← x.tradePrices token decimals isBuy (txHashes.take 12)
                return median prices

/-- `quote_best_tier` on the archive: a request for each fee tier, and the best output. -/
def quoteBestTier (isBuy : Bool) (amountIn : U256) (token : Address) (block : Nat) :
    List UInt32 → Option QuoteResult → Archive (Option QuoteResult)
  | [], best => return best
  | feeTier :: rest, best => do
      match (← post none (.quoteV3 isBuy amountIn token feeTier block)).filter fun out =>
        decide (out ≠ 0) with
      | some amountOut =>
          if best.all fun b => decide (b.amountOut < amountOut) then
            quoteBestTier isBuy amountIn token block rest
              (some ⟨amountOut, .pancakeV3, some feeTier⟩)
          else quoteBestTier isBuy amountIn token block rest best
      | none => quoteBestTier isBuy amountIn token block rest best

/-- `try_quote` on the archive: V2 first, and V3 where that has no output. Only the first
request was admitted. -/
def archiveQuote (admitted : UInt64) (isBuy : Bool) (amountIn : U256) (token : Address)
    (block : Nat) :
    Archive (Option QuoteResult) := do
  match (← post (some admitted) (.quoteV2 isBuy amountIn token block)).filter fun out =>
    decide (out ≠ 0) with
  | some amountOut => return some ⟨amountOut, .pancakeV2, none⟩
  | none => quoteBestTier isBuy amountIn token block PANCAKE_V3_FEE_TIERS none

/-- `measured_v2v3_fill_at_kol_plus1`: a quote at the block after the KOL's, from the archive where
the local node has none. -/
def measuredV2V3FillAtKolPlus1 (isBuy : Bool) (amountIn : U256) (token : Address) (kolTx : B256) :
    Archive (Option SomeQuote) := do
  match ← kolBlockOf kolTx 10 with
  | none => return none
  | some kolBlock =>
      awaitHead (kolBlock + 1) 10
      match (← askNode (.simulate isBuy amountIn token (kolBlock + 1))).bind
        QuoteResult.nonZero with
      | some quote => return some quote
      | none =>
          if x.archiveRpc = false then return none
          else
            match ← archiveBudget with
            | none => return none
            | some now =>
                return (← archiveQuote now isBuy amountIn token (kolBlock + 1)).bind
                  QuoteResult.nonZero

/-! ### The tasks -/

/-- The operations of a paper trader, those that may reach the archive spelled out.  The second
request of `balance_of_at` is not metered. -/
def spell (side : PaperSide) : (o : PaperOp) → Archive o.Res
  | .ask (.measuredV2V3FillAtKolPlus1 isBuy amountIn token kolTx) =>
      x.measuredV2V3FillAtKolPlus1 isBuy amountIn token kolTx
  | .ask (.measuredChainSwapPriceAtKolPlus1 isBuy token decimals kolTx) =>
      x.measuredChainSwapPriceAtKolPlus1 isBuy token decimals kolTx
  | .ask (.kolExecPrice tx token decimals isBuy) => x.kolExecPrice tx token decimals isBuy
  | .ask (.balanceAt true who token block) => post none (.balanceOf who token block)
  | o => onArchive (.paper side o)

end PaperExecutor

/-- The paper traders of the process: each runs its own tasks on its own book, and all
on the same counters. -/
def paperTraders (x : PaperSide → PaperExecutor) :
    Machine ArchiveSig ArchiveWorld (PaperSide × PaperTask) Unit where
  Ans := ArchiveOp.Ans
  exec self _ := ArchiveOp.exec self
  waits _ := []
  body t := ((x t.1).body t.2).interpret ((x t.1).spell t.1)

end BscMempool.Trader
