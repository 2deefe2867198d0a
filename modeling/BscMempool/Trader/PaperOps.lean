/-
Module: BscMempool.Trader.PaperOps
Layer: Trader
Purpose: The state the paper trader's tasks share and the atomic steps they make on it. The book and
  the budgets are behind locks that are held for one step; a task may be interleaved with the others
  at every await between two steps.
Trusted boundary: human-reviewed translation of the shared fields of PaperExecutor
  (trader/paper.rs), of trader/ledger.rs and held_tokens.rs
Main exports: ClosedTrade, PaperWorld, PaperTask, PaperQuery, PaperOp, PaperSig, PaperOp.exec
-/
import BscMempool.Concurrent.System
import BscMempool.Trader.KolBudget
import BscMempool.Trader.PositionBook
import BscMempool.Trader.Sim

namespace BscMempool.Trader

open Concurrent (Tid Outcome Sig Proc)

/-- Why a position was closed. -/
inductive CloseReason where
  | kolSell
  | timeout
  | manualForce
  | noLiquidity
  | priceUnavailable
deriving DecidableEq, Repr

/-- A closed position, or the closed part of one: a row of the trade ledger. -/
structure ClosedTrade where
  portfolio : PortfolioMode
  kolName : String
  tokenAddress : Address
  tokenSymbol : String
  bnbInWei : U256
  bnbOutWei : U256
  tokensTraded : U256
  pnlWei : Int
  pnlPct : ℚ
  openedAtBlock : Nat
  openedAtUnixNs : Nat
  closedAtBlock : Nat
  closedAtUnixNs : Nat
  heldSecs : Nat
  buyTxCount : Nat
  closeReason : CloseReason
  triggerSellTx : Option B256
  dMcapUsd : ℚ
  ourEntryMcapUsd : ℚ
  bnbUsdAtClose : ℚ
  kolExitCount : Nat
  kolExitMcapFirstUsd : ℚ
  kolExitMcapLastUsd : ℚ
  ourAvgExitMcapUsd : ℚ
deriving DecidableEq, Repr

def ClosedTrade.key (t : ClosedTrade) : PositionKey := ⟨t.portfolio, t.kolName, t.tokenAddress⟩

/-- What the shared held-token set says about a token. -/
structure HeldMeta where
  kolName : String
  symbol : String
  enteredBlock : Nat
  enteredUnixNs : Nat
  bnbInWei : Nat
deriving DecidableEq, Repr

/-- Tokens and cost basis under a key: one buy, or a part that is being closed, by `owner`. -/
structure Slice where
  owner : Tid
  key : PositionKey
  tokens : U256
  bnb : U256
deriving DecidableEq, Repr

/-- What the paper trader's tasks share.  The last four fields are not in the program: all buys, all
credits to a budget, the slices that were credited and have no ledger row yet, and the slices that
have a row and are still in the book. -/
structure PaperWorld where
  book : PositionBook := .empty
  budgets : KolBudgets := ∅
  budgetsTmp : Option (List (String × KolBudget)) := none
  budgetsFile : Option (List (String × KolBudget)) := none
  closedTrades : List ClosedTrade := []
  openPositions : Option (List OpenPosition) := none
  held : AList fun _ : Address => HeldMeta := ∅
  added : List Slice := []
  credits : List Slice := []
  credited : List Slice := []
  settling : List Slice := []

/-- The tasks of the paper trader: the consumer of decisions, each with the calldata of its hit, and
the sweeper, which closes what is older than the hold timeout once per tick. -/
inductive PaperTask where
  | consumer (decisions : List (Decision × List UInt8))
  | sweeper (holdTimeoutNs ticks : Nat)
deriving DecidableEq, Repr

/-! ### Questions to the outside -/

structure TokenInfo where
  symbol : String
  decimals : Nat
deriving DecidableEq, Repr

/-- Requests to nodes and caches, and the clock.  `simulateBuy` may fail, which is not the same as
finding no pool; every other reply of `none` is a request that failed or found nothing.  A quote of
the simulator is never zero, and the measured fill leaves out one that is. -/
inductive PaperQuery where
  | currentHeadBlock
  | lookup (token : Address)
  | simulateBuy (bnbIn : U256) (token : Address)
  | simulateSell (tokensIn : U256) (token : Address)
  | measuredV2V3FillAtKolPlus1 (isBuy : Bool) (amountIn : U256) (token : Address) (kolTx : B256)
  | measuredChainSwapPriceAtKolPlus1 (isBuy : Bool) (token : Address) (decimals : Nat)
    (kolTx : B256)
  | kolExecPrice (tx : B256) (token : Address) (decimals : Nat) (isBuy : Bool)
  | poolSpotAndSupply (token : Address) (decimals : Nat)
  | totalSupplyWhole (token : Address) (decimals : Nat)
  | bnbPrice
  | balanceAt (archive : Bool) (who token : Address) (block : Nat)
  | unixNs
deriving DecidableEq, Repr

abbrev PaperQuery.Reply : PaperQuery → Type
  | .currentHeadBlock => Option Nat
  | .lookup _ => Option TokenInfo
  | .simulateBuy .. => Except Unit (Option SomeQuote)
  | .simulateSell .. => Option SomeQuote
  | .measuredV2V3FillAtKolPlus1 .. => Option SomeQuote
  | .measuredChainSwapPriceAtKolPlus1 .. => Option ℚ
  | .kolExecPrice .. => Option ℚ
  | .poolSpotAndSupply .. => Option (ℚ × ℚ)
  | .totalSupplyWhole .. => Option ℚ
  | .bnbPrice => Option ℚ
  | .balanceAt .. => Option U256
  | .unixNs => Nat

/-! ### Accesses to the shared state -/

/-- A buy, as it is added to the book. -/
structure Fill where
  kolName : String
  token : Address
  symbol : String
  decimals : Nat
  bnbIn : U256
  tokensIn : U256
  block : Nat
  tx : B256
  dMcapUsd : ℚ
  ourMcapUsd : ℚ
deriving DecidableEq, Repr

/-- The steps of the tasks.  `remove` and `shrink` tell whether some portfolio still holds the
token. What they carry beside their source arguments (the position the close was sized from), and
the key and tokens of a credit, are known to the task and have no effect in the program. -/
inductive PaperOp where
  | ask (q : PaperQuery)
  | openAll (fill : Fill)
  | get (key : PositionKey)
  | keysForKolToken (kolName : String) (token : Address)
  | openedBefore (cutoffUnixNs : Nat)
  | remove (key : PositionKey) (sized : OpenPosition)
  | shrink (key : PositionKey) (newTokensHeld newBnbIn : U256) (sized : OpenPosition)
  | saveBook
  | tryReserve (limits : KolBudgetBook) (kolName : String)
  | creditClose (key : PositionKey) (tokens bnbIn bnbOut : U256)
  | snapshotBudgets
  | writeBudgets (rows : List (String × KolBudget))
  | renameBudgets
  | appendTrade (trade : ClosedTrade)
  | heldInsert (token : Address) (info : HeldMeta)
  | heldRemove (token : Address)

abbrev PaperOp.Res : PaperOp → Type
  | .ask q => q.Reply
  | .get _ => Option OpenPosition
  | .keysForKolToken .. => List PositionKey
  | .openedBefore _ => List PositionKey
  | .remove .. => Bool
  | .shrink .. => Bool
  | .saveBook => Bool
  | .tryReserve .. => Option U256
  | .snapshotBudgets => List (String × KolBudget)
  | .writeBudgets _ => Bool
  | .renameBudgets => Bool
  | .appendTrade _ => Bool
  | _ => Unit

/-- Replies, the time where a step reads the clock, the order in which a hash map is walked, and
whether a file operation succeeds. -/
abbrev PaperOp.Ans : PaperOp → Type
  | .ask q => q.Reply
  | .openAll _ => Nat
  | .keysForKolToken .. => List PositionKey
  | .openedBefore _ => List PositionKey
  | .saveBook => Bool
  | .tryReserve .. => Nat
  | .creditClose .. => Nat
  | .writeBudgets _ => Bool
  | .renameBudgets => Bool
  | .appendTrade _ => Bool
  | _ => Unit

abbrev PaperSig : Sig := ⟨PaperOp, PaperOp.Res⟩

/-- A task of the paper trader, or a part of one. -/
abbrev Paper (α : Type) := Proc PaperSig α

namespace PaperWorld

variable (w : PaperWorld)

/-- One buy in one portfolio: the position, and its market caps. -/
def openIn (fill : Fill) (nowNs : Nat) (self : Tid) (mode : PortfolioMode) : PaperWorld :=
  { w with
    book := (w.book.openOrAdd mode fill.kolName fill.token fill.symbol fill.decimals fill.bnbIn
      fill.tokensIn fill.block fill.tx nowNs).setEntryMcaps ⟨mode, fill.kolName, fill.token⟩
      fill.dMcapUsd fill.ourMcapUsd
    added := w.added ++ [⟨self, ⟨mode, fill.kolName, fill.token⟩, fill.tokensIn, fill.bnbIn⟩] }

/-- The slices a task still has to take out of the book are dealt with. -/
def settled (self : Tid) : PaperWorld :=
  { w with settling := w.settling.filter fun slice => decide (slice.owner ≠ self) }

end PaperWorld

def PaperOp.exec (self : Tid) : (o : PaperOp) → o.Ans → PaperWorld →
    Option (Outcome PaperWorld PaperTask o.Res)
  | .ask _, reply, w => some { res := reply, shared := w }
  | .openAll fill, nowNs, w =>
      some {
        res := ()
        shared := PortfolioMode.ALL.foldl (fun w mode => w.openIn fill nowNs self mode) w }
  | .get key, _, w => some { res := w.book.get key, shared := w }
  | .keysForKolToken kolName token, order, w =>
      if order.Perm (w.book.keysForKolToken kolName token) then some { res := order, shared := w }
      else none
  | .openedBefore cutoffUnixNs, order, w =>
      if order.Perm (w.book.openedBefore cutoffUnixNs) then some { res := order, shared := w }
      else none
  | .remove key _, _, w =>
      let book := w.book.remove key
      some { res := book.holds key.token, shared := { w with book := book }.settled self }
  | .shrink key newTokensHeld newBnbIn _, _, w =>
      let book := w.book.shrink key newTokensHeld newBnbIn
      some { res := book.holds key.token, shared := { w with book := book }.settled self }
  | .saveBook, saved, w =>
      some {
        res := saved
        shared := if saved then { w with openPositions := some w.book.snapshot } else w }
  | .tryReserve limits kolName, nowNs, w =>
      let (reserved, budgets) := limits.tryReserve w.budgets kolName nowNs
      some { res := reserved, shared := { w with budgets := budgets } }
  | .creditClose key tokens bnbIn bnbOut, nowNs, w =>
      let slice : Slice := ⟨self, key, tokens, bnbIn⟩
      some {
        res := ()
        shared := { w with
          budgets := KolBudgetBook.creditClose w.budgets key.kolName bnbIn bnbOut nowNs
          credits := if (w.budgets.lookup key.kolName).isSome then w.credits ++ [slice]
            else w.credits
          credited := if (w.budgets.lookup key.kolName).isSome then w.credited ++ [slice]
            else w.credited } }
  | .snapshotBudgets, _, w =>
      some { res := w.budgets.entries.map fun row => (row.1, row.2), shared := w }
  | .writeBudgets rows, written, w =>
      some { res := written, shared := if written then { w with budgetsTmp := some rows } else w }
  | .renameBudgets, renamed, w =>
      match w.budgetsTmp with
      | some rows =>
          some {
            res := renamed
            shared :=
              if renamed then { w with budgetsTmp := none, budgetsFile := some rows } else w }
      | none => some { res := false, shared := w }
  | .appendTrade trade, appended, w =>
      some {
        res := appended
        shared :=
          if appended then { w with
            closedTrades := w.closedTrades ++ [trade]
            credited := w.credited.filter fun slice => decide (slice.owner ≠ self)
            settling := w.settling ++ [⟨self, trade.key, trade.tokensTraded, trade.bnbInWei⟩] }
          else w }
  | .heldInsert token info, _, w =>
      some { res := (), shared := { w with held := w.held.insert token info } }
  | .heldRemove token, _, w =>
      some { res := (), shared := { w with held := w.held.erase token } }

/-! ### Single operations, as the tasks write them -/

def askPaper (q : PaperQuery) : Paper q.Reply := @Proc.call PaperSig (.ask q)
def onPaper (o : PaperOp) : Paper o.Res := @Proc.call PaperSig o

end BscMempool.Trader
