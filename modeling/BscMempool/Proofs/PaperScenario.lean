/-
Module: BscMempool.Proofs.PaperScenario
Layer: Proofs
Purpose: A concrete paper trader and environments, from which schedules build runs on fixed inputs.
Trusted boundary: none
Main exports: paperScenario, paperBuy, paperKey, PaperReplies, PaperReplies.ans
-/
import BscMempool.Trader.Paper

namespace BscMempool.Trader

/-- A paper trader without haircuts. -/
def paperScenario (kolBudgets : Option KolBudgetBook) : PaperExecutor :=
  { costs := ⟨0, 0, 0⟩, archiveRpc := false, kolBudgets := kolBudgets }

/-- A BUY of 1000 wei that the KOL "D" is copied with. -/
def paperBuy : Decision × List UInt8 := (.enter "D" 0x4444#160 1000 1000 7 1, [])

/-- The key that the BUY is booked under. -/
def paperKey : PositionKey := ⟨.fastTip, "D", 0x4444#160⟩

/-- A quote from V2, if it is of some amount. -/
def v2Quote (amountOut : U256) : Option SomeQuote :=
  QuoteResult.nonZero ⟨amountOut, .pancakeV2, none⟩

/-- What the outside answers while a schedule entry lasts. -/
structure PaperReplies where
  quote : Option SomeQuote := none
  measured : Option SomeQuote := none
  price : Option ℚ := none
  balance : Bool → Nat → Option U256 := fun _ _ => none
  nowNs : Nat := 0
  order : List PositionKey := []
  saved : Bool := true

/-- The answers of an environment. -/
def PaperReplies.ans (r : PaperReplies) : (o : PaperOp) → o.Ans
  | .ask .currentHeadBlock => some 7
  | .ask (.lookup _) => some ⟨"T", 18⟩
  | .ask (.simulateBuy ..) => .ok r.quote
  | .ask (.simulateSell ..) => r.quote
  | .ask (.measuredV2V3FillAtKolPlus1 ..) => r.measured
  | .ask (.measuredChainSwapPriceAtKolPlus1 ..) => r.price
  | .ask (.kolExecPrice ..) => r.price
  | .ask (.poolSpotAndSupply ..) => none
  | .ask (.totalSupplyWhole ..) => none
  | .ask .bnbPrice => none
  | .ask (.balanceAt archive _ _ block) => r.balance archive block
  | .ask .unixNs => r.nowNs
  | .openAll _ => r.nowNs
  | .get _ => ()
  | .keysForKolToken .. => r.order
  | .openedBefore _ => r.order
  | .remove .. => ()
  | .shrink .. => ()
  | .saveBook => r.saved
  | .tryReserve .. => r.nowNs
  | .creditClose .. => r.nowNs
  | .snapshotBudgets => ()
  | .writeBudgets _ => r.saved
  | .renameBudgets => r.saved
  | .appendTrade _ => r.saved
  | .heldInsert .. => ()
  | .heldRemove _ => ()

end BscMempool.Trader
