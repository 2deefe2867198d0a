/-
Module: BscMempool.Trader.Paper
Layer: Trader
Purpose: The paper trader: simulated entries, proportional exits and timeout closes, as processes
  over the shared book, budgets and ledger, and the machine that interleaves its consumer and its
  sweeper.
Trusted boundary: human-reviewed translation of trader/paper.rs and of run_consumer and run_sweeper
  in trader/mod.rs. Log lines, metrics, chat alerts and the live trader's shadow beside it are left
  out.
Main exports: PaperExecutor, PaperExecutor.handleEnter, PaperExecutor.handleExit,
  PaperExecutor.sweepTimeouts, PaperExecutor.closeOne, PaperExecutor.machine
-/
import BscMempool.Trader.Blacklist
import BscMempool.Trader.PaperOps
import BscMempool.Trader.Strategy

namespace BscMempool.Trader

open Concurrent (Machine Config)

/-- Realism haircuts. -/
structure Costs where
  slipV2Bps : Nat
  slipBondingBps : Nat
  gasPerTradeUsd : ℚ
deriving Repr

/-- The fields of the executor that never change.  `archiveRpc` says whether there is an archive
node, `kolBudgets` is there when budgets are on. -/
structure PaperExecutor where
  costs : Costs
  archiveRpc : Bool
  kolBudgets : Option KolBudgetBook
deriving Repr

/-- Wei as BNB. -/
def bnbOfWei (wei : U256) : ℚ := (wei.toNat : ℚ) / 10 ^ 18

/-- Raw token units as whole tokens. -/
def wholeTokens (tokens : U256) (decimals : Nat) : ℚ := (tokens.toNat : ℚ) / 10 ^ decimals

/-- Raw units of a token bought for `bnbAmount` at a price in BNB per whole token. -/
def tokensAt (bnbAmount : U256) (price : ℚ) (decimals : Nat) : U256 :=
  .ofU128 (f64AsU128 (max (bnbOfWei bnbAmount / price * 10 ^ decimals) 0))

namespace PaperExecutor

variable (x : PaperExecutor)

/-! ### Entries -/

def enterToken (token : Address) (calldata : List UInt8) : Option Address :=
  if token ≠ 0 then some token else extractTargetToken calldata

/-- `KolBudgetBook::save`: snapshot, write of the temporary file, rename. -/
def saveBudgets : Paper Unit := do
  let rows ← onPaper .snapshotBudgets
  if ← onPaper (.writeBudgets rows) then
    let _ ← onPaper .renameBudgets
    return ()
  else return ()

/-- The amount to enter with: the strategy's, or what the KOL's budget reserves. -/
def reserveAmount (kolName : String) (bnbAmount : U256) : Paper (Option U256) := do
  match x.kolBudgets with
  | none => return some bnbAmount
  | some limits =>
      match ← onPaper (.tryReserve limits kolName) with
      | none => return none
      | some amount =>
          saveBudgets
          return some amount

/-- A pool quote, or without a pool a fill at the KOL's own price. -/
def rawQuote (bnbAmount : U256) (token : Address) (decimals : Nat) (kolTx : B256) :
    Paper (Except Unit (Option QuoteResult)) := do
  match ← askPaper (.simulateBuy bnbAmount token) with
  | .error e => return .error e
  | .ok (some quote) => return .ok (some quote.toQuoteResult)
  | .ok none =>
      match ← askPaper (.kolExecPrice kolTx token decimals true) with
      | some price =>
          if price > 0 then return .ok (some ⟨tokensAt bnbAmount price decimals, .bonding, none⟩)
          else return .ok none
      | none => return .ok none

/-- The fill a copy one block later would have got, measured where possible,
else after a haircut. -/
def entryQuote (raw : QuoteResult) (bnbAmount : U256) (token : Address) (decimals : Nat)
    (kolTx : B256) :
    Paper QuoteResult := do
  match raw.venue with
  | .bonding =>
      let haircut : QuoteResult :=
        { raw with amountOut := bpsHaircutU256 raw.amountOut x.costs.slipBondingBps }
      match ← askPaper (.measuredChainSwapPriceAtKolPlus1 true token decimals kolTx) with
      | some price =>
          if price > 0 then return { raw with amountOut := tokensAt bnbAmount price decimals }
          else return haircut
      | none => return haircut
  | _ =>
      match ← askPaper (.measuredV2V3FillAtKolPlus1 true bnbAmount token kolTx) with
      | some measured => return measured.toQuoteResult
      | none => return { raw with amountOut := bpsHaircutU256 raw.amountOut x.costs.slipV2Bps }

/-- Market caps of the KOL's entry and of ours. -/
def entryMcaps (quote : QuoteResult) (bnbAmount : U256) (token : Address) (decimals : Nat)
    (kolTx : B256) (bnbUsd : ℚ) : Paper (ℚ × ℚ) := do
  let outTok := wholeTokens quote.amountOut decimals
  let ourPrice := if outTok > 0 then bnbOfWei bnbAmount / outTok else 0
  match quote.venue with
  | .bonding =>
      let supplyWhole := (← askPaper (.totalSupplyWhole token decimals)).getD 0
      if supplyWhole > 0 then
        let kolPrice := (← askPaper (.kolExecPrice kolTx token decimals true)).getD 0
        return (kolPrice * supplyWhole * bnbUsd, ourPrice * supplyWhole * bnbUsd)
      else return (0, 0)
  | _ =>
      match ← askPaper (.poolSpotAndSupply token decimals) with
      | some (spotBnb, supplyWhole) =>
          return (spotBnb * supplyWhole * bnbUsd, ourPrice * supplyWhole * bnbUsd)
      | none => return (0, 0)

/-- The part of `handle_enter` after the entry was priced: book, held set, book file. -/
def bookEntry (fill : Fill) : Paper Unit := do
  onPaper (.openAll fill)
  let enteredUnixNs ← askPaper .unixNs
  onPaper (.heldInsert fill.token {
    kolName := fill.kolName
    symbol := fill.symbol
    enteredBlock := fill.block
    enteredUnixNs := enteredUnixNs
    bnbInWei := min (u128OfU256 fill.bnbIn * 2) U128_MAX })
  let _ ← onPaper .saveBook
  return ()

/-- Price an entry and book it. -/
def priceEntry (kolName : String) (token : Address) (bnbAmount : U256) (kolTx : B256) :
    Paper Bool := do
  match ← askPaper (.lookup token) with
  | none => return true
  | some info =>
      match ← rawQuote bnbAmount token info.decimals kolTx with
      | .error _ => return false
      | .ok none => return true
      | .ok (some raw) =>
          let quote ← x.entryQuote raw bnbAmount token info.decimals kolTx
          let bnbUsd := (← askPaper .bnbPrice).getD 0
          let (dMcapUsd, ourMcapUsd) ← entryMcaps quote bnbAmount token info.decimals kolTx bnbUsd
          let nowBlock := (← askPaper .currentHeadBlock).getD 0
          bookEntry {
            kolName := kolName
            token := token
            symbol := info.symbol
            decimals := info.decimals
            bnbIn := bnbAmount
            tokensIn := quote.amountOut
            block := nowBlock
            tx := kolTx
            dMcapUsd := dMcapUsd
            ourMcapUsd := ourMcapUsd }
          return true

/-- `handle_enter`: whether it ended without an error. -/
def handleEnter (kolName : String) (token : Address) (calldata : List UInt8) (bnbAmount : U256)
    (kolTx : B256) : Paper Bool := do
  match enterToken token calldata with
  | none => return true
  | some token =>
      if isBlacklisted token then return true
      else
        match ← x.reserveAmount kolName bnbAmount with
        | none => return true
        | some amount => x.priceEntry kolName token amount kolTx

/-! ### Closes -/

/-- The part of a position that a close sells, and what it leaves. -/
structure CloseSlice where
  isFullClose : Bool
  sellTokens : U256
  sellBnbIn : U256
  remainingTokens : U256
  remainingBnbIn : U256
deriving DecidableEq, Repr

/-- From 0.99 on the whole position is closed. -/
def closeSlice (p : OpenPosition) (fraction : ℚ) : CloseSlice :=
  let fraction := clamp01 fraction
  if fraction ≥ 99 / 100 then ⟨true, p.tokensHeld, p.bnbIn, 0, 0⟩
  else
    let sellTokens := scaleU256ByFraction p.tokensHeld fraction
    let sellBnbIn := scaleU256ByFraction p.bnbIn fraction
    ⟨false, sellTokens, sellBnbIn, saturatingSubU256 p.tokensHeld sellTokens,
      saturatingSubU256 p.bnbIn sellBnbIn⟩

/-- A quote for the slice, and whether it was measured one block after the KOL's sell. -/
def exitQuote (sellTokens : U256) (token : Address) (triggerSellTx : Option B256) :
    Paper (Option QuoteResult × Bool) := do
  match triggerSellTx with
  | none =>
      let quote ← askPaper (.simulateSell sellTokens token)
      return (quote.map SomeQuote.toQuoteResult, false)
  | some stx =>
      match ← askPaper (.measuredV2V3FillAtKolPlus1 false sellTokens token stx) with
      | some quote => return (some quote.toQuoteResult, true)
      | none =>
          let quote ← askPaper (.simulateSell sellTokens token)
          return (quote.map SomeQuote.toQuoteResult, false)

/-- The price of a token that has no pool, and whether it was observed in a real sell. -/
def bondingPrice (p : OpenPosition) (triggerSellTx : Option B256) : Paper (Option ℚ × Bool) := do
  match triggerSellTx with
  | none => return (none, false)
  | some stx =>
      match ← askPaper (.measuredChainSwapPriceAtKolPlus1 false p.tokenAddress p.tokenDecimals stx)
        with
      | some price => return (some price, true)
      | none =>
          let price ← askPaper (.kolExecPrice stx p.tokenAddress p.tokenDecimals false)
          return (price, false)

/-- What the close brings in, in wei, and the reason it is booked under. -/
def exitFill (p : OpenPosition) (slice : CloseSlice) (reason : CloseReason)
    (triggerSellTx : Option B256) (quote : Option QuoteResult) (measured : Bool) (gasWei : U256) :
    Paper (U256 × CloseReason) := do
  match quote.filter fun q => decide (q.amountOut ≠ 0) with
  | some q =>
      let afterSlip :=
        if measured then q.amountOut else bpsHaircutU256 q.amountOut x.costs.slipV2Bps
      return (saturatingSubU256 afterSlip gasWei, reason)
  | none =>
      let (priced, observed) ← bondingPrice p triggerSellTx
      match priced.filter fun price => decide (price > 0) with
      | some price =>
          let outBnb := wholeTokens slice.sellTokens p.tokenDecimals * price
          let pre := U256.ofU128 (f64AsU128 (max (outBnb * 10 ^ 18) 0))
          let afterSlip := if observed then pre else bpsHaircutU256 pre x.costs.slipBondingBps
          return (saturatingSubU256 afterSlip gasWei, reason)
      | none => return (slice.sellBnbIn, .priceUnavailable)

/-- Market caps of the KOL's exit and of ours. -/
def exitMcaps (p : OpenPosition) (sellTokens bnbOut : U256) (triggerSellTx : Option B256)
    (bnbUsd : ℚ) : Paper (ℚ × ℚ) := do
  match triggerSellTx with
  | none => return (0, 0)
  | some stx =>
      let supplyWhole := (← askPaper (.totalSupplyWhole p.tokenAddress p.tokenDecimals)).getD 0
      if supplyWhole > 0 then
        let kolPx := (← askPaper (.kolExecPrice stx p.tokenAddress p.tokenDecimals false)).getD 0
        let toksWhole := wholeTokens sellTokens p.tokenDecimals
        let ourPx := if toksWhole > 0 then bnbOfWei bnbOut / toksWhole else 0
        return (kolPx * supplyWhole * bnbUsd, ourPx * supplyWhole * bnbUsd)
      else return (0, 0)

/-- Twice the gas of a trade, in wei, at the current price. -/
def roundTripGas (bnbUsd : ℚ) : U256 :=
  if bnbUsd > 0 then .ofU128 (f64AsU128 (max (x.costs.gasPerTradeUsd * 2 / bnbUsd * 10 ^ 18) 0))
  else 0

/-- The ledger row of a close of `slice`. -/
def tradeRow (p : OpenPosition) (slice : CloseSlice) (bnbOut : U256) (closeReason : CloseReason)
    (triggerSellTx : Option B256) (closedAtBlock closedAtUnixNs : Nat) (bnbUsd : ℚ)
    (exitMcaps : ℚ × ℚ) : ClosedTrade :=
  { portfolio := p.portfolio
    kolName := p.kolName
    tokenAddress := p.tokenAddress
    tokenSymbol := p.tokenSymbol
    bnbInWei := slice.sellBnbIn
    bnbOutWei := bnbOut
    tokensTraded := slice.sellTokens
    pnlWei := saturateI128
      (i128OfU128 (u128OfU256 bnbOut) - i128OfU128 (u128OfU256 slice.sellBnbIn))
    pnlPct :=
      if slice.sellBnbIn = 0 then 0
      else ((bnbOut.toNat : ℚ) - slice.sellBnbIn.toNat) / slice.sellBnbIn.toNat
    openedAtBlock := p.openedAtBlock
    openedAtUnixNs := p.openedAtUnixNs
    closedAtBlock := closedAtBlock
    closedAtUnixNs := closedAtUnixNs
    heldSecs := (closedAtUnixNs - p.openedAtUnixNs) / 1000000000
    buyTxCount := p.buyTxHashes.length
    closeReason := closeReason
    triggerSellTx := triggerSellTx
    dMcapUsd := p.dMcapUsd
    ourEntryMcapUsd := p.ourEntryMcapUsd
    bnbUsdAtClose := bnbUsd
    kolExitCount := if triggerSellTx.isSome then 1 else 0
    kolExitMcapFirstUsd := exitMcaps.1
    kolExitMcapLastUsd := exitMcaps.1
    ourAvgExitMcapUsd := exitMcaps.2 }

/-- Price the close of a slice: its ledger row. -/
def priceClose (p : OpenPosition) (slice : CloseSlice) (reason : CloseReason)
    (triggerSellTx : Option B256) : Paper ClosedTrade := do
  let nowBlock := (← askPaper .currentHeadBlock).getD 0
  let (quote, measured) ← exitQuote slice.sellTokens p.tokenAddress triggerSellTx
  let bnbUsd := (← askPaper .bnbPrice).getD 0
  let (bnbOut, closeReason) ←
    x.exitFill p slice reason triggerSellTx quote measured (x.roundTripGas bnbUsd)
  let closedAtNs ← askPaper .unixNs
  let mcaps ← exitMcaps p slice.sellTokens bnbOut triggerSellTx bnbUsd
  return tradeRow p slice bnbOut closeReason triggerSellTx nowBlock closedAtNs bnbUsd mcaps

/-- Credit the slice to the KOL's budget, if budgets are on. -/
def creditSlice (trade : ClosedTrade) : Paper Unit := do
  match x.kolBudgets with
  | none => return ()
  | some _ =>
      onPaper (.creditClose trade.key trade.tokensTraded trade.bnbInWei trade.bnbOutWei)
      saveBudgets

/-- Remove the position or shrink it to what the close leaves of the snapshot `p`. -/
def updateBook (key : PositionKey) (p : OpenPosition) (slice : CloseSlice) : Paper Bool := do
  if slice.isFullClose then onPaper (.remove key p)
  else onPaper (.shrink key slice.remainingTokens slice.remainingBnbIn p)

/-- `close_one`: close a fraction of the position under a key. -/
def closeOne (key : PositionKey) (reason : CloseReason) (triggerSellTx : Option B256)
    (fraction : ℚ) :
    Paper Unit := do
  match ← onPaper (.get key) with
  | none => return ()
  | some p =>
      let slice := closeSlice p fraction
      if slice.sellTokens = 0 then return ()
      else
        let trade ← x.priceClose p slice reason triggerSellTx
        x.creditSlice trade
        let _ ← onPaper (.appendTrade trade)
        let tokenStillHeld ← updateBook key p slice
        if tokenStillHeld = false then onPaper (.heldRemove key.token)
        let _ ← onPaper .saveBook
        return ()

/-- Close a fraction under each key, one after the other. -/
def closeAll (reason : CloseReason) (triggerSellTx : Option B256) (fraction : ℚ) :
    List PositionKey → Paper Unit
  | [] => return ()
  | key :: rest => do
      x.closeOne key reason triggerSellTx fraction
      closeAll reason triggerSellTx fraction rest

/-- A historical balance, from the archive node where the local one has none. -/
def balanceOfAt (who token : Address) (block : Nat) : Paper (Option U256) := do
  match ← askPaper (.balanceAt false who token block) with
  | some balance => return some balance
  | none => if x.archiveRpc then askPaper (.balanceAt true who token block) else return none

/-- The fraction of its balance the KOL sold in `kolBlock`. -/
def kolSellFraction (kolAddr token : Address) (kolBlock : Nat) : Paper (Option ℚ) := do
  if kolAddr = 0 ∨ kolBlock = 0 then return none
  else
    match ← x.balanceOfAt kolAddr token (kolBlock - 1) with
    | none => return none
    | some pre =>
        match ← x.balanceOfAt kolAddr token kolBlock with
        | none => return none
        | some post =>
            if pre = 0 ∨ post ≥ pre then return none
            else return some (clamp01 (((pre - post).toNat : ℚ) / (pre.toNat : ℚ)))

/-- `handle_exit`: the KOL sold the token. -/
def handleExit (kolName : String) (token : Address) (sellTx : B256) (kolBlock : Nat)
    (kolAddr : Address) : Paper Unit := do
  let keys ← onPaper (.keysForKolToken kolName token)
  if keys = [] then return ()
  else
    let fraction := (← x.kolSellFraction kolAddr token kolBlock).getD 1
    x.closeAll .kolSell (some sellTx) fraction keys

/-- `sweep_timeouts`: close every position that is older than the hold timeout. -/
def sweepTimeouts (holdTimeoutNs : Nat) : Paper Unit := do
  let nowNs ← askPaper .unixNs
  let keys ← onPaper (.openedBefore (nowNs - holdTimeoutNs % 2 ^ 64))
  x.closeAll .timeout none 1 keys

/-! ### The tasks -/

/-- `execute`: handle one decision. -/
def execute (decision : Decision) (calldata : List UInt8) : Paper Bool := do
  match decision with
  | .skip _ => return true
  | .enter kolName token bnbAmount _ _ kolTx => x.handleEnter kolName token calldata bnbAmount kolTx
  | .exit kolName token kolBlock kolTx kolAddr =>
      x.handleExit kolName token kolTx kolBlock kolAddr
      return true

/-- `run_consumer`, over the decisions the strategy makes. -/
def runConsumer : List (Decision × List UInt8) → Paper Unit
  | [] => return ()
  | (decision, calldata) :: rest => do
      let _ ← askPaper .bnbPrice
      let _ ← x.execute decision calldata
      runConsumer rest

/-- `run_sweeper`, for a number of ticks. -/
def runSweeper (holdTimeoutNs : Nat) : Nat → Paper Unit
  | 0 => return ()
  | ticks + 1 => do
      x.sweepTimeouts holdTimeoutNs
      runSweeper holdTimeoutNs ticks

def body : PaperTask → Paper Unit
  | .consumer decisions => x.runConsumer decisions
  | .sweeper holdTimeoutNs ticks => x.runSweeper holdTimeoutNs ticks

/-- `PaperExecutor::new`: the held set starts with the tokens of the positions found on disk. -/
def new (book : PositionBook) (budgets : KolBudgets) : PaperWorld :=
  { book := book
    budgets := budgets
    held := book.snapshot.foldl (fun held p => held.insert p.tokenAddress {
      kolName := p.kolName
      symbol := p.tokenSymbol
      enteredBlock := p.openedAtBlock
      enteredUnixNs := p.openedAtUnixNs
      bnbInWei := u128OfU256 p.bnbIn }) ∅ }

/-- The paper trader's machine: no operation is waited for, and no task starts another. -/
def machine : Machine PaperSig PaperWorld PaperTask Unit where
  Ans := PaperOp.Ans
  exec self _ := PaperOp.exec self
  waits _ := []
  body := x.body

end PaperExecutor

/-- A configuration of the paper trader. -/
abbrev PaperConfig := Config PaperSig PaperWorld PaperTask Unit

end BscMempool.Trader
