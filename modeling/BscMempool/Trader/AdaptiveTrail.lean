/-
Module: BscMempool.Trader.AdaptiveTrail
Layer: Trader
Purpose: The adaptive trail watcher as processes: every new head visits each cached position, prices
  it, steps its trail state and fires the exit that triggers.
Trusted boundary: human-reviewed translation of trader/adaptive_trail.rs (on_block,
  process_one_position, fire_exit, init_state_from_ledger, get_latest_price_cached)
Main exports: TrailWatcher, TrailWatcher.processOnePosition, TrailWatcher.onBlock
-/
import BscMempool.Trader.ExecutorLive

namespace BscMempool.Trader

open Concurrent (Tid)

/-- The trail watcher's configuration and the executor it shares with the consumer. -/
structure TrailWatcher where
  cfg : TrailConfig
  exec : LiveExecutor

def CACHE_MAX_STALE_BLOCKS : Nat := 5

/-- 0.001 BNB. -/
def PRICE_PROBE : U256 := 1000000000000000

/-- The latest BUY row of `token`: not an exit and with an amount that reads as a non-zero
`u128`. -/
def latestBuyRow (ledger : List LiveEntry) (token : Address) : Option LiveEntry :=
  (ledger.filter fun row =>
    row.tokenAddress == token && row.visibility != "exit" &&
      decide (0 < row.bnbInWei.toNat ∧ row.bnbInWei.toNat < 2 ^ 128)).getLast?

/-- The largest transfer amount of a receipt. -/
def BuyReceipt.tokensReceived (r : BuyReceipt) : Nat :=
  (r.transfers.map BitVec.toNat).foldl max 0

/-- The state a position starts with, from its BUY row and receipt. -/
def TrailState.ofBuy (row : LiveEntry) (receipt : BuyReceipt) (currentBlock : Nat) : TrailState :=
  let entryPrice : ℚ := (row.bnbInWei.toNat : ℚ) / (receipt.tokensReceived : ℚ)
  let buyBlock := receipt.blockNumber.getD currentBlock
  { entryPriceBnbPerToken := entryPrice
    peakPrice := entryPrice
    lastPrice := entryPrice
    armed := false
    openedBlock := buyBlock
    lastObservedBlock := buyBlock }

namespace TrailWatcher

variable (w : TrailWatcher)

def initStateFromLedger (token : Address) (currentBlock : Nat) : Live (Option TrailState) := do
  let ledger ← onEnv .ledgerRows
  match latestBuyRow ledger token with
  | none => return none
  | some row =>
      match ← ask (.buyReceipt row.txHash) with
      | none => return none
      | some receipt =>
          if receipt.tokensReceived = 0 then return none
          else return some (TrailState.ofBuy row receipt currentBlock)

/-- Buy-side V2 quote, in wei per raw token. -/
def v2QuotePrice (token : Address) : Live (Option ℚ) := do
  match ← ask (.getAmountsOut PRICE_PROBE [WBNB, token]) with
  | none => return none
  | some tokensOut =>
      if tokensOut = 0 then return none
      else return some ((PRICE_PROBE.toNat : ℚ) / (tokensOut.toNat : ℚ))

/-- The feed's price if it is recent, else the V2 quote, else the last observed curve trade. -/
def getLatestPriceCached (token : Address) (fromBlock toBlock : Nat) : Live (Option ℚ) := do
  let cached := (← ask (.cachedPrice token)).filter fun point =>
    toBlock - point.block ≤ CACHE_MAX_STALE_BLOCKS
  match cached with
  | some point => return some point.price
  | none =>
      match ← v2QuotePrice token with
      | some price => return some price
      | none =>
          if toBlock ≤ fromBlock then return none
          else ask (.observedPrice token fromBlock toBlock)

/-- Sell everything and forget the position's state, whatever became of the sell. -/
def fireExit (token : Address) (reason : String) (state : TrailState) (blockN : Nat) :
    Live Unit := do
  onEnv (.trailExit token reason state blockN)
  let _ ← w.exec.executeExit token ("TRAIL_" ++ reason) blockN 0
  onEnv (.trailRemove token)

/-- Whether the voting exit fires: the position armed, the history full and three of four votes. -/
def votedOut (token : Address) (state : TrailState) (currentPrice : ℚ) : Live Bool := do
  if state.armed ∧ state.historyCount ≥ PRICE_HISTORY_LEN then
    let stats ← ask (.tokenStats token)
    return match computeVoteSignals stats state currentPrice with
      | some votes => decide (votes ≥ 3)
      | none => false
  else return false

/-- One visit of a position whose trail state is known. -/
def observePosition (token : Address) (state : TrailState) (blockN : Nat) : Live Unit := do
  match ← getLatestPriceCached token state.lastObservedBlock blockN with
  | none =>
      if blockN - state.openedBlock ≥ w.cfg.maxHoldBlocks then
        w.fireExit token "timeout" state blockN
      else return ()
  | some currentPrice =>
      if ← votedOut token state currentPrice then
        w.fireExit token ExitReason.signalVote.label { state with lastPrice := currentPrice } blockN
      else
        match step state w.cfg currentPrice blockN with
        | (some reason, state) => w.fireExit token reason.label state blockN
        | (none, state) => onEnv (.trailInsert token state)

/-- `process_one_position`: entries that are not armed, or hold nothing, are passed over. -/
def processOnePosition (token : Address) (entry : EntryId) (blockN : Nat) : Live Unit := do
  let p ← onTrade (.loadEntry entry)
  if p.tokensBought = 0 ∨ p.approved = false then return ()
  else
    match ← onEnv (.trailGet token) with
    | some state => w.observePosition token state blockN
    | none =>
        match ← initStateFromLedger token blockN with
        | none => return ()
        | some state =>
            onEnv (.trailInsert token state)
            w.observePosition token state blockN

/-- Start one task for each position. -/
def spawnPositions (blockN : Nat) : List (Address × EntryId) → Live (List Tid)
  | [] => return []
  | (token, entry) :: rest => do
      let i ← spawn (.processOnePosition token entry blockN)
      let joins ← spawnPositions blockN rest
      return i :: joins

def joinAll : List Tid → Live Unit
  | [] => return ()
  | i :: rest => do
      join i
      joinAll rest

/-- `on_block`: visit all positions in parallel and wait for the visits. -/
def onBlock (blockN : Nat) : Live Unit := do
  let positions ← onTrade .positionSnapshot
  let joins ← spawnPositions blockN positions
  joinAll joins

/-- The newHeads loop, over the heads it gets to see. -/
def runLoop : List Nat → Live Unit
  | [] => return ()
  | blockN :: rest => do
      onBlock blockN
      runLoop rest

end TrailWatcher

end BscMempool.Trader
