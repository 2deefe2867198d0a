/-
Module: BscMempool.Trader.FourMemeFeed
Layer: Trader
Purpose: The bonding-curve feed: two log subscriptions, multiplexed in the order their logs arrive,
  write the latest price and the block-level flow of every token into two caches.
Trusted boundary: human-reviewed translation of four_meme_price.rs (decode_trade_buy, run_loop)
Main exports: FeedLog, decodeTradeBuy, FeedCaches, FeedEvent, FeedCaches.onEvent, FeedCaches.runLoop
-/
import BscMempool.Trader.FourMemePrice

namespace BscMempool.Trader

/-- What the feed reads of a log. -/
structure FeedLog where
  data : List UInt8
  blockNumber : Option Nat
deriving DecidableEq, Repr

/-- The value of a big-endian word; an exact number where the source has an `f64`. -/
def u256FromBeBytes (b : List UInt8) : Nat := b.foldl (fun acc byte => acc * 256 + byte.toNat) 0

/-- The `i`-th 32-byte word of the data. -/
def FeedLog.chunk (log : FeedLog) (i : Nat) : List UInt8 := (log.data.drop (i * 32)).take 32

/-- `f64 as u128`: the conversion saturates. -/
def asU128 (n : Nat) : U128 := BitVec.ofNat 128 (min n (2 ^ 128 - 1))

/-- A decoded trade. -/
structure CurveTrade where
  token : Address
  point : PricePoint
  bnbWei : U128

/-- The trade of a log; `TradeBuy` and `TradeSell` have one data layout. -/
def decodeTradeBuy (log : FeedLog) : Option CurveTrade :=
  if log.data.length < 32 * 6 then none
  else
    let token := BitVec.ofNat 160 (u256FromBeBytes ((log.chunk 0).drop 12))
    let tokens := u256FromBeBytes (log.chunk 3)
    let bnbNet := u256FromBeBytes (log.chunk 4)
    let fee := u256FromBeBytes (log.chunk 5)
    if tokens ≤ 0 then none
    else
      let bnbGross := bnbNet + fee
      if bnbGross ≤ 0 then none
      else some {
        token := token
        point := { block := log.blockNumber.getD 0, price := (bnbGross : ℚ) / (tokens : ℚ) }
        bnbWei := asU128 bnbGross }

/-- The caches the feed writes and the trail watcher reads. -/
structure FeedCaches where
  prices : Address → Option PricePoint := fun _ => none
  stats : Address → Option TokenStats := fun _ => none

/-- A log of one of the two subscriptions. -/
structure FeedEvent where
  isBuy : Bool
  log : FeedLog
deriving DecidableEq, Repr

namespace FeedCaches

/-- Take one log into both caches. -/
def onEvent (c : FeedCaches) (e : FeedEvent) : FeedCaches :=
  match decodeTradeBuy e.log with
  | none => c
  | some trade =>
      let known := (c.stats trade.token).getD {}
      { prices := Function.update c.prices trade.token (some trade.point)
        stats := Function.update c.stats trade.token
          (some (known.ingest trade.point.block e.isBuy trade.bnbWei)) }

/-- The loop over the logs it gets, in the order in which the two subscriptions yield them. -/
def runLoop (c : FeedCaches) (events : List FeedEvent) : FeedCaches := events.foldl onEvent c

@[simp] theorem runLoop_nil (c : FeedCaches) : c.runLoop [] = c := rfl

@[simp] theorem runLoop_concat (c : FeedCaches) (events : List FeedEvent) (e : FeedEvent) :
    c.runLoop (events ++ [e]) = (c.runLoop events).onEvent e := by
  simp [runLoop]

/-- Blocks in a token's window, oldest first. -/
def window (c : FeedCaches) (token : Address) : List Nat :=
  ((c.stats token).getD {}).blocks.map BlockStats.block

/-- Block of a token's price point. -/
def priceBlock (c : FeedCaches) (token : Address) : Option Nat :=
  (c.prices token).map PricePoint.block

end FeedCaches

end BscMempool.Trader
