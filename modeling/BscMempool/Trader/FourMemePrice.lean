/-
Module: BscMempool.Trader.FourMemePrice
Layer: Trader
Purpose: The data the bonding-curve price feed keeps per token: the last price point and the rolling
  window of per-block flow the trail watcher votes on.
Trusted boundary: human-reviewed translation of four_meme_price.rs (price points and TokenStats)
Main exports: PricePoint, BlockStats, TokenStats, TokenStats.ingest, TokenStats.buyCountLast,
  TokenStats.netFlowBnbWeiLast
-/
import BscMempool.Trader.Types

namespace BscMempool.Trader

/-- Last observed bonding-curve price of a token. -/
structure PricePoint where
  block : Nat
  price : ℚ
deriving Repr

/-- Flow of one token in one block. -/
structure BlockStats where
  block : Nat
  buyCount : UInt32 := 0
  sellCount : UInt32 := 0
  buyBnbWei : U128 := 0
  sellBnbWei : U128 := 0
deriving DecidableEq, Repr

def STATS_WINDOW : Nat := 10

/-- The rolling window, oldest block first. -/
structure TokenStats where
  blocks : List BlockStats := []
deriving DecidableEq, Repr

/-- `u128::saturating_add`. -/
def satAddU128 (a b : U128) : U128 :=
  if a.toNat + b.toNat < 2 ^ 128 then a + b else BitVec.allOnes 128

/-- Count one event into a block's flow. -/
def BlockStats.count (b : BlockStats) (isBuy : Bool) (bnbWei : U128) : BlockStats :=
  if isBuy then { b with buyCount := b.buyCount + 1, buyBnbWei := satAddU128 b.buyBnbWei bnbWei }
  else { b with sellCount := b.sellCount + 1, sellBnbWei := satAddU128 b.sellBnbWei bnbWei }

namespace TokenStats

/-- Reuse the last block if the event is of the same block, else push a new one and drop the oldest
beyond the window. -/
def ingest (s : TokenStats) (block : Nat) (isBuy : Bool) (bnbWei : U128) : TokenStats :=
  let blocks :=
    if s.blocks.getLast?.map BlockStats.block = some block then s.blocks
    else
      let pushed := s.blocks ++ [{ block := block }]
      pushed.drop (pushed.length - STATS_WINDOW)
  { blocks := blocks.modify (blocks.length - 1) fun b => b.count isBuy bnbWei }

/-- The last `n` blocks of the window, newest first. -/
def lastBlocks (s : TokenStats) (n : Nat) : List BlockStats := s.blocks.reverse.take n

/-- Sum of the buy counts over the last `n` blocks of the window. -/
def buyCountLast (s : TokenStats) (n : Nat) : UInt32 :=
  ((s.lastBlocks n).map BlockStats.buyCount).foldl (· + ·) 0

def sellCountLast (s : TokenStats) (n : Nat) : UInt32 :=
  ((s.lastBlocks n).map BlockStats.sellCount).foldl (· + ·) 0

/-- Bought minus sold wei over the last `n` blocks of the window, in `i128`. -/
def netFlowBnbWeiLast (s : TokenStats) (n : Nat) : Int :=
  (((s.lastBlocks n).map fun (b : BlockStats) => b.buyBnbWei - b.sellBnbWei).foldl (· + ·) 0).toInt

end TokenStats

end BscMempool.Trader
