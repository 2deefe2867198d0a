/-
Module: BscMempool.Trader.Sim
Layer: Trader
Purpose: The simulator of the paper trader: what a swap would have given at a block, on V2 if it
  gives anything there and on the best V3 tier otherwise.
Trusted boundary: human-reviewed translation of trader/sim.rs
Main exports: QuoteVenue, QuoteResult, SomeQuote, tryQuote, simulateBuy, simulateSell
-/
import BscMempool.Dex.V3
import BscMempool.Trader.Types

namespace BscMempool.Trader

open Dex

inductive QuoteVenue where
  | pancakeV2
  | pancakeV3
  | bonding
deriving DecidableEq, Repr

def QuoteVenue.label : QuoteVenue → String
  | .pancakeV2 => "v2"
  | .pancakeV3 => "v3"
  | .bonding => "bonding"

structure QuoteResult where
  amountOut : U256
  venue : QuoteVenue
  feeTier : Option UInt32
deriving DecidableEq, Repr

/-- A quote of some amount. -/
structure SomeQuote extends QuoteResult where
  some : amountOut ≠ 0

def QuoteResult.nonZero (q : QuoteResult) : Option SomeQuote :=
  if some : q.amountOut ≠ 0 then .some { q with some := some } else none

namespace Sim

/-- What V3 gives, if it gives anything. -/
def fromTier : Except V3QuoteError (Option V3QuoteResult) → Option QuoteResult
  | .ok (some r) => some ⟨r.amountOut, .pancakeV3, some r.feeTier⟩
  | .ok none => none
  | .error _ => none

def tryQuote (call : EthCall) (src dst : Address) (amountIn : U256) (block : Option Nat) :
    Except Panic (Option QuoteResult) :=
  let fallback := (quoteBestTier call src dst amountIn block).map fromTier
  match quoteSingleHop call amountIn src dst block with
  | .ok amountOut => if amountOut ≠ 0 then .ok (some ⟨amountOut, .pancakeV2, none⟩) else fallback
  | .error _ => fallback

def simulateBuy (call : EthCall) (bnbInWei : U256) (token : Address) (block : Option Nat) :
    Except Panic (Option QuoteResult) :=
  tryQuote call WBNB token bnbInWei block

def simulateSell (call : EthCall) (tokensIn : U256) (token : Address) (block : Option Nat) :
    Except Panic (Option QuoteResult) := tryQuote call token WBNB tokensIn block

end Sim

end BscMempool.Trader
