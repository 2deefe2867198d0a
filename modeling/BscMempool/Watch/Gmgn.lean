/-
Module: BscMempool.Watch.Gmgn
Layer: Watch
Purpose: What a call of the GMGN universal router trades: the token by the shape of its words, the
  side by the value it sends.
Trusted boundary: human-reviewed translation of gmgn.rs
Main exports: Side, GmgnSwap, isGmgn, decode
-/
import BscMempool.Codec.Bytes
import BscMempool.Trader.Types

namespace BscMempool.Watch

open Trader (Address U256 WBNB)

def GMGN_SELECTOR : List UInt8 := [0x4d, 0x81, 0x9a, 0x2a]

/-- It can appear in calldata, but is never the token. -/
def GMGN_ROUTER : Address := 0x1de460f363af910f51726def188f9004276bf4bc#160

inductive Side where
  | buy
  | sell
deriving DecidableEq, Repr

structure GmgnSwap where
  token : Address
  side : Side
deriving DecidableEq, Repr

def isGmgn (input : List UInt8) : Bool := decide (4 ≤ input.length ∧ input.take 4 = GMGN_SELECTOR)

/-- `chunks_exact(32)`: a shorter rest is left out. -/
def words (body : List UInt8) : List (List UInt8) :=
  (List.range (body.length / 32)).map fun i => (body.drop (32 * i)).take 32

/-- The token that a word holds: its left 12 bytes are zero, as for every address, and the next four
are not all zero, as they are for lengths, offsets, deadlines and amounts. -/
def tokenOfWord (word : List UInt8) : Option Address :=
  if (word.take 12).any (fun b => b != 0) then none
  else if ((word.drop 12).take 4).all (fun b => b == 0) then none
  else
    let addr : Address := BitVec.ofNat 160 (Codec.ofBeBytes ((word.drop 12).take 20))
    if addr = WBNB ∨ addr = GMGN_ROUTER then none else some addr

/-- The first token among the words, and the side by whether BNB is attached. -/
def decode (input : List UInt8) (value : U256) : Option GmgnSwap :=
  if isGmgn input then
    ((words (input.drop 4)).findSome? tokenOfWord).map fun token =>
      { token := token, side := if 0 < value then .buy else .sell }
  else none

end BscMempool.Watch
