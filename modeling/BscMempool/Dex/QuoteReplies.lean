/-
Module: BscMempool.Dex.QuoteReplies
Layer: Dex
Purpose: The three readers of a `getAmountsOut` reply with the positions in `usize`, where sums and
  products wrap, and slices that panic out of range.
Trusted boundary: human-reviewed translation of decode_amounts_last in bsc-dex/src/v2.rs, of the
  tail of get_amounts_out_v2 in trader/executor_live.rs and of the tail of v2_quote_price in
  trader/adaptive_trail.rs
Main exports: Panic, indexWord, decodeAmountsLastChecked, getAmountsOutV2Tail, v2QuoteTokensOut,
  v2QuotePriceTail
-/
import BscMempool.Dex.V2
import Mathlib.Data.Rat.Defs

namespace BscMempool.Dex

open Codec

/-- The ways a call ends in a panic. -/
inductive Panic where
  | sliceOutOfRange
deriving DecidableEq, Repr

def usizeAdd (a b : Nat) : Nat := (a + b) % 2 ^ 64
def usizeMul (a b : Nat) : Nat := (a * b) % 2 ^ 64
def usizeSub (a b : Nat) : Nat := (a + 2 ^ 64 - b) % 2 ^ 64

/-- `&raw[start..stop]`. -/
def index (raw : List UInt8) (start stop : Nat) : Except Panic (List UInt8) :=
  if start ≤ stop ∧ stop ≤ raw.length then .ok (slice raw start stop) else .error .sliceOutOfRange

/-- `U256::from_be_slice(&raw[start..stop])`. -/
def indexWord (raw : List UInt8) (start stop : Nat) : Except Panic U256 :=
  (index raw start stop).map fromBeSlice

def decodeAmountsLastChecked (raw : List UInt8) (expectedLen : Nat) :
    Except Panic (Except V2QuoteError U256) :=
  let shortest := usizeAdd (usizeAdd 32 32) (usizeMul expectedLen 32)
  if raw.length < shortest then .ok (.error (.shortResult raw.length))
  else
    match indexWord raw 32 64 with
    | .error panic => .error panic
    | .ok returnedLen =>
        if returnedLen ≠ BitVec.ofNat 256 expectedLen then
          .ok (.error
            (.rpc s!"unexpected returned-array length: got {returnedLen.toNat}, expected {expectedLen}"))
        else
          let lastOffset := usizeAdd (usizeAdd 32 32) (usizeMul (usizeSub expectedLen 1) 32)
          (indexWord raw lastOffset (usizeAdd lastOffset 32)).map .ok

/-- The tail of `get_amounts_out_v2`. -/
def getAmountsOutV2Tail (raw : List UInt8) : Except Panic (Option U256) :=
  if raw.length < 96 then .ok none
  else
    match indexWord raw 32 64 with
    | .error panic => .error panic
    | .ok length =>
        let n := length.toNat
        -- `u32::try_from`
        if n ≥ 2 ^ 32 then .ok none
        else if n = 0 ∨ raw.length < usizeAdd 64 (usizeMul n 32) then .ok none
        else
          let lastOff := usizeAdd 64 (usizeMul (usizeSub n 1) 32)
          (indexWord raw lastOff (usizeAdd lastOff 32)).map some

/-- The amount from which `v2_quote_price` computes its price, if it returns one. -/
def v2QuoteTokensOut (raw : List UInt8) : Except Panic (Option U256) :=
  if raw.length < 96 then .ok none
  else
    match indexWord raw 32 64 with
    | .error panic => .error panic
    | .ok length =>
        let n := length.toNat
        -- `u64::try_from`
        if n ≥ 2 ^ 64 then .ok none
        else if n = 0 ∨ raw.length < usizeAdd 64 (usizeMul n 32) then .ok none
        else
          let lastOff := usizeAdd 64 (usizeMul (usizeSub n 1) 32)
          match indexWord raw lastOff (usizeAdd lastOff 32) with
          | .error panic => .error panic
          | .ok tokensOut => if tokensOut = 0 then .ok none else .ok (some tokensOut)

/-- The tail of `v2_quote_price`: wei of the probe per raw token. -/
def v2QuotePriceTail (raw : List UInt8) : Except Panic (Option ℚ) :=
  (v2QuoteTokensOut raw).map (Option.map fun amount => (probeIn : ℚ) / (amount.toNat : ℚ))

end BscMempool.Dex
