/-
Module: BscMempool.Dex.Multicall
Layer: Dex
Purpose: Batched calls: the call data of `aggregate3` and the results read out of its reply.
  Positions in the reply are computed in `usize`, where additions wrap; a slice outside the reply
  panics.
Trusted boundary: human-reviewed translation of bsc-dex/src/multicall.rs
Main exports: Multicall3Call, encodeAggregate3, Multicall3Result, decodeResult,
  decodeAggregate3Results, aggregate3
-/
import BscMempool.Dex.V2

namespace BscMempool.Dex

open Codec

/-- Selector of `aggregate3((address,bool,bytes)[])`. -/
def AGGREGATE3 : List UInt8 := [0x82, 0xad, 0x56, 0xcb]

structure Multicall3Call where
  target : Address
  allowFailure : Bool
  callData : List UInt8
deriving DecidableEq, Repr

structure Multicall3Result where
  success : Bool
  returnData : List UInt8
deriving DecidableEq, Repr

inductive MulticallError where
  | rpc (msg : String)
  | short
deriving DecidableEq, Repr

/-- How decoding ends without a list: an error, or a slice that is out of range. -/
inductive DecodeFailure where
  | error (e : MulticallError)
  | panic
deriving DecidableEq, Repr

/-! ### The request -/

/-- A flag, right-aligned in a word. -/
def boolWord (b : Bool) : List UInt8 := List.replicate 31 0 ++ [if b then 1 else 0]

/-- One call: target, flag, the offset `0x60` of its data within the struct, and the padded data. -/
def encodeCall (c : Multicall3Call) : List UInt8 :=
  let len := c.callData.length
  let pad := (32 - len % 32) % 32
  addressWord c.target ++ boolWord c.allowFailure ++ toBeBytes 0x60 ++
    toBeBytes len ++ c.callData ++ List.replicate pad 0

/-- The calls' structs stand back to back after the length. -/
def encodeAggregate3 (calls : List Multicall3Call) : List UInt8 :=
  let body := toBeBytes calls.length ++ calls.flatMap encodeCall
  AGGREGATE3 ++ toBeBytes 0x20 ++ body

/-! ### The reply -/

/-- A `U256` as a `usize`, zero where it does not fit. -/
def usizeOrZero (n : Nat) : Nat := if n < 2 ^ 64 then n else 0

/-- `n` bytes from `start` on, if the reply is long enough.  The end is a sum in `usize`: where it
    wraps around the check passes, and the slice panics. -/
def readSlice (raw : List UInt8) (start n : Nat) : Except DecodeFailure (List UInt8) :=
  let stop := (start + n) % 2 ^ 64
  if raw.length < stop then .error (.error .short)
  else if start ≤ stop ∧ stop ≤ raw.length then .ok (slice raw start stop)
  else .error .panic

/-- The `i`-th result, from a head of two words at `64 + 64 * i`. -/
def decodeResult (raw : List UInt8) (i : Nat) : Except DecodeFailure Multicall3Result :=
  let headBase := 64
  let head := slice raw (headBase + i * 64) (headBase + (i + 1) * 64)
  let success := head.getD 31 0 != 0
  let offset := fromBeSlice (slice head 32 64)
  let absTail := (headBase + i * 64 + usizeOrZero offset.toNat) % 2 ^ 64
  match readSlice raw absTail 32 with
  | .error e => .error e
  | .ok bytesLen =>
      let blen := usizeOrZero (fromBeSlice bytesLen).toNat
      match readSlice raw (absTail + 32) blen with
      | .error e => .error e
      | .ok bytes => .ok { success := success, returnData := bytes }

/-- The results from the `i`-th on. -/
def decodeResults (raw : List UInt8) : Nat → Nat → Except DecodeFailure (List Multicall3Result)
  | 0, _ => .ok []
  | n + 1, i =>
      match decodeResult raw i with
      | .error e => .error e
      | .ok result => (decodeResults raw n (i + 1)).map (result :: ·)

/-- `Vec::with_capacity` of results, 40 bytes each, panics where the vector would be
larger than `isize::MAX`. -/
def resultCapacityOverflows (n : Nat) : Bool := 2 ^ 63 ≤ n * 40

def decodeAggregate3Results (raw : List UInt8) (expectedLen : Nat) :
    Except DecodeFailure (List Multicall3Result) :=
  if raw.length < 64 then .error (.error .short)
  else
    let returnedLen := fromBeSlice (slice raw 32 64)
    if returnedLen ≠ BitVec.ofNat 256 expectedLen then
      .error (.error
        (.rpc s!"aggregate3: returned length {returnedLen.toNat} != expected {expectedLen}"))
    else
      let headSectionLen := expectedLen * 64 % 2 ^ 64
      let headEnd := (64 + headSectionLen) % 2 ^ 64
      if raw.length < headEnd then .error (.error .short)
      else if resultCapacityOverflows expectedLen then .error .panic
      else decodeResults raw expectedLen 0

/-- Run calls over a node that answers them. -/
def aggregate3 (ethCall : List UInt8 → Except DecodeFailure (List UInt8))
    (calls : List Multicall3Call) :
    Except DecodeFailure (List Multicall3Result) :=
  match ethCall (encodeAggregate3 calls) with
  | .error e => .error e
  | .ok raw => decodeAggregate3Results raw calls.length

end BscMempool.Dex
