/-
Module: BscMempool.Dex.V2
Layer: Dex
Purpose: The V2 quoter's call data: the encoded `getAmountsOut` request, the last amount of its
  reply, as the quoter and as the live executor reads it, and the same request as the trail watcher
  formats it in hexadecimal digits.
Trusted boundary: human-reviewed translation of bsc-dex/src/v2.rs, of get_amounts_out_v2 in
  trader/executor_live.rs and of the request in trader/adaptive_trail.rs (v2_quote_price)
Main exports: encodeGetAmountsOut, decodeAmountsLast, quotePath, getAmountsOutV2, hexEncode,
  v2QuoteData
-/
import BscMempool.Codec.Bytes

namespace BscMempool.Dex

open Codec

abbrev Address := BitVec 160
abbrev U256 := BitVec 256

def WBNB : Address := 0xbb4CdB9CBd36B01bD1cBaEBF2De08d9173bc095c#160

/-- Selector of `getAmountsOut(uint256,address[])`. -/
def GET_AMOUNTS_OUT : List UInt8 := [0xd0, 0x6c, 0xa6, 0x1f]

inductive V2QuoteError where
  | rpc (msg : String)
  | shortResult (length : Nat)
  | badPath (hops : Nat)
deriving DecidableEq, Repr

/-- `to_be_bytes::<32>` of a `U256`. -/
def toBeBytes (n : Nat) : List UInt8 := beBytes 32 n

/-- The bytes `raw[start..end]`. -/
def slice (raw : List UInt8) (start stop : Nat) : List UInt8 := (raw.drop start).take (stop - start)

/-- `U256::from_be_slice`. -/
def fromBeSlice (b : List UInt8) : U256 := BitVec.ofNat 256 (ofBeBytes b)

/-- An address as 20 bytes. -/
def asSlice (a : Address) : List UInt8 := beBytes 20 a.toNat

/-- An address, right-aligned in a word. -/
def addressWord (a : Address) : List UInt8 := List.replicate 12 0 ++ asSlice a

def encodeGetAmountsOut (amountIn : U256) (path : List Address) : List UInt8 :=
  GET_AMOUNTS_OUT ++ toBeBytes amountIn.toNat ++ toBeBytes 0x40 ++ toBeBytes path.length ++
    path.flatMap addressWord

/-- The last element of the returned array; a caller expects at least one. -/
def decodeAmountsLast (raw : List UInt8) (expectedLen : Nat) : Except V2QuoteError U256 :=
  let shortest := 32 + 32 + expectedLen * 32
  if raw.length < shortest then .error (.shortResult raw.length)
  else
    let returnedLen := fromBeSlice (slice raw 32 64)
    if returnedLen ≠ BitVec.ofNat 256 expectedLen then
      .error (.rpc
        s!"unexpected returned-array length: got {returnedLen.toNat}, expected {expectedLen}")
    else
      let lastOffset := 32 + 32 + (expectedLen - 1) * 32
      .ok (fromBeSlice (slice raw lastOffset (lastOffset + 32)))

/-- Quote a path over a node that answers calls. -/
def quotePath (ethCall : List UInt8 → Except V2QuoteError (List UInt8)) (amountIn : U256)
    (path : List Address) :
    Except V2QuoteError U256 :=
  if path.length < 2 then .error (.badPath path.length)
  else
    match ethCall (encodeGetAmountsOut amountIn path) with
    | .error e => .error e
    | .ok raw => decodeAmountsLast raw path.length

/-- `get_amounts_out_v2` on the bytes of the node's result, `none` if there is none: the last
amount, whatever their number. -/
def getAmountsOutV2 (result : Option (List UInt8)) : Option U256 :=
  match result with
  | none => none
  | some raw =>
      if raw.length < 96 then none
      else
        let n := (fromBeSlice (slice raw 32 64)).toNat
        -- the number of amounts has to fit in a `u32`
        if n ≥ 2 ^ 32 ∨ n = 0 ∨ raw.length < 64 + n * 32 then none
        else
          let lastOff := 64 + (n - 1) * 32
          some (fromBeSlice (slice raw lastOff (lastOff + 32)))

/-! ### Hexadecimal digits -/

/-- One lower-case digit. -/
def hexDigit (n : Nat) : Char := if n < 10 then Char.ofNat (48 + n) else Char.ofNat (87 + n)

/-- `hex_encode`, `hex::encode`: two digits a byte. -/
def hexEncode (bytes : List UInt8) : List Char :=
  bytes.flatMap fun b => [hexDigit (b.toNat / 16), hexDigit (b.toNat % 16)]

/-- `{:064x}` of a number. -/
def padHex (n : Nat) : List Char := (Nat.toDigits 16 n).leftpad 64 '0'

/-- `{:0>64}` of a string. -/
def padLeft (digits : List Char) : List Char := digits.leftpad 64 '0'

/-- 0.001 BNB. -/
def probeIn : Nat := 1000000000000000

/-- The data of the request `v2_quote_price` sends, in digits. -/
def v2QuoteData (token : Address) : List Char :=
  let sel := "d06ca61f".toList
  let head := padHex probeIn ++ padHex 0x40 ++ padHex 2
  let bodyAddrs := padLeft (hexEncode (asSlice WBNB)) ++ padLeft (hexEncode (asSlice token))
  ['0', 'x'] ++ sel ++ head ++ bodyAddrs

end BscMempool.Dex
