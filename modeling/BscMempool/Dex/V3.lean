/-
Module: BscMempool.Dex.V3
Layer: Dex
Purpose: The V3 quoter: its request for one fee tier, the amount it reads from the reply, and the
  best of the tiers; and the call of the V2 quoter down to the text of its request and its reply.
Trusted boundary: human-reviewed translation of bsc-dex/src/v3.rs, and of quote_single_hop and
  eth_call in bsc-dex/src/v2.rs
Main exports: RpcReply, EthCall, hexDecode, encodeQuoteExactInputSingle, quoteOneTier,
  quoteBestTier, quoteSingleHop
-/
import BscMempool.Codec.Hex
import BscMempool.Dex.QuoteReplies

namespace BscMempool.Dex

open Codec

/-! ### Calls of a node -/

/-- What comes of a JSON-RPC request: no JSON at all, no success, an error or no text as
the result, or a text. -/
inductive RpcReply where
  | transport (e : String)
  | status (text : String)
  | error (text : String)
  | missing
  | result (text : List UInt8)

/-- The node behind `eth_call`: what it answers to the address, the data and the
block tag of a request. -/
abbrev EthCall := Address → List Char → List Char → RpcReply

def blockTag (block : Option Nat) : List Char :=
  match block with
  | some n => '0' :: 'x' :: Nat.toDigits 16 n
  | none => "latest".toList

/-- `hex_decode` after the length is known to be even. -/
def hexPairs : List UInt8 → Except String (List UInt8)
  | hi :: lo :: rest =>
      match hexValue hi, hexValue lo with
      | some hi, some lo => (hexPairs rest).map (UInt8.ofNat (hi * 16 + lo) :: ·)
      | _, _ => .error "bad hex"
  | _ => .ok []

def hexDecode (s : List UInt8) : Except String (List UInt8) :=
  if s.length % 2 ≠ 0 then .error "odd hex length" else hexPairs s

/-- `strip_prefix("0x").unwrap_or(s)` -/
def stripPrefix (s : List UInt8) : List UInt8 := if s.take 2 = ascii ['0', 'x'] then s.drop 2 else s

/-! ### V2 -/

def PANCAKE_V2_ROUTER : Address := 0x10ED43C718714eb63d5aA57B78B54704E256024E#160

/-- `V2Quoter::eth_call`; an error of the transport is reported with its text. -/
def v2EthCall (call : EthCall) (target : Address) (block : Option Nat) (data : List UInt8) :
    Except V2QuoteError (List UInt8) :=
  match call target ('0' :: 'x' :: hexEncode data) (blockTag block) with
  | .transport e => .error (.rpc e)
  | .status text => .error (.rpc s!"HTTP {text}")
  | .error text => .error (.rpc text)
  | .missing => .error (.rpc "missing result field")
  | .result text => (hexDecode (stripPrefix text)).mapError fun e => .rpc s!"hex decode: {e}"

def quoteSingleHop (call : EthCall) (amountIn : U256) (src dst : Address) (block : Option Nat) :
    Except V2QuoteError U256 :=
  quotePath (v2EthCall call PANCAKE_V2_ROUTER block) amountIn [src, dst]

/-! ### V3 -/

def PANCAKE_V3_QUOTER_V2 : Address := 0xB048Bbc1Ee6b733FFfCFb9e9CeF7375518e25997#160

/-- In hundredths of a basis point. -/
def PANCAKE_V3_FEE_TIERS : List UInt32 := [10000, 2500, 500, 100]

/-- Selector of `quoteExactInputSingle((address,address,uint256,uint24,uint160))`. -/
def QUOTE_EXACT_INPUT_SINGLE : List UInt8 := [0xc6, 0xa5, 0x02, 0x6a]

inductive V3QuoteError where
  | http (e : String)
  | rpc (msg : String)
deriving DecidableEq, Repr

structure V3QuoteResult where
  amountOut : U256
  feeTier : UInt32
deriving DecidableEq, Repr

def u32ToWord (v : UInt32) : List UInt8 := List.replicate 28 0 ++ beBytes 4 v.toNat

/-- The price limit is zero, which is none. -/
def encodeQuoteExactInputSingle (tokenIn tokenOut : Address) (amountIn : U256) (fee : UInt32) :
    List UInt8 :=
  QUOTE_EXACT_INPUT_SINGLE ++ addressWord tokenIn ++ addressWord tokenOut ++
    toBeBytes amountIn.toNat ++ u32ToWord fee ++
    List.replicate 32 0

def quoteOneTier (call : EthCall) (tokenIn tokenOut : Address) (amountIn : U256) (fee : UInt32)
    (block : Option Nat) :
    Except Panic (Except V3QuoteError U256) :=
  let data := encodeQuoteExactInputSingle tokenIn tokenOut amountIn fee
  match call PANCAKE_V3_QUOTER_V2 ('0' :: 'x' :: hexEncode data) (blockTag block) with
  | .transport e => .ok (.error (.http e))
  | .status text => .ok (.error (.rpc s!"HTTP {text}"))
  -- a quoter that reverts has no pool
  | .error _ => .ok (.ok 0)
  | .missing => .ok (.ok 0)
  | .result text =>
      let h := stripPrefix text
      if h.length < 64 then .ok (.ok 0)
      else
        match strSlice h 0 64 with
        | none => .error .sliceOutOfRange
        | some amountHex =>
            match hexDecode amountHex with
            | .error e => .ok (.error (.rpc s!"hex: {e}"))
            | .ok bytes => if bytes.length ≠ 32 then .ok (.ok 0) else .ok (.ok (fromBeSlice bytes))

/-- A tier's quote replaces the best one so far if it is more. -/
def better (best : Option V3QuoteResult) (amountOut : U256) (fee : UInt32) : Option V3QuoteResult :=
  match best with
  | none => some ⟨amountOut, fee⟩
  | some b => if amountOut > b.amountOut then some ⟨amountOut, fee⟩ else some b

def bestOfTiers (quote : UInt32 → Except Panic (Except V3QuoteError U256)) :
    Option V3QuoteResult → List UInt32 → Except Panic (Option V3QuoteResult)
  | best, [] => .ok best
  | best, fee :: rest =>
      match quote fee with
      | .error panic => .error panic
      | .ok (.ok amountOut) =>
          bestOfTiers quote (if amountOut ≠ 0 then better best amountOut fee else best) rest
      | .ok (.error _) => bestOfTiers quote best rest

def quoteBestTier (call : EthCall) (tokenIn tokenOut : Address) (amountIn : U256)
    (block : Option Nat) :
    Except Panic (Except V3QuoteError (Option V3QuoteResult)) :=
  (bestOfTiers (fun fee => quoteOneTier call tokenIn tokenOut amountIn fee block) none
    PANCAKE_V3_FEE_TIERS).map .ok

end BscMempool.Dex
