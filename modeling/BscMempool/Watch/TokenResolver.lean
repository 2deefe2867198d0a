/-
Module: BscMempool.Watch.TokenResolver
Layer: Watch
Purpose: The metadata of a token: its symbol, name and decimals as the node's replies give them, the
  cache in front of the node, and amounts as they are shown.
Trusted boundary: human-reviewed translation of token_resolver.rs; a reply is the text of the JSON
  result, if there is one
Main exports: TokenInfo, ethCallString, ethCallU8, fetch, formatAmount, thousands
-/
import BscMempool.Codec.Hex
import BscMempool.Codec.Utf8
import BscMempool.Dex.QuoteReplies
import Mathlib.Data.List.DropRight

namespace BscMempool.Watch

open Codec
open Dex (Address U256 Panic)

def SELECTOR_SYMBOL : String := "0x95d89b41"
def SELECTOR_NAME : String := "0x06fdde03"
def SELECTOR_DECIMALS : String := "0x313ce567"

structure TokenInfo where
  address : Address
  symbol : List Char
  name : List Char
  decimals : Nat
deriving DecidableEq

/-! ### Replies -/

/-- `strip_prefix("0x")` -/
def stripHexPrefix (reply : List UInt8) : Option (List UInt8) :=
  if reply.take 2 = ascii ['0', 'x'] then some (reply.drop 2) else none

/-- `&s[start..stop]` -/
def sliceText (s : List UInt8) (start stop : Nat) : Except Panic (List UInt8) :=
  match strSlice s start stop with
  | some part => .ok part
  | none => .error .sliceOutOfRange

/-- The bytes of `n` pairs of digits from a position on, up to the first pair that is none. -/
def readPairs (h : List UInt8) : Nat → Nat → Except Panic (Option (List UInt8))
  | 0, _ => .ok (some [])
  | n + 1, pos =>
      match sliceText h pos (pos + 2) with
      | .error panic => .error panic
      | .ok pair =>
          match parseHex 256 pair with
          | none => .ok none
          | some b => (readPairs h n (pos + 2)).map (Option.map (UInt8.ofNat b :: ·))

/-- `trim_end_matches('\0')` -/
def trimNul (s : List Char) : List Char := s.rdropWhile (· == '\x00')

/-- The bytes of the string in a reply. -/
def stringBytes (reply : Option (List UInt8)) : Except Panic (Option (List UInt8)) :=
  match reply.bind stripHexPrefix with
  | none => .ok none
  | some h =>
      if h.length < 128 then .ok none
      else
        match sliceText h 64 128 with
        | .error panic => .error panic
        | .ok word =>
            match parseHex (2 ^ 64) word with
            | none => .ok none
            | some length =>
                if length = 0 ∨ length > 256 then .ok none
                else if h.length < 128 + length * 2 then .ok none
                else readPairs h length 128

/-- What is taken for a name. -/
def stringOfBytes (bytes : List UInt8) : Option (List Char) :=
  let s := trimNul (utf8Lossy bytes)
  if s = [] ∨ (utf8 s).length > 64 then none else some s

def ethCallString (reply : Option (List UInt8)) : Except Panic (Option (List Char)) :=
  (stringBytes reply).map fun bytes => bytes.bind stringOfBytes

def ethCallU8 (reply : Option (List UInt8)) : Except Panic (Option Nat) :=
  match reply.bind stripHexPrefix with
  | none => .ok none
  | some h => if h = [] then .ok none else (sliceText h (h.length - 2) h.length).map (parseHex 256)

/-- What a lookup that misses the cache asks the node, and what it makes of the replies. -/
def fetch (ethCall : String → Option (List UInt8)) (addr : Address) :
    Except Panic (Option TokenInfo) :=
  match ethCallString (ethCall SELECTOR_SYMBOL) with
  | .error panic => .error panic
  | .ok none => .ok none
  | .ok (some symbol) => do
      let name ← ethCallString (ethCall SELECTOR_NAME)
      let decimals ← ethCallU8 (ethCall SELECTOR_DECIMALS)
      return some ⟨addr, symbol, name.getD symbol, decimals.getD 18⟩

/-! ### Amounts -/

/-- A comma before each group of three digits but the first. -/
def thousandsFrom (first : Bool) : List Char → List Char
  | [] => []
  | c :: rest =>
      (if first = false ∧ (rest.length + 1) % 3 = 0 then [',', c] else [c]) ++
        thousandsFrom false rest

def thousands (n : List Char) : List Char := thousandsFrom true n

/-- The digits before and after the point. -/
def splitDigits (s : List Char) (decimals : Nat) : List Char × List Char :=
  if s.length ≤ decimals then (['0'], List.replicate (decimals - s.length) '0' ++ s)
  else (s.take (s.length - decimals), s.drop (s.length - decimals))

/-- How many digits are shown after the point. The `f64` of the whole part is exact
where it is compared. -/
def fracDigits (wholeNum : Nat) (fracTrim : List Char) : Nat :=
  if wholeNum ≥ 1000000 then 0
  else if wholeNum ≥ 1000 then 1
  else if wholeNum ≥ 1 then 3
  else if fracTrim = [] then 0
  else 6

def formatAmount (raw : U256) (decimals : Nat) : List Char :=
  if raw = 0 then ['0']
  else
    let s := decimal raw.toNat
    if decimals = 0 then s
    else
      let (whole, frac) := splitDigits s decimals
      let fracTrim := frac.rdropWhile (· == '0')
      let digits := fracDigits (Nat.ofDigitChars 10 whole 0) fracTrim
      if digits = 0 ∨ fracTrim = [] then thousands whole
      else thousands whole ++ '.' :: (if fracTrim.length > digits then fracTrim.take digits
        else fracTrim)

end BscMempool.Watch
