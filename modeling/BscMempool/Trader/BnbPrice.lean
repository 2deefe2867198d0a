/-
Module: BscMempool.Trader.BnbPrice
Layer: Trader
Purpose: The BNB price of the dollar gate: the answer of the price feed, as text, and the cache that
  is asked first.
Trusted boundary: human-reviewed translation of bnb_price.rs; a price is an exact rational, times
  are nanoseconds
Main exports: latestAnswer, PriceCache, PriceCache.fresh
-/
import BscMempool.Watch.Venus

namespace BscMempool.Trader

open Watch.Venus (toDigit)

/-- `trim_start_matches("0x")`. -/
def trim0x : List Char → List Char
  | '0' :: 'x' :: rest => trim0x rest
  | s => s

/-- A non-empty hexadecimal numeral. -/
def hexNumeral (s : List Char) : Option Nat :=
  if s = [] then none else (s.mapM toDigit).map fun digits =>
    digits.foldl (fun n digit => 16 * n + digit) 0

/-- `i128::from_str_radix(s, 16)`: a sign may come first. -/
def i128FromHex : List Char → Option Int
  | '-' :: rest => (hexNumeral rest).bind fun n => if n ≤ 2 ^ 127 then some (-n) else none
  | '+' :: rest => (hexNumeral rest).bind fun n => if n < 2 ^ 127 then some n else none
  | s => (hexNumeral s).bind fun n => if n < 2 ^ 127 then some n else none

/-- The price in an answer of the feed, which has eight decimals and must be positive. -/
def latestAnswer (result : List Char) : Option ℚ :=
  (i128FromHex (trim0x result)).bind fun raw => if raw ≤ 0 then none else some (raw / 10 ^ 8)

/-- A price that is read is positive. -/
theorem latestAnswer_pos {result : List Char} {price : ℚ}
    (read : latestAnswer result = some price) : 0 < price := by
  obtain ⟨raw, -, positive⟩ := Option.bind_eq_some_iff.mp read
  split at positive
  · cases positive
  · rename_i above
    cases positive
    have : (0 : ℚ) < raw := by exact_mod_cast lt_of_not_ge above
    exact div_pos this (by norm_num)

/-- How long a price is believed. -/
def TTL_NS : Nat := 30 * 10 ^ 9

/-- The last price fetched, and when it was stored. -/
abbrev PriceCache := Option (ℚ × Nat)

/-- The cached price, if it was stored less than `TTL_NS` ago. -/
def PriceCache.fresh (cache : PriceCache) (nowNs : Nat) : Option ℚ :=
  match cache with
  | some (price, atNs) => if nowNs - atNs < TTL_NS then some price else none
  | none => none

/-- A fresh price is the cached one, and younger than `TTL_NS`. -/
theorem PriceCache.fresh_some {cache : PriceCache} {nowNs : Nat} {price : ℚ}
    (found : cache.fresh nowNs = some price) :
    ∃ atNs, cache = some (price, atNs) ∧ nowNs - atNs < TTL_NS := by
  unfold fresh at found
  split at found
  · split at found
    · cases found
      exact ⟨_, rfl, by assumption⟩
    · cases found
  · cases found

end BscMempool.Trader
