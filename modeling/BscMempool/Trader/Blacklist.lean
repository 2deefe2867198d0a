/-
Module: BscMempool.Trader.Blacklist
Layer: Trader
Purpose: Tokens that no trader buys or tracks, whichever KOL touches them.
Trusted boundary: human-reviewed translation of trader/blacklist.rs
Main exports: isBlacklisted, BlacklistRuntime
-/
import BscMempool.Trader.Types

namespace BscMempool.Trader

/-- Stables, wrappers and majors that are never bought, whatever the configured list says. -/
def FALLBACK_BLACKLISTED : List Address :=
  [0x55d398326f99059ff775485246999027b3197955#160, 0x8ac76a51cc950d9822d68b83fe1ad97b32cd580d#160,
    0xe9e7cea3dedca5984780bafc599bd69add087d56#160, 0x8d0d000ee44948fc98c9b98a4fa4921476f08b0d#160,
    0xbb4cdb9cbd36b01bd1cbaebf2de08d9173bc095c#160, 0x7130d2a12b9bcbfae4f2634d864a1ee1ce3ead9c#160,
    0x2170ed0880ac9a755fd29b2688956bd959f933f8#160, 0x000ae314e2a2172a039b26378814c252734f556a#160]

def isBlacklisted (token : Address) : Bool := FALLBACK_BLACKLISTED.contains token

/-- The loaded list. -/
structure BlacklistRuntime where
  inner : List Address

/-- The addresses of the file, merged with the fallback. -/
def BlacklistRuntime.load (addresses : List Address) : BlacklistRuntime :=
  ⟨FALLBACK_BLACKLISTED ++ addresses⟩

def BlacklistRuntime.isBlacklisted (b : BlacklistRuntime) (token : Address) : Bool :=
  b.inner.contains token

end BscMempool.Trader
