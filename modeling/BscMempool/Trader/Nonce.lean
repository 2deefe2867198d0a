/-
Module: BscMempool.Trader.Nonce
Layer: Trader
Purpose: The nonce manager's operations as processes: reserving a nonce, persisting the next one and
  pulling the pending count from the chain.
Trusted boundary: human-reviewed translation of trader/nonce.rs
Main exports: toNat_max_u64, reserve, persistNonce, resync
-/
import BscMempool.Trader.LiveOps

namespace BscMempool.Trader

theorem toNat_max_u64 (a b : UInt64) : (max a b).toNat = max a.toNat b.toNat := by
  change (if a ≤ b then b else a).toNat = _
  split
  · rename_i le
    exact (Nat.max_eq_right (UInt64.le_iff_toNat_le.1 le)).symm
  · rename_i gt
    rw [UInt64.le_iff_toNat_le] at gt
    exact (Nat.max_eq_left (by omega)).symm

namespace NonceManager

/-- `NonceManager::reserve`: one `fetch_add`, and a fire-and-forget task that persists the next
value. `persist` says whether a file is configured. -/
def reserve (persist : Bool) : Live UInt64 := do
  let n ← onNonce .fetchAdd
  if persist then
    let _ ← spawn (.persistNonce n)
    return n
  else
    return n

/-- The body of the task `reserve` spawns.  The successor wraps like the release build's. -/
def persistNonce (n : UInt64) : Live Unit :=
  onNonce (.write (n + 1))

/-- `NonceManager::resync`: `none` when the chain could not be asked. -/
def resync : Live (Option UInt64) := do
  match ← ask .pendingNonce with
  | none => return none
  | some chain =>
      let loaded ← onNonce .load
      onNonce (.store chain loaded)
      return some (max chain loaded)

end NonceManager

end BscMempool.Trader
