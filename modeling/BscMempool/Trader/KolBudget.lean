/-
Module: BscMempool.Trader.KolBudget
Layer: Trader
Purpose: Per-KOL paper budgets. An entry reserves a fraction of the KOL's cash, a close gives back
  the proceeds.
Trusted boundary: human-reviewed translation of trader/kol_budget.rs; `u128` and `i128` amounts are
  numbers that saturate where the source does
Main exports: KolBudget, KolBudgetBook, KolBudgetBook.tryReserve, KolBudgetBook.creditClose
-/
import BscMempool.Trader.Types
import Mathlib.Data.List.AList

namespace BscMempool.Trader

def U128_MAX : Nat := 2 ^ 128 - 1
def I128_MAX : Int := 2 ^ 127 - 1
def I128_MIN : Int := -(2 ^ 127)

/-- `u128::try_from(x).unwrap_or(u128::MAX)`. -/
def u128OfU256 (x : U256) : Nat := min x.toNat U128_MAX

/-- `i128::try_from(x).unwrap_or(i128::MAX)` of a `u128`. -/
def i128OfU128 (x : Nat) : Int := min x I128_MAX

/-- What an `i128` operation saturates to. -/
def saturateI128 (x : Int) : Int := max I128_MIN (min x I128_MAX)

theorem u128OfU256_eq {x : U256} (fits : (x.toNat : ℤ) ≤ I128_MAX) : u128OfU256 x = x.toNat := by
  unfold u128OfU256 U128_MAX
  unfold I128_MAX at fits
  omega

theorem i128OfU128_eq {x : Nat} (fits : (x : ℤ) ≤ I128_MAX) : i128OfU128 x = x := min_eq_left fits

theorem saturateI128_eq {x : ℤ} (low : I128_MIN ≤ x) (high : x ≤ I128_MAX) :
    saturateI128 x = x := by
  rw [saturateI128, min_eq_left high, max_eq_right low]

/-- One KOL's paper portfolio, in wei. -/
structure KolBudget where
  initialWei : Nat
  cashWei : Nat
  committedWei : Nat := 0
  realizedPnlWei : Int := 0
  tradesTaken : UInt32 := 0
  tradesSkippedBudget : UInt32 := 0
  lastUpdatedNs : Nat := 0
deriving DecidableEq, Repr

def KolBudget.new (initialWei : Nat) : KolBudget :=
  { initialWei := initialWei, cashWei := initialWei }

/-- The parameters of the budget book.  `positionPctBps` is a fraction of current cash,
`dustFloorWei` the smallest trade. -/
structure KolBudgetBook where
  initialWei : Nat
  positionPctBps : Nat
  dustFloorWei : Nat
deriving DecidableEq, Repr

abbrev KolBudgets := AList fun _ : String => KolBudget

namespace KolBudgetBook

variable (limits : KolBudgetBook)

/-- Reserve a position-sized part of the KOL's cash: the amount, if it is above the dust floor. -/
def tryReserve (inner : KolBudgets) (kolName : String) (nowNs : Nat) : Option U256 × KolBudgets :=
  let entry := (inner.lookup kolName).getD (.new limits.initialWei)
  let want := min (limits.positionPctBps * entry.cashWei) U128_MAX / 10000
  if want < limits.dustFloorWei then
    (none, inner.insert kolName { entry with
      tradesSkippedBudget := entry.tradesSkippedBudget + 1
      lastUpdatedNs := nowNs })
  else
    (some (BitVec.ofNat 256 want), inner.insert kolName { entry with
      cashWei := entry.cashWei - want
      committedWei := min (entry.committedWei + want) U128_MAX
      tradesTaken := entry.tradesTaken + 1
      lastUpdatedNs := nowNs })

/-- Credit close proceeds to the KOL's cash.  A KOL without a budget is left alone. -/
def creditClose (inner : KolBudgets) (kolName : String) (bnbIn bnbOut : U256) (nowNs : Nat) :
    KolBudgets :=
  match inner.lookup kolName with
  | none => inner
  | some entry =>
      let inp := u128OfU256 bnbIn
      let outp := u128OfU256 bnbOut
      let delta := saturateI128 (i128OfU128 outp - i128OfU128 inp)
      inner.insert kolName { entry with
        committedWei := entry.committedWei - inp
        cashWei := min (entry.cashWei + outp) U128_MAX
        realizedPnlWei := saturateI128 (entry.realizedPnlWei + delta)
        lastUpdatedNs := nowNs }

end KolBudgetBook

end BscMempool.Trader
