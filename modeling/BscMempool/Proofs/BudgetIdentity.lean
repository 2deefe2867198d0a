/-
Module: BscMempool.Proofs.BudgetIdentity
Layer: Proofs
Purpose: The accounts of one KOL's budget. Beside the book the calls keep three sums in exact
  integers: what was reserved, what was credited of it, and what came back. As long as the sums stay
  in the ranges of the counters, each counter is its sum and no counter operation saturates, so cash
  and committed add up to the initial capital and the realised profit.
Trusted boundary: none
Main exports: BudgetStep, BudgetSums, BudgetHistory, BudgetSums.InRange, BudgetStep.Exact,
  budget_identity
-/
import BscMempool.Trader.KolBudget
import Mathlib.Data.List.Induction
import Mathlib.Tactic.Linarith

namespace BscMempool.Trader

/-- A call on one KOL's budget. -/
inductive BudgetStep where
  | tryReserve (nowNs : Nat)
  | creditClose (bnbIn bnbOut : U256) (nowNs : Nat)
deriving DecidableEq, Repr

/-- What the calls so far reserved, credited of the reserved amounts, and credited as proceeds. -/
structure BudgetSums where
  reserved : ℤ := 0
  credited : ℤ := 0
  proceeds : ℤ := 0
deriving DecidableEq, Repr

/-- The budgets after some calls, with the sums of what the calls moved. -/
structure BudgetHistory where
  inner : KolBudgets
  sums : BudgetSums := {}

/-- What the source computes as the size of a reservation. -/
def KolBudgetBook.wanted (limits : KolBudgetBook) (cashWei : Nat) : Nat :=
  min (limits.positionPctBps * cashWei) U128_MAX / 10000

namespace BudgetHistory

variable (limits : KolBudgetBook) (kolName : String)

/-- The KOL's row; a KOL without one has what its first reservation starts it with. -/
def row (h : BudgetHistory) : KolBudget := (h.inner.lookup kolName).getD (.new limits.initialWei)

/-- One call.  What is credited to a KOL without a row goes nowhere. -/
def next (h : BudgetHistory) : BudgetStep → BudgetHistory
  | .tryReserve nowNs =>
      let (amount, inner) := limits.tryReserve h.inner kolName nowNs
      { inner, sums := { h.sums with reserved := h.sums.reserved +
        ((amount.map BitVec.toNat).getD 0 : Nat) } }
  | .creditClose bnbIn bnbOut nowNs =>
      { inner := KolBudgetBook.creditClose h.inner kolName bnbIn bnbOut nowNs
        sums :=
          if (h.inner.lookup kolName).isNone then h.sums
          else
            { h.sums with
              credited := h.sums.credited + bnbIn.toNat
              proceeds := h.sums.proceeds + bnbOut.toNat } }

def run (h : BudgetHistory) (calls : List BudgetStep) : BudgetHistory :=
  calls.foldl (next limits kolName) h

theorem run_concat (h : BudgetHistory) (calls : List BudgetStep) (c : BudgetStep) :
    h.run limits kolName (calls ++ [c]) = (h.run limits kolName calls).next limits kolName c := by
  simp [run]

end BudgetHistory

/-! ### Ranges -/

/-- The sums are in the ranges of the counters that hold them, and no more was
credited than reserved. -/
structure BudgetSums.InRange (s : BudgetSums) (initialWei : Nat) : Prop where
  portions : s.credited ≤ s.reserved
  committed : s.reserved - s.credited ≤ U128_MAX
  cash : initialWei + s.proceeds - s.reserved ≤ U128_MAX
  pnl : I128_MIN ≤ s.proceeds - s.credited ∧ s.proceeds - s.credited ≤ I128_MAX

/-- The amounts of a call are in the ranges they are converted to. -/
def BudgetStep.Fits : BudgetStep → Prop
  | .tryReserve _ => True
  | .creditClose bnbIn bnbOut _ => (bnbIn.toNat : ℤ) ≤ I128_MAX ∧ (bnbOut.toNat : ℤ) ≤ I128_MAX

/-- No conversion and no counter operation of a call on this row saturates.  A reservation that is
below the dust floor moves nothing. -/
def BudgetStep.Exact (limits : KolBudgetBook) (e : KolBudget) : BudgetStep → Prop
  | .tryReserve _ =>
      limits.dustFloorWei ≤ limits.wanted e.cashWei →
        limits.wanted e.cashWei ≤ e.cashWei ∧ e.committedWei + limits.wanted e.cashWei ≤ U128_MAX
  | .creditClose bnbIn bnbOut _ =>
      bnbIn.toNat ≤ U128_MAX ∧ bnbOut.toNat ≤ U128_MAX ∧
      bnbIn.toNat ≤ e.committedWei ∧ e.cashWei + bnbOut.toNat ≤ U128_MAX ∧
      (bnbIn.toNat : ℤ) ≤ I128_MAX ∧ (bnbOut.toNat : ℤ) ≤ I128_MAX ∧
      (I128_MIN ≤ (bnbOut.toNat : ℤ) - bnbIn.toNat ∧ (bnbOut.toNat : ℤ) - bnbIn.toNat ≤ I128_MAX) ∧
      (I128_MIN ≤ e.realizedPnlWei + ((bnbOut.toNat : ℤ) - bnbIn.toNat) ∧
        e.realizedPnlWei + ((bnbOut.toNat : ℤ) - bnbIn.toNat) ≤ I128_MAX)

/-- The row's counters are the sums. -/
structure KolBudget.Balanced (e : KolBudget) (initialWei : Nat) (s : BudgetSums) : Prop where
  initial : e.initialWei = initialWei
  cash : (e.cashWei : ℤ) = initialWei + s.proceeds - s.reserved
  committed : (e.committedWei : ℤ) = s.reserved - s.credited
  pnl : e.realizedPnlWei = s.proceeds - s.credited

/-- The identity of the accounts. -/
theorem KolBudget.Balanced.identity {e : KolBudget} {initialWei : Nat} {s : BudgetSums}
    (balanced : e.Balanced initialWei s) : (e.cashWei : ℤ) + e.committedWei = e.initialWei +
      e.realizedPnlWei := by
  rw [balanced.cash, balanced.committed, balanced.initial, balanced.pnl]
  linarith

/-! ### One call -/

section Call

variable {limits : KolBudgetBook} {kolName : String} {h : BudgetHistory}

/-- A reservation is never more than the cash. -/
theorem KolBudgetBook.wanted_le (pct : limits.positionPctBps ≤ 10000) (cashWei : Nat) :
    limits.wanted cashWei ≤ cashWei := by
  have share : limits.positionPctBps * cashWei ≤ 10000 * cashWei := Nat.mul_le_mul_right cashWei pct
  unfold KolBudgetBook.wanted
  omega

theorem KolBudgetBook.wanted_lt (cashWei : Nat) : limits.wanted cashWei < 2 ^ 256 := by
  unfold KolBudgetBook.wanted U128_MAX
  omega

theorem row_insert (e : KolBudget) (sums : BudgetSums) :
    (BudgetHistory.mk (h.inner.insert kolName e) sums).row limits kolName = e := by
  simp [BudgetHistory.row]

/-- A reservation below the dust floor takes nothing. -/
theorem tryReserve_dust (nowNs : Nat)
    (dust : limits.wanted (h.row limits kolName).cashWei < limits.dustFloorWei) :
    limits.tryReserve h.inner kolName nowNs =
      (none, h.inner.insert kolName { h.row limits kolName with
      tradesSkippedBudget := (h.row limits kolName).tradesSkippedBudget + 1
      lastUpdatedNs := nowNs }) :=
  if_pos dust

/-- Any other takes the amount wanted from the cash. -/
theorem tryReserve_taken (nowNs : Nat)
    (enough : limits.dustFloorWei ≤ limits.wanted (h.row limits kolName).cashWei) :
    limits.tryReserve h.inner kolName nowNs =
      (some (BitVec.ofNat 256 (limits.wanted (h.row limits kolName).cashWei)),
        h.inner.insert kolName {
        h.row limits kolName with
        cashWei := (h.row limits kolName).cashWei - limits.wanted (h.row limits kolName).cashWei
        committedWei :=
          min ((h.row limits kolName).committedWei + limits.wanted (h.row limits kolName).cashWei)
            U128_MAX
        tradesTaken := (h.row limits kolName).tradesTaken + 1
        lastUpdatedNs := nowNs }) :=
  if_neg (not_lt.mpr enough)

/-- A reservation moves its amount from the cash to what is committed, and nothing saturates. -/
theorem balanced_tryReserve (pct : limits.positionPctBps ≤ 10000) (nowNs : Nat)
    (balanced : (h.row limits kolName).Balanced limits.initialWei h.sums)
    (after : (h.next limits kolName (.tryReserve nowNs)).sums.InRange limits.initialWei) :
    ((h.next limits kolName (.tryReserve nowNs)).row limits kolName).Balanced limits.initialWei
        (h.next limits kolName (.tryReserve nowNs)).sums ∧
      (BudgetStep.tryReserve nowNs).Exact limits (h.row limits kolName) := by
  rcases Nat.lt_or_ge (limits.wanted (h.row limits kolName).cashWei) limits.dustFloorWei
    with dust | enough
  · constructor
    · simp only [BudgetHistory.next, tryReserve_dust nowNs dust, row_insert]
      simpa using ⟨balanced.initial, balanced.cash, balanced.committed, balanced.pnl⟩
    · intro enough
      exact absurd dust (not_lt.mpr enough)
  · have small := KolBudgetBook.wanted_le pct (h.row limits kolName).cashWei
    have amount : (BitVec.ofNat 256 (limits.wanted (h.row limits kolName).cashWei)).toNat =
        limits.wanted (h.row limits kolName).cashWei := Nat.mod_eq_of_lt (KolBudgetBook.wanted_lt _)
    obtain ⟨initial, cash, committed, pnl⟩ := balanced
    simp only [BudgetHistory.next, tryReserve_taken nowNs enough, Option.map_some, Option.getD_some,
      amount] at after ⊢
    rw [row_insert]
    have fits : (h.row limits kolName).committedWei + limits.wanted (h.row limits kolName).cashWei ≤
        U128_MAX := by
      have range := after.committed
      simp only at range
      omega
    constructor
    · rw [min_eq_left fits]
      constructor
      · exact initial
      · simp only
        omega
      · simp only
        omega
      · exact pnl
    · intro _
      exact ⟨small, fits⟩

/-- A credit moves its cost out of what is committed and its proceeds into the cash,
and nothing saturates. -/
theorem balanced_creditClose {bnbIn bnbOut : U256} (nowNs : Nat)
    (fits : (BudgetStep.creditClose bnbIn bnbOut nowNs).Fits)
    (balanced : (h.row limits kolName).Balanced limits.initialWei h.sums)
    (after : (h.next limits kolName (.creditClose bnbIn bnbOut nowNs)).sums.InRange
      limits.initialWei) :
    ((h.next limits kolName (.creditClose bnbIn bnbOut nowNs)).row limits kolName).Balanced
      limits.initialWei
        (h.next limits kolName (.creditClose bnbIn bnbOut nowNs)).sums ∧
      ((h.inner.lookup kolName).isSome → (BudgetStep.creditClose bnbIn bnbOut nowNs).Exact limits
        (h.row limits kolName)) := by
  cases held : h.inner.lookup kolName with
  | none =>
      have same : h.next limits kolName (.creditClose bnbIn bnbOut nowNs) = h := by
        simp [BudgetHistory.next, KolBudgetBook.creditClose, held]
      rw [same]
      exact ⟨balanced, fun found => by cases found⟩
  | some e =>
      have row : h.row limits kolName = e := by simp [BudgetHistory.row, held]
      rw [row] at balanced ⊢
      obtain ⟨initial, cash, committed, pnl⟩ := balanced
      obtain ⟨inFits, outFits⟩ := fits
      simp only [BudgetHistory.next, held, Option.isNone_some, if_false, Bool.false_eq_true]
        at after ⊢
      simp only [KolBudgetBook.creditClose, held, row_insert]
      obtain ⟨portions, committedRange, cashRange, pnlRange⟩ := after
      simp only at portions committedRange cashRange pnlRange
      have inPaid : bnbIn.toNat ≤ e.committedWei := by omega
      have cashFits : e.cashWei + bnbOut.toNat ≤ U128_MAX := by omega
      have deltaLow : I128_MIN ≤ (bnbOut.toNat : ℤ) - bnbIn.toNat := by
        unfold I128_MIN
        unfold I128_MAX at inFits
        omega
      have deltaHigh : (bnbOut.toNat : ℤ) - bnbIn.toNat ≤ I128_MAX := by omega
      have pnlLow : I128_MIN ≤ e.realizedPnlWei + ((bnbOut.toNat : ℤ) - bnbIn.toNat) := by omega
      have pnlHigh : e.realizedPnlWei + ((bnbOut.toNat : ℤ) - bnbIn.toNat) ≤ I128_MAX := by omega
      constructor
      · rw [u128OfU256_eq inFits, u128OfU256_eq outFits, i128OfU128_eq inFits,
          i128OfU128_eq outFits,
          saturateI128_eq deltaLow deltaHigh, saturateI128_eq pnlLow pnlHigh, min_eq_left cashFits]
        constructor
        · exact initial
        · simp only
          omega
        · simp only
          omega
        · simp only
          omega
      · intro _
        have inSmall : bnbIn.toNat ≤ U128_MAX := u128OfU256_eq inFits ▸ Nat.min_le_right _ _
        have outSmall : bnbOut.toNat ≤ U128_MAX := u128OfU256_eq outFits ▸ Nat.min_le_right _ _
        exact ⟨inSmall, outSmall, inPaid, cashFits, inFits, outFits, ⟨deltaLow, deltaHigh⟩, pnlLow,
          pnlHigh⟩

end Call

/-! ### Any calls -/

/-- The calls of a KOL that starts without a row keep every sum and amount in range: what was
credited is part of what was reserved, and no counter's exact value leaves its type. -/
structure CallsInRange (limits : KolBudgetBook) (kolName : String) (start : KolBudgets)
    (calls : List BudgetStep) :
    Prop where
  fresh : start.lookup kolName = none
  capital : limits.initialWei ≤ U128_MAX
  fits : ∀ c ∈ calls, c.Fits
  sums : ∀ seen rest, calls = seen ++ rest →
    ((BudgetHistory.mk start {}).run limits kolName seen).sums.InRange limits.initialWei

theorem CallsInRange.earlier {limits : KolBudgetBook} {kolName : String} {start : KolBudgets}
    {seen rest : List BudgetStep} (inRange : CallsInRange limits kolName start (seen ++ rest)) :
    CallsInRange limits kolName start seen := by
  constructor
  · exact inRange.fresh
  · exact inRange.capital
  · intro c member
    exact inRange.fits c (List.mem_append_left rest member)
  · intro seen' rest' cut
    exact inRange.sums seen' (rest' ++ rest) (by rw [cut, List.append_assoc])

/-- After any calls in range the counters of the row are the sums. -/
theorem run_balanced {limits : KolBudgetBook} (pct : limits.positionPctBps ≤ 10000)
    {kolName : String} {start : KolBudgets} {calls : List BudgetStep}
    (inRange : CallsInRange limits kolName start calls) :
    (((BudgetHistory.mk start {}).run limits kolName calls).row limits kolName).Balanced
      limits.initialWei
      ((BudgetHistory.mk start {}).run limits kolName calls).sums := by
  induction calls using List.reverseRecOn with
  | nil =>
      have row : (BudgetHistory.mk start {}).row limits kolName = .new limits.initialWei := by
        simp [BudgetHistory.row, inRange.fresh]
      change ((BudgetHistory.mk start {}).row limits kolName).Balanced limits.initialWei {}
      rw [row]
      constructor <;> simp [KolBudget.new]
  | append_singleton calls c ih =>
      have balanced := ih inRange.earlier
      have after := inRange.sums (calls ++ [c]) [] (by simp)
      rw [BudgetHistory.run_concat] at after ⊢
      cases c with
      | tryReserve nowNs => exact (balanced_tryReserve pct nowNs balanced after).1
      | creditClose bnbIn bnbOut nowNs =>
          have fits := inRange.fits (.creditClose bnbIn bnbOut nowNs) (by simp)
          exact (balanced_creditClose nowNs fits balanced after).1

/-- What holds at a point of a history. -/
structure RowAccounts (limits : KolBudgetBook) (kolName : String) (h : BudgetHistory) : Prop where
  identity : ∀ e, h.inner.lookup kolName = some e →
    (e.cashWei : ℤ) + e.committedWei = e.initialWei + e.realizedPnlWei
  committed : ∀ e, h.inner.lookup kolName = some e →
    (e.committedWei : ℤ) = h.sums.reserved - h.sums.credited
  /-- A reservation at this point is within the cash and not below the dust floor.
  The one operation that may saturate is the product with the cash, exactly when it
  does not fit a `u128`. -/
  reservation : ∀ nowNs amount, (limits.tryReserve h.inner kolName nowNs).1 = some amount →
    amount.toNat ≤ (h.row limits kolName).cashWei ∧ limits.dustFloorWei ≤ amount.toNat ∧
    amount.toNat =
      if U128_MAX < limits.positionPctBps * (h.row limits kolName).cashWei then U128_MAX / 10000
      else limits.positionPctBps * (h.row limits kolName).cashWei / 10000

theorem reservation_amount {limits : KolBudgetBook} {kolName : String} {h : BudgetHistory}
    {nowNs : Nat}
    {amount : U256} (taken : (limits.tryReserve h.inner kolName nowNs).1 = some amount) :
    amount.toNat = limits.wanted (h.row limits kolName).cashWei ∧
    limits.dustFloorWei ≤ amount.toNat := by
  rcases Nat.lt_or_ge (limits.wanted (h.row limits kolName).cashWei) limits.dustFloorWei
    with dust | enough
  · rw [tryReserve_dust nowNs dust] at taken
    cases taken
  · rw [tryReserve_taken nowNs enough] at taken
    cases taken
    have same : (BitVec.ofNat 256 (limits.wanted (h.row limits kolName).cashWei)).toNat =
        limits.wanted (h.row limits kolName).cashWei := Nat.mod_eq_of_lt (KolBudgetBook.wanted_lt _)
    rw [same]
    exact ⟨rfl, enough⟩

theorem accounts_of_balanced {limits : KolBudgetBook} (pct : limits.positionPctBps ≤ 10000)
    {kolName : String}
    {h : BudgetHistory} (balanced : (h.row limits kolName).Balanced limits.initialWei h.sums) :
    RowAccounts limits kolName h := by
  have row {e : KolBudget} (held : h.inner.lookup kolName = some e) : h.row limits kolName = e := by
    simp [BudgetHistory.row, held]
  constructor
  · intro e held
    exact (row held ▸ balanced).identity
  · intro e held
    exact (row held ▸ balanced).committed
  · intro nowNs amount taken
    obtain ⟨same, enough⟩ := reservation_amount taken
    refine ⟨same ▸ KolBudgetBook.wanted_le pct _, enough, ?_⟩
    rw [same, KolBudgetBook.wanted]
    split
    · rename_i above
      rw [min_eq_right (le_of_lt above)]
    · rename_i fits
      rw [min_eq_left (not_lt.mp fits)]

/-- The accounts of a KOL, over any calls whose amounts and sums are in range: at every point cash
    and committed add up to the initial capital and the realised profit, what is committed is what
    was reserved and not credited, a reservation is within the cash and not below the dust floor,
    and no counter operation of the next call saturates. -/
theorem budget_identity {limits : KolBudgetBook} (pct : limits.positionPctBps ≤ 10000)
    {kolName : String} {start : KolBudgets} {calls : List BudgetStep}
    (inRange : CallsInRange limits kolName start calls)
    (seen rest : List BudgetStep) (cut : calls = seen ++ rest) :
    let h := (BudgetHistory.mk start {}).run limits kolName seen
    RowAccounts limits kolName h ∧
      ∀ c later, rest = c :: later → (∃ nowNs, c = .tryReserve nowNs) ∨
        (h.inner.lookup kolName).isSome →
        c.Exact limits (h.row limits kolName) := by
  intro h
  have balanced : (h.row limits kolName).Balanced limits.initialWei h.sums :=
    run_balanced pct (cut ▸ inRange).earlier
  constructor
  · exact accounts_of_balanced pct balanced
  · intro c later split reaches
    have after : (h.next limits kolName c).sums.InRange limits.initialWei := by
      rw [← BudgetHistory.run_concat]
      exact inRange.sums (seen ++ [c]) later
        (by rw [cut, split, List.append_assoc, List.singleton_append])
    have member : c ∈ calls := by rw [cut, split]; simp
    cases c with
    | tryReserve nowNs => exact (balanced_tryReserve pct nowNs balanced after).2
    | creditClose bnbIn bnbOut nowNs =>
        apply (balanced_creditClose nowNs (inRange.fits _ member) balanced after).2
        rcases reaches with ⟨nowNs, isReserve⟩ | held
        · cases isReserve
        · exact held

/-! ### Two histories -/

instance (s : BudgetSums) (initialWei : Nat) : Decidable (s.InRange initialWei) :=
  decidable_of_iff (s.credited ≤ s.reserved ∧ s.reserved - s.credited ≤ U128_MAX ∧
      initialWei + s.proceeds - s.reserved ≤ U128_MAX ∧
      I128_MIN ≤ s.proceeds - s.credited ∧ s.proceeds - s.credited ≤ I128_MAX)
    ⟨fun ⟨portions, committed, cash, low, high⟩ => ⟨portions, committed, cash, low, high⟩,
      fun ⟨portions, committed, cash, low, high⟩ => ⟨portions, committed, cash, low, high⟩⟩

/-- The points of a history are where it stands after its first calls. -/
theorem inRange_of_take {limits : KolBudgetBook} {kolName : String} {calls : List BudgetStep}
    (capital : limits.initialWei ≤ U128_MAX) (fits : ∀ c ∈ calls, c.Fits)
    (points : ∀ n ≤ calls.length,
      ((BudgetHistory.mk ∅ {}).run limits kolName (calls.take n)).sums.InRange limits.initialWei) :
    CallsInRange limits kolName ∅ calls := by
  constructor
  · rfl
  · exact capital
  · exact fits
  · intro seen rest cut
    have point := points seen.length (by simp [cut])
    rwa [cut, List.take_left] at point

/-- All of a capital of `2 ^ 127` wei in one reservation: every amount and sum is in range, and the
    product of the percentage and the cash saturates. -/
theorem budget_product_saturates : ¬∀ (limits : KolBudgetBook) (kolName : String)
    (start : KolBudgets) (calls : List BudgetStep), limits.positionPctBps ≤ 10000 →
    CallsInRange limits kolName start calls →
    ∀ seen nowNs rest, calls = seen ++ .tryReserve nowNs :: rest →
      limits.positionPctBps *
        (((BudgetHistory.mk start {}).run limits kolName seen).row limits kolName).cashWei ≤
        U128_MAX := by
  intro claimed
  have inRange : CallsInRange ⟨2 ^ 127, 10000, 1⟩ "D" ∅ [.tryReserve 0] :=
    inRange_of_take (by decide) (by simp [BudgetStep.Fits]) (by decide +kernel)
  have fits := claimed ⟨2 ^ 127, 10000, 1⟩ "D" ∅ [.tryReserve 0] (by decide) inRange [] 0 [] rfl
  exact absurd fits (by decide +kernel)

/-- A reservation of a tenth of a million wei, half of which comes back with a gain. -/
theorem budget_identity_half_closed :
    let h := (BudgetHistory.mk ∅ {}).run ⟨1000000, 1000, 1⟩ "D"
        [.tryReserve 0, .creditClose 50000 70000 1]
    h.row ⟨1000000, 1000, 1⟩ "D" = ⟨1000000, 970000, 50000, 20000, 1, 0, 1⟩ ∧
      RowAccounts ⟨1000000, 1000, 1⟩ "D" h := by
  have inRange : CallsInRange ⟨1000000, 1000, 1⟩ "D" ∅
      [.tryReserve 0, .creditClose 50000 70000 1] :=
    inRange_of_take (by decide) (by simp [BudgetStep.Fits, I128_MAX]) (by decide +kernel)
  exact ⟨by decide +kernel, (budget_identity (by decide) inRange _ [] (List.append_nil _).symm).1⟩

end BscMempool.Trader
