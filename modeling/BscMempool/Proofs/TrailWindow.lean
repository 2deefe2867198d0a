/-
Module: BscMempool.Proofs.TrailWindow
Layer: Proofs
Purpose: The windows of the two leading exits. The circular buffer, read from its next slot on, is
  the list of the last ten prices, oldest first. The vote reads it before the current price goes in
  and the dump rule after, so the dump rule looks back nine observations where the vote looks back
  ten.
Trusted boundary: none
Main exports: TrailState.window, TrailState.leadingFeatures, windowFeatures, WindowsAgree,
  leading_windows_agree_iff
-/
import BscMempool.Proofs.TrailHistory
import Mathlib.Data.List.Fold

namespace BscMempool.Trader

/-! ### The buffer as a list -/

/-- The prices of the buffer, the one about to be overwritten first. -/
def TrailState.window (st : TrailState) : List ℚ :=
  List.ofFn fun i : Fin PRICE_HISTORY_LEN => st.priceHistory[st.historyIdx + i]

theorem TrailState.window_walk (st : TrailState) :
    st.window = st.ring.walk st.historyIdx PRICE_HISTORY_LEN := by
  apply List.ext_getElem
  · simp [window, Storage.Ring.walk]
  · intro i inWindow inWalk
    have slot : st.historyIdx + ⟨i, by simpa [window] using inWindow⟩ =
        Fin.ofNat PRICE_HISTORY_LEN (st.historyIdx + i) :=
      Fin.ext (Fin.val_add _ _)
    simp only [window, Storage.Ring.walk, ring, List.getElem_ofFn, List.getElem_map,
      List.getElem_range, slot]

/-- Every slot is some way on from any other. -/
theorem slot_reach (idx slot : Fin PRICE_HISTORY_LEN) : idx + (slot - idx) = slot := by
  grind

theorem foldl_max_le_iff {prices : List ℚ} {least bound : ℚ} :
    prices.foldl max least ≤ bound ↔ least ≤ bound ∧ ∀ p ∈ prices, p ≤ bound := by
  rw [List.foldl_eq_foldr, foldr_max_le_iff]

theorem TrailState.mem_window_iff {st : TrailState} {price : ℚ} :
    price ∈ st.window ↔ price ∈ st.priceHistory.toList := by
  simp only [window, List.mem_ofFn, Vector.mem_toList_iff, Vector.mem_iff_getElem]
  constructor
  · rintro ⟨i, rfl⟩
    exact ⟨_, _, rfl⟩
  · rintro ⟨i, bound, rfl⟩
    refine ⟨⟨i, bound⟩ - st.historyIdx, ?_⟩
    simp only [slot_reach, Fin.getElem_fin]

/-- The maximum of the buffer does not depend on where it starts. -/
theorem TrailState.localMax_window (st : TrailState) : st.localMax = st.window.foldl max 0 := by
  apply eq_of_forall_ge_iff
  intro bound
  simp only [localMax, ← Vector.foldl_toList, foldl_max_le_iff, mem_window_iff]

theorem TrailState.oldestPrice_window (st : TrailState) :
    st.window.head? = some st.oldestPrice := by
  simp [window, oldestPrice]

/-- Once ten prices were observed the window is the end of the observed prices. -/
theorem trailAfter_window_full (cfg : TrailConfig) (entry : ℚ) (opened observedBlock : Nat)
    {observed : List (ℚ × Nat)} (full : PRICE_HISTORY_LEN ≤ observed.length) :
    (trailAfter cfg (.fresh entry opened observedBlock) observed).window =
      (observed.map Prod.fst).rtake PRICE_HISTORY_LEN := by
  have last := (trailAfter_holds cfg entry opened observedBlock observed).last
  rw [List.length_map, if_pos full, min_eq_right full] at last
  rw [TrailState.window_walk]
  exact last

/-! ### The features of the leading exits -/

/-- The local maximum and `vel_10` as both leading exits compute them from the buffer; a rule does
    not go on without a positive maximum and a positive oldest price. -/
def TrailState.leadingFeatures (st : TrailState) (currentPrice : ℚ) : Option (ℚ × ℚ) :=
  if st.localMax ≤ 0 ∨ st.oldestPrice ≤ 0 then none
  else some (st.localMax, (currentPrice - st.oldestPrice) / st.oldestPrice / 10)

/-- The dump rule reads the buffer through its features. -/
theorem signalDump_features (st : TrailState) (currentPrice : ℚ) :
    st.signalDump currentPrice = (st.armed && decide (st.historyCount ≥ PRICE_HISTORY_LEN) &&
      match st.leadingFeatures currentPrice with
      | none => false
      | some (localMax, vel10) =>
          decide ((localMax - currentPrice) / localMax > 3 / 10) && decide
            (vel10 < -(1 / 100))) := by
  by_cases missing : st.localMax ≤ 0 ∨ st.oldestPrice ≤ 0
  · rw [TrailState.leadingFeatures, if_pos missing]
    rcases missing with top | oldest
    · simp [TrailState.signalDump, not_lt.mpr top]
    · simp [TrailState.signalDump, not_lt.mpr oldest]
  · rw [TrailState.leadingFeatures, if_neg missing]
    simp only [not_or, not_le] at missing
    simp [TrailState.signalDump, missing.1, missing.2, Bool.and_assoc]

/-- So do the first two votes. -/
theorem computeVoteSignals_features (stats : Option TokenStats) (st : TrailState)
    (currentPrice : ℚ) :
    computeVoteSignals stats st currentPrice =
      (st.leadingFeatures currentPrice).bind fun features => stats.map fun tokenStats =>
        let bv3 : ℚ := ((tokenStats.buyCountLast 3).toNat : ℚ) / 3
        let bv10 : ℚ := ((tokenStats.buyCountLast 10).toNat : ℚ) / 10
        let collapse := if bv10 > 0 then bv3 / bv10 else 1
        let netFlow3blkBnb : ℚ := (tokenStats.netFlowBnbWeiLast 3 : ℚ) / 10 ^ 18
        (if (features.1 - currentPrice) / features.1 > 3 / 10 then 1 else 0) +
          (if features.2 < -(1 / 100) then 1 else 0) +
          (if collapse < 1 / 2 then 1 else 0) + (if netFlow3blkBnb < -1 then 1 else 0) := by
  by_cases top : st.localMax ≤ 0
  · simp [computeVoteSignals, TrailState.leadingFeatures, top]
  · by_cases oldest : st.oldestPrice ≤ 0
    · simp [computeVoteSignals, TrailState.leadingFeatures, top, oldest]
    · simp only [computeVoteSignals, TrailState.leadingFeatures, top, oldest, if_false, or_self,
        Option.bind_some]

/-- The price observed `n` observations before the one that follows `prices`. -/
def priceAgo (prices : List ℚ) (n : Nat) : ℚ := prices.getD (prices.length - n) 0

/-- What the leading exits are to compute: the maximum of the last ten prices and the return per
    block since the price of ten observations before the current one. -/
def windowFeatures (prices : List ℚ) (currentPrice : ℚ) : Option (ℚ × ℚ) :=
  let localMax := (prices.rtake 10).foldl max 0
  let tenAgo := priceAgo prices 10
  if localMax ≤ 0 ∨ tenAgo ≤ 0 then none else some (localMax, (currentPrice - tenAgo) / tenAgo / 10)

/-- When looking back nine observations makes no difference: both prices are missing, or both are
    there and give the same return, and neither the price ten observations ago nor the current one
    is above the nine between. -/
def WindowsAgree (prices : List ℚ) (currentPrice : ℚ) : Prop :=
  let tenAgo := priceAgo prices 10
  let nineAgo := priceAgo prices 9
  let between := (prices.rtake 9).foldl max 0
  tenAgo ≤ 0 ∧ nineAgo ≤ 0 ∨
    (0 < tenAgo ∧ 0 < nineAgo) ∧ (tenAgo = nineAgo ∨ currentPrice = 0) ∧ tenAgo ≤ between ∧
    currentPrice ≤ between

/-! ### The end of a list of prices -/

section Ends

variable {earlier between : List ℚ} {tenAgo nineAgo : ℚ}

theorem rtake_end {tail : List ℚ} {n : Nat} (short : tail.length = n) :
    (earlier ++ tail).rtake n = tail := by
  simp [List.rtake, short]

theorem priceAgo_end {tail : List ℚ} {n : Nat} (short : tail.length + 1 = n) :
    priceAgo (earlier ++ tenAgo :: tail) n = tenAgo := by
  have place : (earlier ++ tenAgo :: tail).length - n = earlier.length := by
    simp only [List.length_append, List.length_cons, ← short, Nat.add_sub_cancel]
  rw [priceAgo, place]
  simp

/-- The features of ten prices. -/
theorem windowFeatures_end (nine : between.length = 9) (currentPrice : ℚ) :
    windowFeatures (earlier ++ tenAgo :: between) currentPrice =
      if tenAgo ≤ 0 then none
      else some ((tenAgo :: between).foldl max 0, (currentPrice - tenAgo) / tenAgo / 10) := by
  have ten : (tenAgo :: between).length = 10 := by simp [nine]
  have inWindow : tenAgo ≤ (tenAgo :: between).foldl max 0 :=
    (foldl_max_le_iff.mp le_rfl).2 tenAgo List.mem_cons_self
  simp only [windowFeatures, rtake_end ten, priceAgo_end (congrArg (· + 1) nine)]
  by_cases missing : tenAgo ≤ 0
  · rw [if_pos missing, if_pos (Or.inr missing)]
  · rw [if_neg missing, if_neg]
    intro absent
    rcases absent with top | oldest
    · exact missing (inWindow.trans top)
    · exact missing oldest

end Ends

theorem exists_window {prices : List ℚ} (full : 10 ≤ prices.length) :
    ∃ earlier tenAgo between, prices = earlier ++ tenAgo :: between ∧ between.length = 9 := by
  have drops : (prices.rtake 10).length = 10 := by
    rw [List.rtake, List.length_drop]
    omega
  cases taken : prices.rtake 10 with
  | nil => simp [taken] at drops
  | cons tenAgo between =>
      refine ⟨prices.take (prices.length - 10), tenAgo, between, ?_, by simpa [taken] using drops⟩
      rw [← taken, List.rtake, List.take_append_drop]

/-- A full buffer gives the features of the prices it was filled with. -/
theorem trailAfter_features (cfg : TrailConfig) (entry : ℚ) (opened observedBlock : Nat)
    {observed : List (ℚ × Nat)} (full : PRICE_HISTORY_LEN ≤ observed.length) (currentPrice : ℚ) :
    (trailAfter cfg (.fresh entry opened observedBlock) observed).leadingFeatures currentPrice =
      windowFeatures (observed.map Prod.fst) currentPrice := by
  have window := trailAfter_window_full cfg entry opened observedBlock full
  generalize trailAfter cfg (.fresh entry opened observedBlock) observed = st at window ⊢
  have oldest := st.oldestPrice_window
  have long : 10 ≤ (observed.map Prod.fst).length := by simpa using full
  obtain ⟨earlier, tenAgo, between, split, nine⟩ := exists_window long
  rw [split] at window ⊢
  have ten : (tenAgo :: between).length = 10 := by simp [nine]
  rw [rtake_end ten] at window
  rw [window, List.head?_cons, Option.some_inj] at oldest
  simp only [TrailState.leadingFeatures, windowFeatures, TrailState.localMax_window, window,
    ← oldest, rtake_end ten,
    priceAgo_end (congrArg (· + 1) nine)]

/-- The same return from two prices. -/
theorem return_eq_iff {a b c : ℚ} (ha : 0 < a) (hb : 0 < b) :
    (c - a) / a / 10 = (c - b) / b / 10 ↔ a = b ∨ c = 0 := by
  have product : (c - a) / a / 10 = (c - b) / b / 10 ↔ c * (a - b) = 0 := by
    field_simp
    constructor
    · intro same
      linarith
    · intro zero
      linarith
  rw [product, mul_eq_zero, sub_eq_zero, or_comm]

theorem foldl_max_cons (prices : List ℚ) (a : ℚ) :
    (a :: prices).foldl max 0 = max a (prices.foldl max 0) := by
  apply eq_of_forall_ge_iff
  intro bound
  simp only [foldl_max_le_iff, List.forall_mem_cons, max_le_iff]
  tauto

/-- Two maxima over the same prices and one more each, when the one more is not the same for
both. -/
theorem max_eq_max_iff {top a c : ℚ} (different : ¬(a = c ∧ top < a)) :
    max a top = max top c ↔ a ≤ top ∧ c ≤ top := by
  constructor
  · intro same
    by_contra above
    rcases le_or_gt a top with low | high
    · rw [max_eq_right low] at same
      exact above ⟨low, same ▸ le_max_right top c⟩
    · rw [max_eq_left (le_of_lt high)] at same
      rcases max_choice top c with isTop | isC
      · exact absurd (same.trans isTop) (ne_of_gt high)
      · exact different ⟨same.trans isC, high⟩
  · intro below
    rw [max_eq_right below.1, max_eq_left below.2]

/-- Ten prices, and the nine newest of them with the current one, have the same features exactly
    when the two windows agree. -/
theorem windowFeatures_slide {earlier between : List ℚ} {tenAgo : ℚ} (nine : between.length = 9)
    (price : ℚ) :
    windowFeatures (earlier ++ tenAgo :: between ++ [price]) price =
        windowFeatures (earlier ++ tenAgo :: between) price ↔
      WindowsAgree (earlier ++ tenAgo :: between) price := by
  cases between with
  | nil => cases nine
  | cons nineAgo eight =>
      have slid : earlier ++ tenAgo :: nineAgo :: eight ++ [price] =
          (earlier ++ [tenAgo]) ++ nineAgo :: (eight ++ [price]) := by simp
      have nine' : (eight ++ [price]).length = 9 := by simpa using nine
      have eightLong : eight.length + 1 = 9 := by simpa using nine
      have appended : earlier ++ tenAgo :: nineAgo :: eight = (earlier ++ [tenAgo]) ++ nineAgo ::
          eight := by simp
      have ago : priceAgo (earlier ++ tenAgo :: nineAgo :: eight) 9 = nineAgo := by
        rw [appended]
        exact priceAgo_end eightLong
      have between : (earlier ++ tenAgo :: nineAgo :: eight).rtake 9 = nineAgo :: eight := by
        rw [appended]
        exact rtake_end nine
      rw [windowFeatures_end nine, slid, windowFeatures_end nine']
      simp only [WindowsAgree, priceAgo_end (congrArg (· + 1) nine), ago, between]
      by_cases noTen : tenAgo ≤ 0
      · by_cases noNine : nineAgo ≤ 0
        · simp [noTen, noNine]
        · simp [noTen, noNine, not_lt.mpr noTen]
      · by_cases noNine : nineAgo ≤ 0
        · simp [noTen, noNine, not_lt.mpr noNine]
        · have tenPos := not_le.mp noTen
          have ninePos := not_le.mp noNine
          have top : nineAgo ≤ (nineAgo :: eight).foldl max 0 :=
            (foldl_max_le_iff.mp le_rfl).2 _ List.mem_cons_self
          have last : (nineAgo :: (eight ++ [price])).foldl max 0 =
              max ((nineAgo :: eight).foldl max 0) price := by
            rw [← List.cons_append, List.foldl_concat]
          simp only [noTen, noNine, if_false, Option.some_inj, Prod.mk.injEq, last,
            foldl_max_cons _ tenAgo,
            return_eq_iff ninePos tenPos, tenPos, ninePos, true_and, false_and, false_or]
          generalize (nineAgo :: eight).foldl max 0 = most at top ⊢
          -- a price above the nine that is also the one of ten observations ago has another return
          -- than the ninth
          have different (returns : nineAgo = tenAgo ∨ price = 0) :
              ¬(tenAgo = price ∧ most < tenAgo) := by
            rintro ⟨isPrice, above⟩
            rcases returns with same | zero
            · exact absurd (same ▸ top) (not_le.mpr above)
            · exact absurd (isPrice.trans zero) (ne_of_gt tenPos)
          constructor
          · rintro ⟨maxima, returns⟩
            exact ⟨returns.imp_left Eq.symm, (max_eq_max_iff (different returns)).mp maxima.symm⟩
          · rintro ⟨returns, below⟩
            have returns := returns.imp_left Eq.symm
            exact ⟨((max_eq_max_iff (different returns)).mpr below).symm, returns⟩

/-- Both leading exits against the window they are documented to use, for every history of eleven
    observations or more. The vote computes its features from the last ten prices and the price of
    ten observations ago; the dump rule computes the same features exactly when the price of nine
    observations ago serves as well. -/
theorem leading_windows_agree_iff (cfg : TrailConfig) (entry : ℚ) (opened observedBlock : Nat)
    (observed : List (ℚ × Nat)) (long : 11 ≤ observed.length) (price : ℚ) (block : Nat) :
    let before := trailAfter cfg (.fresh entry opened observedBlock) observed
    let prices := observed.map Prod.fst
    before.leadingFeatures price = windowFeatures prices price ∧
      ((step before cfg price block).2.leadingFeatures price = before.leadingFeatures price ↔
        WindowsAgree prices price) := by
  intro before prices
  have full : PRICE_HISTORY_LEN ≤ observed.length := Nat.le_of_succ_le long
  have vote : before.leadingFeatures price = windowFeatures prices price :=
    trailAfter_features cfg entry opened observedBlock full price
  have dump : (step before cfg price block).2.leadingFeatures price =
      windowFeatures (prices ++ [price]) price := by
    have grown : PRICE_HISTORY_LEN ≤ (observed ++ [(price, block)]).length := by
      simpa using Nat.le_succ_of_le full
    have features := trailAfter_features cfg entry opened observedBlock grown price
    rw [trailAfter_concat, List.map_append] at features
    exact features
  constructor
  · exact vote
  · rw [vote, dump]
    have ten : 10 ≤ prices.length := by simpa [prices] using full
    obtain ⟨earlier, tenAgo, between, split, nine⟩ := exists_window ten
    rw [split]
    exact windowFeatures_slide nine price

/-- Eleven observations and the price that follows them: a rise of a half, held. -/
def risingPrices : List (ℚ × Nat) :=
  [(100, 1), (100, 2), (150, 3), (150, 4), (150, 5), (150, 6), (150, 7), (150, 8), (150, 9),
    (150, 10), (150, 11)]

/-- The price falls back to where it was ten observations ago: no return for the vote, a fall for
the dump rule, which sells a position that was entered at 90. -/
theorem leading_windows_differ : ¬∀ (cfg : TrailConfig) (entry : ℚ) (opened observedBlock : Nat)
    (observed : List (ℚ × Nat)), 11 ≤ observed.length → ∀ (price : ℚ) (block : Nat),
    let before := trailAfter cfg (.fresh entry opened observedBlock) observed
    (step before cfg price block).2.leadingFeatures price = before.leadingFeatures price := by
  intro same
  exact absurd (same { enabled := true } 90 0 0 risingPrices (by decide) 100 12) (by decide +kernel)

/-- On a price that did not move the two rules agree. -/
theorem leading_windows_agree_flat :
    let observed : List (ℚ × Nat) := (List.range 11).map fun n => (100, n)
    let before := trailAfter { enabled := true } (.fresh 100 0 0) observed
    WindowsAgree (observed.map Prod.fst) 90 ∧
      (step before { enabled := true } 90 11).2.leadingFeatures 90 = before.leadingFeatures 90 := by
  intro observed before
  have agree : WindowsAgree (observed.map Prod.fst) 90 := by
    right
    decide +kernel
  exact ⟨agree,
    (leading_windows_agree_iff { enabled := true } 100 0 0 observed (by decide) 90 11).2.mpr agree⟩

end BscMempool.Trader
