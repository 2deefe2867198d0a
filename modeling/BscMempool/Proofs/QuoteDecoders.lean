/-
Module: BscMempool.Proofs.QuoteDecoders
Layer: Proofs
Purpose: What the three readers of a `getAmountsOut` reply make of any bytes. Two of them never
  leave the reply and read the last amount of an array that fits in it. The trail watcher's one
  multiplies a 64-bit length by 32: from 2^59 - 2 on the product, or the sum after it, wraps around,
  and the check compares the reply with what is left.
Trusted boundary: none
Main exports: LastAmount, QuoteDecodersSafe, Misread, quote_decoders_safe_iff, quote_misread
-/
import BscMempool.Dex.QuoteReplies
import BscMempool.Proofs.V2Codec
import Mathlib.Algebra.Field.Rat
import Mathlib.Tactic.NormNum

namespace BscMempool.Dex

open Codec Codec.Abi

/-- The array the reply declares has an element and fits in it, and its last
element is this amount. -/
def LastAmount (raw : List UInt8) (amount : U256) : Prop :=
  ∃ n, readWord raw 32 = some n ∧ 1 ≤ n ∧ 64 + 32 * n ≤ raw.length ∧
    readWord raw (64 + 32 * (n - 1)) = some amount.toNat

/-- No reader panics, what one returns is the last amount, and any two that accept the
reply read the same. -/
structure QuoteDecodersSafe (raw : List UInt8) : Prop where
  amountsLast : ∃ r, decodeAmountsLastChecked raw 2 = .ok r ∧ ∀ amount, r = .ok amount →
    LastAmount raw amount
  amountsOut : ∃ r, getAmountsOutV2Tail raw = .ok r ∧ ∀ amount, r = some amount →
    LastAmount raw amount
  quotePrice : ∃ r, v2QuotePriceTail raw = .ok r ∧
    ∀ price, r = some price → ∃ amount, LastAmount raw amount ∧ price = (probeIn : ℚ) /
      (amount.toNat : ℚ)
  lastOut : ∀ a b, decodeAmountsLastChecked raw 2 = .ok (.ok a) →
    getAmountsOutV2Tail raw = .ok (some b) → a = b
  lastPrice : ∀ a b, decodeAmountsLastChecked raw 2 = .ok (.ok a) →
    v2QuoteTokensOut raw = .ok (some b) → a = b
  outPrice : ∀ a b, getAmountsOutV2Tail raw = .ok (some a) →
    v2QuoteTokensOut raw = .ok (some b) → a = b

/-- The length word makes the end of the array wrap around: to the front of the reply, or to a place
    within it at which a word other than zero ends. -/
def Misread (raw : List UInt8) : Prop :=
  96 ≤ raw.length ∧ ∃ n, readWord raw 32 = some n ∧ 2 ^ 59 - 2 ≤ n ∧ n < 2 ^ 64 ∧
    ((64 + 32 * n) % 2 ^ 64 = 0 ∨
      (64 + 32 * n) % 2 ^ 64 ≤ raw.length ∧ readWord raw ((64 + 32 * n) % 2 ^ 64 - 32) ≠ some 0)

theorem LastAmount.unique {raw : List UInt8} {a b : U256} (first : LastAmount raw a)
    (second : LastAmount raw b) :
    a = b := by
  obtain ⟨n, declared, -, -, word⟩ := first
  obtain ⟨n', declared', -, -, word'⟩ := second
  obtain rfl : n = n' := Option.some.inj (declared.symm.trans declared')
  exact BitVec.eq_of_toNat_eq (Option.some.inj (word.symm.trans word'))

/-! ### Positions -/

theorem indexWord_eq {raw : List UInt8} {pos : Nat} (within : pos + 32 ≤ raw.length) :
    indexWord raw pos (pos + 32) = .ok (fromBeSlice (slice raw pos (pos + 32))) := by
  rw [indexWord, index, if_pos ⟨Nat.le_add_right pos 32, within⟩]
  rfl

theorem usize_end (n : Nat) : usizeAdd 64 (usizeMul n 32) = (64 + 32 * n) % 2 ^ 64 := by
  rw [usizeAdd, usizeMul]
  omega

/-- The last element starts 32 bytes before the end, if there is one. -/
theorem usize_last {n : Nat} (some : 1 ≤ n) (small : n < 2 ^ 64) :
    usizeAdd 64 (usizeMul (usizeSub n 1) 32) = (32 + 32 * n) % 2 ^ 64 := by
  rw [usizeAdd, usizeMul, usizeSub]
  omega

theorem usize_last_stop {n : Nat} (some : 1 ≤ n) (small : n < 2 ^ 64) :
    usizeAdd (usizeAdd 64 (usizeMul (usizeSub n 1) 32)) 32 = (64 + 32 * n) % 2 ^ 64 := by
  rw [usize_last some small, usizeAdd]
  omega

/-- The last word of the array, its end taken in `usize`. -/
theorem indexWord_last {raw : List UInt8} {n stop : Nat} (some : 1 ≤ n) (small : n < 2 ^ 64)
    (end_ : (64 + 32 * n) % 2 ^ 64 = stop) (within : stop ≤ raw.length) :
    indexWord raw (usizeAdd 64 (usizeMul (usizeSub n 1) 32))
        (usizeAdd (usizeAdd 64 (usizeMul (usizeSub n 1) 32)) 32) =
      if stop = 0 then .error .sliceOutOfRange
      else .ok (fromBeSlice (slice raw (stop - 32) stop)) := by
  rw [usize_last_stop some small, usize_last some small, end_, indexWord, index]
  by_cases front : stop = 0
  · rw [if_pos front, if_neg (by omega)]
    rfl
  · have start : (32 + 32 * n) % 2 ^ 64 = stop - 32 := by omega
    rw [if_neg front, start, if_pos ⟨by omega, within⟩]
    rfl

/-! ### The readers -/

section Readers
variable {raw : List UInt8}

/-- The length word of a reply that has one. -/
theorem exists_declared (long : 64 ≤ raw.length) :
    ∃ n, readWord raw 32 = some n ∧ (fromBeSlice (slice raw 32 64)).toNat = n :=
  ⟨_, readWord_of_le long, rfl⟩

/-- The executor's reader is the one in the model of its quotes. -/
theorem getAmountsOutV2Tail_eq (raw : List UInt8) :
    getAmountsOutV2Tail raw = .ok (getAmountsOutV2 (some raw)) := by
  rw [getAmountsOutV2Tail, getAmountsOutV2]
  by_cases short : raw.length < 96
  · rw [if_pos short, if_pos short]
  · rw [if_neg short, if_neg short, indexWord_eq (show 32 + 32 ≤ raw.length by omega)]
    dsimp only
    generalize (fromBeSlice (slice raw 32 64)).toNat = n
    by_cases wide : n ≥ 2 ^ 32
    · rw [if_pos wide, if_pos (Or.inl wide)]
    · have noWrap : (64 + 32 * n) % 2 ^ 64 = 64 + n * 32 := by omega
      rw [if_neg wide, usize_end, noWrap]
      by_cases none_ : n = 0 ∨ raw.length < 64 + n * 32
      · rw [if_pos none_, if_pos (Or.inr none_)]
      · have enough : 1 ≤ n ∧ 64 + n * 32 ≤ raw.length := by omega
        have start : 64 + n * 32 - 32 = 64 + (n - 1) * 32 := by omega
        have stop : 64 + n * 32 = 64 + (n - 1) * 32 + 32 := by omega
        have proper : ¬ (n ≥ 2 ^ 32 ∨ n = 0 ∨ raw.length < 64 + n * 32) := not_or.mpr ⟨wide, none_⟩
        rw [if_neg none_, if_neg proper, indexWord_last enough.1 (by omega) noWrap enough.2,
          if_neg (by omega), start, stop]
        rfl

/-- What the executor's reader returns is the last amount of an array a `u32` counts. -/
theorem getAmountsOutV2_last {amount : U256} (read : getAmountsOutV2 (some raw) = some amount) :
    (∃ n, readWord raw 32 = some n ∧ n < 2 ^ 32) ∧ LastAmount raw amount := by
  simp only [getAmountsOutV2] at read
  split at read
  · cases read
  · rename_i long
    split at read
    · cases read
    · rename_i proper
      obtain ⟨n, declared, isN⟩ := exists_declared (show 64 ≤ raw.length by omega)
      rw [isN] at read proper
      injection read with read
      refine ⟨⟨n, declared, by omega⟩, n, declared, by omega, by omega, ?_⟩
      rw [← read, Nat.mul_comm 32 (n - 1)]
      exact readWord_of_le (by omega)

/-- The quoter's reader for two amounts is the one in the model of its codec. -/
theorem decodeAmountsLastChecked_two (raw : List UInt8) :
    decodeAmountsLastChecked raw 2 = .ok (decodeAmountsLast raw 2) := by
  have shortest : usizeAdd (usizeAdd 32 32) (usizeMul 2 32) = 128 := by decide
  have lastOffset : usizeAdd (usizeAdd 32 32) (usizeMul (usizeSub 2 1) 32) = 96 := by decide
  have stop : usizeAdd 96 32 = 96 + 32 := by decide
  unfold decodeAmountsLastChecked decodeAmountsLast
  by_cases short : raw.length < 128
  · simp [shortest, short]
  · have lengthRead : indexWord raw 32 64 = .ok (fromBeSlice (slice raw 32 64)) :=
      indexWord_eq (by omega)
    have lastRead := indexWord_eq (show 96 + 32 ≤ raw.length by omega)
    simp only [shortest, short, if_false, lengthRead, lastOffset, stop, lastRead]
    split <;> rfl

theorem decodeAmountsLast_two_last {amount : U256} (read : decodeAmountsLast raw 2 = .ok amount) :
    readWord raw 32 = some 2 ∧ LastAmount raw amount := by
  simp only [decodeAmountsLast] at read
  split at read
  · cases read
  · rename_i long
    split at read
    · cases read
    · rename_i two
      obtain ⟨n, declared, isN⟩ := exists_declared (show 64 ≤ raw.length by omega)
      have isTwo : n = 2 := by
        rw [← isN, Decidable.not_not.mp two]
        rfl
      subst isTwo
      injection read with read
      refine ⟨declared, 2, declared, by omega, by omega, ?_⟩
      rw [← read]
      exact readWord_of_le (by omega)

/-- The trail watcher's reader, from its length word on. -/
theorem v2QuoteTokensOut_eq (long : 96 ≤ raw.length) {n : Nat}
    (declared : readWord raw 32 = some n) :
    v2QuoteTokensOut raw =
      if 2 ^ 64 ≤ n ∨ n = 0 ∨ raw.length < (64 + 32 * n) % 2 ^ 64 then .ok none
      else if (64 + 32 * n) % 2 ^ 64 = 0 then .error .sliceOutOfRange
      else if readWord raw ((64 + 32 * n) % 2 ^ 64 - 32) = some 0 then .ok none
      else .ok (some
        (fromBeSlice (slice raw ((64 + 32 * n) % 2 ^ 64 - 32) ((64 + 32 * n) % 2 ^ 64)))) := by
  have lengthRead : indexWord raw 32 64 = .ok (fromBeSlice (slice raw 32 64)) :=
    indexWord_eq (by omega)
  have isN : (fromBeSlice (slice raw 32 64)).toNat = n := toNat_word_slice declared
  rw [v2QuoteTokensOut, if_neg (Nat.not_lt.mpr long), lengthRead]
  dsimp only
  rw [isN, usize_end]
  generalize end_ : (64 + 32 * n) % 2 ^ 64 = stop
  by_cases wide : 2 ^ 64 ≤ n
  · rw [if_pos wide, if_pos (Or.inl wide)]
  · rw [if_neg wide]
    by_cases none_ : n = 0 ∨ raw.length < stop
    · rw [if_pos none_, if_pos (Or.inr none_)]
    · have enough : 1 ≤ n ∧ stop ≤ raw.length := by omega
      rw [if_neg none_, if_neg (not_or.mpr ⟨wide, none_⟩),
        indexWord_last enough.1 (by omega) end_ enough.2]
      by_cases front : stop = 0
      · rw [if_pos front, if_pos front]
      · have atStop : stop - 32 + 32 = stop := by omega
        have word := readWord_of_le (show stop - 32 + 32 ≤ raw.length by omega)
        rw [atStop] at word
        have zero : fromBeSlice (slice raw (stop - 32) stop) = 0 ↔
            readWord raw (stop - 32) = some 0 := by
          rw [word, Option.some.injEq, ← BitVec.toNat_inj]
          rfl
        rw [if_neg front, if_neg front]
        exact if_congr zero rfl rfl

/-- Where nothing wraps, the trail watcher reads the last amount too. -/
theorem v2QuoteTokensOut_last {n : Nat} (declared : readWord raw 32 = some n) (few : n < 2 ^ 59 - 2)
    {amount : U256} (read : v2QuoteTokensOut raw = .ok (some amount)) : LastAmount raw amount := by
  have long : 96 ≤ raw.length := by
    by_contra short
    rw [v2QuoteTokensOut, if_pos (Nat.not_le.mp short)] at read
    cases read
  have noWrap : (64 + 32 * n) % 2 ^ 64 = 64 + 32 * n := Nat.mod_eq_of_lt (by omega)
  rw [v2QuoteTokensOut_eq long declared, noWrap] at read
  split at read
  · cases read
  · rename_i proper
    have start : 64 + 32 * n - 32 = 64 + 32 * (n - 1) := by omega
    have stop : 64 + 32 * n = 64 + 32 * (n - 1) + 32 := by omega
    have word := readWord_of_le (show 64 + 32 * (n - 1) + 32 ≤ raw.length by omega)
    rw [if_neg (by omega), start, stop] at read
    split at read
    · cases read
    · injection read with read
      injection read with read
      refine ⟨n, declared, by omega, by omega, ?_⟩
      rw [word, read]

/-- The trail watcher's reader panics or reads elsewhere exactly on the replies it misreads. -/
theorem v2QuoteTokensOut_safe_iff (small : raw.length < 2 ^ 63) :
    (∃ r, v2QuoteTokensOut raw = .ok r ∧ ∀ amount, r = some amount → LastAmount raw amount) ↔
    ¬ Misread raw := by
  by_cases long : 96 ≤ raw.length
  · obtain ⟨n, declared, -⟩ := exists_declared (show 64 ≤ raw.length by omega)
    have only : ∀ n', readWord raw 32 = some n' → n' = n :=
      fun n' found => Option.some.inj (found.symm.trans declared)
    by_cases few : n < 2 ^ 59 - 2
    · -- nothing wraps
      have straight : ¬ Misread raw := by
        rintro ⟨-, n', found, many, -⟩
        rw [only n' found] at many
        omega
      have noPanic : ∃ r, v2QuoteTokensOut raw = .ok r := by
        rw [v2QuoteTokensOut_eq long declared,
          Nat.mod_eq_of_lt (show 64 + 32 * n < 2 ^ 64 by omega)]
        split
        · exact ⟨_, rfl⟩
        · rw [if_neg (by omega)]
          split <;> exact ⟨_, rfl⟩
      obtain ⟨r, read⟩ := noPanic
      simp only [straight, not_false_eq_true, iff_true]
      refine ⟨r, read, ?_⟩
      rintro amount rfl
      exact v2QuoteTokensOut_last declared few read
    · rw [v2QuoteTokensOut_eq long declared]
      by_cases none_ : 2 ^ 64 ≤ n ∨ n = 0 ∨ raw.length < (64 + 32 * n) % 2 ^ 64
      · -- the length does not fit, or the check rejects what is left of the end
        have straight : ¬ Misread raw := by
          rintro ⟨-, n', found, -, fits, atEnd⟩
          obtain rfl := only n' found
          omega
        rw [if_pos none_]
        simp [straight]
      · rw [if_neg none_]
        by_cases front : (64 + 32 * n) % 2 ^ 64 = 0
        · have misread : Misread raw := ⟨long, n, declared, by omega, by omega, Or.inl front⟩
          rw [if_pos front]
          simp [misread]
        · rw [if_neg front]
          by_cases zero : readWord raw ((64 + 32 * n) % 2 ^ 64 - 32) = some 0
          · have straight : ¬ Misread raw := by
              rintro ⟨-, n', found, -, -, atEnd⟩
              obtain rfl := only n' found
              rcases atEnd with atFront | ⟨-, nonzero⟩
              · exact front atFront
              · exact nonzero zero
            rw [if_pos zero]
            simp [straight]
          · have misread : Misread raw :=
              ⟨long, n, declared, by omega, by omega, Or.inr ⟨by omega, zero⟩⟩
            have elsewhere : ∀ amount, ¬ LastAmount raw amount := by
              rintro amount ⟨n', found, -, within, -⟩
              rw [only n' found] at within
              omega
            rw [if_neg zero]
            simp [misread, elsewhere]
  · have straight : ¬ Misread raw := fun misread => long misread.1
    rw [v2QuoteTokensOut, if_pos (Nat.not_le.mp long)]
    simp [straight]

end Readers

/-! ### All three -/

/-- A price tells the amount it was computed from. -/
theorem price_injective {a b : U256}
    (same : (probeIn : ℚ) / (a.toNat : ℚ) = (probeIn : ℚ) / (b.toNat : ℚ)) : a = b := by
  have probe : (probeIn : ℚ) ≠ 0 := by norm_num [probeIn]
  rw [div_eq_mul_inv, div_eq_mul_inv] at same
  have amounts : (a.toNat : ℚ) = (b.toNat : ℚ) := inv_injective (mul_left_cancel₀ probe same)
  exact BitVec.eq_of_toNat_eq (Nat.cast_injective amounts)

theorem quotePrice_safe_iff (raw : List UInt8) :
    (∃ r, v2QuotePriceTail raw = .ok r ∧
      ∀ price, r = some price → ∃ amount, LastAmount raw amount ∧ price = (probeIn : ℚ) /
        (amount.toNat : ℚ)) ↔
    ∃ r, v2QuoteTokensOut raw = .ok r ∧ ∀ amount, r = some amount → LastAmount raw amount := by
  rw [v2QuotePriceTail]
  cases v2QuoteTokensOut raw with
  | error panic => simp [Except.map]
  | ok r =>
      cases r with
      | none => simp [Except.map]
      | some amount =>
          simp only [Except.map, Option.map_some, Except.ok.injEq, exists_eq_left',
            Option.some.injEq, forall_eq']
          constructor
          · rintro ⟨amount', last, same⟩
            rwa [price_injective same]
          · intro last
            exact ⟨amount, last, rfl⟩

/-- For every reply (no slice is longer than `isize::MAX`) the three readers are safe and agree
    unless the length word makes the trail watcher's one misread. -/
theorem quote_decoders_safe_iff {raw : List UInt8} (small : raw.length < 2 ^ 63) :
    QuoteDecodersSafe raw ↔ ¬ Misread raw := by
  rw [← v2QuoteTokensOut_safe_iff small, ← quotePrice_safe_iff]
  constructor
  · intro safe
    exact safe.quotePrice
  · intro quotePrice
    have lastAmount : ∀ a, decodeAmountsLastChecked raw 2 = .ok (.ok a) →
        readWord raw 32 = some 2 ∧ LastAmount raw a := by
      intro a read
      rw [decodeAmountsLastChecked_two] at read
      exact decodeAmountsLast_two_last (Except.ok.inj read)
    have outAmount : ∀ a, getAmountsOutV2Tail raw = .ok (some a) →
        (∃ n, readWord raw 32 = some n ∧ n < 2 ^ 32) ∧ LastAmount raw a := by
      intro a read
      rw [getAmountsOutV2Tail_eq] at read
      exact getAmountsOutV2_last (Except.ok.inj read)
    constructor
    · refine ⟨_, decodeAmountsLastChecked_two raw, ?_⟩
      intro amount read
      exact (decodeAmountsLast_two_last read).2
    · refine ⟨_, getAmountsOutV2Tail_eq raw, ?_⟩
      intro amount read
      exact (getAmountsOutV2_last read).2
    · exact quotePrice
    · intro a b first second
      exact (lastAmount a first).2.unique (outAmount b second).2
    · intro a b first second
      obtain ⟨declared, last⟩ := lastAmount a first
      exact last.unique (v2QuoteTokensOut_last declared (by omega) second)
    · intro a b first second
      obtain ⟨⟨n, declared, count⟩, last⟩ := outAmount a first
      exact last.unique (v2QuoteTokensOut_last declared (by omega) second)

/-- A reply of two amounts is read by all three alike. -/
theorem quote_decoders_safe_two :
    QuoteDecodersSafe (word 0x20 ++ word 2 ++ word 7 ++ word 9) := by
  apply (quote_decoders_safe_iff (by decide +kernel)).mpr
  rintro ⟨-, n, declared, many, -⟩
  have two : readWord (word 0x20 ++ word 2 ++ word 7 ++ word 9) 32 = some 2 := by decide +kernel
  have isTwo : n = 2 := Option.some.inj (declared.symm.trans two)
  omega

/-- A reply of 96 bytes that declares 2^59 amounts: the trail watcher takes the length word for the
    last amount, which the executor rejects; and one that declares 2^59 - 2 makes it panic. -/
theorem quote_misread :
    v2QuoteTokensOut (word 0x20 ++ word (2 ^ 59) ++ word 7) =
      .ok (some (BitVec.ofNat 256 (2 ^ 59))) ∧
    getAmountsOutV2Tail (word 0x20 ++ word (2 ^ 59) ++ word 7) = .ok none ∧
    v2QuotePriceTail (word 0x20 ++ word (2 ^ 59 - 2) ++ word 7) = .error .sliceOutOfRange ∧
    ¬ ∀ raw : List UInt8, raw.length < 2 ^ 63 → QuoteDecodersSafe raw := by
  have panics : v2QuotePriceTail (word 0x20 ++ word (2 ^ 59 - 2) ++ word 7) =
      .error .sliceOutOfRange := by
    decide +kernel
  refine ⟨by decide +kernel, by decide +kernel, panics, ?_⟩
  intro claimed
  obtain ⟨r, returns, -⟩ :=
    (claimed (word 0x20 ++ word (2 ^ 59 - 2) ++ word 7) (by decide +kernel)).quotePrice
  rw [panics] at returns
  cases returns

end BscMempool.Dex
