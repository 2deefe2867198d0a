/-
Module: BscMempool.Proofs.MulticallBounds
Layer: Proofs
Purpose: Which replies the multicall decoder takes without a panic and without reading at a wrong
  place. A position is a sum of a head's place and an offset word that does not fit, or wraps
  around, from 2^64 on; the checks compare the sums after they wrapped.
Trusted boundary: none
Main exports: InPlace, SumWraps, CutShort, Strays, FrontChecks, multicall_safe_iff, multicall_unsafe
-/
import BscMempool.Proofs.MulticallReply

namespace BscMempool.Dex

open Codec Codec.Abi

/-- The bytes of a result lie inside the reply, at the offset its head has, counted from there. -/
def InPlace (raw : List UInt8) (i : Nat) (r : Multicall3Result) : Prop :=
  ∃ offset, readWord raw (64 + i * 64 + 32) = some offset ∧
    64 + i * 64 + offset + 32 + r.returnData.length ≤ raw.length ∧
    At raw (64 + i * 64 + offset + 32) r.returnData

/-- From where the offset of the `i`-th head leads, the end of the length word or the end of the
    data is not below 2^64. -/
def SumWraps (raw : List UInt8) (i : Nat) : Prop :=
  ∃ offset, readWord raw (64 + i * 64 + 32) = some offset ∧
    (2 ^ 64 ≤ tailOf i offset + 32 ∨
      ∃ len, readWord raw (tailOf i offset) = some len ∧
        2 ^ 64 ≤ tailOf i offset + 32 + usizeOrZero len)

/-- From where the offset of the `i`-th head leads, the reply is too short for the length
word or for the data. -/
def CutShort (raw : List UInt8) (i : Nat) : Prop :=
  ∃ offset, readWord raw (64 + i * 64 + 32) = some offset ∧
    (raw.length < tailOf i offset + 32 ∨
      ∃ len, readWord raw (tailOf i offset) = some len ∧
        raw.length < tailOf i offset + 32 + usizeOrZero len)

/-- The offset of the `i`-th head does not lead where it should. -/
def Strays (raw : List UInt8) (i : Nat) : Prop :=
  ∃ offset, readWord raw (64 + i * 64 + 32) = some offset ∧ 2 ^ 64 ≤ 64 + i * 64 + offset

/-- The checks before the results pass, the end of the heads in `usize`. -/
structure FrontChecks (raw : List UInt8) (n : Nat) : Prop where
  long : 64 ≤ raw.length
  returned : fromBeSlice (slice raw 32 64) = BitVec.ofNat 256 n
  heads : (64 + n * 64 % 2 ^ 64) % 2 ^ 64 ≤ raw.length

/-! ### Slices that are not there -/

theorem readSlice_short {raw : List UInt8} {start n : Nat} (noWrap : start + n < 2 ^ 64)
    (cut : raw.length < start + n) : readSlice raw start n = .error (.error .short) := by
  rw [readSlice, Nat.mod_eq_of_lt noWrap, if_pos cut]

/-- An end that wraps around to a place inside the reply is not noticed, and
lies before the start. -/
theorem readSlice_panic {raw : List UInt8} {start n : Nat} (nSmall : n < 2 ^ 64)
    (wraps : 2 ^ 64 ≤ start + n)
    (startSmall : start < 2 ^ 64) (inside : start + n - 2 ^ 64 ≤ raw.length) :
    readSlice raw start n = .error .panic := by
  have stop : (start + n) % 2 ^ 64 = start + n - 2 ^ 64 := by omega
  rw [readSlice, stop, if_neg (Nat.not_lt.mpr inside), if_neg (by omega)]

/-! ### One result -/

section Entry
variable {raw : List UInt8} {i : Nat}

/-- The head's offset word. -/
theorem exists_offset (within : 64 + (i + 1) * 64 ≤ raw.length) :
    ∃ offset, readWord raw (64 + i * 64 + 32) = some offset :=
  ⟨_, readWord_of_le (by omega)⟩

theorem decodeResult_panics (small : raw.length < 2 ^ 64) (within : 64 + (i + 1) * 64 ≤ raw.length)
    (wraps : SumWraps raw i) : decodeResult raw i = .error .panic := by
  obtain ⟨offset, offsetWord, atEnd | ⟨len, lengthWord, atEnd⟩⟩ := wraps
  · have read : readSlice raw (tailOf i offset) 32 = .error .panic :=
      readSlice_panic (by decide) atEnd (tailOf_lt i offset) (by have := tailOf_lt i offset; omega)
    rw [decodeResult_eq within offsetWord, read]
  · have inTail := readWord_within lengthWord
    have read : readSlice raw (tailOf i offset + 32) (usizeOrZero len) = .error .panic :=
      readSlice_panic (usizeOrZero_lt len) atEnd (by omega) (by have := usizeOrZero_lt len; omega)
    rw [decodeResult_eq within offsetWord, readSlice_word small (tailOf_lt i offset) lengthWord]
    simp only [toNat_word_slice lengthWord, read]

theorem decodeResult_short (small : raw.length < 2 ^ 64) (within : 64 + (i + 1) * 64 ≤ raw.length)
    (straight : ¬ SumWraps raw i) (cut : CutShort raw i) :
    decodeResult raw i = .error (.error .short) := by
  obtain ⟨offset, offsetWord, atEnd | ⟨len, lengthWord, atEnd⟩⟩ := cut
  · have noWrap : tailOf i offset + 32 < 2 ^ 64 := by
      by_contra wraps
      exact straight ⟨offset, offsetWord, Or.inl (Nat.not_lt.mp wraps)⟩
    rw [decodeResult_eq within offsetWord, readSlice_short noWrap atEnd]
  · have noWrap : tailOf i offset + 32 + usizeOrZero len < 2 ^ 64 := by
      by_contra wraps
      exact straight ⟨offset, offsetWord, Or.inr ⟨len, lengthWord, Nat.not_lt.mp wraps⟩⟩
    rw [decodeResult_eq within offsetWord, readSlice_word small (tailOf_lt i offset) lengthWord]
    simp only [toNat_word_slice lengthWord, readSlice_short noWrap atEnd]

theorem decodeResult_reads (small : raw.length < 2 ^ 64) (within : 64 + (i + 1) * 64 ≤ raw.length)
    (enough : ¬ CutShort raw i) : ∃ r, decodeResult raw i = .ok r := by
  obtain ⟨offset, offsetWord⟩ := exists_offset within
  have inTail : tailOf i offset + 32 ≤ raw.length := by
    by_contra cut
    exact enough ⟨offset, offsetWord, Or.inl (Nat.not_le.mp cut)⟩
  have lengthWord := readWord_of_le inTail
  have inData : tailOf i offset + 32 + usizeOrZero
      (fromBeSlice (slice raw (tailOf i offset) (tailOf i offset + 32))).toNat
      ≤ raw.length := by
    by_contra cut
    exact enough ⟨offset, offsetWord, Or.inr ⟨_, lengthWord, Nat.not_le.mp cut⟩⟩
  have dataRead := (readSlice_iff small (by omega) (usizeOrZero_lt _)).mpr ⟨inData, rfl⟩
  rw [decodeResult_eq within offsetWord, readSlice_word small (tailOf_lt i offset) lengthWord]
  simp only [dataRead]
  exact ⟨_, rfl⟩

/-- What a head that is decoded says of the reply. -/
theorem enough_of_decoded (small : raw.length < 2 ^ 64) (within : 64 + (i + 1) * 64 ≤ raw.length)
    {r : Multicall3Result} (decoded : decodeResult raw i = .ok r) :
    ¬ SumWraps raw i ∧ ¬ CutShort raw i := by
  have straight : ¬ SumWraps raw i := by
    intro wraps
    rw [decodeResult_panics small within wraps] at decoded
    cases decoded
  constructor
  · exact straight
  · intro cut
    rw [decodeResult_short small within straight cut] at decoded
    cases decoded

/-- A result is in its place unless its offset strays. -/
theorem HeadReads.inPlace_iff (small : raw.length < 2 ^ 64) {r : Multicall3Result}
    {flag offset len : Nat}
    (reads : HeadReads raw i r flag offset len) : InPlace raw i r ↔ ¬ Strays raw i := by
  constructor
  · rintro ⟨offset', offsetWord', within, -⟩ ⟨offset'', offsetWord'', far⟩
    have same : offset' = offset'' := Option.some.inj (offsetWord'.symm.trans offsetWord'')
    omega
  · intro straight
    have near : 64 + i * 64 + offset < 2 ^ 64 := by
      by_contra far
      exact straight ⟨offset, reads.offsetWord, Nat.not_lt.mp far⟩
    have located : tailOf i offset = 64 + i * 64 + offset := by
      rw [tailOf, usizeOrZero, if_pos (by omega), Nat.mod_eq_of_lt near]
    have inTail := readWord_within reads.lengthWord
    refine ⟨offset, reads.offsetWord, ?_, ?_⟩
    · rw [← located]
      by_cases empty : r.returnData = []
      · simpa [empty] using inTail
      · exact reads.returnData.le_length empty
    · rw [← located]
      exact reads.returnData

end Entry

/-! ### The list -/

/-- The list ends in a panic if a result does after which all are decoded. -/
theorem decodeResults_panics_iff {raw : List UInt8} {n i : Nat} :
    decodeResults raw n i = .error .panic ↔
      ∃ k < n, decodeResult raw (i + k) = .error .panic ∧
        ∀ j < k, ∃ r, decodeResult raw (i + j) = .ok r := by
  induction n generalizing i with
  | zero => simp [decodeResults]
  | succ n ih =>
      have shift : ∀ j, i + (j + 1) = i + 1 + j := by omega
      constructor
      · intro panics
        cases head : decodeResult raw i with
        | error e =>
            simp only [decodeResults, head] at panics
            injection panics with same
            exact ⟨0, by omega, by rw [Nat.add_zero, head, same], fun j before => by omega⟩
        | ok r =>
            have tail : decodeResults raw n (i + 1) = .error .panic := by
              cases tail : decodeResults raw n (i + 1) with
              | error e => simpa [decodeResults, head, tail, Except.map] using panics
              | ok others => simp [decodeResults, head, tail, Except.map] at panics
            obtain ⟨k, inside, at_, earlier⟩ := ih.mp tail
            refine ⟨k + 1, by omega, by rwa [shift], ?_⟩
            intro j before
            cases j with
            | zero => exact ⟨r, head⟩
            | succ j =>
                rw [shift]
                exact earlier j (by omega)
      · rintro ⟨k, inside, at_, earlier⟩
        cases k with
        | zero =>
            rw [Nat.add_zero] at at_
            simp only [decodeResults, at_]
        | succ k =>
            obtain ⟨r, head⟩ := earlier 0 (by omega)
            rw [Nat.add_zero] at head
            have tail : decodeResults raw n (i + 1) = .error .panic := by
              apply ih.mpr
              refine ⟨k, by omega, shift k ▸ at_, ?_⟩
              intro j before
              exact shift j ▸ earlier (j + 1) (by omega)
            simp only [decodeResults, head, tail, Except.map]

/-- A list all of whose results are decoded is. -/
theorem decodeResults_of_all {raw : List UInt8} {n i : Nat}
    (all : ∀ j < n, ∃ r, decodeResult raw (i + j) = .ok r) :
    ∃ results, decodeResults raw n i = .ok results := by
  induction n generalizing i with
  | zero => exact ⟨[], rfl⟩
  | succ n ih =>
      obtain ⟨r, head⟩ := all 0 (by omega)
      rw [Nat.add_zero] at head
      obtain ⟨others, tail⟩ := @ih (i + 1) fun j before => by
        rw [show i + 1 + j = i + (j + 1) by omega]
        exact all (j + 1) (by omega)
      exact ⟨r :: others, by simp only [decodeResults, head, tail, Except.map]⟩

section Results
variable {raw : List UInt8} {n : Nat}

/-- The results do not panic exactly if no sum wraps up to the first one that is cut short. -/
theorem decodeResults_no_panic_iff (small : raw.length < 2 ^ 64)
    (heads : 64 + n * 64 ≤ raw.length) :
    decodeResults raw n 0 ≠ .error .panic ↔ ∀ i < n, (∀ j < i, ¬ CutShort raw j) →
    ¬ SumWraps raw i := by
  have within : ∀ i < n, 64 + (i + 1) * 64 ≤ raw.length := by
    intro i inside
    omega
  constructor
  · intro safe i
    induction i using Nat.strong_induction_on with
    | _ i ih =>
        intro inside enough wraps
        apply safe
        rw [decodeResults_panics_iff]
        refine ⟨i, inside, ?_, ?_⟩
        · rw [Nat.zero_add]
          exact decodeResult_panics small (within i inside) wraps
        · intro j before
          rw [Nat.zero_add]
          exact decodeResult_reads small (within j (by omega)) (enough j before)
  · intro straight panics
    obtain ⟨k, inside, at_, earlier⟩ := decodeResults_panics_iff.mp panics
    have enough : ∀ j < k, ¬ CutShort raw j := by
      intro j before
      obtain ⟨r, decoded⟩ := earlier j before
      rw [Nat.zero_add] at decoded
      exact (enough_of_decoded small (within j (by omega)) decoded).2
    have noWrap := straight k inside enough
    rw [Nat.zero_add] at at_
    by_cases cut : CutShort raw k
    · rw [decodeResult_short small (within k inside) noWrap cut] at at_
      cases at_
    · obtain ⟨r, decoded⟩ := decodeResult_reads small (within k inside) cut
      rw [decoded] at at_
      cases at_

/-- The results that are returned are in their places exactly if none strays
where none is cut short. -/
theorem decodeResults_inPlace_iff (small : raw.length < 2 ^ 64) (heads : 64 + n * 64 ≤ raw.length) :
    (∀ results, decodeResults raw n 0 = .ok results →
        results.length = n ∧ ∀ i (there : i < results.length), InPlace raw i results[i]) ↔
      ((∀ i < n, ¬ CutShort raw i) → ∀ i < n, ¬ Strays raw i) := by
  have within : ∀ i < n, 64 + (i + 1) * 64 ≤ raw.length := by
    intro i inside
    omega
  constructor
  · intro placed enough i inside
    obtain ⟨results, decoded⟩ := @decodeResults_of_all raw n 0 fun j before => by
      rw [Nat.zero_add]
      exact decodeResult_reads small (within j before) (enough j before)
    obtain ⟨length, all⟩ := placed results decoded
    have there : i < results.length := by rwa [length]
    obtain ⟨-, reads⟩ := (decodeResults_iff small (by omega)).mp decoded
    obtain ⟨flag, offset, len, read⟩ := reads i there
    rw [Nat.zero_add] at read
    exact (read.inPlace_iff small).mp (all i there)
  · intro straight results decoded
    obtain ⟨length, reads⟩ := (decodeResults_iff small (by omega)).mp decoded
    have enough : ∀ i < n, ¬ CutShort raw i := by
      intro i inside
      have entry := (decodeResult_iff small (within i inside)).mpr (by
        have read := reads i (by rwa [length])
        rwa [Nat.zero_add] at read)
      exact (enough_of_decoded small (within i inside) entry).2
    refine ⟨length, ?_⟩
    intro i there
    obtain ⟨flag, offset, len, read⟩ := reads i there
    rw [Nat.zero_add] at read
    exact (read.inPlace_iff small).mpr (straight enough i (by rwa [length] at there))

end Results

/-! ### The reply -/

theorem decode_of_front_fails {raw : List UInt8} {n : Nat} (fails : ¬ FrontChecks raw n) :
    ∃ e, decodeAggregate3Results raw n = .error (.error e) := by
  rw [decodeAggregate3Results]
  by_cases long : raw.length < 64
  · exact ⟨.short, by rw [if_pos long]⟩
  · by_cases returned : fromBeSlice (slice raw 32 64) = BitVec.ofNat 256 n
    · have heads : raw.length < (64 + n * 64 % 2 ^ 64) % 2 ^ 64 := by
        by_contra enough
        exact fails ⟨Nat.not_lt.mp long, returned, Nat.not_lt.mp enough⟩
      exact ⟨.short,
        by simp only [if_neg long, returned, ne_eq, not_true_eq_false, if_false, if_pos heads]⟩
    · simp only [if_neg long, ne_eq, returned, not_false_eq_true, if_true]
      exact ⟨_, rfl⟩

/-- More results than 2^58 - 2 do not fit in memory, and the end of their heads wraps
around to the front. -/
theorem decode_of_many {raw : List UInt8} {n : Nat} (front : FrontChecks raw n)
    (many : 2 ^ 58 - 1 ≤ n) :
    decodeAggregate3Results raw n = .error .panic := by
  have overflows : resultCapacityOverflows n = true := decide_eq_true (by omega)
  rw [decodeAggregate3Results, if_neg (Nat.not_lt.mpr front.long)]
  simp only [front.returned, ne_eq, not_true_eq_false, if_false,
    if_neg (Nat.not_lt.mpr front.heads), overflows, if_true]

/-- For every reply (no slice is longer than `isize::MAX`) and every expected length, in `usize`:
    decoding neither panics nor returns bytes from a wrong place exactly if the checks at the front
    fail, or the results fit in memory, no sum wraps up to the first result that is cut short, and
    no offset strays where none is cut short. -/
theorem multicall_safe_iff {raw : List UInt8} (small : raw.length < 2 ^ 63) {n : Nat}
    (usize : n < 2 ^ 64) :
    (decodeAggregate3Results raw n ≠ .error .panic ∧
      ∀ results, decodeAggregate3Results raw n = .ok results →
        results.length = n ∧ ∀ i (there : i < results.length), InPlace raw i results[i]) ↔
    (FrontChecks raw n → n < 2 ^ 58 - 1 ∧
      (∀ i < n, (∀ j < i, ¬ CutShort raw j) → ¬ SumWraps raw i) ∧
      ((∀ i < n, ¬ CutShort raw i) → ∀ i < n, ¬ Strays raw i)) := by
  by_cases front : FrontChecks raw n
  · rcases Nat.lt_or_ge n (2 ^ 58 - 1) with few | many
    · have heads : 64 + n * 64 ≤ raw.length := by
        have wrapped := front.heads
        omega
      have bounded : raw.length < 2 ^ 64 := by omega
      rw [decodeAggregate3Results_of_heads bounded heads (by omega) front.returned,
        decodeResults_no_panic_iff bounded heads, decodeResults_inPlace_iff bounded heads]
      simp only [front, few, true_and, true_implies]
    · rw [decode_of_many front many]
      constructor
      · rintro ⟨safe, -⟩
        exact absurd rfl safe
      · intro condition
        exact absurd (condition front).1 (Nat.not_lt.mpr many)
  · obtain ⟨e, fails⟩ := decode_of_front_fails front
    simp [fails, front]

/-- A reply of one result up to the end of its head. -/
def oneResult (flag offset : Nat) : List UInt8 := word 0x20 ++ word 1 ++ word flag ++ word offset

/-- Two bytes that follow their length, 64 bytes from the head, are returned from there. -/
theorem multicall_safe_two_bytes :
    decodeAggregate3Results (oneResult 1 64 ++ word 2 ++ [7, 9]) 1 = .ok [⟨true, [7, 9]⟩] ∧
      InPlace (oneResult 1 64 ++ word 2 ++ [7, 9]) 0 ⟨true, [7, 9]⟩ := by
  have decoded : decodeAggregate3Results (oneResult 1 64 ++ word 2 ++ [7, 9]) 1 =
      .ok [⟨true, [7, 9]⟩] := by
    decide +kernel
  have offsetWord : readWord (oneResult 1 64 ++ word 2 ++ [7, 9]) (64 + 0 * 64 + 32) = some 64 := by
    decide +kernel
  have lengthWord : readWord (oneResult 1 64 ++ word 2 ++ [7, 9]) (tailOf 0 64) = some 2 := by
    decide +kernel
  have located : tailOf 0 64 = 128 := by decide
  have two : usizeOrZero 2 = 2 := by decide
  have straight : ¬ SumWraps (oneResult 1 64 ++ word 2 ++ [7, 9]) 0 := by
    rintro ⟨offset, found, wraps⟩
    obtain rfl : offset = 64 := Option.some.inj (found.symm.trans offsetWord)
    rcases wraps with atEnd | ⟨len, foundLen, atEnd⟩
    · omega
    · obtain rfl : len = 2 := Option.some.inj (foundLen.symm.trans lengthWord)
      omega
  have near : ¬ Strays (oneResult 1 64 ++ word 2 ++ [7, 9]) 0 := by
    rintro ⟨offset, found, far⟩
    obtain rfl : offset = 64 := Option.some.inj (found.symm.trans offsetWord)
    omega
  have only : ∀ i < 1, i = 0 := fun i inside => Nat.lt_one_iff.mp inside
  have safe :=
    (@multicall_safe_iff (oneResult 1 64 ++ word 2 ++ [7, 9]) (by decide +kernel) 1 (by decide)).mpr
    fun _ => ⟨by decide, fun i inside _ => only i inside ▸ straight, fun _ i inside =>
      only i inside ▸ near⟩
  exact ⟨decoded, (safe.2 _ decoded).2 0 (by decide)⟩

/-- With an offset 65 below 2^64 the end of the length word wraps around and the slice is inverted;
    with one 64 below, the word at the front of the reply is taken for the length of the data, and
    the number of results for the data. -/
theorem multicall_unsafe :
    decodeAggregate3Results (oneResult 1 (2 ^ 64 - 65)) 1 = .error .panic ∧
    decodeAggregate3Results (oneResult 1 (2 ^ 64 - 64)) 1 = .ok [⟨true, word 1⟩] ∧
    ¬ InPlace (oneResult 1 (2 ^ 64 - 64)) 0 ⟨true, word 1⟩ := by
  refine ⟨by decide +kernel, by decide +kernel, ?_⟩
  rintro ⟨offset, offsetWord, within, -⟩
  have found : readWord (oneResult 1 (2 ^ 64 - 64)) (64 + 0 * 64 + 32) = some (2 ^ 64 - 64) := by
    decide +kernel
  have far : offset = 2 ^ 64 - 64 := Option.some.inj (offsetWord.symm.trans found)
  have length : (oneResult 1 (2 ^ 64 - 64)).length = 128 := by decide +kernel
  omega

end BscMempool.Dex
