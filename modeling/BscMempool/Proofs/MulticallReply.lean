/-
Module: BscMempool.Proofs.MulticallReply
Layer: Proofs
Purpose: What the multicall decoder makes of a reply in the contract ABI. It looks for the flags and
  offsets of the results in pairs of words from byte 64 on, where the encoding has one offset word
  for each result: of the lists of fewer than eight results, and of those of an odd number, only
  four come back, and a longer one comes back only if it overlays its own encodings.
Trusted boundary: none
Main exports: aggregate3Reply, encodeReply, HeadReads, decodeReply_iff, echo, zeroByte, Overlaid,
  ComesBack, reply_decodes_iff, balances_not_decoded
-/
import BscMempool.Codec.Abi
import BscMempool.Dex.Multicall
import BscMempool.Proofs.V2Codec
import Mathlib.Data.List.GetD

namespace BscMempool.Dex

open Codec Codec.Abi

/-- `(bool,bytes)`. -/
def resultFormat : Format (Bool × List UInt8 × Unit) :=
  tuple (.cons Abi.bool (.cons Abi.bytes .nil))

/-- What `aggregate3` returns: `(bool,bytes)[]`. -/
def aggregate3Reply : Format (List (Bool × List UInt8 × Unit) × Unit) :=
  tuple (.cons (array resultFormat) .nil)

def Multicall3Result.fields (r : Multicall3Result) : Bool × List UInt8 × Unit :=
  (r.success, r.returnData, ())

/-- The standard encoding of results. -/
def encodeReply (results : List Multicall3Result) : List UInt8 :=
  aggregate3Reply.encode (results.map Multicall3Result.fields, ())

/-- Where the decoder looks for the data of the `i`-th result. -/
def tailOf (i offset : Nat) : Nat := (64 + i * 64 + usizeOrZero offset) % 2 ^ 64

/-- The words at `64 + 64 * i` read as the flag and the offset of a result: the low byte
    of the first one is its flag, and its data stand where the second one leads, counted
    from the two words. -/
structure HeadReads (raw : List UInt8) (i : Nat) (r : Multicall3Result) (flag offset len : Nat) :
    Prop where
  flagWord : readWord raw (64 + i * 64) = some flag
  offsetWord : readWord raw (64 + i * 64 + 32) = some offset
  success : r.success = decide (flag % 256 ≠ 0)
  lengthWord : readWord raw (tailOf i offset) = some len
  length : r.returnData.length = usizeOrZero len
  returnData : At raw (tailOf i offset + 32) r.returnData

/-! ### Words and slices -/

/-- The last byte of a word. -/
theorem ofBeBytes_mod (b : List UInt8) (last : UInt8) :
    ofBeBytes (b ++ [last]) % 256 = last.toNat := by
  have byte := last.toNat_lt
  rw [ofBeBytes, List.reverse_append, List.reverse_singleton, List.singleton_append, ofLeBytes]
  omega

theorem usizeOrZero_lt (n : Nat) : usizeOrZero n < 2 ^ 64 := by
  unfold usizeOrZero
  split
  · assumption
  · decide

theorem tailOf_lt (i offset : Nat) : tailOf i offset < 2 ^ 64 := Nat.mod_lt _ (by decide)

theorem readSlice_iff {raw : List UInt8} (small : raw.length < 2 ^ 64) {start n : Nat}
    (startSmall : start < 2 ^ 64) (nSmall : n < 2 ^ 64) {b : List UInt8} :
    readSlice raw start n = .ok b ↔ start + n ≤ raw.length ∧ slice raw start (start + n) = b := by
  by_cases within : start + n ≤ raw.length
  · have noWrap : (start + n) % 2 ^ 64 = start + n := Nat.mod_eq_of_lt (by omega)
    have ordered : start ≤ start + n ∧ start + n ≤ raw.length := ⟨Nat.le_add_right start n, within⟩
    rw [readSlice, noWrap, if_neg (Nat.not_lt.mpr within), if_pos ordered, Except.ok.injEq]
    simp only [within, true_and]
  · -- too short, or the end wraps around and lies before the start
    have fails : ¬ (start ≤ (start + n) % 2 ^ 64 ∧ (start + n) % 2 ^ 64 ≤ raw.length) := by omega
    simp only [readSlice, if_neg fails, within, false_and, iff_false]
    split <;> simp

theorem readSlice_word {raw : List UInt8} (small : raw.length < 2 ^ 64) {pos n : Nat}
    (posSmall : pos < 2 ^ 64)
    (read : readWord raw pos = some n) : readSlice raw pos 32 = .ok (slice raw pos (pos + 32)) :=
  (readSlice_iff small posSmall (by decide)).mpr ⟨readWord_within read, rfl⟩

/-! ### One result -/

/-- The flag of a head is read off the low byte of its first word. -/
theorem head_flag {raw : List UInt8} {pos : Nat} (within : pos + 64 ≤ raw.length) :
    ((slice raw pos (pos + 64)).getD 31 0 != 0) =
      decide ((fromBeSlice (slice raw pos (pos + 32))).toNat % 256 ≠ 0) := by
  have length : (slice raw pos (pos + 32)).length = 32 := length_slice (by omega)
  have sameByte : (slice raw pos (pos + 64)).getD 31 0 = (slice raw pos (pos + 32)).getD 31 0 := by
    simp [slice, List.getD_eq_getElem?_getD]
  rw [sameByte, toNat_fromBeSlice length]
  rcases List.eq_nil_or_concat (slice raw pos (pos + 32)) with empty | ⟨high, low, split⟩
  · rw [empty] at length
    cases length
  · rw [split, List.concat_eq_append] at length ⊢
    have position : high.length = 31 := by simpa using length
    rw [ofBeBytes_mod, List.getD_eq_getElem?_getD, ← position, List.getElem?_concat_length,
      Option.getD_some]
    by_cases zero : low = 0
    · simp [zero]
    · have nonzero : low.toNat ≠ 0 := by
        intro same
        exact zero (UInt8.toNat_inj.mp (by simpa using same))
      simp [zero, nonzero]

/-- And its offset is its second word. -/
theorem head_offset (raw : List UInt8) (pos : Nat) :
    slice (slice raw pos (pos + 64)) 32 64 = slice raw (pos + 32) (pos + 32 + 32) := by
  simp only [slice, Nat.add_sub_cancel_left, List.drop_take, List.take_take, List.drop_drop]
  norm_num

/-- A result is decoded from its offset on. -/
theorem decodeResult_eq {raw : List UInt8} {i offset : Nat}
    (within : 64 + (i + 1) * 64 ≤ raw.length)
    (offsetWord : readWord raw (64 + i * 64 + 32) = some offset) :
    decodeResult raw i =
      match readSlice raw (tailOf i offset) 32 with
      | .error e => .error e
      | .ok bytesLen =>
          match readSlice raw (tailOf i offset + 32) (usizeOrZero (fromBeSlice bytesLen).toNat) with
          | .error e => .error e
          | .ok bytes => .ok {
              success := decide
                ((fromBeSlice (slice raw (64 + i * 64) (64 + i * 64 + 32))).toNat % 256 ≠ 0)
              returnData := bytes } := by
  have position : 64 + (i + 1) * 64 = 64 + i * 64 + 64 := by omega
  simp only [decodeResult, position, head_flag (show 64 + i * 64 + 64 ≤ raw.length by omega),
    head_offset,
    toNat_word_slice offsetWord]
  -- the tail's position is `tailOf` by definition
  rfl

/-- A result is decoded exactly if it is what the words at its head read as. -/
theorem decodeResult_iff {raw : List UInt8} (small : raw.length < 2 ^ 64) {i : Nat}
    (within : 64 + (i + 1) * 64 ≤ raw.length) {r : Multicall3Result} :
    decodeResult raw i = .ok r ↔ ∃ flag offset len, HeadReads raw i r flag offset len := by
  have flagWord := readWord_of_le (show 64 + i * 64 + 32 ≤ raw.length by omega)
  have offsetWord := readWord_of_le (show 64 + i * 64 + 32 + 32 ≤ raw.length by omega)
  rw [decodeResult_eq within offsetWord]
  generalize (fromBeSlice (slice raw (64 + i * 64) (64 + i * 64 + 32))).toNat = flag at *
  generalize (fromBeSlice (slice raw (64 + i * 64 + 32) (64 + i * 64 + 32 + 32))).toNat =
    offset at *
  have tailSmall := tailOf_lt i offset
  constructor
  · intro decoded
    cases lengthRead : readSlice raw (tailOf i offset) 32 with
    | error e => simp [lengthRead] at decoded
    | ok bytesLen =>
        simp only [lengthRead] at decoded
        obtain ⟨inTail, rfl⟩ := (readSlice_iff small tailSmall (by decide)).mp lengthRead
        have lenWord := readWord_of_le inTail
        generalize (fromBeSlice (slice raw (tailOf i offset) (tailOf i offset + 32))).toNat =
          len at *
        cases dataRead : readSlice raw (tailOf i offset + 32) (usizeOrZero len) with
        | error e => simp [dataRead] at decoded
        | ok bytes =>
            simp only [dataRead, Except.ok.injEq] at decoded
            subst decoded
            obtain ⟨inData, rfl⟩ :=
              (readSlice_iff small (by omega) (usizeOrZero_lt len)).mp dataRead
            exact ⟨flag, offset, len, flagWord, offsetWord, rfl, lenWord, length_slice inData,
              at_slice⟩
  · rintro ⟨flag', offset', len, reads⟩
    have sameFlag : flag' = flag := Option.some.inj (reads.flagWord.symm.trans flagWord)
    have sameOffset : offset' = offset := Option.some.inj (reads.offsetWord.symm.trans offsetWord)
    subst sameFlag
    subst sameOffset
    have inTail := readWord_within reads.lengthWord
    have lengthRead := (readSlice_iff small tailSmall (by decide)).mpr ⟨inTail, rfl⟩
    have isLen : (fromBeSlice (slice raw (tailOf i offset') (tailOf i offset' + 32))).toNat = len :=
      Option.some.inj ((readWord_of_le inTail).symm.trans reads.lengthWord)
    have inData : tailOf i offset' + 32 + usizeOrZero len ≤ raw.length := by
      rw [← reads.length]
      by_cases empty : r.returnData = []
      · rw [empty]
        exact inTail
      · exact reads.returnData.le_length empty
    have data : slice raw (tailOf i offset' + 32) (tailOf i offset' + 32 + usizeOrZero len) =
        r.returnData :=
      at_slice.unique reads.returnData (by rw [length_slice inData, reads.length])
    have dataRead := (readSlice_iff small (by omega) (usizeOrZero_lt len)).mpr ⟨inData, data⟩
    rw [lengthRead]
    simp only [isLen, dataRead, ← reads.success]

/-! ### The list -/

theorem decodeResults_iff {raw : List UInt8} (small : raw.length < 2 ^ 64) {n i : Nat}
    (within : 64 + (i + n) * 64 ≤ raw.length) {results : List Multicall3Result} :
    decodeResults raw n i = .ok results ↔ results.length = n ∧
      ∀ j (there : j < results.length), ∃ flag offset len,
        HeadReads raw (i + j) results[j] flag offset len := by
  induction n generalizing i results with
  | zero =>
      simp only [decodeResults, Except.ok.injEq, List.length_eq_zero_iff]
      constructor
      · rintro rfl
        exact ⟨rfl, fun j there => by simp at there⟩
      · rintro ⟨rfl, -⟩
        rfl
  | succ n ih =>
      have first (r : Multicall3Result) := decodeResult_iff small (i := i) (r := r) (by omega)
      have later : 64 + (i + 1 + n) * 64 ≤ raw.length := by
        rwa [show i + 1 + n = i + (n + 1) by omega]
      have rest (others : List Multicall3Result) := @ih (i + 1) later others
      constructor
      · intro decoded
        cases head : decodeResult raw i with
        | error e =>
            simp only [decodeResults, head] at decoded
            cases decoded
        | ok r =>
            cases tail : decodeResults raw n (i + 1) with
            | error e =>
                simp only [decodeResults, head, tail, Except.map] at decoded
                cases decoded
            | ok others =>
                simp only [decodeResults, head, tail, Except.map, Except.ok.injEq] at decoded
                subst decoded
                obtain ⟨length, all⟩ := (rest _).mp tail
                refine ⟨by simp [length], ?_⟩
                intro j there
                cases j with
                | zero => exact (first _).mp head
                | succ j =>
                    have reads := all j (by simpa using there)
                    rwa [show i + (j + 1) = i + 1 + j by omega]
      · rintro ⟨length, all⟩
        cases results with
        | nil => simp at length
        | cons r others =>
            have head := (first _).mpr (all 0 (by simp))
            have tail := (rest others).mpr ⟨by simpa using length, fun j there => by
              have reads := all (j + 1) (by simpa using there)
              rwa [show i + (j + 1) = i + 1 + j by omega] at reads⟩
            simp only [List.getElem_cons_zero] at head
            simp only [decodeResults, head, tail, Except.map]

/-- Where the heads are there and the results fit in memory, the results are decoded. -/
theorem decodeAggregate3Results_of_heads {raw : List UInt8} (small : raw.length < 2 ^ 64) {n : Nat}
    (heads : 64 + n * 64 ≤ raw.length) (fits : n * 40 < 2 ^ 63)
    (returned : fromBeSlice (slice raw 32 64) = BitVec.ofNat 256 n) :
    decodeAggregate3Results raw n = decodeResults raw n 0 := by
  have section_ : n * 64 % 2 ^ 64 = n * 64 := Nat.mod_eq_of_lt (by omega)
  have headEnd : (64 + n * 64) % 2 ^ 64 = 64 + n * 64 := Nat.mod_eq_of_lt (by omega)
  have holds : resultCapacityOverflows n = false := decide_eq_false (by omega)
  rw [decodeAggregate3Results, if_neg (by omega)]
  simp only [returned, ne_eq, not_true_eq_false, if_false, section_, headEnd, holds,
    Bool.false_eq_true]
  rw [if_neg (by omega)]

/-! ### The encoding -/

theorem resultFormat_encode (r : Multicall3Result) :
    resultFormat.encode r.fields = word r.success.toNat ++
      (word 0x40 ++ Abi.bytes.encode r.returnData) := by
  simp [resultFormat, Multicall3Result.fields, tuple, Fields.cons, Fields.nil, Format.head,
    Format.tail, Format.slot,
    Abi.bool, Abi.bytes]

/-- The encodings of results in a row. -/
def structs (results : List Multicall3Result) : List UInt8 :=
  resultFormat.elemTails (results.map Multicall3Result.fields)

theorem encodeReply_eq (results : List Multicall3Result) :
    encodeReply results = word 0x20 ++ (word results.length ++
      (resultFormat.elemHeads (32 * results.length) (results.map Multicall3Result.fields) ++
        structs results)) := by
  rw [encodeReply, aggregate3Reply, encode_single rfl]
  have slot : resultFormat.slot = 32 := rfl
  simp only [array, slot, List.length_map, structs]

/-- Every result takes its offset word and three words more at least. -/
theorem length_elems (results : List Multicall3Result) (o : Nat) :
    128 * results.length ≤
      (resultFormat.elemHeads o (results.map Multicall3Result.fields) ++
        structs results).length := by
  have slot : resultFormat.slot = 32 := rfl
  rw [List.length_append, Format.length_elemHeads, slot, List.length_map]
  have tails : 96 * results.length ≤ (structs results).length := by
    induction results with
    | nil => simp
    | cons r rest ih =>
        have own : 96 ≤ (resultFormat.tail r.fields).length := by
          have isTail : resultFormat.tail r.fields = resultFormat.encode r.fields := rfl
          rw [isTail, resultFormat_encode]
          simp only [List.length_append, length_word, Abi.bytes]
          omega
        simp only [structs, Format.elemTails, List.map_cons, List.flatten_cons, List.length_append,
          List.length_cons]
          at ih ⊢
        omega
  omega

/-- Results come back from the decoder exactly if each is what the words at its head read as. -/
theorem decodeReply_iff {results : List Multicall3Result}
    (small : (encodeReply results).length < 2 ^ 64) :
    decodeAggregate3Results (encodeReply results) results.length = .ok results ↔
      ∀ i (there : i < results.length), ∃ flag offset len,
        HeadReads (encodeReply results) i results[i] flag offset len := by
  have enough : 64 + 128 * results.length ≤ (encodeReply results).length := by
    have elems := length_elems results (32 * results.length)
    rw [encodeReply_eq, List.length_append, List.length_append, length_word, length_word]
    omega
  have returned : fromBeSlice (slice (encodeReply results) 32 64) =
      BitVec.ofNat 256 results.length := by
    have found : slice (encodeReply results) 32 64 = toBeBytes results.length := by
      rw [encodeReply_eq, slice, List.drop_left' (length_word _), List.take_left' (length_word _)]
      rfl
    rw [found, fromBeSlice_toBeBytes]
  have within : 64 + (0 + results.length) * 64 ≤ (encodeReply results).length := by omega
  have checks := decodeAggregate3Results_of_heads small (by omega) (by omega) returned
  rw [checks, decodeResults_iff small within]
  simp only [true_and, Nat.zero_add]

/-! ### Where the words of a reply stand -/

/-- What the table of offsets says of the `j`-th result. -/
def offsetOf (results : List Multicall3Result) (j : Nat) : Nat :=
  32 * results.length + (structs (results.take j)).length

theorem offsetOf_zero (results : List Multicall3Result) :
    offsetOf results 0 = 32 * results.length := rfl

theorem structs_cons (r : Multicall3Result) (rest : List Multicall3Result) :
    structs (r :: rest) = resultFormat.encode r.fields ++ structs rest := by
  have isTail : resultFormat.tail r.fields = resultFormat.encode r.fields := rfl
  rw [structs, List.map_cons, Format.elemTails, List.map_cons, List.flatten_cons, isTail]
  rfl

theorem structs_take_drop (results : List Multicall3Result) (j : Nat) :
    structs (results.take j) ++ structs (results.drop j) = structs results := by
  rw [structs, structs, structs, Format.elemTails, Format.elemTails, Format.elemTails,
    ← List.flatten_append,
    ← List.map_append, ← List.map_append, List.take_append_drop]

theorem elemHeads_at {o j : Nat} {results : List Multicall3Result} (there : j < results.length) :
    At (resultFormat.elemHeads o (results.map Multicall3Result.fields)) (32 * j)
      (word (o + (structs (results.take j)).length)) := by
  induction results generalizing o j with
  | nil => simp at there
  | cons r rest ih =>
      have isHead : resultFormat.head o r.fields = word o := rfl
      have isTail : resultFormat.tail r.fields = resultFormat.encode r.fields := rfl
      rw [List.map_cons, Format.elemHeads, isHead, isTail]
      cases j with
      | zero => exact At.start _ _
      | succ j =>
          have later :=
            (ih (o := o + (resultFormat.encode r.fields).length) (by simpa using there)).after
              (a := word o)
          rw [length_word, Nat.add_assoc, ← List.length_append, ← structs_cons] at later
          rw [Nat.mul_succ, Nat.add_comm (32 * j)]
          exact later

variable {results : List Multicall3Result}

/-- The table of offsets stands from byte 64 on. -/
theorem table_at (results : List Multicall3Result) {j : Nat} (there : j < results.length) :
    At (encodeReply results) (64 + 32 * j) (word (offsetOf results j)) := by
  have whole := At.self (encodeReply results)
  nth_rewrite 2 [encodeReply_eq] at whole
  have table := (at_append.mp (at_append.mp (at_append.mp whole).2).2).1
  obtain ⟨rest, split⟩ := table
  simp only [length_word, Nat.zero_add] at split
  obtain ⟨more, found⟩ := elemHeads_at (o := 32 * results.length) there
  refine ⟨more ++ rest, ?_⟩
  rw [← List.drop_drop, split, List.drop_append_of_le_length, found, List.append_assoc]
  · rfl
  · rw [Format.length_elemHeads, List.length_map]
    exact Nat.mul_le_mul_left 32 there.le

/-- And the encodings of the results behind it. -/
theorem drop_offsetOf (results : List Multicall3Result) (j : Nat) :
    (encodeReply results).drop (64 + offsetOf results j) = structs (results.drop j) := by
  have slot : resultFormat.slot = 32 := rfl
  have split := structs_take_drop results j
  have front : (word 0x20 ++ (word results.length ++
      (resultFormat.elemHeads (32 * results.length) (results.map Multicall3Result.fields) ++
        structs (results.take j)))).length = 64 + offsetOf results j := by
    simp only [List.length_append, length_word, Format.length_elemHeads, slot, List.length_map,
      offsetOf]
    omega
  rw [encodeReply_eq, ← split, ← front]
  simp only [← List.append_assoc, List.drop_left]

theorem at_structs (results : List Multicall3Result) (j : Nat) {pos : Nat} {b : List UInt8} :
    At (encodeReply results) (64 + offsetOf results j + pos) b ↔
    At (structs (results.drop j)) pos b := by
  rw [← at_drop, drop_offsetOf]

theorem offsetOf_le (results : List Multicall3Result) (j : Nat) :
    64 + offsetOf results j ≤ (encodeReply results).length := by
  have slot : resultFormat.slot = 32 := rfl
  have split := congrArg List.length (structs_take_drop results j)
  rw [List.length_append] at split
  simp only [encodeReply_eq, List.length_append, length_word, Format.length_elemHeads, slot,
    List.length_map,
    offsetOf]
  omega

theorem drop_structs {j : Nat} {r : Multicall3Result} (there : results[j]? = some r) :
    structs (results.drop j) = resultFormat.encode r.fields ++ structs (results.drop (j + 1)) := by
  obtain ⟨bound, found⟩ := List.getElem?_eq_some_iff.mp there
  rw [List.drop_eq_getElem_cons bound, found, structs_cons]

/-- A reply is as long as what stands in it. -/
theorem size_le {j : Nat} {r : Multicall3Result} (there : results[j]? = some r) :
    64 + offsetOf results j + (96 + r.returnData.length) ≤ (encodeReply results).length := by
  have before := offsetOf_le results j
  have behind := congrArg List.length (drop_offsetOf results j)
  rw [drop_structs there, resultFormat_encode] at behind
  simp only [List.length_append, List.length_drop, length_word, Abi.bytes] at behind
  omega

/-- A length with data behind it; a length that does not fit in 64 bits counts as zero. -/
def DataAt (s : List UInt8) (pos : Nat) (data : List UInt8) : Prop :=
  ∃ len, readWord s pos = some len ∧ data.length = usizeOrZero len ∧ At s (pos + 32) data

theorem dataAt_structs {j pos : Nat} {data : List UInt8} :
    DataAt (encodeReply results) (64 + offsetOf results j + pos) data ↔
    DataAt (structs (results.drop j)) pos data := by
  simp only [DataAt, ← drop_offsetOf results j, readWord_drop, at_drop, Nat.add_assoc]

/-- Data is determined by where it stands. -/
theorem DataAt.unique {s a b : List UInt8} {pos : Nat} (first : DataAt s pos a)
    (second : DataAt s pos b) : a = b := by
  obtain ⟨len, read, length, there⟩ := first
  obtain ⟨len', read', length', there'⟩ := second
  cases read.symm.trans read'
  exact there.unique there' (length.trans length'.symm)

/-- Where the encoding of a result stands, its data stand after its flag and their offset. -/
theorem at_encode {s : List UInt8} {pos : Nat} {r : Multicall3Result}
    (found : At s pos (resultFormat.encode r.fields)) (small : r.returnData.length < 2 ^ 64) :
    readWord s pos = some r.success.toNat ∧ readWord s (pos + 32) = some 0x40 ∧
    DataAt s (pos + 64) r.returnData := by
  rw [resultFormat_encode] at found
  simp only [Abi.bytes, at_append, length_word, Nat.add_assoc, Nat.reduceAdd] at found
  obtain ⟨flag, offset, length, data, -⟩ := found
  refine ⟨readWord_of_at flag (lt_of_lt_of_le (Bool.toNat_lt _) (by decide)),
    readWord_of_at offset (by decide), _,
    readWord_of_at length (small.trans (by decide)), (if_pos small).symm, data⟩

/-- The head of a result of the first half is in the table of offsets. -/
theorem early_head {i : Nat} (early : 2 * i + 1 < results.length)
    (small : (encodeReply results).length < 2 ^ 63) :
    readWord (encodeReply results) (64 + i * 64) = some (offsetOf results (2 * i)) ∧
      readWord (encodeReply results) (64 + i * 64 + 32) = some (offsetOf results (2 * i + 1)) ∧
      tailOf i (offsetOf results (2 * i + 1)) = 64 + offsetOf results (2 * i + 1) + 64 * i := by
  have flagFits := offsetOf_le results (2 * i)
  have offsetFits := offsetOf_le results (2 * i + 1)
  have above : 32 * results.length ≤ offsetOf results (2 * i + 1) := Nat.le_add_right _ _
  have flag := table_at results (show 2 * i < results.length by omega)
  have offset := table_at results early
  refine ⟨?_, ?_, ?_⟩
  · rw [show 64 + i * 64 = 64 + 32 * (2 * i) by omega]
    exact readWord_of_at flag ((show _ < 2 ^ 64 by omega).trans (by decide))
  · rw [show 64 + i * 64 + 32 = 64 + 32 * (2 * i + 1) by omega]
    exact readWord_of_at offset ((show _ < 2 ^ 64 by omega).trans (by decide))
  · rw [tailOf, usizeOrZero, if_pos (by omega), Nat.mod_eq_of_lt (by omega)]
    omega

theorem headReads_iff {raw : List UInt8} {i flag offset : Nat} {r : Multicall3Result}
    (flagWord : readWord raw (64 + i * 64) = some flag)
    (offsetWord : readWord raw (64 + i * 64 + 32) = some offset) :
    (∃ flag offset len, HeadReads raw i r flag offset len) ↔
      r.success = decide (flag % 256 ≠ 0) ∧ DataAt raw (tailOf i offset) r.returnData := by
  constructor
  · rintro ⟨flag', offset', len, reads⟩
    cases flagWord.symm.trans reads.flagWord
    cases offsetWord.symm.trans reads.offsetWord
    exact ⟨reads.success, len, reads.lengthWord, reads.length, reads.returnData⟩
  · rintro ⟨success, len, lengthWord, length, returnData⟩
    exact ⟨flag, offset, len, flagWord, offsetWord, success, lengthWord, length, returnData⟩

/-- So it takes its flag from one offset, and its data from the result at the next one. -/
theorem early_iff {i : Nat} (early : 2 * i + 1 < results.length)
    (small : (encodeReply results).length < 2 ^ 63) {r : Multicall3Result} :
    (∃ flag offset len, HeadReads (encodeReply results) i r flag offset len) ↔
      r.success = decide (offsetOf results (2 * i) % 256 ≠ 0) ∧
        DataAt (structs (results.drop (2 * i + 1))) (64 * i) r.returnData := by
  obtain ⟨flagWord, offsetWord, tail⟩ := early_head early small
  rw [headReads_iff flagWord offsetWord, tail, dataAt_structs]

/-- The head of a result of the second half is among the encodings of the results. -/
theorem late_iff {m k : Nat} (half : results.length = 2 * m) {flag offset : Nat}
    (flagWord : readWord (structs results) (64 * k) = some flag)
    (offsetWord : readWord (structs results) (64 * k + 32) = some offset)
    (small : 64 + (m + k) * 64 + offset < 2 ^ 64) {r : Multicall3Result} :
    (∃ flag offset len, HeadReads (encodeReply results) (m + k) r flag offset len) ↔
      r.success = decide (flag % 256 ≠ 0) ∧ DataAt (structs results) (64 * k + offset)
        r.returnData := by
  have whole := drop_offsetOf results 0
  have start : offsetOf results 0 = 64 * m := by
    rw [offsetOf_zero, half]
    omega
  rw [List.drop_zero, start] at whole
  rw [← whole, readWord_drop] at flagWord offsetWord
  have tail : tailOf (m + k) offset = 64 + offsetOf results 0 + (64 * k + offset) := by
    rw [tailOf, usizeOrZero, if_pos (by omega), Nat.mod_eq_of_lt small, start]
    omega
  have flagThere : readWord (encodeReply results) (64 + (m + k) * 64) = some flag := by
    rw [← flagWord]
    congr 1
    omega
  have offsetThere : readWord (encodeReply results) (64 + (m + k) * 64 + 32) = some offset := by
    rw [← offsetWord]
    congr 1
    omega
  rw [headReads_iff flagThere offsetThere, tail, dataAt_structs, List.drop_zero]

theorem flag_of_toNat (flag : Bool) : decide (flag.toNat % 256 ≠ 0) = flag := by
  cases flag <;> rfl

/-- A head that falls on the encoding of a result reads as that result. -/
theorem late_same {m k j : Nat} (half : results.length = 2 * m)
    (small : (encodeReply results).length < 2 ^ 63)
    (position : (structs (results.take j)).length = 64 * k) (within : k < m)
    {earlier r : Multicall3Result} (there : results[j]? = some earlier) {flag offset len : Nat}
    (reads : HeadReads (encodeReply results) (m + k) r flag offset len) : r = earlier := by
  have size := size_le there
  have above : 32 * results.length ≤ offsetOf results j := Nat.le_add_right _ _
  have here : At (structs results) (64 * k) (resultFormat.encode earlier.fields) := by
    rw [← structs_take_drop results j, drop_structs there, ← position]
    exact at_after_iff.mpr (At.start _ _)
  obtain ⟨flagWord, offsetWord, data⟩ := at_encode here (by omega)
  obtain ⟨success, same⟩ :=
    (late_iff half flagWord offsetWord (by omega)).mp ⟨flag, offset, len, reads⟩
  rw [flag_of_toNat] at success
  cases r
  cases earlier
  cases success
  cases same.unique data
  rfl

/-! ### Short lists -/

/-- A flag read as a length has at most one byte behind it. -/
theorem dataAt_flag {s : List UInt8} {pos : Nat} {flag : Bool}
    (there : readWord s pos = some flag.toNat)
    (zero : At s (pos + 32) [0]) : DataAt s pos (List.replicate flag.toNat 0) := by
  refine ⟨flag.toNat, there, ?_, ?_⟩
  · cases flag <;> rfl
  · cases flag
    · exact at_nil s _
    · exact zero

/-- The first of several results takes the flag of the second for its length. -/
theorem first_comes_back {first second : Multicall3Result} {rest : List Multicall3Result}
    (small : (encodeReply (first :: second :: rest)).length < 2 ^ 63)
    (reads : ∃ flag offset len, HeadReads (encodeReply (first :: second :: rest)) 0 first flag
      offset len) :
    first = ⟨decide (32 * (rest.length + 2) % 256 ≠ 0), List.replicate second.success.toNat 0⟩ := by
  obtain ⟨success, data⟩ := (early_iff (i := 0) (by simp) small).mp reads
  have start : offsetOf (first :: second :: rest) 0 = 32 * (rest.length + 2) := rfl
  rw [Nat.mul_zero, start] at success
  have behind : structs ((first :: second :: rest).drop (2 * 0 + 1)) =
      word second.success.toNat ++
        (word 0x40 ++ (Abi.bytes.encode second.returnData ++ structs rest)) := by
    rw [Nat.mul_zero, Nat.zero_add, List.drop_one, List.tail_cons, structs_cons,
      resultFormat_encode]
    simp only [List.append_assoc]
  rw [behind] at data
  have here :=
    At.self (word second.success.toNat ++
      (word 0x40 ++ (Abi.bytes.encode second.returnData ++ structs rest)))
  obtain ⟨flag, later⟩ := at_append.mp here
  have zero := (at_append.mp (show At _ _ ([0] ++ (word 0x40).tail) from (at_append.mp later).1)).1
  rw [length_word] at zero
  have read := dataAt_flag (readWord_of_at flag (lt_of_lt_of_le (Bool.toNat_lt _) (by decide))) zero
  cases first
  cases success
  cases data.unique read
  rfl

/-- A result whose data are as long as a flag says. -/
def Multicall3Result.flagged (success flag : Bool) : Multicall3Result :=
  ⟨success, List.replicate flag.toNat 0⟩

theorem length_flagged (success flag : Bool) (rest : List Multicall3Result) :
    (structs (.flagged success flag :: rest)).length = 96 + 32 * flag.toNat +
      (structs rest).length := by
  rw [structs_cons, resultFormat_encode]
  simp only [List.length_append, length_word, Abi.bytes, Multicall3Result.flagged,
    List.length_replicate, padding]
  cases flag <;> simp only [Bool.toNat_false, Bool.toNat_true]

/-- Behind the length of such data there is a word zero, the data's own or the next flag. -/
theorem word_behind_flagged (success : Bool) (second : Multicall3Result)
    (rest : List Multicall3Result) :
    readWord (structs (.flagged success second.success :: second :: rest)) 64 =
      some second.success.toNat ∧
      readWord (structs (.flagged success second.success :: second :: rest)) 96 = some 0 := by
  have front : (word success.toNat ++ word 0x40).length = 64 := by simp
  have split : structs (.flagged success second.success :: second :: rest) =
      (word success.toNat ++ word 0x40) ++
      (Abi.bytes.encode (List.replicate second.success.toNat 0) ++ structs (second :: rest)) := by
    rw [structs_cons, resultFormat_encode]
    simp only [Multicall3Result.flagged, List.append_assoc]
  have words : ∃ more, Abi.bytes.encode (List.replicate second.success.toNat 0) ++
      structs (second :: rest) =
      word second.success.toNat ++ (word 0 ++ more) := by
    cases flag : second.success with
    | false =>
        have empty : Abi.bytes.encode (List.replicate false.toNat 0) = word false.toNat := by decide
        refine ⟨word 0x40 ++ (Abi.bytes.encode second.returnData ++ structs rest), ?_⟩
        rw [empty, structs_cons, resultFormat_encode, flag]
        simp only [List.append_assoc]
        rfl
    | true =>
        have zero : Abi.bytes.encode (List.replicate true.toNat 0) = word true.toNat ++ word 0 := by
          decide
        exact ⟨structs (second :: rest), by rw [zero, List.append_assoc]⟩
  obtain ⟨more, words⟩ := words
  rw [split, words]
  have here := (at_after_iff (a := word success.toNat ++ word 0x40)).mpr
    (At.self (word second.success.toNat ++ (word 0 ++ more)))
  rw [front] at here
  obtain ⟨length, later⟩ := at_append.mp here
  rw [length_word] at later
  exact ⟨readWord_of_at length (lt_of_lt_of_le (Bool.toNat_lt _) (by decide)),
    readWord_of_at (at_append.mp later).1 (by decide)⟩

/-- The second result of the second half takes the length of the first one's data for its flag. -/
theorem second_half_begins {m : Nat} {second : Bool} (half : results.length = 2 * m)
    (small : (encodeReply results).length < 2 ^ 63)
    (flagWord : readWord (structs results) 64 = some second.toNat)
    (offsetWord : readWord (structs results) 96 = some 0) {r : Multicall3Result}
    {flag offset len : Nat} (reads : HeadReads (encodeReply results) (m + 1) r flag offset len) :
    r = .flagged second second := by
  have total := offsetOf_le results 0
  have above : 32 * results.length ≤ offsetOf results 0 := Nat.le_add_right _ _
  obtain ⟨success, data⟩ :=
    (late_iff half flagWord offsetWord (by omega)).mp ⟨flag, offset, len, reads⟩
  have zero : At (structs results) 96 ([0] ++ (word 0).tail) := at_of_readWord offsetWord
  have read := dataAt_flag flagWord (at_append.mp zero).1
  rw [flag_of_toNat] at success
  calc r = ⟨r.success, r.returnData⟩ := rfl
    _ = .flagged second second := by rw [success, data.unique read, Multicall3Result.flagged]

/-- Bytes of a string over and over, `n` in all. -/
def cycle (b : List UInt8) (n : Nat) : List UInt8 :=
  (List.range n).map fun k => b.getD (k % b.length) 0

theorem length_cycle (b : List UInt8) (n : Nat) : (cycle b n).length = n := by
  rw [cycle, List.length_map, List.length_range]

theorem eq_of_getD {a b : List UInt8} {n : Nat} (aLength : a.length = n) (bLength : b.length = n)
    (same : ∀ k, k < n → a.getD k 0 = b.getD k 0) : a = b := by
  apply List.ext_getElem (aLength.trans bLength.symm)
  intro k inA inB
  have here := same k (aLength ▸ inA)
  rwa [List.getD_eq_getElem _ _ inA, List.getD_eq_getElem _ _ inB] at here

theorem getD_cycle {b : List UInt8} {n k : Nat} (within : k < n) :
    (cycle b n).getD k 0 = b.getD (k % b.length) 0 := by
  rw [List.getD_eq_getElem _ _ (by rwa [length_cycle])]
  simp only [cycle, List.getElem_map, List.getElem_range]

/-- A string begins with what precedes it exactly if that goes over and over again. -/
theorem eq_cycle_iff {b a : List UInt8} {n : Nat} (some : 0 < b.length) (length : a.length = n) :
    (b ++ a).take n = a ↔ a = cycle b n := by
  have long : ((b ++ a).take n).length = n := by
    rw [List.length_take, List.length_append, length]
    exact Nat.min_eq_left (Nat.le_add_left _ _)
  have byte : ∀ k, k < n → ((b ++ a).take n).getD k 0 =
      if k < b.length then b.getD k 0 else a.getD (k - b.length) 0 := by
    intro k within
    rw [List.getD_eq_getElem?_getD, List.getElem?_take_of_lt within, ← List.getD_eq_getElem?_getD]
    split
    · rename_i early
      exact List.getD_append _ _ _ _ early
    · rename_i late
      exact List.getD_append_right _ _ _ _ (Nat.le_of_not_lt late)
  have turn : ∀ k, (if k < b.length then b.getD k 0 else b.getD ((k - b.length) % b.length) 0) =
      b.getD (k % b.length) 0 := by
    intro k
    split
    · rename_i early
      rw [Nat.mod_eq_of_lt early]
    · rename_i late
      rw [← Nat.mod_eq_sub_mod (Nat.le_of_not_lt late)]
  constructor
  · intro same
    apply eq_of_getD length (length_cycle b n)
    intro k
    induction k using Nat.strongRecOn with
    | _ k ih =>
        intro within
        rw [getD_cycle within, ← turn, ← same, byte k within]
        split
        · rfl
        · rename_i late
          have earlier : k - b.length < n := Nat.lt_of_le_of_lt (Nat.sub_le _ _) within
          rw [ih _ (Nat.sub_lt (by omega) some) earlier, getD_cycle earlier]
  · rintro rfl
    apply eq_of_getD long length
    intro k within
    rw [byte k within, getD_cycle within, ← turn]
    split
    · rfl
    · exact getD_cycle (Nat.lt_of_le_of_lt (Nat.sub_le _ _) within)

/-- What a reply with a single success and 8192 bytes of data shows of itself from byte 97 on,
before the data. -/
def lead : List UInt8 := List.replicate 30 0 ++ ([1] ++ (word 0x40 ++ word 8192))

/-- The one success that comes back alone: its data begin with what precedes them. -/
def echo : Multicall3Result := ⟨true, cycle lead 8192⟩

/-- A single success, from the second byte of its offset on: the offset and the flag, one
byte on, read as 8192. -/
theorem drop_single (data : List UInt8) : (encodeReply [⟨true, data⟩]).drop 65 =
    word 8192 ++ (List.replicate 30 0 ++ ([1] ++ (word 0x40 ++ Abi.bytes.encode data))) := by
  have shifted : (word 32 ++ word true.toNat).drop 1 = word 8192 ++
      (List.replicate 30 0 ++ [1]) := by decide
  have front : (word 0x20 ++ word 1).length = 64 := by simp
  have whole : encodeReply [⟨true, data⟩] =
      (word 0x20 ++ word 1) ++
        ((word 32 ++ word true.toNat) ++ (word 0x40 ++ Abi.bytes.encode data)) := by
    have heads : resultFormat.elemHeads (32 * [(⟨true, data⟩ : Multicall3Result)].length)
        ([(⟨true, data⟩ : Multicall3Result)].map Multicall3Result.fields) = word 32 :=
          List.append_nil _
    have last : structs [] = [] := rfl
    rw [encodeReply_eq, heads, structs_cons, resultFormat_encode, last]
    simp only [List.append_assoc, List.append_nil, List.length_singleton]
  rw [whole, show 65 = 64 + 1 from rfl, ← List.drop_drop, ← front, List.drop_left,
    List.drop_append_of_le_length (by simp),
    shifted]
  simp only [List.append_assoc]

/-- From byte 97 on `lead` precedes the data. -/
theorem drop_echo {data : List UInt8} (length : data.length = 8192) :
    (encodeReply [⟨true, data⟩]).drop 97 = lead ++ data := by
  have aligned : padding 8192 = [] := by decide
  rw [show 97 = 65 + 32 from rfl, ← List.drop_drop, drop_single,
    List.drop_left' (length_word _), lead]
  simp only [Abi.bytes, length, aligned, List.append_nil, List.append_assoc]

/-- So 8192 bytes stand there exactly if they begin with `lead` and then with themselves. -/
theorem dataAt_echo {data : List UInt8} : DataAt (encodeReply [⟨true, data⟩]) 65 data ↔
    data = cycle lead 8192 := by
  have some_ : 0 < lead.length := by decide
  have fits : usizeOrZero 8192 = 8192 := if_pos (by decide)
  have lengthWord : readWord (encodeReply [⟨true, data⟩]) 65 = some 8192 := by
    rw [show 65 = 65 + 0 from rfl, ← readWord_drop, drop_single]
    exact readWord_of_at (At.start _ _) (by decide)
  constructor
  · rintro ⟨len, read, length, there⟩
    cases lengthWord.symm.trans read
    rw [fits] at length
    have there := at_iff_take.mp there
    rw [length, drop_echo length] at there
    exact (eq_cycle_iff some_ length).mp there
  · intro same
    have length : data.length = 8192 := by rw [same, length_cycle]
    refine ⟨8192, lengthWord, length.trans fits.symm, at_iff_take.mpr ?_⟩
    rw [length, drop_echo length]
    exact (eq_cycle_iff some_ length).mpr same

/-- A single result comes back exactly if it is `echo`. -/
theorem single_comes_back {r : Multicall3Result} :
    (∃ flag offset len, HeadReads (encodeReply [r]) 0 r flag offset len) ↔ r = echo := by
  have table := table_at [r] (show 0 < 1 by decide)
  have flagWord : readWord (encodeReply [r]) (64 + 0 * 64) = some 32 :=
    readWord_of_at table (by decide)
  have encoded : At (structs [r]) 0 (word r.success.toNat) := by
    rw [structs_cons, resultFormat_encode, List.append_assoc]
    exact At.start _ _
  have offsetWord : readWord (encodeReply [r]) (64 + 0 * 64 + 32) = some r.success.toNat :=
    readWord_of_at ((at_structs [r] 0).mpr encoded) (lt_of_lt_of_le (Bool.toNat_lt _) (by decide))
  rw [headReads_iff flagWord offsetWord]
  obtain ⟨success, data⟩ := r
  constructor
  · rintro ⟨yes, there⟩
    have yes : success = true := yes
    subst yes
    rw [dataAt_echo.mp there, echo]
  · intro same
    obtain ⟨rfl, cycles⟩ := Multicall3Result.mk.inj same
    exact ⟨rfl, dataAt_echo.mpr cycles⟩

/-- Each result is what the words at its head read as. -/
def Reads (results : List Multicall3Result) : Prop :=
  ∀ i r, results[i]? = some r → ∃ flag offset len,
    HeadReads (encodeReply results) i r flag offset len

/-- A success with a zero byte. -/
def zeroByte : Multicall3Result := ⟨true, [0]⟩

theorem two_come_back {a b : Multicall3Result} (small : (encodeReply [a, b]).length < 2 ^ 63)
    (reads : Reads [a, b]) :
    [a, b] = [zeroByte, zeroByte] := by
  have first : a = .flagged true b.success := first_comes_back small (reads 0 a rfl)
  obtain ⟨_, _, _, later⟩ := reads 1 b rfl
  have same : b = a := late_same (m := 1) (k := 0) (j := 0) rfl small rfl (by decide) rfl later
  have yes : b.success = true := by rw [same, first, Multicall3Result.flagged]
  rw [yes] at first
  rw [same, first]
  rfl

/-- The second of four results or more has the data of the fourth. -/
theorem second_reads {a b c d : Multicall3Result} {rest : List Multicall3Result}
    (small : (encodeReply (a :: b :: c :: d :: rest)).length < 2 ^ 63)
    (reads : Reads (a :: b :: c :: d :: rest)) :
    b.success = decide ((32 * (rest.length + 4) + (structs [a, b]).length) % 256 ≠ 0) ∧
    b.returnData = d.returnData := by
  obtain ⟨success, data⟩ := (early_iff (i := 1) (by simp) small).mp (reads 1 b rfl)
  have size := size_le (show (a :: b :: c :: d :: rest)[3]? = some d from rfl)
  have encoded : At (structs (d :: rest)) 0 (resultFormat.encode d.fields) := by
    rw [structs_cons]
    exact At.start _ _
  exact ⟨success, data.unique (at_encode encoded (by omega)).2.2⟩

/-- Of four results or more the first two are a zero byte each if the fourth has as many
bytes as the first. -/
theorem second_comes_back {a b c d : Multicall3Result} {rest : List Multicall3Result}
    (small : (encodeReply (a :: b :: c :: d :: rest)).length < 2 ^ 63)
    (reads : Reads (a :: b :: c :: d :: rest))
    (fourth : d.returnData = List.replicate b.success.toNat 0) (first : a = .flagged true b.success)
    (some_ : (32 * (rest.length + 4) + 192) % 256 ≠ 0) : a = zeroByte ∧ b = zeroByte := by
  obtain ⟨success, data⟩ := second_reads small reads
  have second : b = .flagged b.success b.success := by
    calc b = ⟨b.success, b.returnData⟩ := rfl
      _ = .flagged b.success b.success := by rw [data, fourth, Multicall3Result.flagged]
  have yes : b.success = true := by
    rw [first, second, length_flagged, length_flagged] at success
    cases flag : b.success with
    | true => rfl
    | false =>
        rw [flag] at success
        exact success.trans (decide_eq_true some_)
  rw [yes] at first second
  exact ⟨first, second⟩

theorem four_come_back {a b c d : Multicall3Result}
    (small : (encodeReply [a, b, c, d]).length < 2 ^ 63)
    (reads : Reads [a, b, c, d]) : [a, b, c, d] = [zeroByte, zeroByte, zeroByte, zeroByte] := by
  have first : a = .flagged true b.success := first_comes_back small (reads 0 a rfl)
  obtain ⟨_, _, _, third⟩ := reads 2 c rfl
  have same : c = a := late_same (m := 2) (k := 0) (j := 0) rfl small rfl (by decide) rfl third
  obtain ⟨_, _, _, fourth⟩ := reads 3 d rfl
  obtain ⟨flagWord, offsetWord⟩ := word_behind_flagged true b [c, d]
  rw [← first] at flagWord offsetWord
  have last : d = .flagged b.success b.success :=
    second_half_begins rfl small flagWord offsetWord fourth
  obtain ⟨isFirst, isSecond⟩ :=
    second_comes_back small reads (by rw [last, Multicall3Result.flagged]) first (by decide)
  rw [same, last, isFirst, isSecond]
  rfl

/-- Of six results the sixth would be the second, too short for what the third is read from. -/
theorem six_never_come_back {a b c d e f : Multicall3Result}
    (small : (encodeReply [a, b, c, d, e, f]).length < 2 ^ 63) :
    ¬ Reads [a, b, c, d, e, f] := by
  intro reads
  have first : a = .flagged true b.success := first_comes_back small (reads 0 a rfl)
  obtain ⟨_, _, _, fourth⟩ := reads 3 d rfl
  have same : d = a := late_same (m := 3) (k := 0) (j := 0) rfl small rfl (by decide) rfl fourth
  obtain ⟨isFirst, isSecond⟩ :=
    second_comes_back small reads (by rw [same, first, Multicall3Result.flagged]) first
      (show (32 * 6 + 192) % 256 ≠ 0 by decide)
  have size : (structs [zeroByte]).length = 128 := length_flagged true true []
  obtain ⟨_, _, _, sixth⟩ := reads 5 f rfl
  have last : f = b := by
    apply late_same (m := 3) (k := 2) (j := 1) rfl small _ (by decide) rfl sixth
    rw [isFirst]
    exact size
  obtain ⟨-, len, read, -⟩ :=
    (early_iff (i := 2) (show 5 < [a, b, c, d, e, f].length from Nat.lt_succ_self 5) small).mp
      (reads 2 c rfl)
  have within := readWord_within read
  have behind : structs ([a, b, c, d, e, f].drop (2 * 2 + 1)) = structs [zeroByte] := by
    rw [last, isSecond]; rfl
  rw [behind, size] at within
  omega

/-- The offset of a later result counts the encodings of those before it. -/
theorem offsetOf_lt {i j : Nat} {r : Multicall3Result} (there : results[i]? = some r)
    (later : i < j) :
    r.returnData.length < offsetOf results j := by
  have taken : (results.take j)[i]? = some r := by rw [List.getElem?_take_of_lt later, there]
  have split := congrArg List.length (structs_take_drop (results.take j) i)
  rw [drop_structs taken, resultFormat_encode] at split
  simp only [List.length_append, length_word, Abi.bytes] at split
  rw [offsetOf]
  omega

/-- Two words behind each other, read one byte on. -/
theorem readWord_shifted {s : List UInt8} {pos n : Nat} {flag : Bool} (first : At s pos (word n))
    (second : At s (pos + 32) (word flag.toNat)) (small : n < 2 ^ 64) :
    readWord s (pos + 1) = some (256 * n) := by
  have front : word n = [0] ++ beBytes 31 n := beBytes_add (small.trans (by decide)) 1
  have next : word flag.toNat = [0] ++ (word flag.toNat).tail := by cases flag <;> rfl
  rw [front, at_append] at first
  rw [next, at_append] at second
  have both : At s (pos + 1) (beBytes 31 n ++ [0]) := by
    apply at_append.mpr
    rw [length_beBytes]
    exact ⟨first.2, second.1⟩
  rw [← beBytes_succ_mul] at both
  exact readWord_of_at both (by omega)

/-- Of an odd number of results the middle one would be longer than the offset of the last. -/
theorem odd_never_come_back {k : Nat} (odd : results.length = 2 * k + 1) (several : 0 < k)
    (small : (encodeReply results).length < 2 ^ 56) : ¬ Reads results := by
  intro reads
  obtain ⟨first, isFirst⟩ : ∃ r, results[0]? = some r := ⟨_, List.getElem?_eq_getElem (by omega)⟩
  obtain ⟨middle, isMiddle⟩ : ∃ r, results[k]? = some r := ⟨_, List.getElem?_eq_getElem (by omega)⟩
  have shorter := offsetOf_lt isMiddle (show k < 2 * k by omega)
  have fits := offsetOf_le results (2 * k)
  have above : 32 * results.length ≤ offsetOf results (2 * k) := Nat.le_add_right _ _
  have flag := table_at results (show 2 * k < results.length by omega)
  have encoded : At (structs (results.drop 0)) 0 (resultFormat.encode first.fields) := by
    rw [drop_structs isFirst]
    exact At.start _ _
  rw [resultFormat_encode, at_append, ← at_structs, offsetOf_zero, odd] at encoded
  rw [show 64 + 32 * (2 * k) = 64 + k * 64 by omega] at flag
  have offset : At (encodeReply results) (64 + k * 64 + 32) (word first.success.toNat) := by
    rw [show 64 + k * 64 + 32 = 64 + 32 * (2 * k + 1) + 0 by omega]
    exact encoded.1
  have flagWord := readWord_of_at flag ((show _ < 2 ^ 64 by omega).trans (by decide))
  have offsetWord := readWord_of_at offset (lt_of_lt_of_le (Bool.toNat_lt _) (by decide))
  obtain ⟨-, len, read, length, -⟩ :=
    (headReads_iff flagWord offsetWord).mp (reads k middle isMiddle)
  have long : offsetOf results (2 * k) ≤ len ∧ len < 2 ^ 64 := by
    cases called : first.success with
    | false =>
        have tail : tailOf k false.toNat = 64 + k * 64 :=
          Nat.mod_eq_of_lt (show 64 + k * 64 + 0 < 2 ^ 64 by omega)
        rw [called, tail] at read
        cases flagWord.symm.trans read
        omega
    | true =>
        have tail : tailOf k true.toNat = 64 + k * 64 + 1 :=
          Nat.mod_eq_of_lt (show 64 + k * 64 + 1 < 2 ^ 64 by omega)
        rw [called, tail] at read
        cases (readWord_shifted flag offset (by omega)).symm.trans read
        omega
  rw [usizeOrZero, if_pos long.2] at length
  omega

/-! ### When a reply is read back -/

/-- A long list: eight results or more and an even number of them, or a reply larger
than any address space. -/
def Long (results : List Multicall3Result) : Prop :=
  8 ≤ results.length ∧ 2 ∣ results.length ∨ 2 ^ 56 ≤ (encodeReply results).length

/-- A list that overlays its own encodings. In the first half, whose heads are in the table of
    offsets, the flag of the `i`-th result says whether 256 does not divide the offset of the result
    `2 * i`, and its length and data stand `64 * i` bytes into the encodings of the results from `2
    * i + 1` on. The heads of the others are among the encodings, and read as they do there. -/
structure Overlaid (results : List Multicall3Result) : Prop where
  firstHalf : ∀ i r, results[i]? = some r → 2 * i + 1 < results.length →
    r.success = decide (offsetOf results (2 * i) % 256 ≠ 0) ∧
      DataAt (structs (results.drop (2 * i + 1))) (64 * i) r.returnData
  secondHalf : ∀ i r, results[i]? = some r → results.length ≤ 2 * i + 1 →
    ∃ flag offset len, HeadReads (encodeReply results) i r flag offset len

theorem overlaid_iff (small : (encodeReply results).length < 2 ^ 63) :
    Overlaid results ↔ Reads results := by
  constructor
  · intro overlaid i r there
    by_cases early : 2 * i + 1 < results.length
    · exact (early_iff early small).mpr (overlaid.firstHalf i r there early)
    · exact overlaid.secondHalf i r there (by omega)
  · intro reads
    exact ⟨fun i r there early => (early_iff early small).mp (reads i r there), fun i r there _ =>
      reads i r there⟩

/-- The lists that come back. -/
def ComesBack (results : List Multicall3Result) : Prop :=
  results = [] ∨ results = [echo] ∨ results = List.replicate 2 zeroByte ∨
    results = List.replicate 4 zeroByte ∨
    Long results ∧ Overlaid results

theorem comesBack_of_reads (small : (encodeReply results).length < 2 ^ 63) (reads : Reads results) :
    ComesBack results := by
  by_cases long : Long results
  · exact .inr (.inr (.inr (.inr ⟨long, (overlaid_iff small).mpr reads⟩)))
  · simp only [Long, not_or, not_and, Nat.not_le] at long
    have single : ∀ k, results.length = 2 * k + 1 → k = 0 := by
      intro k odd
      by_contra several
      exact odd_never_come_back odd (Nat.pos_of_ne_zero several) long.2 reads
    rcases results with _ | ⟨a, _ | ⟨b, _ | ⟨c, _ | ⟨d, _ | ⟨e, _ | ⟨f, _ | ⟨g, _ | ⟨h, rest⟩⟩⟩⟩⟩⟩⟩⟩
    · exact .inl rfl
    · exact .inr (.inl (by rw [single_comes_back.mp (reads 0 a rfl)]))
    · exact .inr (.inr (.inl (two_come_back small reads)))
    · exact absurd (single 1 rfl) (by decide)
    · exact .inr (.inr (.inr (.inl (four_come_back small reads))))
    · exact absurd (single 2 rfl) (by decide)
    · exact absurd reads (six_never_come_back small)
    · exact absurd (single 3 rfl) (by decide)
    · rcases Nat.even_or_odd' rest.length with ⟨k, even | odd⟩
      · exact absurd ⟨k + 4, by simp only [List.length_cons, even]; omega⟩ (long.1 (by simp))
      · have none_ := single (k + 4) (by simp only [List.length_cons, odd]; omega)
        omega

/-- The decoder reads the standard encoding of results back exactly if the list is empty, is the one
    success that is its own echo, is two or four times a zero byte, or is long and reads itself
    among its own encodings.  So of several results the first is at most a zero byte. -/
theorem reply_decodes_iff (results : List Multicall3Result)
    (small : (encodeReply results).length < 2 ^ 63) :
    (decodeAggregate3Results (encodeReply results) results.length = .ok results ↔
      ComesBack results) ∧
    (∀ first second rest, results = first :: second :: rest →
      decodeAggregate3Results (encodeReply results) results.length = .ok results →
      first = ⟨decide (32 * results.length % 256 ≠ 0), List.replicate second.success.toNat 0⟩) := by
  have reads_iff : decodeAggregate3Results (encodeReply results) results.length = .ok results ↔
      Reads results := by
    rw [decodeReply_iff (small.trans (by decide))]
    constructor
    · intro all i r there
      obtain ⟨bound, rfl⟩ := List.getElem?_eq_some_iff.mp there
      exact all i bound
    · exact fun reads i bound => reads i _ (List.getElem?_eq_getElem bound)
  constructor
  · constructor
    · intro back
      exact comesBack_of_reads small (reads_iff.mp back)
    · rintro (rfl | rfl | rfl | rfl | ⟨-, overlaid⟩)
      · rfl
      · refine reads_iff.mpr fun i r there => ?_
        rcases i with _ | i
        · cases there
          exact single_comes_back.mpr rfl
        · cases there
      · decide +kernel
      · decide +kernel
      · exact reads_iff.mpr ((overlaid_iff small).mp overlaid)
  · rintro first second rest rfl back
    exact first_comes_back small (reads_iff.mp back 0 first rfl)

theorem zero_bytes_decode :
    decodeAggregate3Results (encodeReply [⟨true, [0]⟩, ⟨true, [0]⟩]) 2 =
      .ok [⟨true, [0]⟩, ⟨true, [0]⟩] :=
  (reply_decodes_iff [⟨true, [0]⟩, ⟨true, [0]⟩] (by decide +kernel)).1.mpr (.inr (.inr (.inl rfl)))

/-- Of two balances, 7 and 9, the decoder makes a zero byte and the balance 7. -/
theorem balances_not_decoded :
    decodeAggregate3Results (encodeReply [⟨true, toBeBytes 7⟩, ⟨true, toBeBytes 9⟩]) 2 =
        .ok [⟨true, [0]⟩, ⟨true, toBeBytes 7⟩] ∧
      ¬ ∀ results : List Multicall3Result, (encodeReply results).length < 2 ^ 64 →
        decodeAggregate3Results (encodeReply results) results.length = .ok results := by
  have decoded :
      decodeAggregate3Results (encodeReply [⟨true, toBeBytes 7⟩, ⟨true, toBeBytes 9⟩]) 2 =
      .ok [⟨true, [0]⟩, ⟨true, toBeBytes 7⟩] := by decide +kernel
  refine ⟨decoded, ?_⟩
  intro claimed
  have back := claimed [⟨true, toBeBytes 7⟩, ⟨true, toBeBytes 9⟩] (by decide +kernel)
  have same := decoded.symm.trans back
  have differ : ([⟨true, [0]⟩, ⟨true, toBeBytes 7⟩] : List Multicall3Result) ≠
      [⟨true, toBeBytes 7⟩, ⟨true, toBeBytes 9⟩] := by
    decide +kernel
  exact differ (Except.ok.inj same)

end BscMempool.Dex
