/-
Module: BscMempool.Proofs.V2Codec
Layer: Proofs
Purpose: The V2 quoter speaks the contract ABI: its request is the encoding of `(uint256,
  address[])`, its reply is read as that of `uint256[]`, and the digits the trail watcher formats
  are those of the same request.
Trusted boundary: none
Main exports: getAmountsOutArgs, amountsReply, getAmountsOutV2_reply, V2CodecIsAbi, v2_codec_is_abi
-/
import BscMempool.Codec.Abi
import BscMempool.Dex.V2

namespace BscMempool.Dex

open Codec Codec.Abi

/-- Arguments of `getAmountsOut(uint256,address[])`. -/
def getAmountsOutArgs : Format (U256 × List Address × Unit) :=
  tuple (.cons uint256 (.cons (array address) .nil))

/-- Its result, `uint256[]`. -/
def amountsReply : Format (List U256 × Unit) := tuple (.cons (array uint256) .nil)

theorem addressWord_eq (a : Address) : addressWord a = word a.toNat := by
  have fits : a.toNat < 256 ^ 20 := a.isLt
  rw [word, show 32 = 20 + 12 from rfl, beBytes_add fits]
  rfl

/-! ### Words and slices -/

theorem toNat_fromBeSlice {b : List UInt8} (length : b.length = 32) :
    (fromBeSlice b).toNat = ofBeBytes b := by
  have bound : ofBeBytes b < 2 ^ 256 := by
    have word := ofBeBytes_lt b
    rwa [length] at word
  rw [fromBeSlice, BitVec.toNat_ofNat, Nat.mod_eq_of_lt bound]

theorem length_slice {raw : List UInt8} {start n : Nat} (within : start + n ≤ raw.length) :
    (slice raw start (start + n)).length = n := by
  rw [slice, List.length_take, List.length_drop]
  omega

theorem at_slice {raw : List UInt8} {start n : Nat} :
    At raw start (slice raw start (start + n)) := by
  refine ⟨(raw.drop start).drop n, ?_⟩
  rw [slice, Nat.add_sub_cancel_left, List.take_append_drop]

theorem readWord_of_le {raw : List UInt8} {pos : Nat} (within : pos + 32 ≤ raw.length) :
    readWord raw pos = some (fromBeSlice (slice raw pos (pos + 32))).toNat := by
  have enough : 32 ≤ (raw.drop pos).length := by
    rw [List.length_drop]
    omega
  rw [toNat_fromBeSlice (length_slice within), readWord, readExact, if_pos enough, slice,
    Nat.add_sub_cancel_left]
  rfl

theorem readWord_within {raw : List UInt8} {pos n : Nat} (read : readWord raw pos = some n) :
    pos + 32 ≤ raw.length := by
  have within := (at_of_readWord read).le_length (by simp [← List.length_pos_iff])
  rwa [length_word] at within

/-- The word that is read is what a slice of 32 bytes holds. -/
theorem toNat_word_slice {raw : List UInt8} {pos n : Nat} (read : readWord raw pos = some n) :
    (fromBeSlice (slice raw pos (pos + 32))).toNat = n :=
  Option.some.inj ((readWord_of_le (readWord_within read)).symm.trans read)

/-! ### The request -/

theorem encodeGetAmountsOut_eq (amountIn : U256) (path : List Address) :
    encodeGetAmountsOut amountIn path = GET_AMOUNTS_OUT ++
      getAmountsOutArgs.encode (amountIn, path, ()) := by
  have elements : path.flatMap address.encode = path.flatMap addressWord := by
    congr 1
    funext a
    exact (addressWord_eq a).symm
  have whole := array_encode_static address rfl path
  rw [elements] at whole
  have layout : getAmountsOutArgs.encode (amountIn, path, ()) =
      word amountIn.toNat ++ word 0x40 ++ (array address).encode path := by
    simp [getAmountsOutArgs, tuple, Fields.cons, Fields.nil, Format.head, Format.tail, Format.slot,
      uint256, array]
  rw [layout, whole, encodeGetAmountsOut]
  simp [toBeBytes, word]

/-- The standard decoder reads back the request. -/
theorem decode_getAmountsOutArgs (amountIn : U256) (path : List Address)
    (length : path.length < 2 ^ 64) :
    getAmountsOutArgs.decode ((encodeGetAmountsOut amountIn path).drop 4) =
      some (amountIn, path, ()) := by
  rw [encodeGetAmountsOut_eq, List.drop_left' (by rfl)]
  apply getAmountsOutArgs.decodes _ _ _ (At.self _)
  refine ⟨by simp [uint256], trivial, ?_,
    ⟨length, fitElems_static address rfl (fun _ => trivial) _ _⟩, trivial⟩
  simp [Format.slot, Format.tail, Fields.cons, Fields.nil, uint256, array]

/-! ### The reply -/

theorem amountsReply_encode (amounts : List U256) :
    amountsReply.encode (amounts, ()) = toBeBytes 0x20 ++ toBeBytes amounts.length ++
      amounts.flatMap fun amount => toBeBytes amount.toNat := by
  rw [amountsReply, encode_single rfl, array_encode_static uint256 rfl]
  simp [toBeBytes, word, uint256]

theorem fromBeSlice_toBeBytes (n : Nat) : fromBeSlice (toBeBytes n) = BitVec.ofNat 256 n := by
  have word : ofBeBytes (toBeBytes n) = n % 2 ^ 256 := ofBeBytes_beBytes 32 n
  apply BitVec.eq_of_toNat_eq
  rw [fromBeSlice, word, BitVec.toNat_ofNat, BitVec.toNat_ofNat, Nat.mod_mod]

theorem length_amounts (amounts : List U256) :
    (amounts.flatMap fun amount => toBeBytes amount.toNat).length = amounts.length * 32 := by
  induction amounts with
  | nil => rfl
  | cons amount rest ih =>
      rw [List.flatMap_cons, List.length_append, ih, List.length_cons, toBeBytes, length_beBytes]
      omega

@[simp] theorem length_toBeBytes (n : Nat) : (toBeBytes n).length = 32 := length_beBytes 32 n

theorem length_amountsReply (amounts : List U256) :
    (amountsReply.encode (amounts, ())).length = 32 + 32 + amounts.length * 32 := by
  rw [amountsReply_encode, List.length_append, List.length_append, length_amounts]
  simp

/-- The length word of a reply. -/
theorem slice_length_word (amounts : List U256) :
    fromBeSlice (slice (amountsReply.encode (amounts, ())) 32 64) =
      BitVec.ofNat 256 amounts.length := by
  have read : slice (amountsReply.encode (amounts, ())) 32 64 = toBeBytes amounts.length := by
    rw [amountsReply_encode, slice, List.append_assoc, List.drop_left' (by simp),
      List.take_left' (by simp)]
  rw [read, fromBeSlice_toBeBytes]

/-- The word of its last amount. -/
theorem slice_last_word (amounts : List U256) (some : amounts ≠ []) :
    fromBeSlice (slice (amountsReply.encode (amounts, ())) (32 + 32 + (amounts.length - 1) * 32)
      (32 + 32 + (amounts.length - 1) * 32 + 32)) = amounts.getLast some := by
  rcases List.eq_nil_or_concat amounts with rfl | ⟨earlier, last, rfl⟩
  · exact absurd rfl some
  · have position : 32 + 32 + ((earlier.concat last).length - 1) * 32 =
        (toBeBytes 0x20 ++ toBeBytes (earlier ++ [last]).length ++
          earlier.flatMap fun amount => toBeBytes amount.toNat).length := by
      rw [List.length_append, List.length_append, length_amounts]
      simp
    have read : slice (amountsReply.encode (earlier.concat last, ()))
        (32 + 32 + ((earlier.concat last).length - 1) * 32)
        (32 + 32 + ((earlier.concat last).length - 1) * 32 + 32) = toBeBytes last.toNat := by
      rw [slice, Nat.add_sub_cancel_left, position, List.concat_eq_append, amountsReply_encode,
        List.flatMap_append,
        ← List.append_assoc, List.drop_left]
      simp [List.take_of_length_le]
    rw [read, fromBeSlice_toBeBytes]
    simp

/-- The last amount of a reply is read. -/
theorem decodeAmountsLast_reply (amounts : List U256) (some : amounts ≠ []) :
    decodeAmountsLast (amountsReply.encode (amounts, ())) amounts.length =
      .ok (amounts.getLast some) := by
  have enough : ¬ (amountsReply.encode (amounts, ())).length < 32 + 32 + amounts.length * 32 := by
    rw [length_amountsReply]
    exact Nat.lt_irrefl _
  simp only [decodeAmountsLast, if_neg enough, slice_length_word, ne_eq, not_true_eq_false,
    if_false]
  rw [slice_last_word amounts some]

/-- The live executor reads the same, as long as a `u32` counts the amounts. -/
theorem getAmountsOutV2_reply (amounts : List U256) (some : amounts ≠ [])
    (count : amounts.length < 2 ^ 32) :
    getAmountsOutV2 (.some (amountsReply.encode (amounts, ()))) = .some (amounts.getLast some) := by
  have several : 0 < amounts.length := List.length_pos_iff.mpr some
  have long : ¬ (amountsReply.encode (amounts, ())).length < 96 := by
    rw [length_amountsReply]
    omega
  have number : (BitVec.ofNat 256 amounts.length).toNat = amounts.length := by
    rw [BitVec.toNat_ofNat]
    exact Nat.mod_eq_of_lt (by omega)
  have proper : ¬ (amounts.length ≥ 2 ^ 32 ∨ amounts.length = 0 ∨
      (amountsReply.encode (amounts, ())).length < 64 + amounts.length * 32) := by
    rw [length_amountsReply]
    omega
  simp only [getAmountsOutV2, if_neg long, slice_length_word, number, if_neg proper]
  rw [← slice_last_word amounts some]

/-- A node can make a quote of any outcome: that it fails, and that it is any amount. -/
theorem getAmountsOutV2_surjective : Function.Surjective getAmountsOutV2 := by
  intro reply
  cases reply with
  | none => exact ⟨none, rfl⟩
  | some q => exact ⟨_, getAmountsOutV2_reply [q] (by simp) (by simp)⟩

theorem decodeAmountsLast_short {raw : List UInt8} {n : Nat}
    (short : raw.length < 32 + 32 + n * 32) :
    decodeAmountsLast raw n = .error (.shortResult raw.length) := by
  simp only [decodeAmountsLast, if_pos short]

theorem decodeAmountsLast_other {raw : List UInt8} {n : Nat}
    (other : fromBeSlice (slice raw 32 64) ≠ BitVec.ofNat 256 n) :
    ∃ e, decodeAmountsLast raw n = .error e := by
  by_cases short : raw.length < 32 + 32 + n * 32
  · exact ⟨_, decodeAmountsLast_short short⟩
  · simp only [decodeAmountsLast, if_neg short, if_pos other]
    exact ⟨_, rfl⟩

/-- A quote over a node that answers with one amount for each hop is the last of them. -/
theorem quotePath_reply {ethCall : List UInt8 → Except V2QuoteError (List UInt8)} {amountIn : U256}
    {path : List Address} {amounts : List U256} (hops : 2 ≤ path.length) (some : amounts ≠ [])
    (length : amounts.length = path.length)
    (answer : ethCall (encodeGetAmountsOut amountIn path) =
      .ok (amountsReply.encode (amounts, ()))) :
    quotePath ethCall amountIn path = .ok (amounts.getLast some) := by
  have enough : ¬ path.length < 2 := Nat.not_lt.mpr hops
  rw [quotePath, if_neg enough, answer, ← length]
  exact decodeAmountsLast_reply amounts some

/-! ### The digits -/

@[simp] theorem hexEncode_append (a b : List UInt8) :
    hexEncode (a ++ b) = hexEncode a ++ hexEncode b := by
  simp [hexEncode]

theorem length_hexEncode (b : List UInt8) : (hexEncode b).length = 2 * b.length := by
  induction b with
  | nil => rfl
  | cons b rest ih =>
      simp only [hexEncode, List.flatMap_cons, List.length_append] at ih ⊢
      rw [ih]
      simp only [List.length_cons, List.length_nil]
      omega

/-- An address padded to a word in digits is the address word in digits. -/
theorem padLeft_asSlice (a : Address) :
    padLeft (hexEncode (asSlice a)) = hexEncode (addressWord a) := by
  have digits : (hexEncode (asSlice a)).length = 40 := by
    rw [length_hexEncode, asSlice, length_beBytes]
  have zeros : hexEncode (List.replicate 12 0) = List.replicate 24 '0' := by decide
  rw [padLeft, List.leftpad, digits, addressWord, hexEncode_append, zeros]

theorem v2QuoteData_eq (token : Address) :
    v2QuoteData token = ['0', 'x'] ++ hexEncode
      (encodeGetAmountsOut (BitVec.ofNat 256 (10 ^ 15)) [WBNB, token]) := by
  have selector : "d06ca61f".toList = hexEncode GET_AMOUNTS_OUT := by decide
  have amount : padHex probeIn = hexEncode (toBeBytes (BitVec.ofNat 256 (10 ^ 15)).toNat) := by
    decide +kernel
  have offset : padHex 0x40 = hexEncode (toBeBytes 0x40) := by decide +kernel
  have two : padHex 2 = hexEncode (toBeBytes 2) := by decide +kernel
  have length : [WBNB, token].length = 2 := rfl
  simp only [v2QuoteData, encodeGetAmountsOut, selector, amount, offset, two, length,
    padLeft_asSlice, hexEncode_append,
    List.flatMap_cons, List.flatMap_nil, List.append_nil, List.append_assoc]

/-! ### The codec -/

/-- The hand-written encoders and the decoder are those of the contract ABI. -/
structure V2CodecIsAbi : Prop where
  /-- The standard decoder gets the arguments out of the request, after the selector. -/
  request : ∀ (amountIn : U256) (path : List Address), 2 ≤ path.length → path.length < 2 ^ 64 →
    (encodeGetAmountsOut amountIn path).take 4 = GET_AMOUNTS_OUT ∧
      getAmountsOutArgs.decode ((encodeGetAmountsOut amountIn path).drop 4) =
        some (amountIn, path, ())
  /-- The last amount is read from the standard encoding of as many amounts as the path is long. -/
  reply : ∀ (amounts : List U256) (some : amounts ≠ []),
    decodeAmountsLast (amountsReply.encode (amounts, ())) amounts.length =
      .ok (amounts.getLast some)
  /-- An array of another length is rejected. -/
  otherLength : ∀ (amounts : List U256) (n : Nat), amounts.length < 2 ^ 64 → n < 2 ^ 64 →
    amounts.length ≠ n →
    ∃ e, decodeAmountsLast (amountsReply.encode (amounts, ())) n = .error e
  /-- So is any reply whose length word says so. -/
  otherWord : ∀ (raw : List UInt8) (n : Nat), fromBeSlice (slice raw 32 64) ≠ BitVec.ofNat 256 n →
    ∃ e, decodeAmountsLast raw n = .error e
  /-- And one that is too short. -/
  short : ∀ (raw : List UInt8) (n : Nat), raw.length < 32 + 32 + n * 32 →
    decodeAmountsLast raw n = .error (.shortResult raw.length)
  /-- The digits of the trail watcher's request are those of the encoded one. -/
  digits : ∀ token : Address,
    v2QuoteData token = ['0', 'x'] ++ hexEncode
      (encodeGetAmountsOut (BitVec.ofNat 256 (10 ^ 15)) [WBNB, token])

theorem v2_codec_is_abi : V2CodecIsAbi where
  request amountIn path _ length := by
    constructor
    · rw [encodeGetAmountsOut_eq, List.take_left' (by rfl)]
    · exact decode_getAmountsOutArgs amountIn path length
  reply := decodeAmountsLast_reply
  otherLength := by
    intro amounts n lengthFits nFits other
    apply decodeAmountsLast_other
    rw [slice_length_word]
    intro same
    have values := congrArg BitVec.toNat same
    rw [BitVec.toNat_ofNat, BitVec.toNat_ofNat, Nat.mod_eq_of_lt (lengthFits.trans (by decide)),
      Nat.mod_eq_of_lt (nFits.trans (by decide))] at values
    exact other values
  otherWord _ _ other := decodeAmountsLast_other other
  short _ _ short := decodeAmountsLast_short short
  digits := v2QuoteData_eq

end BscMempool.Dex
