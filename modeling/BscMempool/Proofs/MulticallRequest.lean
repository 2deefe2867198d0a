/-
Module: BscMempool.Proofs.MulticallRequest
Layer: Proofs
Purpose: What the contract ABI makes of the encoded calls.  The structs stand back to back where an
  array of dynamic tuples has its offset table, so the decoder takes the words of the first structs
  for offsets: the calls come back exactly if each of these words happens to lead to the call it
  stands for.
Trusted boundary: none
Main exports: aggregate3Args, packedCalls, LedTo, encodeAggregate3_decodes, encoded_call_not_decoded
-/
import BscMempool.Codec.Abi
import BscMempool.Dex.Multicall
import BscMempool.Proofs.V2Codec

namespace BscMempool.Dex

open Codec Codec.Abi

/-- `(address,bool,bytes)`. -/
def callFormat : Format (Address × Bool × List UInt8 × Unit) :=
  tuple (.cons address (.cons Abi.bool (.cons Abi.bytes .nil)))

/-- Arguments of `aggregate3((address,bool,bytes)[])`. -/
def aggregate3Args : Format (List (Address × Bool × List UInt8 × Unit) × Unit) :=
  tuple (.cons (array callFormat) .nil)

def Multicall3Call.fields (c : Multicall3Call) : Address × Bool × List UInt8 × Unit :=
  (c.target, c.allowFailure, c.callData, ())

/-- The calls' structs, one after the other. -/
def packedCalls (calls : List Multicall3Call) : List UInt8 :=
  calls.flatMap fun c => callFormat.encode c.fields

/-- A call is read at offset `o` of the packed structs: its target and flag stand there, and an
    offset word that leads to its data. -/
structure ReadAtOffset (packed : List UInt8) (o : Nat) (c : Multicall3Call) : Prop where
  target : At packed o (word c.target.toNat)
  allowFailure : At packed (o + 32) (word c.allowFailure.toNat)
  callData : ∃ p, p < 2 ^ 64 ∧ At packed (o + 64) (word p) ∧
    At packed (o + p) (word c.callData.length) ∧
    At packed (o + p + 32) c.callData

/-- The `i`-th word of the packed structs, taken for an offset, leads to the `i`-th call. -/
def LedTo (calls : List Multicall3Call) (i : Nat) (c : Multicall3Call) : Prop :=
  ∃ o, o < 2 ^ 64 ∧ At (packedCalls calls) (32 * i) (word o) ∧ ReadAtOffset (packedCalls calls) o c

/-! ### The encoding -/

theorem boolWord_eq (b : Bool) : boolWord b = word b.toNat := by
  cases b <;> decide

theorem encodeCall_eq (c : Multicall3Call) : encodeCall c = callFormat.encode c.fields := by
  have layout : callFormat.encode c.fields = word c.target.toNat ++
      (word c.allowFailure.toNat ++ (word 0x60 ++
      Abi.bytes.encode c.callData)) := by
    simp [callFormat, Multicall3Call.fields, tuple, Fields.cons, Fields.nil, Format.head,
      Format.tail, Format.slot,
      address, Abi.bool, Abi.bytes]
  rw [layout, encodeCall, addressWord_eq, boolWord_eq]
  simp [Abi.bytes, toBeBytes, word, padding]

theorem encodeAggregate3_eq (calls : List Multicall3Call) :
    encodeAggregate3 calls = AGGREGATE3 ++
      (word 0x20 ++ (word calls.length ++ packedCalls calls)) := by
  have structs : calls.flatMap encodeCall = packedCalls calls := by
    rw [packedCalls]
    congr 1
    funext c
    exact encodeCall_eq c
  simp [encodeAggregate3, structs, toBeBytes, word]

/-! ### What the decoder makes of it -/

theorem readAtOffset_iff {packed : List UInt8} {o : Nat} {c : Multicall3Call}
    (fits : c.callData.length < 2 ^ 64) :
    callFormat.decode (packed.drop o) = some c.fields ↔ ReadAtOffset packed o c := by
  have places : address.slot = 32 ∧ Abi.bool.slot = 32 := ⟨rfl, rfl⟩
  change (Fields.cons address (.cons Abi.bool (.cons Abi.bytes .nil))).decode (packed.drop o) 0 =
    some (c.target, c.allowFailure, c.callData, ()) ↔ _
  rw [Fields.decode_cons_iff, Fields.decode_cons_iff, Fields.decode_cons_iff,
    Format.readAt_static _ rfl,
    Format.readAt_static _ rfl, Format.readAt_dynamic_iff _ rfl, decode_address_iff,
    decode_bool_iff, places.1, places.2]
  simp only [at_drop, List.drop_drop, decode_bytes_iff, Nat.add_zero, Nat.zero_add]
  constructor
  · rintro ⟨target, allowFailure, ⟨p, small, offset, -, length, content⟩, -⟩
    exact ⟨target, allowFailure, p, small, offset, length, content⟩
  · rintro ⟨target, allowFailure, p, small, offset, length, content⟩
    exact ⟨target, allowFailure, ⟨p, small, offset, fits, length, content⟩, rfl⟩

/-- The encoded calls come back from the standard decoder, after the selector. -/
def DecodesBack (calls : List Multicall3Call) : Prop :=
  (encodeAggregate3 calls).take 4 = AGGREGATE3 ∧
    aggregate3Args.decode ((encodeAggregate3 calls).drop 4) =
      some (calls.map Multicall3Call.fields, ())

theorem decodesBack_iff {calls : List Multicall3Call} (count : calls.length < 2 ^ 64)
    (fits : ∀ c ∈ calls, c.callData.length < 2 ^ 64) :
    DecodesBack calls ↔ ∀ i (there : i < calls.length), LedTo calls i calls[i] := by
  have selector : (encodeAggregate3 calls).take 4 = AGGREGATE3 := by
    rw [encodeAggregate3_eq, List.take_left' (by rfl)]
  have args : (encodeAggregate3 calls).drop 4 = word 0x20 ++
      (word calls.length ++ packedCalls calls) := by
    rw [encodeAggregate3_eq, List.drop_left' (by rfl)]
  have body : (word 0x20 ++ (word calls.length ++ packedCalls calls)).drop 32 = word calls.length ++
      packedCalls calls :=
    List.drop_left' (length_word _)
  have isOffset : At (word 0x20 ++ (word calls.length ++ packedCalls calls)) 0 (word 0x20) :=
    At.start _ _
  have isLength : At (word calls.length ++ packedCalls calls) 0 (word calls.length) := At.start _ _
  have packed : (word calls.length ++ packedCalls calls).drop 32 = packedCalls calls :=
    List.drop_left' (length_word _)
  have outer (x : List (Address × Bool × List UInt8 × Unit)) :
      aggregate3Args.decode ((encodeAggregate3 calls).drop 4) = some (x, ()) ↔
        (array callFormat).decode (word calls.length ++ packedCalls calls) = some x := by
    rw [aggregate3Args, decode_single_iff rfl, args]
    constructor
    · rintro ⟨o, small, offset, decoded⟩
      have same : o = 0x20 := at_word_unique offset isOffset (small.trans (by decide)) (by decide)
      subst same
      rw [body] at decoded
      exact decoded
    · intro decoded
      refine ⟨0x20, by decide, isOffset, ?_⟩
      rw [body]
      exact decoded
  rw [DecodesBack, outer, decode_array_iff, packed]
  simp only [selector, true_and, List.length_map, List.getElem_map, count, isLength]
  have slot : callFormat.slot = 32 := rfl
  constructor
  · intro all i there
    obtain ⟨o, small, offset, decoded⟩ := (Format.readAt_dynamic_iff _ rfl).mp (all i there)
    rw [slot] at offset
    exact ⟨o, small, offset, (readAtOffset_iff (fits _ (List.getElem_mem there))).mp decoded⟩
  · intro led i there
    obtain ⟨o, small, offset, read⟩ := led i there
    rw [slot, Format.readAt_dynamic_iff _ rfl]
    exact ⟨o, small, offset, (readAtOffset_iff (fits _ (List.getElem_mem there))).mpr read⟩

/-! ### How seldom that is so -/

theorem packedCalls_cons (first : Multicall3Call) (rest : List Multicall3Call) :
    packedCalls (first :: rest) = word first.target.toNat ++
      (word first.allowFailure.toNat ++ (word 0x60 ++
      (Abi.bytes.encode first.callData ++ packedCalls rest))) := by
  have layout : callFormat.encode first.fields = word first.target.toNat ++
      (word first.allowFailure.toNat ++
      (word 0x60 ++ Abi.bytes.encode first.callData)) := by
    simp [callFormat, Multicall3Call.fields, tuple, Fields.cons, Fields.nil, Format.head,
      Format.tail, Format.slot,
      address, Abi.bool, Abi.bytes]
  rw [packedCalls, List.flatMap_cons, layout, ← packedCalls]
  simp only [List.append_assoc]

/-- The first struct stands at the start of the packed ones. -/
theorem first_at (first : Multicall3Call) (rest : List Multicall3Call) :
    At (packedCalls (first :: rest)) 0 (word first.target.toNat) ∧
    At (packedCalls (first :: rest)) 32 (word first.allowFailure.toNat ++ word 0x60) ∧
    At (packedCalls (first :: rest)) 96 (word first.callData.length) ∧
    At (packedCalls (first :: rest)) 128 first.callData := by
  have parts : At (packedCalls (first :: rest)) 0
      (word first.target.toNat ++ (word first.allowFailure.toNat ++
      (word 0x60 ++ (Abi.bytes.encode first.callData ++ packedCalls rest)))) := by
    rw [packedCalls_cons]
    exact At.self _
  simp only [Abi.bytes, at_append, length_word, Nat.zero_add] at parts ⊢
  obtain ⟨target, flag, offset, ⟨length, content, -⟩, -⟩ := parts
  exact ⟨target, ⟨flag, offset⟩, length, content⟩

theorem readAtOffset_first (first : Multicall3Call) (rest : List Multicall3Call) :
    ReadAtOffset (packedCalls (first :: rest)) 0 first := by
  obtain ⟨target, flagAndOffset, length, content⟩ := first_at first rest
  obtain ⟨flag, offset⟩ := at_append.mp flagAndOffset
  rw [length_word] at offset
  exact ⟨target, flag, 0x60, by decide, offset, length, content⟩

/-- The first call's target is taken for its offset, which has to lie within the packed structs. -/
theorem target_within {first : Multicall3Call} {rest : List Multicall3Call}
    (led : LedTo (first :: rest) 0 first) :
    first.target.toNat + 32 ≤ (packedCalls (first :: rest)).length := by
  obtain ⟨o, small, offset, read⟩ := led
  have same : o = first.target.toNat :=
    at_word_unique offset (first_at first rest).1 (small.trans (by decide))
      (first.target.isLt.trans (by decide))
  have within := read.target.le_length (by simp [← List.length_pos_iff])
  rwa [same, length_word] at within

theorem fields_injective {c d : Multicall3Call} (same : c.fields = d.fields) : c = d := by
  cases c
  cases d
  simpa [Multicall3Call.fields] using same

/-- The first call's flag is taken for the second one's offset: it leads back to the
first call, or nowhere. -/
theorem second_is_first {first second : Multicall3Call} {rest : List Multicall3Call}
    (fits : ∀ c ∈ first :: second :: rest, c.callData.length < 2 ^ 64)
    (led : LedTo (first :: second :: rest) 1 second) :
    first.allowFailure = false ∧ second = first := by
  obtain ⟨o, small, offset, read⟩ := led
  have flagAndOffset := (first_at first (second :: rest)).2.1
  have isFlag := (at_append.mp flagAndOffset).1
  have same : o = first.allowFailure.toNat :=
    at_word_unique offset isFlag (small.trans (by decide))
      (lt_of_lt_of_le (Bool.toNat_lt _) (by decide))
  subst same
  cases flag : first.allowFailure with
  | true =>
      -- one byte into the first struct no flag stands where one is read
      rw [flag] at read flagAndOffset
      have shifted : word true.toNat ++ word 0x60 = [0] ++
          (word 256 ++ (List.replicate 30 0 ++ [0x60])) := by decide
      rw [shifted, at_append, at_append] at flagAndOffset
      have noFlag : second.allowFailure.toNat = 256 :=
        at_word_unique read.allowFailure flagAndOffset.2.1
          (lt_of_lt_of_le (Bool.toNat_lt _) (by decide)) (by decide)
      have isFlag := Bool.toNat_lt second.allowFailure
      omega
  | false =>
      rw [flag, Bool.toNat_false] at read
      have decoded := (readAtOffset_iff (fits second (by simp))).mpr read
      have genuine :=
        (readAtOffset_iff (fits first (by simp))).mpr (readAtOffset_first first (second :: rest))
      rw [genuine] at decoded
      exact ⟨rfl, fields_injective (Option.some.inj decoded).symm⟩

/-- The calls come back exactly if every word of the packed structs that is taken for an
    offset leads to its call. So they do not if the first target, as a number, is not within
    the packed structs, nor, if there are more calls than one, if the first may fail or the
    second is another one. -/
theorem encodeAggregate3_decodes (calls : List Multicall3Call) (count : calls.length < 2 ^ 64)
    (fits : ∀ c ∈ calls, c.callData.length < 2 ^ 64) :
    (DecodesBack calls ↔ ∀ i (there : i < calls.length), LedTo calls i calls[i]) ∧
    (∀ first rest, calls = first :: rest → DecodesBack calls →
      first.target.toNat + 32 ≤ (packedCalls calls).length) ∧
    (∀ first second rest, calls = first :: second :: rest → DecodesBack calls →
      first.allowFailure = false ∧ second = first) := by
  refine ⟨decodesBack_iff count fits, ?_, ?_⟩
  · rintro first rest rfl back
    exact target_within ((decodesBack_iff count fits).mp back 0 (by simp))
  · rintro first second rest rfl back
    exact second_is_first fits ((decodesBack_iff count fits).mp back 1 (by simp))

/-- Two equal calls of the zero address that may not fail do come back: the target and the flag of
the first struct are both 0, and taken for offsets lead to it. -/
theorem encodeAggregate3_zero_target :
    let c : Multicall3Call := ⟨0, false, [0xde, 0xad, 0xbe, 0xef]⟩
    DecodesBack [c, c] := by
  intro c
  have iff := (encodeAggregate3_decodes [c, c] (by decide) (by simp [c])).1
  have flag : At (packedCalls [c, c]) 32 (word 0) := (at_append.mp (first_at c [c]).2.1).1
  apply iff.mpr
  intro i there
  cases i with
  | zero => exact ⟨0, by decide, (first_at c [c]).1, readAtOffset_first c [c]⟩
  | succ i =>
      have only : i = 0 := by
        rw [List.length_cons, List.length_cons, List.length_nil] at there
        omega
      subst only
      exact ⟨0, by decide, flag, readAtOffset_first c [c]⟩

/-- One call of the wrapped-BNB contract is not decoded. -/
theorem encoded_call_not_decoded :
    ¬ ∀ calls : List Multicall3Call, calls.length < 2 ^ 64 →
    (∀ c ∈ calls, c.callData.length < 2 ^ 64) →
      DecodesBack calls := by
  intro claimed
  have back := claimed [⟨WBNB, true, [0xde, 0xad, 0xbe, 0xef]⟩] (by decide) (by simp)
  have nothing : aggregate3Args.decode
      ((encodeAggregate3 [⟨WBNB, true, [0xde, 0xad, 0xbe, 0xef]⟩]).drop 4) = none := by
    decide +kernel
  rw [DecodesBack, nothing] at back
  cases back.2

end BscMempool.Dex
