/-
Module: BscMempool.Proofs.TargetToken
Layer: Proofs
Purpose: The token read at fixed positions of a V2 buy's calldata against the last hop of the path
  an ABI decoder finds by its offset word. The two agree on every canonical encoding; elsewhere
  exactly if the words at the offset make up a path that ends in the same address, and no address
  word has higher bits.
Trusted boundary: none
Main exports: v2BuyArgs, AgreesWithAbi, FixedToken, OffsetAgrees, target_token_iff,
  target_token_astray
-/
import BscMempool.Codec.Abi
import BscMempool.Trader.Strategy
import Mathlib.Data.List.Induction

namespace BscMempool.Trader

open Codec Codec.Abi

/-- The arguments of the three buys: amount, path, recipient and deadline. -/
def v2BuyArgs : Format (U256 × List Address × Address × U256 × Unit) :=
  tuple (.cons uint256 (.cons (array address) (.cons address (.cons uint256 .nil))))

/-- A token that is extracted is the last hop of the path in the decoded arguments. -/
def AgreesWithAbi (calldata : List UInt8) : Prop :=
  ∀ a, extractTargetToken calldata = some a →
    ∃ amount path recipient deadline,
      v2BuyArgs.decode (calldata.drop 4) = some (amount, path, recipient, deadline, ()) ∧
      path.getLast? = some a

/-- At the fixed positions stand a number of hops between two and eight and a last
hop other than WBNB. -/
def FixedToken (calldata : List UInt8) (a : Address) : Prop :=
  ∃ n w, readWord calldata 132 = some n ∧ 2 ≤ n ∧ n ≤ 8 ∧
    readWord calldata (132 + 32 * n) = some w ∧
    a = BitVec.ofNat 160 w ∧ a ≠ WBNB

/-- From the offset word on stands a number of hops, each an address word, the
last one this address. -/
structure PathAtOffset (calldata : List UInt8) (a : Address) (o m : Nat) : Prop where
  offset : readWord calldata 36 = some o
  offsetFits : o < 2 ^ 64
  length : readWord calldata (4 + o) = some m
  lengthFits : m < 2 ^ 64
  some_ : 1 ≤ m
  hops : ∀ i < m, ∃ e, readWord calldata (4 + o + 32 + 32 * i) = some e ∧ e < 2 ^ 160
  last : readWord calldata (4 + o + 32 * m) = some a.toNat

/-- If a token stands at the fixed positions, the recipient is an address word and the offset leads
    to a path that ends in the token. -/
def OffsetAgrees (calldata : List UInt8) : Prop :=
  ∀ a, FixedToken calldata a →
    (∃ recipient, readWord calldata 68 = some recipient ∧ recipient < 2 ^ 160) ∧
    ∃ o m, PathAtOffset calldata a o m

/-! ### The fixed positions -/

theorem natOfBytes_eq (b : List UInt8) : natOfBytes b = ofBeBytes b := by
  rw [natOfBytes]
  induction b using List.reverseRecOn with
  | nil => rfl
  | append_singleton b x ih =>
      rw [List.foldl_append, ih, ofBeBytes_append]
      simp [ofBeBytes, ofLeBytes, Nat.mul_comm]

theorem word_of_take {s : List UInt8} {pos n : Nat} (read : readWord s pos = some n) :
    natOfBytes ((s.drop pos).take 32) = n := by
  obtain ⟨rest, split⟩ := at_of_readWord read
  have fits : n < 256 ^ 32 := readWord_lt read
  rw [natOfBytes_eq, split, List.take_left' (length_word n), word, ofBeBytes_beBytes_of_lt fits]

/-- The low 20 bytes of a word. -/
theorem address_of_take {s : List UInt8} {pos n : Nat} (read : readWord s pos = some n) :
    BitVec.ofNat 160 (natOfBytes ((s.drop (pos + 12)).take 20)) = BitVec.ofNat 160 n := by
  have whole := word_of_take read
  have split : (s.drop pos).take 32 = (s.drop pos).take 12 ++ (s.drop (pos + 12)).take 20 := by
    rw [← List.drop_drop, ← List.take_add]
  have inside := (at_of_readWord read).le_length (by simp [← List.length_pos_iff])
  have low : ((s.drop (pos + 12)).take 20).length = 20 := by
    rw [length_word] at inside
    rw [List.length_take, List.length_drop]
    omega
  rw [natOfBytes_eq, split, ofBeBytes_append, low] at whole
  apply BitVec.eq_of_toNat_eq
  rw [natOfBytes_eq, BitVec.toNat_ofNat, BitVec.toNat_ofNat, ← whole]
  have wide : (256 : Nat) ^ 20 = 2 ^ 160 := by decide
  rw [wide, Nat.mul_add_mod]

/-- A token is extracted exactly if one stands at the fixed positions. -/
theorem extractTargetToken_iff {calldata : List UInt8}
    (supported : calldata.take 4 ∈ V2_BUY_SELECTORS) {a : Address} :
    extractTargetToken calldata = some a ↔ FixedToken calldata a := by
  by_cases short : calldata.length < 196
  · have nothing : ¬ FixedToken calldata a := by
      rintro ⟨n, w, -, two, -, lastWord, -⟩
      have inside := (at_of_readWord lastWord).le_length (by simp [← List.length_pos_iff])
      rw [length_word] at inside
      omega
    simp only [extractTargetToken, nothing, iff_false]
    rw [if_pos short]
    simp
  · obtain ⟨n, lengthWord⟩ := exists_readWord (show 132 + 32 ≤ calldata.length by omega)
    have pathLen := word_of_take lengthWord
    have notUnsupported : ¬ calldata.take 4 ∉ V2_BUY_SELECTORS := not_not.mpr supported
    simp only [extractTargetToken, pathLen, if_neg notUnsupported]
    rw [if_neg short]
    by_cases implausible : n < 2 ∨ n > 8
    · rw [if_pos implausible]
      constructor
      · exact fun none_ => nomatch none_
      · rintro ⟨n', w, found, two, eight, -⟩
        have same : n' = n := Option.some.inj (found.symm.trans lengthWord)
        omega
    · have position : 164 + 32 * (n - 1) = 132 + 32 * n := by omega
      rw [if_neg implausible, position]
      by_cases cut : calldata.length < 132 + 32 * n + 32
      · rw [if_pos cut]
        constructor
        · exact fun none_ => nomatch none_
        · rintro ⟨n', w, found, -, -, lastWord, -⟩
          obtain rfl : n' = n := Option.some.inj (found.symm.trans lengthWord)
          have inside := (at_of_readWord lastWord).le_length (by simp [← List.length_pos_iff])
          rw [length_word] at inside
          omega
      · obtain ⟨w, lastWord⟩ := exists_readWord (show 132 + 32 * n + 32 ≤ calldata.length by omega)
        rw [if_neg cut, address_of_take lastWord]
        constructor
        · intro extracted
          by_cases wbnb : BitVec.ofNat 160 w = WBNB
          · rw [if_pos wbnb] at extracted
            cases extracted
          · rw [if_neg wbnb, Option.some.injEq] at extracted
            exact ⟨n, w, lengthWord, by omega, by omega, lastWord, extracted.symm, extracted ▸ wbnb⟩
        · rintro ⟨n', w', found, -, -, found', rfl, notWbnb⟩
          obtain rfl : n' = n := Option.some.inj (found.symm.trans lengthWord)
          obtain rfl : w' = w := Option.some.inj (found'.symm.trans lastWord)
          rw [if_neg notWbnb]

/-! ### The decoded path -/

theorem v2BuyArgs_decode_iff {args : List UInt8} {amount : U256} {path : List Address}
    {recipient : Address} {deadline : U256} :
    v2BuyArgs.decode args = some (amount, path, recipient, deadline, ()) ↔
      readWord args 0 = some amount.toNat ∧ (array address).readAt args 32 = some path ∧
      readWord args 64 = some recipient.toNat ∧ readWord args 96 = some deadline.toNat := by
  have unfolded : v2BuyArgs.decode args = some (amount, path, recipient, deadline, ()) ↔
      (Fields.cons uint256 (.cons (array address) (.cons address (.cons uint256 .nil)))).decode
        args 0 =
        some (amount, path, recipient, deadline, ()) := Iff.rfl
  rw [unfolded, Fields.decode_cons_iff, Fields.decode_cons_iff, Fields.decode_cons_iff,
    Fields.decode_cons_iff,
    Format.readAt_uint256_iff, Format.readAt_address_iff, Format.readAt_uint256_iff]
  simp [Fields.nil, Format.slot, uint256, address, array]

/-- A path is decoded from the words at the offset. -/
theorem path_readAt_iff {args : List UInt8} {path : List Address} :
    (array address).readAt args 32 = some path ↔
      ∃ o, o < 2 ^ 64 ∧ readWord args 32 = some o ∧ path.length < 2 ^ 64 ∧
        readWord args o = some path.length ∧
        ∀ i (there : i < path.length), readWord args (o + 32 + 32 * i) = some path[i].toNat := by
  have slot : address.slot = 32 := rfl
  rw [Format.readAt_dynamic_iff _ rfl]
  simp only [decode_array_iff, slot, Format.readAt_address_iff, readWord_drop, at_drop,
    Nat.add_zero, Nat.add_assoc]
  constructor
  · rintro ⟨o, small, offset, fits, length, hops⟩
    exact ⟨o, small, readWord_of_at offset (small.trans (by decide)), fits,
      readWord_of_at length (fits.trans (by decide)), hops⟩
  · rintro ⟨o, small, offset, fits, length, hops⟩
    exact ⟨o, small, at_of_readWord offset, fits, at_of_readWord length, hops⟩

/-- A path that ends in an address is decoded exactly if the offset leads to one. -/
theorem exists_path_iff {calldata : List UInt8} {a : Address} :
    (∃ path, (array address).readAt (calldata.drop 4) 32 = some path ∧ path.getLast? = some a) ↔
      ∃ o m, PathAtOffset calldata a o m := by
  simp only [path_readAt_iff, readWord_drop]
  constructor
  · rintro ⟨path, ⟨o, small, offset, fits, length, hops⟩, last⟩
    have nonempty : path ≠ [] := by
      rintro rfl
      cases last
    have some_ : 1 ≤ path.length := List.length_pos_iff.mpr nonempty
    have isLast : path[path.length - 1] = a := by
      rw [List.getLast?_eq_getElem?, List.getElem?_eq_getElem (by omega)] at last
      exact Option.some.inj last
    refine ⟨o, path.length, offset, small, length, fits, some_, ?_, ?_⟩
    · intro i there
      refine ⟨path[i].toNat, ?_, path[i].isLt⟩
      have hop := hops i there
      rwa [show 4 + (o + 32 + 32 * i) = 4 + o + 32 + 32 * i by omega] at hop
    · have hop := hops (path.length - 1) (by omega)
      rw [isLast] at hop
      rwa [show 4 + (o + 32 + 32 * (path.length - 1)) = 4 + o + 32 * path.length by omega] at hop
  · rintro ⟨o, m, found⟩
    -- the path is what stands in the words
    let path : List Address :=
      (List.range m).map fun i => BitVec.ofNat 160
        ((readWord calldata (4 + o + 32 + 32 * i)).getD 0)
    have length : path.length = m := by simp [path]
    have hop : ∀ i (there : i < path.length),
        readWord calldata (4 + (o + 32 + 32 * i)) = some path[i].toNat := by
      intro i there
      obtain ⟨e, read, clean⟩ := found.hops i (by rwa [length] at there)
      have isHop : path[i].toNat = e := by
        simp only [path, List.getElem_map, List.getElem_range, read, Option.getD_some,
          BitVec.toNat_ofNat]
        exact Nat.mod_eq_of_lt clean
      rw [show 4 + (o + 32 + 32 * i) = 4 + o + 32 + 32 * i by omega, read, isHop]
    refine ⟨path, ⟨o, found.offsetFits, found.offset, ?_, ?_, hop⟩, ?_⟩
    · rw [length]
      exact found.lengthFits
    · rw [length]
      exact found.length
    · have inside : path.length - 1 < path.length := by
        have := found.some_
        omega
      have lastHop := hop (path.length - 1) inside
      have position : 4 + (o + 32 + 32 * (path.length - 1)) = 4 + o + 32 * m := by
        have := found.some_
        omega
      rw [position, found.last, Option.some.injEq] at lastHop
      rw [List.getLast?_eq_getElem?, List.getElem?_eq_getElem inside,
        ← BitVec.eq_of_toNat_eq lastHop]

/-- A token the fixed positions hold is the decoder's exactly if the offset agrees. -/
theorem agreesWithAbi_iff {calldata : List UInt8} (supported : calldata.take 4 ∈ V2_BUY_SELECTORS) :
    AgreesWithAbi calldata ↔ OffsetAgrees calldata := by
  constructor
  · intro agrees a fixed
    obtain ⟨amount, path, recipient, deadline, decoded, last⟩ :=
      agrees a ((extractTargetToken_iff supported).mpr fixed)
    obtain ⟨-, pathRead, recipientWord, -⟩ := v2BuyArgs_decode_iff.mp decoded
    rw [readWord_drop] at recipientWord
    exact ⟨⟨recipient.toNat, recipientWord, recipient.isLt⟩,
      exists_path_iff.mp ⟨path, pathRead, last⟩⟩
  · intro agrees a extracted
    have fixed := (extractTargetToken_iff supported).mp extracted
    obtain ⟨⟨recipient, recipientWord, clean⟩, found⟩ := agrees a fixed
    obtain ⟨path, pathRead, last⟩ := exists_path_iff.mpr found
    -- the two numbers are words whatever they are
    obtain ⟨n, w, -, two, -, lastWord, -⟩ := fixed
    have inside := (at_of_readWord lastWord).le_length (by simp [← List.length_pos_iff])
    rw [length_word] at inside
    obtain ⟨amount, amountWord⟩ := exists_readWord (show 4 + 32 ≤ calldata.length by omega)
    obtain ⟨deadline, deadlineWord⟩ := exists_readWord (show 100 + 32 ≤ calldata.length by omega)
    refine ⟨BitVec.ofNat 256 amount, path, BitVec.ofNat 160 recipient, BitVec.ofNat 256 deadline,
      ?_, last⟩
    apply v2BuyArgs_decode_iff.mpr
    simp only [readWord_drop, BitVec.toNat_ofNat, Nat.mod_eq_of_lt (readWord_lt amountWord),
      Nat.mod_eq_of_lt (readWord_lt deadlineWord), Nat.mod_eq_of_lt clean]
    exact ⟨amountWord, pathRead, recipientWord, deadlineWord⟩

/-- With the offset every encoder writes, the two differ in higher bits only. -/
theorem offsetAgrees_of_standard {calldata : List UInt8}
    (standard : readWord calldata 36 = some 0x80) :
    OffsetAgrees calldata ↔ ∀ a n, FixedToken calldata a → readWord calldata 132 = some n →
      (∃ recipient, readWord calldata 68 = some recipient ∧ recipient < 2 ^ 160) ∧
      ∀ i < n, ∃ e, readWord calldata (164 + 32 * i) = some e ∧ e < 2 ^ 160 := by
  constructor
  · intro agrees a n fixed lengthWord
    obtain ⟨recipient, o, m, found⟩ := agrees a fixed
    obtain rfl : o = 0x80 := Option.some.inj (found.offset.symm.trans standard)
    obtain rfl : m = n := Option.some.inj (found.length.symm.trans lengthWord)
    exact ⟨recipient, found.hops⟩
  · intro clean a fixed
    have held := fixed
    obtain ⟨n, w, lengthWord, two, eight, lastWord, isToken, -⟩ := held
    obtain ⟨recipient, hops⟩ := clean a n fixed lengthWord
    obtain ⟨e, lastHop, lastClean⟩ := hops (n - 1) (by omega)
    rw [show 164 + 32 * (n - 1) = 132 + 32 * n by omega] at lastHop
    obtain rfl : e = w := Option.some.inj (lastHop.symm.trans lastWord)
    have token : a.toNat = e := by rw [isToken, BitVec.toNat_ofNat, Nat.mod_eq_of_lt lastClean]
    refine ⟨recipient, 0x80, n, standard, by decide, lengthWord, by omega, by omega, hops, ?_⟩
    rw [token]
    exact lastWord

/-! ### Canonical encodings -/

theorem v2BuyArgs_encode (amount : U256) (path : List Address) (recipient : Address)
    (deadline : U256) :
    v2BuyArgs.encode (amount, path, recipient, deadline, ()) =
      word amount.toNat ++ word 0x80 ++ word recipient.toNat ++ word deadline.toNat ++
        word path.length ++
        path.flatMap fun hop => word hop.toNat := by
  have whole := array_encode_static address rfl path
  have layout : v2BuyArgs.encode (amount, path, recipient, deadline, ()) =
      word amount.toNat ++ word 0x80 ++ word recipient.toNat ++ word deadline.toNat ++
        (array address).encode path := by
    simp [v2BuyArgs, tuple, Fields.cons, Fields.nil, Format.head, Format.tail, Format.slot, uint256,
      address, array]
  rw [layout, whole, ← List.append_assoc]
  rfl

theorem length_hops (path : List Address) : (path.flatMap fun hop => word hop.toNat).length = 32 *
    path.length := by
  induction path with
  | nil => rfl
  | cons hop rest ih =>
      rw [List.flatMap_cons, List.length_append, length_word, ih, List.length_cons]
      omega

/-- Of a canonical encoding the last hop is extracted. -/
theorem extractTargetToken_encode {selector : List UInt8} (supported : selector ∈ V2_BUY_SELECTORS)
    (amount : U256)
    {path : List Address} (recipient : Address) (deadline : U256) (two : 2 ≤ path.length)
    (eight : path.length ≤ 8) (notWbnb : path.getLast? ≠ some WBNB) :
    extractTargetToken (selector ++ v2BuyArgs.encode (amount, path, recipient, deadline, ())) =
      path.getLast? := by
  have four : selector.length = 4 := by
    simp only [V2_BUY_SELECTORS, List.mem_cons, List.not_mem_nil, or_false] at supported
    rcases supported with rfl | rfl | rfl <;> rfl
  rcases List.eq_nil_or_concat path with rfl | ⟨earlier, last, rfl⟩
  · simp at two
  · rw [List.concat_eq_append] at two eight notWbnb ⊢
    rw [List.getLast?_concat] at notWbnb ⊢
    rw [v2BuyArgs_encode, List.flatMap_append, List.flatMap_singleton]
    have count : (earlier ++ [last]).length = earlier.length + 1 := by simp
    rw [count] at two eight ⊢
    obtain ⟨calldata, whole⟩ : ∃ calldata, calldata = selector ++ (word amount.toNat ++ word 0x80 ++
      word recipient.toNat ++ word deadline.toNat ++ word (earlier.length + 1) ++
        ((earlier.flatMap fun hop => word hop.toNat) ++ word last.toNat)) := ⟨_, rfl⟩
    have prefix_ : calldata.take 4 = selector := by rw [whole, List.take_left' four]
    have stands :
        At calldata 0 (selector ++ (word amount.toNat ++ word 0x80 ++ word recipient.toNat ++
        word deadline.toNat ++ word (earlier.length + 1) ++
          ((earlier.flatMap fun hop => word hop.toNat) ++ word last.toNat))) := by
      rw [← whole]
      exact At.self calldata
    rw [← whole]
    simp only [at_append, length_word, List.length_append, four, length_hops, Nat.zero_add]
      at stands
    obtain ⟨-, ⟨⟨-, lengthAt⟩, -, lastAt⟩⟩ := stands
    have lengthWord := readWord_of_at lengthAt (by omega)
    have lastWord := readWord_of_at lastAt (last.isLt.trans (by decide))
    apply (extractTargetToken_iff (prefix_ ▸ supported)).mpr
    refine ⟨earlier.length + 1, last.toNat, lengthWord, two, eight, ?_, ?_, ?_⟩
    · rw [← lastWord]
      congr 1
      omega
    · rw [BitVec.ofNat_toNat, BitVec.setWidth_eq]
    · intro same
      exact notWbnb (congrArg some same)

/-- For every calldata with one of the three selectors: what is extracted agrees with the decoder
    exactly if the offset does, and of a canonical encoding of two to eight hops the last one is
    extracted unless it is WBNB. -/
theorem target_token_iff {calldata : List UInt8} (supported : calldata.take 4 ∈ V2_BUY_SELECTORS) :
    (AgreesWithAbi calldata ↔ OffsetAgrees calldata) ∧
    ∀ amount path recipient deadline,
      calldata = calldata.take 4 ++ v2BuyArgs.encode (amount, path, recipient, deadline, ()) →
      2 ≤ path.length → path.length ≤ 8 → path.getLast? ≠ some WBNB →
      extractTargetToken calldata = path.getLast? := by
  refine ⟨agreesWithAbi_iff supported, ?_⟩
  intro amount path recipient deadline canonical two eight notWbnb
  rw [canonical]
  exact extractTargetToken_encode supported amount recipient deadline two eight notWbnb

/-- A buy of a token over WBNB, its path encoded where every encoder does. -/
theorem target_token_direct :
    extractTargetToken ([0x7f, 0xf3, 0x6a, 0xb5] ++ v2BuyArgs.encode (0, [WBNB, 9], 0, 0, ())) =
      some 9 :=
  (target_token_iff (by decide +kernel)).2 0 [WBNB, 9] 0 0 (by decide +kernel) (by decide)
    (by decide) (by decide)

/-- A buy whose path stands three words further on, behind two hops that are not part of it. -/
def strayBuy : List UInt8 :=
  [0x7f, 0xf3, 0x6a, 0xb5] ++ word 0 ++ word 0xe0 ++ word 0 ++ word 0 ++ word 2 ++
    word WBNB.toNat ++ word 0xdead ++
    word 2 ++ word WBNB.toNat ++ word 9

/-- Its arguments decode to a path that ends in 9; the token at the fixed
positions is another one. -/
theorem target_token_astray :
    extractTargetToken strayBuy = some 0xdead ∧
    v2BuyArgs.decode (strayBuy.drop 4) = some (0, [WBNB, 9], 0, 0, ()) ∧
    ¬ AgreesWithAbi strayBuy := by
  have extracted : extractTargetToken strayBuy = some 0xdead := by decide +kernel
  have decoded : v2BuyArgs.decode (strayBuy.drop 4) = some (0, [WBNB, 9], 0, 0, ()) := by
    decide +kernel
  refine ⟨extracted, decoded, ?_⟩
  intro agrees
  obtain ⟨amount, path, recipient, deadline, again, last⟩ := agrees _ extracted
  have same := Option.some.inj (decoded.symm.trans again)
  simp only [Prod.mk.injEq] at same
  rw [← same.2.1] at last
  revert last
  decide

end BscMempool.Trader
