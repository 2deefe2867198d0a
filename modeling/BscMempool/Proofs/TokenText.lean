/-
Module: BscMempool.Proofs.TokenText
Layer: Proofs
Purpose: What a token calls itself is read back from the node's replies, and nothing that is read
  back is unfit to be shown.
Trusted boundary: none
Main exports: Readable, Answers, token_info_read
-/
import BscMempool.Codec.Abi
import BscMempool.Watch.TokenResolver

namespace BscMempool.Watch

open Codec Codec.Abi
open Dex (Address U256 Panic)

/-! ### Slices of what a node writes -/

theorem stripHexPrefix_rpcHex (raw : List UInt8) :
    stripHexPrefix (rpcHex raw) = some (hexText raw) := if_pos rfl

theorem sliceText_append {a b c : List UInt8} (plain : IsAscii (a ++ (b ++ c))) {start stop : Nat}
    (first : start = a.length) (last : stop = a.length + b.length) :
    sliceText (a ++ (b ++ c)) start stop = .ok b := by
  rw [sliceText, strSlice_append plain first last]

theorem sliceText_ascii {s : List UInt8} (plain : IsAscii s) {start stop : Nat}
    (order : start ≤ stop) (within : stop ≤ s.length) : ∃ part, sliceText s start stop = .ok part :=
  ⟨_, by rw [sliceText, strSlice_ascii plain order within]⟩

/-- The pairs of a byte string are its bytes. -/
theorem readPairs_hexText (before b after : List UInt8) (plain : IsAscii before) :
    readPairs (before ++ hexText (b ++ after)) b.length before.length = .ok (some b) := by
  induction b generalizing before with
  | nil => rfl
  | cons x b ih =>
      have shape : before ++ hexText (x :: b ++ after) = before ++
          (hexText [x] ++ hexText (b ++ after)) := by
        rw [← hexText_append]
        rfl
      have whole : IsAscii (before ++ (hexText [x] ++ hexText (b ++ after))) := by
        rw [← hexText_append]
        intro c member
        rcases List.mem_append.mp member with early | late
        · exact plain c early
        · exact isAscii_hexText _ c late
      have pair : sliceText (before ++ (hexText [x] ++ hexText (b ++ after))) before.length
          (before.length + 2) =
          .ok (hexText [x]) := sliceText_append whole rfl (by simp)
      have front : IsAscii (before ++ hexText [x]) := by
        intro c member
        exact whole c (by rw [← List.append_assoc]; exact List.mem_append_left _ member)
      have rest := ih (before ++ hexText [x]) front
      rw [List.length_append, length_hexText, List.length_singleton, Nat.mul_one, List.append_assoc]
        at rest
      rw [shape, List.length_cons, readPairs, pair]
      dsimp only
      rw [parseHex_byte]
      dsimp only
      rw [rest, UInt8.ofNat_toNat]
      rfl

theorem readPairs_ascii {h : List UInt8} (plain : IsAscii h) (n pos : Nat)
    (within : pos + 2 * n ≤ h.length) :
    ∃ read, readPairs h n pos = .ok read := by
  induction n generalizing pos with
  | zero => exact ⟨_, rfl⟩
  | succ n ih =>
      obtain ⟨pair, sliced⟩ := sliceText_ascii plain (Nat.le_add_right pos 2) (by omega)
      rw [readPairs, sliced]
      dsimp only
      split
      · exact ⟨_, rfl⟩
      · obtain ⟨read, rest⟩ := ih (pos + 2) (by omega)
        rw [rest]
        exact ⟨_, rfl⟩

/-! ### Strings -/

/-- What a token may call itself and be shown so. -/
structure Readable (s : List Char) : Prop where
  some_ : s ≠ []
  short : (utf8 s).length ≤ 64
  ends : s.getLast? ≠ some '\x00'

/-- The reply to `symbol()` and `name()`. -/
def stringReply : Format (List UInt8 × Unit) := tuple (.cons bytes .nil)

/-- Up to 256 bytes are read, whatever offset is declared for them and whatever comes after them. -/
theorem stringBytes_reply {first b : List UInt8} (offset : first.length = 32) (some_ : b ≠ [])
    (short : b.length ≤ 256)
    (after : List UInt8) : stringBytes (some (rpcHex (first ++ (word b.length ++ (b ++ after))))) =
      .ok (some b) := by
  have pos : 0 < b.length := List.length_pos_iff.mpr some_
  have plain := isAscii_hexText (first ++ (word b.length ++ (b ++ after)))
  rw [hexText_append, hexText_append] at plain
  have shape : hexText (first ++ (word b.length ++ (b ++ after))) =
      hexText first ++ (hexText (word b.length) ++ hexText (b ++ after)) := by
    rw [hexText_append, hexText_append]
  have size : (hexText (first ++ (word b.length ++ (b ++ after)))).length = 128 + b.length * 2 + 2 *
      after.length := by
    rw [length_hexText, List.length_append, List.length_append, List.length_append,
      length_word, offset]
    omega
  have slice : sliceText (hexText (first ++ (word b.length ++ (b ++ after)))) 64 128 =
      .ok (hexText (word b.length)) := by
    rw [shape]
    apply sliceText_append plain
    · rw [length_hexText, offset]
    · rw [length_hexText, length_hexText, offset, length_word]
  have fits : b.length < 256 ^ 32 := lt_of_le_of_lt short (by decide)
  have filled : word b.length ≠ [] := List.length_pos_iff.mp (by rw [length_word]; decide)
  have length : parseHex (2 ^ 64) (hexText (word b.length)) = some b.length := by
    rw [parseHex_hexText _ filled, word, ofBeBytes_beBytes_of_lt fits,
      if_pos (lt_of_le_of_lt short (by decide))]
  have content := readPairs_hexText (hexText first ++ hexText (word b.length)) b after (by
    rw [← hexText_append]
    exact isAscii_hexText _)
  rw [List.length_append, length_hexText, length_hexText, offset, length_word, List.append_assoc,
    ← shape] at content
  rw [stringBytes, Option.bind_some, stripHexPrefix_rpcHex]
  dsimp only
  rw [if_neg (by omega), slice]
  dsimp only
  rw [length]
  dsimp only
  rw [if_neg (by omega), if_neg (by omega), content]

theorem trimNul_readable {s : List Char} (readable : Readable s) : trimNul s = s := by
  rw [trimNul, List.rdropWhile_eq_self_iff]
  intro filled nul
  apply readable.ends
  rw [List.getLast?_eq_some_getLast filled, eq_of_beq nul]

/-- A readable string is read back. -/
theorem ethCallString_readable {s : List Char} (readable : Readable s) (after : List UInt8) :
    ethCallString (some (rpcHex (stringReply.encode (utf8 s, ()) ++ after))) = .ok (some s) := by
  have filled : utf8 s ≠ [] := by
    obtain ⟨c, rest, rfl⟩ := List.exists_cons_of_ne_nil readable.some_
    intro none_
    have length := congrArg List.length none_
    rw [utf8_cons, List.length_append, String.length_utf8EncodeChar, List.length_nil] at length
    have pos := c.utf8Size_pos
    omega
  have layout : stringReply.encode (utf8 s, ()) ++ after =
      word 32 ++ (word (utf8 s).length ++ (utf8 s ++ (padding (utf8 s).length ++ after))) := by
    simp [stringReply, tuple, Fields.cons, Fields.nil, Format.head, Format.tail, Format.slot, bytes]
  have read := stringBytes_reply (length_word 32) filled (Nat.le_trans readable.short (by decide))
    (padding (utf8 s).length ++ after)
  have text : stringOfBytes (utf8 s) = some s := by
    rw [stringOfBytes, utf8Lossy_utf8, trimNul_readable readable]
    apply if_neg
    rintro (none_ | long)
    · exact readable.some_ none_
    · exact absurd long (Nat.not_lt.mpr readable.short)
  rw [ethCallString, layout, read]
  exact congrArg Except.ok text

/-- What is taken for a name is readable. -/
theorem readable_of_bytes {b : List UInt8} {s : List Char} (taken : stringOfBytes b = some s) :
    Readable s := by
  unfold stringOfBytes at taken
  dsimp only at taken
  split at taken
  · cases taken
  · rename_i kept
    cases taken
    push Not at kept
    refine ⟨kept.1, kept.2, fun nul => ?_⟩
    have last := List.rdropWhile_last_not (· == '\x00') _ kept.1
    rw [List.getLast?_eq_some_getLast kept.1] at nul
    exact last (beq_iff_eq.mpr (Option.some.inj nul))

theorem ok_of_map {ε α β : Type} {f : α → β} {r : Except ε α} {b : β} (mapped : r.map f = .ok b) :
    ∃ a, r = .ok a ∧ f a = b := by
  cases r with
  | error e => cases mapped
  | ok a => exact ⟨a, rfl, Except.ok.inj mapped⟩

theorem readable_of_read {reply : Option (List UInt8)} {s : List Char}
    (read : ethCallString reply = .ok (some s)) :
    Readable s := by
  obtain ⟨bytes, -, taken⟩ := ok_of_map read
  obtain ⟨b, -, taken⟩ := Option.bind_eq_some_iff.mp taken
  exact readable_of_bytes taken

/-! ### Replies in ASCII -/

theorem stripHexPrefix_ascii {reply h : List UInt8} (plain : IsAscii reply)
    (stripped : stripHexPrefix reply = some h) :
    IsAscii h := by
  unfold stripHexPrefix at stripped
  split at stripped
  · cases stripped
    exact plain.drop 2
  · cases stripped

theorem stringBytes_ascii {reply : List UInt8} (plain : IsAscii reply) :
    ∃ read, stringBytes (some reply) = .ok read := by
  unfold stringBytes
  rw [Option.bind_some]
  cases stripped : stripHexPrefix reply with
  | none => exact ⟨_, rfl⟩
  | some h =>
      have plain := stripHexPrefix_ascii plain stripped
      dsimp only
      by_cases short : h.length < 128
      · rw [if_pos short]
        exact ⟨_, rfl⟩
      · obtain ⟨word, sliced⟩ :=
          sliceText_ascii plain (show 64 ≤ 128 by decide) (Nat.le_of_not_lt short)
        rw [if_neg short, sliced]
        dsimp only
        cases parseHex (2 ^ 64) word with
        | none => exact ⟨_, rfl⟩
        | some length =>
            dsimp only
            by_cases sized : length = 0 ∨ length > 256
            · rw [if_pos sized]
              exact ⟨_, rfl⟩
            · by_cases cut : h.length < 128 + length * 2
              · rw [if_neg sized, if_pos cut]
                exact ⟨_, rfl⟩
              · rw [if_neg sized, if_neg cut]
                exact readPairs_ascii plain length 128 (by omega)

theorem ethCallString_ascii {reply : Option (List UInt8)}
    (plain : ∀ text, reply = some text → IsAscii text) :
    ∃ read, ethCallString reply = .ok read := by
  cases reply with
  | none => exact ⟨_, rfl⟩
  | some text =>
      obtain ⟨read, ran⟩ := stringBytes_ascii (plain text rfl)
      exact ⟨_, by rw [ethCallString, ran]; rfl⟩

theorem ethCallU8_ascii {reply : Option (List UInt8)}
    (plain : ∀ text, reply = some text → IsAscii text) :
    ∃ read, ethCallU8 reply = .ok read := by
  unfold ethCallU8
  cases stripped : reply.bind stripHexPrefix with
  | none => exact ⟨_, rfl⟩
  | some h =>
      obtain ⟨text, rfl, stripped⟩ := Option.bind_eq_some_iff.mp stripped
      have plain := stripHexPrefix_ascii (plain text rfl) stripped
      dsimp only
      split
      · exact ⟨_, rfl⟩
      · obtain ⟨part, sliced⟩ := sliceText_ascii plain (Nat.sub_le h.length 2) (Nat.le_refl _)
        rw [sliced]
        exact ⟨_, rfl⟩

/-! ### Decimals -/

/-- The last byte of a reply is read. -/
theorem ethCallU8_reply (raw : List UInt8) (x : UInt8) :
    ethCallU8 (some (rpcHex (raw ++ [x]))) = .ok (some x.toNat) := by
  have filled : hexText (raw ++ [x]) ≠ [] := by
    apply List.length_pos_iff.mp
    rw [length_hexText, List.length_append, List.length_singleton]
    omega
  have shape : hexText (raw ++ [x]) = hexText raw ++ (hexText [x] ++ []) := by
    rw [hexText_append, List.append_nil]
  have plain := isAscii_hexText (raw ++ [x])
  rw [shape] at plain
  have last : (hexText (raw ++ [x])).length - 2 = (hexText raw).length := by simp
  have stop : (hexText (raw ++ [x])).length = (hexText raw).length + (hexText [x]).length := by simp
  have sliced := sliceText_append plain last stop
  rw [← shape] at sliced
  rw [ethCallU8, Option.bind_some, stripHexPrefix_rpcHex]
  dsimp only
  rw [if_neg filled, sliced]
  exact congrArg Except.ok (parseHex_byte x)

/-- A reply of eight bits at most. -/
theorem ethCallU8_lt {reply : Option (List UInt8)} {n : Nat}
    (read : ethCallU8 reply = .ok (some n)) : n < 256 := by
  unfold ethCallU8 at read
  split at read
  · cases read
  · split at read
    · cases read
    · obtain ⟨digits, -, parsed⟩ := ok_of_map read
      exact parseHex_lt parsed

/-! ### Metadata -/

/-- What a lookup can find out of a token. -/
structure TokenInfo.Shown (info : TokenInfo) : Prop where
  symbol : Readable info.symbol
  name : Readable info.name
  decimals : info.decimals < 256

/-- The node has the metadata of a token. -/
structure Answers (node : String → Option (List UInt8)) (info : TokenInfo) : Prop where
  symbol : ∃ after, node SELECTOR_SYMBOL = some
    (rpcHex (stringReply.encode (utf8 info.symbol, ()) ++ after))
  name : ∃ after,
    node SELECTOR_NAME = some (rpcHex (stringReply.encode (utf8 info.name, ()) ++ after))
  decimals : node SELECTOR_DECIMALS = some (rpcHex (word info.decimals))

/-- A token whose contract answers in the ABI is found out whole; what is found out is readable
whatever the node answers; and a node that answers in ASCII makes no lookup panic. -/
theorem token_info_read (node : String → Option (List UInt8)) (addr : Address) :
    (∀ info : TokenInfo, info.address = addr → info.Shown → Answers node info →
      fetch node addr = .ok (some info)) ∧
    (∀ info, fetch node addr = .ok (some info) → info.address = addr ∧ info.Shown) ∧
    ((∀ selector text, node selector = some text → IsAscii text) →
      ∃ read, fetch node addr = .ok read) := by
  refine ⟨?_, ?_, ?_⟩
  · rintro info rfl shown answers
    obtain ⟨after, symbol⟩ := answers.symbol
    obtain ⟨after', name⟩ := answers.name
    have tail : word info.decimals = List.replicate 31 0 ++ [UInt8.ofNat info.decimals] := by
      have fits : info.decimals < 256 ^ 1 := shown.decimals
      rw [word, show 32 = 1 + 31 from rfl, beBytes_add fits]
      simp [beBytes, leBytes, Nat.mod_eq_of_lt shown.decimals]
    have small : (UInt8.ofNat info.decimals).toNat = info.decimals := by
      simp [Nat.mod_eq_of_lt shown.decimals]
    rw [fetch, symbol, ethCallString_readable shown.symbol, name, ethCallString_readable shown.name,
      answers.decimals,
      tail, ethCallU8_reply, small]
    rfl
  · intro info found
    unfold fetch at found
    split at found
    · cases found
    · cases found
    · rename_i symbol read
      cases name : ethCallString (node SELECTOR_NAME) with
      | error panic =>
          rw [name] at found
          cases found
      | ok name' =>
          cases decimals : ethCallU8 (node SELECTOR_DECIMALS) with
          | error panic =>
              rw [name, decimals] at found
              cases found
          | ok decimals' =>
              rw [name, decimals] at found
              cases found
              refine ⟨rfl, readable_of_read read, ?_, ?_⟩
              · cases name' with
                | none => exact readable_of_read read
                | some name' => exact readable_of_read name
              · cases decimals' with
                | none => exact (by decide : (18 : Nat) < 256)
                | some decimals' => exact ethCallU8_lt decimals
  · intro plain
    obtain ⟨symbol, read⟩ := ethCallString_ascii (plain SELECTOR_SYMBOL)
    obtain ⟨name, read'⟩ := ethCallString_ascii (plain SELECTOR_NAME)
    obtain ⟨decimals, read''⟩ := ethCallU8_ascii (plain SELECTOR_DECIMALS)
    rw [fetch, read, read', read'']
    cases symbol with
    | none => exact ⟨_, rfl⟩
    | some symbol => exact ⟨_, rfl⟩

/-- A token of nine decimals with a symbol that is not ASCII. -/
def sampleToken : TokenInfo := ⟨0x4444#160, ['币', 'A'], ['币', ' ', 'C', 'o', 'i', 'n'], 9⟩

/-- Its contract's replies. -/
def sampleNode (selector : String) : Option (List UInt8) :=
  if selector = SELECTOR_SYMBOL then
    some (rpcHex (stringReply.encode (utf8 sampleToken.symbol, ()) ++ []))
  else if selector = SELECTOR_NAME then
    some (rpcHex (stringReply.encode (utf8 sampleToken.name, ()) ++ []))
  else some (rpcHex (word sampleToken.decimals))

theorem token_info_read_sample : fetch sampleNode 0x4444#160 = .ok (some sampleToken) := by
  have shown : sampleToken.Shown := {
    symbol := ⟨by decide, by decide +kernel, by decide⟩
    name := ⟨by decide, by decide +kernel, by decide⟩
    decimals := by decide }
  have answers : Answers sampleNode sampleToken := {
    symbol := ⟨[], if_pos rfl⟩
    name := ⟨[], rfl⟩
    decimals := rfl }
  exact (token_info_read sampleNode 0x4444#160).1 sampleToken rfl shown answers

end BscMempool.Watch
