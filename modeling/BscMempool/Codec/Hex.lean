/-
Module: BscMempool.Codec.Hex
Layer: Codec
Purpose: Text as the bytes of a `str`: slices by byte positions, which are there only at character
  boundaries, and hexadecimal numerals and byte strings read back from the text that is written for
  them.
Trusted boundary: human-reviewed translation of the documented behaviour of str slices,
  char::to_digit and from_str_radix
Main exports: ascii, strSlice, hexValue, parseHex, hexText, rpcHex, strSlice_ascii, parseHex_hexText
-/
import BscMempool.Codec.Bytes
import BscMempool.Codec.Text

namespace BscMempool.Codec

/-! ### Text and its slices -/

/-- The bytes of ASCII characters. -/
def ascii (s : List Char) : List UInt8 := s.map fun c => UInt8.ofNat c.toNat

/-- The text has ASCII characters only. -/
def IsAscii (s : List UInt8) : Prop := ∀ b ∈ s, b.toNat < 128

/-- A character starts at the position, or the text ends there. -/
def isBoundary (s : List UInt8) (i : Nat) : Bool :=
  match s[i]? with
  | none => i == s.length
  | some b => i == 0 || decide (b.toNat < 128 ∨ 192 ≤ b.toNat)

/-- `&s[start..stop]`, or nothing where it panics. -/
def strSlice (s : List UInt8) (start stop : Nat) : Option (List UInt8) :=
  if start ≤ stop ∧ stop ≤ s.length ∧ isBoundary s start = true ∧ isBoundary s stop = true then
    some ((s.drop start).take (stop - start))
  else none

theorem IsAscii.drop {s : List UInt8} (plain : IsAscii s) (n : Nat) : IsAscii (s.drop n) :=
  fun b member => plain b (List.mem_of_mem_drop member)

theorem isBoundary_ascii {s : List UInt8} (plain : IsAscii s) {i : Nat} (within : i ≤ s.length) :
    isBoundary s i = true := by
  unfold isBoundary
  split
  · rename_i outside
    have long := List.getElem?_eq_none_iff.mp outside
    exact beq_iff_eq.mpr (Nat.le_antisymm within long)
  · rename_i b there
    have small := plain b (List.mem_of_getElem? there)
    simp [small]

/-- In ASCII text every position within the text is a boundary. -/
theorem strSlice_ascii {s : List UInt8} (plain : IsAscii s) {start stop : Nat}
    (order : start ≤ stop) (within : stop ≤ s.length) :
    strSlice s start stop = some ((s.drop start).take (stop - start)) :=
  if_pos ⟨order, within, isBoundary_ascii plain (Nat.le_trans order within),
    isBoundary_ascii plain within⟩

/-- What stands between two parts of a text. -/
theorem strSlice_append {a b c : List UInt8} (plain : IsAscii (a ++ (b ++ c))) {start stop : Nat}
    (first : start = a.length)
    (last : stop = a.length + b.length) : strSlice (a ++ (b ++ c)) start stop = some b := by
  subst first last
  rw [strSlice_ascii plain (Nat.le_add_right _ _) (by simp), List.drop_left,
    Nat.add_sub_cancel_left, List.take_left]

/-! ### Numerals -/

/-- The value of a hexadecimal digit of either case. -/
def hexValue (b : UInt8) : Option Nat :=
  if 48 ≤ b.toNat ∧ b.toNat ≤ 57 then some (b.toNat - 48)
  else if 65 ≤ b.toNat ∧ b.toNat ≤ 70 then some (b.toNat - 55)
  else if 97 ≤ b.toNat ∧ b.toNat ≤ 102 then some (b.toNat - 87)
  else none

/-- Read digits from the first one on. -/
def foldHex : Nat → List UInt8 → Option Nat
  | n, [] => some n
  | n, b :: rest => (hexValue b).bind fun d => foldHex (n * 16 + d) rest

/-- `from_str_radix(s, 16)` for an unsigned type below `bound`: digits, perhaps with a
plus sign before them. -/
def parseHex (bound : Nat) (s : List UInt8) : Option Nat :=
  let digits := if s.head? = some 43 then s.tail else s
  if digits = [] then none else (foldHex 0 digits).filter fun n => decide (n < bound)

theorem parseHex_lt {bound n : Nat} {s : List UInt8} (read : parseHex bound s = some n) :
    n < bound := by
  unfold parseHex at read
  generalize (if s.head? = some 43 then s.tail else s) = digits at read
  dsimp only at read
  split at read
  · cases read
  · exact of_decide_eq_true (Option.filter_eq_some_iff.mp read).2

/-- The digits of a byte string, two for each byte, in lower case. -/
def hexText (b : List UInt8) : List UInt8 := b.flatMap fun x => ascii (hexDigits 2 x.toNat)

/-- A node marks the digits of bytes. -/
def rpcHex (b : List UInt8) : List UInt8 := ascii ['0', 'x'] ++ hexText b

@[simp] theorem hexText_nil : hexText [] = [] := rfl

@[simp] theorem hexText_append (a b : List UInt8) : hexText (a ++ b) = hexText a ++ hexText b :=
  List.flatMap_append

@[simp] theorem length_hexText (b : List UInt8) : (hexText b).length = 2 * b.length := by
  induction b with
  | nil => rfl
  | cons x rest ih =>
      rw [hexText, List.flatMap_cons, List.length_append, ← hexText, ih]
      simp [ascii]
      omega

/-- A digit is not a sign, is ASCII and has its value. -/
theorem digit_of_lt : ∀ d < 16, UInt8.ofNat (Nat.digitChar d).toNat ≠ 43 ∧
    (UInt8.ofNat (Nat.digitChar d).toNat).toNat < 128 ∧
    hexValue (UInt8.ofNat (Nat.digitChar d).toNat) = some d := by decide

theorem hexText_cons (x : UInt8) (rest : List UInt8) : hexText (x :: rest) =
    UInt8.ofNat (Nat.digitChar (x.toNat / 16)).toNat ::
      UInt8.ofNat (Nat.digitChar (x.toNat % 16)).toNat :: hexText rest := by
  have byte : x.toNat < 256 := x.toNat_lt
  have high : x.toNat / 16 % 16 = x.toNat / 16 := Nat.mod_eq_of_lt (by omega)
  simp [hexText, ascii, hexDigits, high]

theorem isAscii_hexText (b : List UInt8) : IsAscii (hexText b) := by
  induction b with
  | nil =>
      intro c member
      cases member
  | cons x rest ih =>
      have byte : x.toNat < 256 := x.toNat_lt
      rw [hexText_cons]
      intro c member
      rcases List.mem_cons.mp member with rfl | member
      · exact (digit_of_lt _ (by omega)).2.1
      · rcases List.mem_cons.mp member with rfl | member
        · exact (digit_of_lt _ (Nat.mod_lt _ (by decide))).2.1
        · exact ih c member

/-- Reading the digits of bytes goes on with the number of the bytes. -/
theorem foldHex_hexText (n : Nat) (b : List UInt8) :
    foldHex n (hexText b) = some (n * 256 ^ b.length + ofBeBytes b) := by
  induction b generalizing n with
  | nil => simp [foldHex, ofBeBytes, ofLeBytes]
  | cons x rest ih =>
      have byte : x.toNat < 256 := x.toNat_lt
      have high := (digit_of_lt (x.toNat / 16) (by omega)).2.2
      have low := (digit_of_lt (x.toNat % 16) (Nat.mod_lt _ (by decide))).2.2
      have value : ofBeBytes [x] = x.toNat := by simp [ofBeBytes, ofLeBytes]
      have next : (n * 16 + x.toNat / 16) * 16 + x.toNat % 16 = n * 256 + x.toNat := by omega
      have split_ : ofBeBytes (x :: rest) = 256 ^ rest.length * x.toNat + ofBeBytes rest := by
        rw [← value]
        exact ofBeBytes_append [x] rest
      rw [hexText_cons, foldHex, high, Option.bind_some, foldHex, low, Option.bind_some, next, ih,
        split_, List.length_cons]
      congr 1
      ring

/-- The numeral of a byte string is read back if it fits. -/
theorem parseHex_hexText (bound : Nat) {b : List UInt8} (some_ : b ≠ []) :
    parseHex bound (hexText b) = if ofBeBytes b < bound then some (ofBeBytes b) else none := by
  obtain ⟨x, rest, rfl⟩ := List.exists_cons_of_ne_nil some_
  have byte : x.toNat < 256 := x.toNat_lt
  have unsigned : (hexText (x :: rest)).head? ≠ some 43 := by
    rw [hexText_cons, List.head?_cons]
    intro sign
    exact (digit_of_lt (x.toNat / 16) (by omega)).1 (Option.some.inj sign)
  have digits : hexText (x :: rest) ≠ [] := by
    rw [hexText_cons]
    exact List.cons_ne_nil _ _
  simp only [parseHex, if_neg unsigned, if_neg digits, foldHex_hexText, Nat.zero_mul, Nat.zero_add,
    Option.filter_some,
    decide_eq_true_eq]

/-- The two digits of a byte. -/
theorem parseHex_byte (x : UInt8) : parseHex 256 (hexText [x]) = some x.toNat := by
  have value : ofBeBytes [x] = x.toNat := by simp [ofBeBytes, ofLeBytes]
  rw [parseHex_hexText 256 (List.cons_ne_nil _ _), value, if_pos x.toNat_lt]

end BscMempool.Codec
