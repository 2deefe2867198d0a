/-
Module: BscMempool.Codec.Utf8
Layer: Codec
Purpose: UTF-8 text and its lossy decoding, which puts a replacement character wherever the bytes
  are not UTF-8 and reads back all text that is.
Trusted boundary: human-reviewed translation of the documented behaviour of from_utf8_lossy
Main exports: utf8, utf8Head, brokenLength, utf8Lossy, utf8Lossy_utf8
-/
import BscMempool.Codec.Bytes

namespace BscMempool.Codec

/-- The bytes of a text. -/
def utf8 (s : List Char) : List UInt8 := s.flatMap String.utf8EncodeChar

/-- The character that a byte string starts with. -/
def utf8Head (s : List UInt8) : Option Char := s.toByteArray.utf8DecodeChar? 0

/-- The byte continues a character. -/
def continues (b : UInt8) : Bool := 128 ≤ b.toNat && b.toNat < 192

/-- How many bytes of a string that starts with no character one replacement character stands for:
as many as may start one. -/
def brokenLength (s : List UInt8) : Nat :=
  let first := (s.getD 0 0).toNat
  let second := (s.getD 1 0).toNat
  let startsThree :=
    (first = 0xE0 ∧ 0xA0 ≤ second ∧ second ≤ 0xBF) ∨ (0xE1 ≤ first ∧ first ≤ 0xEC ∧ 0x80 ≤ second ∧
    second ≤ 0xBF) ∨ (first = 0xED ∧ 0x80 ≤ second ∧ second ≤ 0x9F) ∨
      (0xEE ≤ first ∧ first ≤ 0xEF ∧ 0x80 ≤ second ∧
    second ≤ 0xBF)
  let startsFour :=
    (first = 0xF0 ∧ 0x90 ≤ second ∧ second ≤ 0xBF) ∨ (0xF1 ≤ first ∧ first ≤ 0xF3 ∧ 0x80 ≤ second ∧
    second ≤ 0xBF) ∨ (first = 0xF4 ∧ 0x80 ≤ second ∧ second ≤ 0x8F)
  if startsThree then 2
  else if startsFour then if continues (s.getD 2 0) then 3 else 2
  else 1

/-- Decode at most `n` characters. -/
def lossyFrom : Nat → List UInt8 → List Char
  | 0, _ => []
  | _, [] => []
  | n + 1, s =>
      match utf8Head s with
      | some c => c :: lossyFrom n (s.drop c.utf8Size)
      | none => '\uFFFD' :: lossyFrom n (s.drop (brokenLength s))

/-- `String::from_utf8_lossy` -/
def utf8Lossy (s : List UInt8) : List Char := lossyFrom s.length s

@[simp] theorem utf8_nil : utf8 [] = [] := rfl

theorem utf8_cons (c : Char) (s : List Char) : utf8 (c :: s) = String.utf8EncodeChar c ++ utf8 s :=
  List.flatMap_cons

theorem utf8Head_append (c : Char) (rest : List UInt8) :
    utf8Head (String.utf8EncodeChar c ++ rest) = some c := by
  rw [utf8Head, List.toByteArray_append]
  exact ByteArray.utf8DecodeChar?_utf8EncodeChar_append

theorem lossyFrom_utf8 {n : Nat} {s : List Char} (enough : (utf8 s).length ≤ n) :
    lossyFrom n (utf8 s) = s := by
  induction s generalizing n with
  | nil => cases n <;> rfl
  | cons c rest ih =>
      have size : (String.utf8EncodeChar c).length = c.utf8Size := String.length_utf8EncodeChar c
      have pos : 0 < c.utf8Size := c.utf8Size_pos
      rw [utf8_cons, List.length_append, size] at enough
      cases n with
      | zero => omega
      | succ n =>
          have bytes : String.utf8EncodeChar c ++ utf8 rest ≠ [] := by
            intro none_
            have length := congrArg List.length none_
            rw [List.length_append, size, List.length_nil] at length
            omega
          obtain ⟨b, more, whole⟩ := List.exists_cons_of_ne_nil bytes
          rw [utf8_cons, whole, lossyFrom, ← whole, utf8Head_append]
          · dsimp only
            rw [← size, List.drop_left, ih (by omega)]
          · exact List.cons_ne_nil _ _

/-- Text is read back. -/
theorem utf8Lossy_utf8 (s : List Char) : utf8Lossy (utf8 s) = s := lossyFrom_utf8 (Nat.le_refl _)

end BscMempool.Codec
