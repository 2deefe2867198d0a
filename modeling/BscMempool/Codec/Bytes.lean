/-
Module: BscMempool.Codec.Bytes
Layer: Codec
Purpose: Byte strings: numbers as words of fixed width in either byte order, exact reads from a
  stream, and where a cut through a sequence of blocks falls.
Trusted boundary: none
Main exports: asBytes, leBytes, ofLeBytes, beBytes, ofBeBytes, readExact, exists_cut_flatten
-/
import Mathlib.Data.Nat.Basic
import Mathlib.Tactic.Ring

namespace BscMempool.Codec

/-- The bytes of a string. -/
def asBytes (s : String) : List UInt8 := s.toByteArray.data.toList

/-! ### Little-endian words -/

/-- The `k` low bytes of a number, lowest first. -/
def leBytes : Nat → Nat → List UInt8
  | 0, _ => []
  | k + 1, n => UInt8.ofNat (n % 256) :: leBytes k (n / 256)

/-- The number of a little-endian byte string. -/
def ofLeBytes : List UInt8 → Nat
  | [] => 0
  | b :: rest => b.toNat + 256 * ofLeBytes rest

@[simp] theorem length_leBytes (k n : Nat) : (leBytes k n).length = k := by
  induction k generalizing n with
  | zero => rfl
  | succ k ih => simp [leBytes, ih]

theorem ofLeBytes_leBytes (k n : Nat) : ofLeBytes (leBytes k n) = n % 256 ^ k := by
  induction k generalizing n with
  | zero => simp [leBytes, ofLeBytes, Nat.mod_one]
  | succ k ih =>
      have low : (UInt8.ofNat (n % 256)).toNat = n % 256 := by simp
      rw [leBytes, ofLeBytes, ih, low, Nat.pow_succ, Nat.mul_comm (256 ^ k), Nat.mod_mul]

/-- A number that fits is read back. -/
theorem ofLeBytes_leBytes_of_lt {k n : Nat} (fits : n < 256 ^ k) : ofLeBytes (leBytes k n) = n := by
  rw [ofLeBytes_leBytes, Nat.mod_eq_of_lt fits]

theorem ofLeBytes_lt (b : List UInt8) : ofLeBytes b < 256 ^ b.length := by
  induction b with
  | nil => simp [ofLeBytes]
  | cons b rest ih =>
      have byte : b.toNat < 256 := b.toNat_lt
      rw [ofLeBytes, List.length_cons, Nat.pow_succ]
      omega

/-- The word of the number of a byte string is the byte string. -/
theorem leBytes_ofLeBytes (b : List UInt8) : leBytes b.length (ofLeBytes b) = b := by
  induction b with
  | nil => rfl
  | cons b rest ih =>
      have byte : b.toNat < 256 := b.toNat_lt
      have low : (b.toNat + 256 * ofLeBytes rest) % 256 = b.toNat := by omega
      have high : (b.toNat + 256 * ofLeBytes rest) / 256 = ofLeBytes rest := by omega
      rw [ofLeBytes, List.length_cons, leBytes, low, high, ih, UInt8.ofNat_toNat]

/-! ### Big-endian words -/

/-- The `k` low bytes of a number, highest first. -/
def beBytes (k n : Nat) : List UInt8 := (leBytes k n).reverse

/-- The number of a big-endian byte string. -/
def ofBeBytes (b : List UInt8) : Nat := ofLeBytes b.reverse

@[simp] theorem length_beBytes (k n : Nat) : (beBytes k n).length = k := by simp [beBytes]

theorem ofBeBytes_beBytes (k n : Nat) : ofBeBytes (beBytes k n) = n % 256 ^ k := by
  simp [ofBeBytes, beBytes, ofLeBytes_leBytes]

theorem ofBeBytes_beBytes_of_lt {k n : Nat} (fits : n < 256 ^ k) : ofBeBytes (beBytes k n) = n := by
  rw [ofBeBytes_beBytes, Nat.mod_eq_of_lt fits]

theorem ofBeBytes_lt (b : List UInt8) : ofBeBytes b < 256 ^ b.length := by
  simpa [ofBeBytes] using ofLeBytes_lt b.reverse

theorem beBytes_ofBeBytes (b : List UInt8) : beBytes b.length (ofBeBytes b) = b := by
  have reversed := leBytes_ofLeBytes b.reverse
  rw [List.length_reverse] at reversed
  rw [beBytes, ofBeBytes, reversed, List.reverse_reverse]

theorem ofLeBytes_append (a b : List UInt8) :
    ofLeBytes (a ++ b) = ofLeBytes a + 256 ^ a.length * ofLeBytes b := by
  induction a with
  | nil => simp [ofLeBytes]
  | cons x rest ih =>
      rw [List.cons_append, ofLeBytes, ih, ofLeBytes, List.length_cons, Nat.pow_succ]
      ring

theorem ofBeBytes_append (a b : List UInt8) :
    ofBeBytes (a ++ b) = 256 ^ b.length * ofBeBytes a + ofBeBytes b := by
  rw [ofBeBytes, List.reverse_append, ofLeBytes_append, List.length_reverse, Nat.add_comm]
  rfl

/-- A number that fits a narrower word is padded with zeros in a wider one. -/
theorem leBytes_add {k n : Nat} (fits : n < 256 ^ k) (j : Nat) :
    leBytes (k + j) n = leBytes k n ++ List.replicate j 0 := by
  induction k generalizing n with
  | zero =>
      have zero : n = 0 := by simpa using fits
      subst zero
      rw [Nat.zero_add]
      induction j with
      | zero => rfl
      | succ j ih => simpa [leBytes, List.replicate_succ] using ih
  | succ k ih =>
      have high : n / 256 < 256 ^ k := by
        rw [Nat.pow_succ] at fits
        exact Nat.div_lt_of_lt_mul (by rwa [Nat.mul_comm] at fits)
      rw [show k + 1 + j = (k + j) + 1 by omega, leBytes, leBytes, ih high, List.cons_append]

theorem beBytes_add {k n : Nat} (fits : n < 256 ^ k) (j : Nat) :
    beBytes (k + j) n = List.replicate j 0 ++ beBytes k n := by
  rw [beBytes, leBytes_add fits, List.reverse_append, List.reverse_replicate, beBytes]

/-- One byte on, the bytes of a number are those of 256 times the number. -/
theorem beBytes_succ_mul (k n : Nat) : beBytes (k + 1) (256 * n) = beBytes k n ++ [0] := by
  have low : 256 * n % 256 = 0 := Nat.mul_mod_right 256 n
  have high : 256 * n / 256 = n := Nat.mul_div_cancel_left n (by decide)
  rw [beBytes, leBytes, low, high, List.reverse_cons, beBytes]
  rfl

/-! ### Reads -/

/-- Take exactly `n` bytes off a stream. -/
def readExact (n : Nat) (s : List UInt8) : Option (List UInt8 × List UInt8) :=
  if n ≤ s.length then some (s.take n, s.drop n) else none

@[simp] theorem readExact_append (b rest : List UInt8) :
    readExact b.length (b ++ rest) = some (b, rest) := by
  simp [readExact]

/-- A block at the front of the stream is read off. -/
theorem readExact_of_length {n : Nat} {b : List UInt8} (length : b.length = n) (rest : List UInt8) :
    readExact n (b ++ rest) = some (b, rest) := by
  rw [← length, readExact_append]

theorem readExact_short {n : Nat} {s : List UInt8} (short : s.length < n) :
    readExact n s = none := by
  simp [readExact, Nat.not_le.mpr short]

theorem readExact_eq_some {n : Nat} {s b rest : List UInt8}
    (read : readExact n s = some (b, rest)) :
    s = b ++ rest ∧ b.length = n := by
  unfold readExact at read
  split at read
  · rename_i enough
    cases read
    simp [enough]
  · cases read

/-! ### Cuts -/

section
variable {α : Type*}

/-- A cut through a sequence of blocks keeps some of them whole, and of the next one a
proper part or nothing. -/
theorem exists_cut_flatten (blocks : List (List α)) {cut : Nat}
    (within : cut ≤ blocks.flatten.length) :
    (∃ k ≤ blocks.length, cut = (blocks.take k).flatten.length) ∨
    ∃ k, ∃ next : k < blocks.length, ∃ j, 0 < j ∧ j < blocks[k].length ∧
      cut = (blocks.take k).flatten.length + j := by
  induction blocks generalizing cut with
  | nil =>
      left
      exact ⟨0, le_rfl, by simpa using within⟩
  | cons b rest ih =>
      by_cases inFirst : cut < b.length
      · by_cases nothing : cut = 0
        · left
          exact ⟨0, Nat.zero_le _, by simp [nothing]⟩
        · right
          exact ⟨0, by simp, cut, Nat.pos_of_ne_zero nothing, inFirst, by simp⟩
      · rw [List.flatten_cons, List.length_append] at within
        have later : cut - b.length ≤ rest.flatten.length := by omega
        rcases ih later with ⟨k, bound, atEnd⟩ | ⟨k, next, j, some, proper, at_⟩
        · left
          refine ⟨k + 1, by simpa using bound, ?_⟩
          rw [List.take_succ_cons, List.flatten_cons, List.length_append]
          omega
        · right
          refine ⟨k + 1, by simpa using next, j, some, by simpa using proper, ?_⟩
          rw [List.take_succ_cons, List.flatten_cons, List.length_append]
          omega

/-- What a cut leaves of a sequence of blocks. -/
theorem take_flatten (blocks : List (List α)) {k : Nat} (next : k < blocks.length) (j : Nat)
    (within : j ≤ blocks[k].length) :
    blocks.flatten.take ((blocks.take k).flatten.length + j) = (blocks.take k).flatten ++
      blocks[k].take j := by
  have split : blocks.flatten = (blocks.take k).flatten ++
      (blocks[k] ++ (blocks.drop (k + 1)).flatten) := by
    rw [← List.flatten_cons, List.getElem_cons_drop, ← List.flatten_append, List.take_append_drop]
  rw [split, List.take_length_add_append, List.take_append_of_le_length within]

theorem take_flatten_boundary (blocks : List (List α)) (k : Nat) :
    blocks.flatten.take (blocks.take k).flatten.length = (blocks.take k).flatten := by
  have split : blocks.flatten = (blocks.take k).flatten ++ (blocks.drop k).flatten := by
    rw [← List.flatten_append, List.take_append_drop]
  rw [split, List.take_left]

/-- Later boundaries lie further on. -/
theorem boundary_mono (blocks : List (List α)) {k m : Nat} (before : k ≤ m) :
    (blocks.take k).flatten.length ≤ (blocks.take m).flatten.length := by
  have front : blocks.take k = (blocks.take m).take k := by
    rw [List.take_take, Nat.min_eq_left before]
  rw [front]
  conv_rhs => rw [← List.take_append_drop k (blocks.take m), List.flatten_append,
    List.length_append]
  exact Nat.le_add_right _ _

theorem boundary_succ (blocks : List (List α)) {k : Nat} (next : k < blocks.length) :
    (blocks.take (k + 1)).flatten.length = (blocks.take k).flatten.length + blocks[k].length := by
  rw [List.take_succ_eq_append_getElem next, List.flatten_append, List.length_append,
    List.flatten_singleton]

/-- A cut inside a block is at no boundary. -/
theorem ne_boundary_of_inside (blocks : List (List α)) {k : Nat} (next : k < blocks.length)
    {j : Nat} (pos : 0 < j) (inside : j < blocks[k].length) (m : Nat) :
    (blocks.take k).flatten.length + j ≠ (blocks.take m).flatten.length := by
  rcases Nat.lt_or_ge k m with after | upTo
  · have further := boundary_mono blocks (Nat.succ_le_of_lt after)
    rw [Nat.succ_eq_add_one, boundary_succ blocks next] at further
    omega
  · have nearer := boundary_mono blocks upTo
    omega

end

end BscMempool.Codec
