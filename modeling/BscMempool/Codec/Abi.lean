/-
Module: BscMempool.Codec.Abi
Layer: Codec
Purpose: The contract ABI: a format for each type, built from those of its parts.  A static value
  stands where it is declared; a dynamic one is replaced there by an offset word, counted from the
  start of the enclosing tuple or array, and stands after all declared places.  A format carries the
  proof that decoding follows its encoding back wherever it stands.
Trusted boundary: none
Main exports: At, Format, Fields, uint256, address, bool, bytes, array, tuple
-/
import BscMempool.Codec.Bytes

namespace BscMempool.Codec

/-! ### Byte strings at a position -/

/-- The byte string `b` stands in `s` at `pos`. -/
def At (s : List UInt8) (pos : Nat) (b : List UInt8) : Prop := ∃ rest, s.drop pos = b ++ rest

theorem At.start (b rest : List UInt8) : At (b ++ rest) 0 b := ⟨rest, rfl⟩

theorem At.self (b : List UInt8) : At b 0 b := ⟨[], by simp⟩

@[simp] theorem at_nil (s : List UInt8) (pos : Nat) : At s pos [] := ⟨s.drop pos, rfl⟩

@[simp] theorem at_append {s : List UInt8} {pos : Nat} {a b : List UInt8} :
    At s pos (a ++ b) ↔ At s pos a ∧ At s (pos + a.length) b := by
  constructor
  · rintro ⟨rest, found⟩
    refine ⟨⟨b ++ rest, by rw [found, List.append_assoc]⟩, rest, ?_⟩
    rw [← List.drop_drop, found, List.append_assoc, List.drop_left]
  · rintro ⟨⟨rest, found⟩, rest', after⟩
    rw [← List.drop_drop, found, List.drop_left] at after
    exact ⟨rest', by rw [found, after, List.append_assoc]⟩

/-- Positions within what stands at `base`. -/
theorem at_drop {s : List UInt8} {base pos : Nat} {b : List UInt8} :
    At (s.drop base) pos b ↔ At s (base + pos) b := by
  simp only [At, List.drop_drop]

/-- What stands after a prefix. -/
theorem At.after {a s b : List UInt8} {pos : Nat} (found : At s pos b) :
    At (a ++ s) (a.length + pos) b := by
  obtain ⟨rest, split⟩ := found
  refine ⟨rest, ?_⟩
  rw [List.drop_append, List.drop_eq_nil_of_le (Nat.le_add_right _ _), Nat.add_sub_cancel_left,
    List.nil_append, split]

theorem at_after_iff {a s b : List UInt8} {pos : Nat} :
    At (a ++ s) (a.length + pos) b ↔ At s pos b := by
  rw [← at_drop, List.drop_left]

theorem at_iff_take {s b : List UInt8} {pos : Nat} :
    At s pos b ↔ (s.drop pos).take b.length = b := by
  constructor
  · rintro ⟨rest, split⟩
    rw [split, List.take_left]
  · intro same
    refine ⟨(s.drop pos).drop b.length, ?_⟩
    conv_lhs => rw [← List.take_append_drop b.length (s.drop pos), same]

theorem At.readExact {s b : List UInt8} {pos : Nat} (found : At s pos b) {n : Nat}
    (length : b.length = n) :
    ∃ rest, readExact n (s.drop pos) = some (b, rest) := by
  obtain ⟨rest, split⟩ := found
  exact ⟨rest, by rw [split, readExact_of_length length]⟩

/-- Two strings of one length at one position are the same. -/
theorem At.unique {s a b : List UInt8} {pos : Nat} (first : At s pos a) (second : At s pos b)
    (length : a.length = b.length) : a = b := by
  obtain ⟨rest, split⟩ := first
  obtain ⟨rest', split'⟩ := second
  exact (List.append_inj (split.symm.trans split') length).1

theorem At.le_length {s b : List UInt8} {pos : Nat} (found : At s pos b) (some : b ≠ []) :
    pos + b.length ≤ s.length := by
  obtain ⟨rest, split⟩ := found
  have lengths := congrArg List.length split
  rw [List.length_drop, List.length_append] at lengths
  have pos := List.length_pos_iff.mpr some
  omega

namespace Abi

/-! ### Words -/

/-- A 32-byte word. -/
def word (n : Nat) : List UInt8 := beBytes 32 n

@[simp] theorem length_word (n : Nat) : (word n).length = 32 := length_beBytes 32 n

/-- The word at a position. -/
def readWord (s : List UInt8) (pos : Nat) : Option Nat :=
  (readExact 32 (s.drop pos)).map fun read => ofBeBytes read.1

theorem readWord_of_at {s : List UInt8} {pos n : Nat} (found : At s pos (word n))
    (fits : n < 2 ^ 256) :
    readWord s pos = some n := by
  obtain ⟨rest, read⟩ := found.readExact (length_word n)
  have small : n < 256 ^ 32 := fits
  rw [readWord, read, Option.map_some, word, ofBeBytes_beBytes_of_lt small]

theorem at_of_readWord {s : List UInt8} {pos n : Nat} (read : readWord s pos = some n) :
    At s pos (word n) := by
  obtain ⟨⟨b, rest⟩, found, value⟩ := Option.map_eq_some_iff.mp read
  obtain ⟨split, length⟩ := readExact_eq_some found
  refine ⟨rest, ?_⟩
  rw [split, word, ← value, ← length, beBytes_ofBeBytes]

theorem readWord_lt {s : List UInt8} {pos n : Nat} (read : readWord s pos = some n) :
    n < 2 ^ 256 := by
  obtain ⟨⟨b, rest⟩, found, rfl⟩ := Option.map_eq_some_iff.mp read
  obtain ⟨-, length⟩ := readExact_eq_some found
  have bound := ofBeBytes_lt b
  rwa [length] at bound

theorem readWord_eq_some_iff {s : List UInt8} {pos n : Nat} :
    readWord s pos = some n ↔ At s pos (word n) ∧ n < 2 ^ 256 := by
  constructor
  · intro read
    exact ⟨at_of_readWord read, readWord_lt read⟩
  · rintro ⟨found, fits⟩
    exact readWord_of_at found fits

/-- Words behind a prefix. -/
theorem readWord_drop (s : List UInt8) (base pos : Nat) :
    readWord (s.drop base) pos = readWord s (base + pos) := by
  rw [readWord, readWord, List.drop_drop]

/-- There is a word wherever there are 32 bytes. -/
theorem exists_readWord {s : List UInt8} {pos : Nat} (within : pos + 32 ≤ s.length) :
    ∃ n, readWord s pos = some n := by
  have enough : 32 ≤ (s.drop pos).length := by
    rw [List.length_drop]
    omega
  refine ⟨ofBeBytes ((s.drop pos).take 32), ?_⟩
  rw [readWord, readExact, if_pos enough]
  rfl

/-- Offsets and lengths are below `2 ^ 64`. -/
def readSize (s : List UInt8) (pos : Nat) : Option Nat :=
  (readWord s pos).filter fun n => decide (n < 2 ^ 64)

theorem readSize_eq_some_iff {s : List UInt8} {pos n : Nat} :
    readSize s pos = some n ↔ At s pos (word n) ∧ n < 2 ^ 64 := by
  rw [readSize, Option.filter_eq_some_iff, readWord_eq_some_iff, decide_eq_true_iff]
  constructor
  · rintro ⟨⟨found, -⟩, small⟩
    exact ⟨found, small⟩
  · rintro ⟨found, small⟩
    exact ⟨⟨found, small.trans (by decide)⟩, small⟩

/-! ### Formats -/

/-- How the values of one type are encoded and decoded. `decode` reads from
where the value stands. -/
structure Format (α : Type) where
  dynamic : Bool
  /-- Bytes of a static value. -/
  size : Nat
  encode : α → List UInt8
  decode : List UInt8 → Option α
  /-- The value's lengths and offsets are below `2 ^ 64`. -/
  fits : α → Prop
  static : dynamic = false → ∀ x, (encode x).length = size
  decodes : ∀ x s, fits x → At s 0 (encode x) → decode s = some x

/-- Values one after the other in a tuple: their declared places and, from a given offset on, what
    stands after these. -/
structure Fields (α : Type) where
  dynamic : Bool
  /-- Bytes of the declared places. -/
  size : Nat
  heads : Nat → α → List UInt8
  tails : α → List UInt8
  /-- Decode from the declared places at a position of the tuple. -/
  decode : List UInt8 → Nat → Option α
  fits : Nat → α → Prop
  length_heads : ∀ o x, (heads o x).length = size
  static : dynamic = false → ∀ x, tails x = []
  decodes : ∀ s pos o x, fits o x → At s pos (heads o x) → At s o (tails x) → decode s pos = some x

namespace Format

variable {α : Type} (c : Format α)

/-- Bytes of a value's declared place. -/
def slot : Nat := if c.dynamic then 32 else c.size

/-- What stands in the declared place; a dynamic value's encoding stands at offset `o`. -/
def head (o : Nat) (x : α) : List UInt8 := if c.dynamic then word o else c.encode x

def tail (x : α) : List UInt8 := if c.dynamic then c.encode x else []

/-- Decode the value whose declared place is at a position of a tuple. -/
def readAt (s : List UInt8) (pos : Nat) : Option α :=
  if c.dynamic then (readSize s pos).bind fun o => c.decode (s.drop o) else c.decode (s.drop pos)

@[simp] theorem length_head (o : Nat) (x : α) : (c.head o x).length = c.slot := by
  unfold head slot
  cases kind : c.dynamic with
  | true => simp
  | false => simpa using c.static kind x

theorem readAt_of_at {s : List UInt8} {pos o : Nat} {x : α} (offset : c.dynamic = true → o < 2 ^ 64)
    (fits : c.fits x) (head : At s pos (c.head o x)) (tail : At s o (c.tail x)) :
    c.readAt s pos = some x := by
  cases kind : c.dynamic with
  | true =>
      simp only [Format.head, Format.tail, kind, if_true] at head tail
      have read := readSize_eq_some_iff.mpr ⟨head, offset kind⟩
      simp only [readAt, kind, if_true, read, Option.bind_some]
      exact c.decodes x _ fits (at_drop.mpr tail)
  | false =>
      simp only [Format.head, kind, Bool.false_eq_true, if_false] at head
      simp only [readAt, kind, Bool.false_eq_true, if_false]
      exact c.decodes x _ fits (at_drop.mpr head)

/-! ### Arrays -/

/-- Declared places of an array's elements, the first dynamic element standing at `o`. -/
def elemHeads : Nat → List α → List UInt8
  | _, [] => []
  | o, x :: xs => c.head o x ++ elemHeads (o + (c.tail x).length) xs

def elemTails (xs : List α) : List UInt8 := (xs.map c.tail).flatten

/-- Decode `n` elements, the first declared at `pos`. -/
def readElems (s : List UInt8) : Nat → Nat → Option (List α)
  | 0, _ => some []
  | n + 1, pos => (c.readAt s pos).bind fun x => (readElems s n (pos + c.slot)).map (x :: ·)

/-- Offsets of the dynamic elements are below `2 ^ 64`. -/
def FitElems : Nat → List α → Prop
  | _, [] => True
  | o, x :: xs => (c.dynamic = true → o < 2 ^ 64) ∧ c.fits x ∧ FitElems (o + (c.tail x).length) xs

@[simp] theorem length_elemHeads (o : Nat) (xs : List α) :
    (c.elemHeads o xs).length = c.slot * xs.length := by
  induction xs generalizing o with
  | nil => simp [elemHeads]
  | cons x xs ih => simp [elemHeads, ih, Nat.mul_add, Nat.add_comm]

theorem readElems_of_at {s : List UInt8} {pos o : Nat} {xs : List α} (fit : c.FitElems o xs)
    (heads : At s pos (c.elemHeads o xs)) (tails : At s o (c.elemTails xs)) :
    c.readElems s xs.length pos = some xs := by
  induction xs generalizing pos o with
  | nil => rfl
  | cons x xs ih =>
      obtain ⟨offset, fits, fitRest⟩ := fit
      simp only [elemHeads, at_append, length_head] at heads
      simp only [elemTails, List.map_cons, List.flatten_cons, at_append] at tails
      have first := c.readAt_of_at offset fits heads.1 tails.1
      have rest := ih fitRest heads.2 tails.2
      simp only [List.length_cons, readElems, first, rest, Option.bind_some, Option.map_some]

end Format

/-! ### The types -/

section
variable {α β : Type}

def uint256 : Format (BitVec 256) where
  dynamic := false
  size := 32
  encode x := word x.toNat
  decode s := (readWord s 0).map (BitVec.ofNat 256)
  fits _ := True
  static _ x := length_word _
  decodes x s _ found := by
    rw [readWord_of_at found x.isLt, Option.map_some, BitVec.ofNat_toNat, BitVec.setWidth_eq]

/-- Higher bits of an address word are zero. -/
def address : Format (BitVec 160) where
  dynamic := false
  size := 32
  encode x := word x.toNat
  decode s := ((readWord s 0).filter fun n => decide (n < 2 ^ 160)).map (BitVec.ofNat 160)
  fits _ := True
  static _ x := length_word _
  decodes x s _ found := by
    have small : x.toNat < 2 ^ 256 := x.isLt.trans (by decide)
    rw [readWord_of_at found small, Option.filter_some, if_pos (decide_eq_true x.isLt),
      Option.map_some,
      BitVec.ofNat_toNat, BitVec.setWidth_eq]

/-- Higher bits of the word of a shorter number are zero. -/
def uint (bits : Nat) (short : bits ≤ 256) : Format (BitVec bits) where
  dynamic := false
  size := 32
  encode x := word x.toNat
  decode s := ((readWord s 0).filter fun n => decide (n < 2 ^ bits)).map (BitVec.ofNat bits)
  fits _ := True
  static _ x := length_word _
  decodes x s _ found := by
    have small : x.toNat < 2 ^ 256 := x.isLt.trans_le (Nat.pow_le_pow_right (by decide) short)
    rw [readWord_of_at found small, Option.filter_some, if_pos (decide_eq_true x.isLt),
      Option.map_some,
      BitVec.ofNat_toNat, BitVec.setWidth_eq]

/-- A flag is zero or one. -/
def bool : Format Bool where
  dynamic := false
  size := 32
  encode x := word x.toNat
  decode s := (readWord s 0).bind fun n => if n = 0 then some false else if n = 1 then some true
    else none
  fits _ := True
  static _ x := length_word _
  decodes x s _ found := by
    have small : x.toNat < 2 ^ 256 := lt_of_lt_of_le x.toNat_lt (by decide)
    rw [readWord_of_at found small, Option.bind_some]
    cases x <;> rfl

/-- Zero bytes up to a whole number of words. -/
def padding (n : Nat) : List UInt8 := List.replicate ((32 - n % 32) % 32) 0

def bytes : Format (List UInt8) where
  dynamic := true
  size := 0
  encode x := word x.length ++ (x ++ padding x.length)
  decode s := (readSize s 0).bind fun n => (readExact n (s.drop 32)).map Prod.fst
  fits x := x.length < 2 ^ 64
  static kind := nomatch kind
  decodes x s fits found := by
    simp only [at_append, length_word, Nat.zero_add] at found
    obtain ⟨length, content, -⟩ := found
    obtain ⟨rest, read⟩ := content.readExact rfl
    rw [readSize_eq_some_iff.mpr ⟨length, fits⟩, Option.bind_some, read]
    rfl

/-- A dynamic array: its length, then its elements. -/
def array (c : Format α) : Format (List α) where
  dynamic := true
  size := 0
  encode xs := word xs.length ++ (c.elemHeads (c.slot * xs.length) xs ++ c.elemTails xs)
  decode s := (readSize s 0).bind fun n => c.readElems (s.drop 32) n 0
  fits xs := xs.length < 2 ^ 64 ∧ c.FitElems (c.slot * xs.length) xs
  static kind := nomatch kind
  decodes xs s fits found := by
    simp only [at_append, length_word, Nat.zero_add, Format.length_elemHeads] at found
    obtain ⟨length, heads, tails⟩ := found
    rw [readSize_eq_some_iff.mpr ⟨length, fits.1⟩, Option.bind_some]
    exact c.readElems_of_at fits.2 (at_drop.mpr heads) (at_drop.mpr tails)

namespace Fields

def nil : Fields Unit where
  dynamic := false
  size := 0
  heads _ _ := []
  tails _ := []
  decode _ _ := some ()
  fits _ _ := True
  length_heads _ _ := rfl
  static _ _ := rfl
  decodes _ _ _ _ _ _ _ := rfl

def cons (c : Format α) (f : Fields β) : Fields (α × β) where
  dynamic := c.dynamic || f.dynamic
  size := c.slot + f.size
  heads o x := c.head o x.1 ++ f.heads (o + (c.tail x.1).length) x.2
  tails x := c.tail x.1 ++ f.tails x.2
  decode s pos := (c.readAt s pos).bind fun x => (f.decode s (pos + c.slot)).map (x, ·)
  fits o x := (c.dynamic = true → o < 2 ^ 64) ∧ c.fits x.1 ∧ f.fits (o + (c.tail x.1).length) x.2
  length_heads o x := by rw [List.length_append, Format.length_head, f.length_heads]
  static kind x := by
    rw [Bool.or_eq_false_iff] at kind
    simp [Format.tail, kind.1, f.static kind.2]
  decodes s pos o x fits heads tails := by
    obtain ⟨offset, first, rest⟩ := fits
    simp only [at_append, Format.length_head] at heads tails
    rw [c.readAt_of_at offset first heads.1 tails.1, Option.bind_some,
      f.decodes _ _ _ _ rest heads.2 tails.2]
    rfl

end Fields

def tuple (f : Fields α) : Format α where
  dynamic := f.dynamic
  size := f.size
  encode x := f.heads f.size x ++ f.tails x
  decode s := f.decode s 0
  fits x := f.fits f.size x
  static kind x := by rw [f.static kind, List.append_nil, f.length_heads]
  decodes x s fits found := by
    rw [at_append, f.length_heads, Nat.zero_add] at found
    exact f.decodes s 0 f.size x fits found.1 found.2

end

/-! ### Arrays of static values -/

section
variable {α : Type} (c : Format α) (static : c.dynamic = false)
include static

/-- The elements of an array of static values stand one after the other. -/
theorem elemHeads_static (o : Nat) (xs : List α) : c.elemHeads o xs = xs.flatMap c.encode := by
  induction xs generalizing o with
  | nil => rfl
  | cons x xs ih => simp [Format.elemHeads, Format.head, static, ih]

theorem elemTails_static (xs : List α) : c.elemTails xs = [] := by
  simp [Format.elemTails, Format.tail, static]

theorem fitElems_static (fits : ∀ x, c.fits x) (o : Nat) (xs : List α) : c.FitElems o xs := by
  induction xs generalizing o with
  | nil => trivial
  | cons x xs ih => exact ⟨by simp [static], fits x, ih _⟩

theorem array_encode_static (xs : List α) :
    (array c).encode xs = word xs.length ++ xs.flatMap c.encode := by
  simp [array, elemHeads_static c static, elemTails_static c static]

end

/-! ### What is decoded

What must stand where for a decoder to yield a value; the values need not stand where the encoding
puts them. -/

/-- One word stands at a position. -/
theorem at_word_unique {s : List UInt8} {pos a b : Nat} (first : At s pos (word a))
    (second : At s pos (word b)) (aFits : a < 2 ^ 256) (bFits : b < 2 ^ 256) : a = b := by
  have one := readWord_of_at first aFits
  rw [readWord_of_at second bFits] at one
  exact (Option.some.inj one).symm

theorem decode_address_iff {s : List UInt8} {a : BitVec 160} :
    address.decode s = some a ↔ At s 0 (word a.toNat) := by
  constructor
  · intro decoded
    obtain ⟨n, read, rfl⟩ := Option.map_eq_some_iff.mp decoded
    obtain ⟨found, small⟩ := Option.filter_eq_some_iff.mp read
    have exact_ : (BitVec.ofNat 160 n).toNat = n :=
      BitVec.toNat_ofNat n 160 ▸ Nat.mod_eq_of_lt (of_decide_eq_true small)
    rw [exact_]
    exact at_of_readWord found
  · exact address.decodes a s trivial

theorem decode_bool_iff {s : List UInt8} {b : Bool} :
    bool.decode s = some b ↔ At s 0 (word b.toNat) := by
  constructor
  · intro decoded
    obtain ⟨n, read, value⟩ := Option.bind_eq_some_iff.mp decoded
    have flag : n = b.toNat := by
      by_cases zero : n = 0
      · rw [if_pos zero] at value
        cases value
        exact zero
      · by_cases one : n = 1
        · rw [if_neg zero, if_pos one] at value
          cases value
          exact one
        · rw [if_neg zero, if_neg one] at value
          cases value
    rw [← flag]
    exact at_of_readWord read
  · exact bool.decodes b s trivial

theorem decode_bytes_iff {s b : List UInt8} :
    bytes.decode s = some b ↔ b.length < 2 ^ 64 ∧ At s 0 (word b.length) ∧ At s 32 b := by
  constructor
  · intro decoded
    obtain ⟨n, size, read⟩ := Option.bind_eq_some_iff.mp decoded
    obtain ⟨⟨b', rest⟩, taken, rfl⟩ := Option.map_eq_some_iff.mp read
    obtain ⟨split, length⟩ := readExact_eq_some taken
    obtain ⟨found, small⟩ := readSize_eq_some_iff.mp size
    subst length
    exact ⟨small, found, rest, split⟩
  · rintro ⟨small, length, content⟩
    obtain ⟨rest, read⟩ := content.readExact rfl
    have size := readSize_eq_some_iff.mpr ⟨length, small⟩
    simp only [bytes, size, Option.bind_some, read, Option.map_some]

namespace Format

variable {α : Type} (c : Format α)

theorem readAt_static (static : c.dynamic = false) (s : List UInt8) (pos : Nat) :
    c.readAt s pos = c.decode (s.drop pos) := by
  simp [readAt, static]

theorem readAt_dynamic_iff (dynamic : c.dynamic = true) {s : List UInt8} {pos : Nat} {x : α} :
    c.readAt s pos = some x ↔ ∃ o, o < 2 ^ 64 ∧ At s pos (word o) ∧
    c.decode (s.drop o) = some x := by
  simp only [readAt, dynamic, if_true, Option.bind_eq_some_iff, readSize_eq_some_iff]
  constructor
  · rintro ⟨o, ⟨found, small⟩, decoded⟩
    exact ⟨o, small, found, decoded⟩
  · rintro ⟨o, small, found, decoded⟩
    exact ⟨o, ⟨found, small⟩, decoded⟩

theorem readAt_uint256_iff {s : List UInt8} {pos : Nat} {x : BitVec 256} :
    uint256.readAt s pos = some x ↔ readWord s pos = some x.toNat := by
  rw [readAt_static uint256 rfl]
  simp only [uint256, readWord_drop, Nat.add_zero, Option.map_eq_some_iff]
  constructor
  · rintro ⟨n, read, rfl⟩
    rw [read, BitVec.toNat_ofNat, Nat.mod_eq_of_lt (readWord_lt read)]
  · intro read
    exact ⟨x.toNat, read, by rw [BitVec.ofNat_toNat, BitVec.setWidth_eq]⟩

theorem readAt_address_iff {s : List UInt8} {pos : Nat} {a : BitVec 160} :
    address.readAt s pos = some a ↔ readWord s pos = some a.toNat := by
  have small : a.toNat < 2 ^ 256 := a.isLt.trans (by decide)
  rw [readAt_static address rfl, decode_address_iff, at_drop, Nat.add_zero, readWord_eq_some_iff]
  simp only [small, and_true]

theorem readElems_iff {s : List UInt8} {n pos : Nat} {xs : List α} :
    c.readElems s n pos = some xs ↔
      xs.length = n ∧ ∀ i (there : i < xs.length), c.readAt s (pos + c.slot * i) = some xs[i] := by
  induction n generalizing pos xs with
  | zero =>
      simp only [readElems, Option.some.injEq, List.length_eq_zero_iff]
      constructor
      · rintro rfl
        exact ⟨rfl, fun i there => by simp at there⟩
      · rintro ⟨rfl, -⟩
        rfl
  | succ n ih =>
      simp only [readElems, Option.bind_eq_some_iff, Option.map_eq_some_iff, ih]
      constructor
      · rintro ⟨x, first, rest, ⟨length, others⟩, rfl⟩
        refine ⟨by simp [length], ?_⟩
        intro i there
        cases i with
        | zero => simpa using first
        | succ i =>
            have other := others i (by simpa using there)
            rw [List.getElem_cons_succ, ← other]
            congr 1
            rw [Nat.mul_succ]
            omega
      · rintro ⟨length, all⟩
        cases xs with
        | nil => simp at length
        | cons x rest =>
            have first := all 0 (by simp)
            rw [Nat.mul_zero, Nat.add_zero, List.getElem_cons_zero] at first
            refine ⟨x, first, rest, ⟨by simpa using length, ?_⟩, rfl⟩
            intro i there
            have other := all (i + 1) (by simpa using there)
            rw [List.getElem_cons_succ] at other
            rw [← other]
            congr 1
            rw [Nat.mul_succ]
            omega

end Format

section
variable {α β : Type}

theorem Fields.decode_cons_iff {c : Format α} {f : Fields β} {s : List UInt8} {pos : Nat} {x : α}
    {y : β} :
    (Fields.cons c f).decode s pos = some (x, y) ↔
    c.readAt s pos = some x ∧ f.decode s (pos + c.slot) = some y := by
  simp [Fields.cons, Option.bind_eq_some_iff]

/-- A single dynamic argument stands after its offset. -/
theorem encode_single {c : Format α} (dynamic : c.dynamic = true) (x : α) :
    (tuple (.cons c .nil)).encode (x, ()) = word 0x20 ++ c.encode x := by
  simp [tuple, Fields.cons, Fields.nil, Format.head, Format.tail, Format.slot, dynamic]

theorem decode_single_iff {c : Format α} (dynamic : c.dynamic = true) {s : List UInt8} {x : α} :
    (tuple (.cons c .nil)).decode s = some (x, ()) ↔
      ∃ o, o < 2 ^ 64 ∧ At s 0 (word o) ∧ c.decode (s.drop o) = some x := by
  have unfolded : (tuple (.cons c .nil)).decode s = some (x, ()) ↔ c.readAt s 0 = some x ∧
      Fields.nil.decode s (0 + c.slot) = some () := Fields.decode_cons_iff
  rw [unfolded, c.readAt_dynamic_iff dynamic]
  simp [Fields.nil]

theorem decode_array_iff {c : Format α} {s : List UInt8} {xs : List α} :
    (array c).decode s = some xs ↔ xs.length < 2 ^ 64 ∧ At s 0 (word xs.length) ∧
      ∀ i (there : i < xs.length), c.readAt (s.drop 32) (c.slot * i) = some xs[i] := by
  simp only [array, Option.bind_eq_some_iff, readSize_eq_some_iff, Format.readElems_iff,
    Nat.zero_add]
  constructor
  · rintro ⟨n, ⟨found, small⟩, rfl, all⟩
    exact ⟨small, found, all⟩
  · rintro ⟨small, found, all⟩
    exact ⟨xs.length, ⟨found, small⟩, rfl, all⟩

end

end Abi

end BscMempool.Codec
