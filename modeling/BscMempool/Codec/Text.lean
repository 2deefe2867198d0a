/-
Module: BscMempool.Codec.Text
Layer: Codec
Purpose: The lines of a text, and numbers as text: decimal numerals and their parser, hexadecimal
  numerals of fixed width, decimal fractions with a fixed number of places, and the characters all
  of these are made of.
Trusted boundary: none
Main exports: lines, decimal, parseUnsigned, parseUnsigned_decimal, hexDigits, hexDigits_inj,
  FloatFormat, isWordChar
-/
import BscMempool.Numeric.Rounding
import Mathlib.Data.Nat.Digits.Lemmas

namespace BscMempool.Codec

open Numeric (roundHalfEven)

/-! ### Characters of words -/

/-- Letters, digits and the marks that occur in names and numerals. -/
def isWordChar (c : Char) : Bool := c.isAlphanum || c == '_' || c == '-' || c == '.'

def IsWord (s : List Char) : Prop := ∀ c ∈ s, isWordChar c = true

instance (s : List Char) : Decidable (IsWord s) :=
  List.decidableBAll (fun c => isWordChar c = true) s

theorem isWordChar_of_isDigit {c : Char} (digit : c.isDigit = true) : isWordChar c = true := by
  simp [isWordChar, Char.isAlphanum, digit]

theorem IsWord.append {s t : List Char} (left : IsWord s) (right : IsWord t) : IsWord (s ++ t) := by
  intro c member
  rcases List.mem_append.mp member with inLeft | inRight
  · exact left c inLeft
  · exact right c inRight

/-! ### Lines -/

/-- A carriage return at the end of a line belongs to the line break. -/
def chomp (s : List Char) : List Char := if s.getLast? = some '\r' then s.dropLast else s

/-- The lines of a text, with the part of the first one that was read already.  The last line may
lack its line feed. -/
def linesFrom : List Char → List Char → List (List Char)
  | [], [] => []
  | current, [] => [current]
  | current, c :: rest =>
      if c = '\n' then chomp current :: linesFrom [] rest else linesFrom (current ++ [c]) rest

def lines (text : List Char) : List (List Char) := linesFrom [] text

/-- A line feed ends a line. -/
theorem linesFrom_append {l : List Char} (one : '\n' ∉ l) (current rest : List Char) :
    linesFrom current (l ++ '\n' :: rest) = chomp (current ++ l) :: lines rest := by
  induction l generalizing current with
  | nil => simp [linesFrom, lines]
  | cons c l ih =>
      rw [List.mem_cons, not_or] at one
      simp [linesFrom, Ne.symm one.1, ih one.2]

theorem lines_cons {l : List Char} (one : '\n' ∉ l) (rest : List Char) :
    lines (l ++ '\n' :: rest) = chomp l :: lines rest :=
  linesFrom_append one [] rest

/-- The lines before a line feed and those behind it. -/
theorem lines_append (text rest : List Char) :
    lines (text ++ '\n' :: rest) = lines (text ++ ['\n']) ++ lines rest := by
  have general : ∀ current, linesFrom current (text ++ '\n' :: rest) =
      linesFrom current (text ++ ['\n']) ++ lines rest := by
    induction text with
    | nil => simp [linesFrom, lines]
    | cons c text ih =>
        intro current
        by_cases lineFeed : c = '\n'
        · simp [linesFrom, lineFeed, ih]
        · simp [linesFrom, lineFeed, ih]
  exact general []

theorem mem_of_mem_chomp {c : Char} {s : List Char} (member : c ∈ chomp s) : c ∈ s := by
  unfold chomp at member
  split at member
  · exact List.mem_of_mem_dropLast member
  · exact member

/-- A line whose end has no carriage return stays as it is. -/
theorem chomp_append {back : List Char} (some_ : back ≠ []) (clean : '\r' ∉ back)
    (front : List Char) :
    chomp (front ++ back) = front ++ back := by
  have last : (front ++ back).getLast? ≠ some '\r' := by
    intro carriageReturn
    rw [List.getLast?_append_of_ne_nil _ some_] at carriageReturn
    exact clean (List.mem_of_getLast? carriageReturn)
  rw [chomp, if_neg last]

/-- The first line of a text that starts with `body` and a line feed. -/
theorem exists_first_line (body rest : List Char) :
    ∃ first more, lines (body ++ '\n' :: rest) = first :: more ∧
      ('\n' ∉ body → first = chomp body ∧ more = lines rest) ∧ '\n' ∉ first := by
  by_cases broken : '\n' ∈ body
  · rcases List.eq_append_cons_of_mem broken with ⟨front, back, split, one⟩
    have whole : body ++ '\n' :: rest = front ++ '\n' :: (back ++ '\n' :: rest) := by simp [split]
    rw [whole, lines_cons one]
    exact ⟨_, _, rfl, absurd broken, fun member => one (mem_of_mem_chomp member)⟩
  · rw [lines_cons broken]
    exact ⟨_, _, rfl, fun _ => ⟨rfl, rfl⟩, fun member => broken (mem_of_mem_chomp member)⟩

/-! ### Decimal numerals -/

def decimal (n : Nat) : List Char := Nat.toDigits 10 n

def decimalInt (n : Int) : List Char := if n < 0 then '-' :: decimal n.natAbs else decimal n.natAbs

theorem isDigit_decimal {n : Nat} {c : Char} (member : c ∈ decimal n) : c.isDigit = true :=
  Nat.isDigit_of_mem_toDigits (by decide) (by decide) member

theorem isWord_decimal (n : Nat) : IsWord (decimal n) :=
  fun _ member => isWordChar_of_isDigit (isDigit_decimal member)

theorem isWord_decimalInt (n : Int) : IsWord (decimalInt n) := by
  unfold decimalInt
  split
  · exact IsWord.append (s := ['-']) (by decide) (isWord_decimal _)
  · exact isWord_decimal _

/-- Read an unsigned numeral below `bound`: digits, perhaps with a plus sign before them. -/
def parseUnsigned (bound : Nat) (s : List Char) : Option Nat :=
  let digits := match s with
    | '+' :: rest => rest
    | s => s
  if digits ≠ [] ∧ digits.all Char.isDigit = true ∧ Nat.ofDigitChars 10 digits 0 < bound then
    some (Nat.ofDigitChars 10 digits 0)
  else none

/-- A numeral is read back unless it is too large. -/
theorem parseUnsigned_decimal (bound n : Nat) :
    parseUnsigned bound (decimal n) = if n < bound then some n else none := by
  have noSign : ∀ rest, decimal n ≠ '+' :: rest := by
    intro rest signed
    have digit : ('+' : Char).isDigit = true :=
      isDigit_decimal (n := n) (by rw [signed]; exact List.mem_cons_self)
    exact absurd digit (by decide)
  have allDigits : (decimal n).all Char.isDigit = true :=
    List.all_eq_true.mpr fun _ member => isDigit_decimal member
  have value : Nat.ofDigitChars 10 (decimal n) 0 = n := Nat.ofDigitChars_ten_toDigits
  have notEmpty : decimal n ≠ [] := Nat.toDigits_ne_nil
  unfold parseUnsigned
  split
  · rename_i rest signed
    exact absurd signed (noSign rest)
  · simp [allDigits, value, notEmpty]

/-- With zero for what cannot be read, only what lies between zero and the bound
reads as something. -/
theorem parseUnsigned_ne_zero (bound n : Nat) : (parseUnsigned bound (decimal n)).getD 0 ≠ 0 ↔
    0 < n ∧ n < bound := by
  rw [parseUnsigned_decimal]
  by_cases small : n < bound
  · simp [small, Nat.pos_iff_ne_zero]
  · simp [small]

/-! ### Hexadecimal numerals -/

/-- The `k` low hexadecimal digits, highest first, in lower case. -/
def hexDigits : Nat → Nat → List Char
  | 0, _ => []
  | k + 1, n => hexDigits k (n / 16) ++ [Nat.digitChar (n % 16)]

/-- `{:#x}` of a word of `k` digits. -/
def hex (k n : Nat) : List Char := '0' :: 'x' :: hexDigits k n

@[simp] theorem length_hexDigits (k n : Nat) : (hexDigits k n).length = k := by
  induction k generalizing n with
  | zero => rfl
  | succ k ih => simp [hexDigits, ih]

@[simp] theorem length_hex (k n : Nat) : (hex k n).length = k + 2 := by simp [hex]

/-- What holds of the sixteen digits holds of every character of a numeral. -/
theorem forall_mem_hexDigits {p : Char → Prop} (digits : ∀ d < 16, p (Nat.digitChar d))
    (k n : Nat) :
    ∀ c ∈ hexDigits k n, p c := by
  induction k generalizing n with
  | zero => simp [hexDigits]
  | succ k ih =>
      intro c member
      rw [hexDigits, List.mem_append, List.mem_singleton] at member
      rcases member with front | last
      · exact ih _ c front
      · rw [last]
        exact digits _ (Nat.mod_lt _ (by decide))

theorem isWord_hex (k n : Nat) : IsWord (hex k n) := by
  apply IsWord.append (s := ['0', 'x']) (by decide)
  exact forall_mem_hexDigits (by decide) k n

/-- Lower case stays as it is. -/
theorem map_toLower_hex (k n : Nat) : (hex k n).map Char.toLower = hex k n := by
  have digits := forall_mem_hexDigits (p := fun c => c.toLower = c) (by decide) k n
  rw [hex, List.map_cons, List.map_cons, List.map_congr_left digits, List.map_id']
  rfl

theorem hexDigits_inj {k n m : Nat} (low : n < 16 ^ k) (low' : m < 16 ^ k)
    (same : hexDigits k n = hexDigits k m) : n = m := by
  induction k generalizing n m with
  | zero => omega
  | succ k ih =>
      rw [hexDigits, hexDigits] at same
      have front := List.append_inj_left' same rfl
      have last := List.append_inj_right' same rfl
      have high : n / 16 = m / 16 := ih (by omega) (by omega) front
      have digitInj : ∀ d < 16, ∀ e < 16, Nat.digitChar d = Nat.digitChar e → d = e := by decide
      have lowDigit : n % 16 = m % 16 :=
        digitInj _ (Nat.mod_lt _ (by decide)) _ (Nat.mod_lt _ (by decide)) (by simpa using last)
      omega

theorem hex_inj {k n m : Nat} (low : n < 16 ^ k) (low' : m < 16 ^ k) (same : hex k n = hex k m) :
    n = m := by
  apply hexDigits_inj low low'
  simpa [hex] using same

/-! ### Decimal fractions -/

/-- The low `k` decimal digits, highest first. -/
def lowDigits : Nat → Nat → List Char
  | 0, _ => []
  | k + 1, n => lowDigits k (n / 10) ++ [Nat.digitChar (n % 10)]

theorem isWord_lowDigits (k n : Nat) : IsWord (lowDigits k n) := by
  induction k generalizing n with
  | zero => simp [lowDigits, IsWord]
  | succ k ih =>
      have digits : ∀ d < 10, IsWord [Nat.digitChar d] := by decide
      exact IsWord.append (ih _) (digits _ (Nat.mod_lt _ (by decide)))

/-- `{:.places}` of an exact value. -/
def fixedPoint (places : Nat) (x : ℚ) : List Char :=
  let scaled := (roundHalfEven (|x| * 10 ^ places)).toNat
  (if x < 0 then ['-'] else []) ++ decimal (scaled / 10 ^ places) ++
    (if places = 0 then [] else '.' :: lowDigits places scaled)

theorem isWord_fixedPoint (places : Nat) (x : ℚ) : IsWord (fixedPoint places x) := by
  have sign : IsWord (if x < 0 then ['-'] else []) := by
    split
    · decide
    · decide
  have fraction : ∀ n, IsWord (if places = 0 then [] else '.' :: lowDigits places n) := by
    intro n
    split
    · decide
    · exact IsWord.append (s := ['.']) (by decide) (isWord_lowDigits _ _)
  exact IsWord.append (IsWord.append sign (isWord_decimal _)) (fraction _)

/-- How `{:.places}` writes an `f64`.  The value that is printed may differ from the exact one by
the rounding of the arithmetic before it, and may be `NaN` or `inf`; all that is relied on is what
the text is made of. -/
structure FloatFormat where
  fixed : Nat → ℚ → List Char
  word : ∀ places x, IsWord (fixed places x)

/-- Without rounding before. -/
def FloatFormat.exact : FloatFormat := ⟨fixedPoint, isWord_fixedPoint⟩

example : String.ofList (fixedPoint 2 (-1234565 / 1000)) = "-1234.56" := by decide +kernel

end BscMempool.Codec
