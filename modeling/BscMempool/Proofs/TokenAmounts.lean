/-
Module: BscMempool.Proofs.TokenAmounts
Layer: Proofs
Purpose: The amounts of a token that are shown are its amounts, cut off after a few places: never
  more than there is, and less by less than one in the last place.
Trusted boundary: none
Main exports: shownValue, shownPlaces, amounts_are_cut_off
-/
import BscMempool.Codec.Decimal
import BscMempool.Watch.TokenResolver

namespace BscMempool.Watch

open Codec
open Dex (U256)

/-- The number that a shown amount stands for: commas count for nothing. -/
def shownValue (s : List Char) : ℚ :=
  (Nat.ofDigitChars 10 ((s.takeWhile (· != '.')).filter (· != ',')) 0 : ℚ) +
    fractionOf (s.dropWhile (· != '.')).tail

/-- How many places after the point are shown at most. -/
def shownPlaces (whole : Nat) : Nat :=
  if whole ≥ 1000000 then 0 else if whole ≥ 1000 then 1 else if whole ≥ 1 then 3 else 6

/-! ### Commas -/

/-- The text is one to three digits, and then a comma and three digits as often as it goes on. -/
def Grouped (s : List Char) : Prop :=
  ∃ (first : List Char) (groups : List (List Char)), s = first ++ groups.flatMap (',' :: ·) ∧
    (0 < first.length ∧ first.length ≤ 3 ∧ IsDigits first) ∧
    ∀ group ∈ groups, group.length = 3 ∧ IsDigits group

theorem not_special_of_digit {c : Char} (digit : c.isDigit = true) : c ≠ ',' ∧ c ≠ '.' := by
  constructor <;> rintro rfl <;> cases digit

theorem filter_thousandsFrom {s : List Char} (digits : IsDigits s) (first : Bool) :
    (thousandsFrom first s).filter (· != ',') = s := by
  induction s generalizing first with
  | nil => rfl
  | cons c rest ih =>
      have kept : (c != ',') = true :=
        bne_iff_ne.mpr (not_special_of_digit (digits c List.mem_cons_self)).1
      have later := ih (fun d member => digits d (List.mem_cons_of_mem _ member)) false
      rw [thousandsFrom, List.filter_append, later]
      split
      · simp [kept]
      · simp [kept]

theorem no_point_thousandsFrom {s : List Char} (digits : IsDigits s) (first : Bool) :
    '.' ∉ thousandsFrom first s := by
  induction s generalizing first with
  | nil => simp [thousandsFrom]
  | cons c rest ih =>
      have later := ih (fun d member => digits d (List.mem_cons_of_mem _ member)) false
      have digit := (not_special_of_digit (digits c List.mem_cons_self)).2
      rw [thousandsFrom]
      split
      · simp [later, Ne.symm digit]
      · simp [later, Ne.symm digit]

/-- What is left when whole groups are taken off the end is no group, and stands in front
of the first comma. -/
theorem groups_thousandsFrom {s : List Char} (digits : IsDigits s) :
    ∃ (first : List Char) (groups : List (List Char)),
      thousandsFrom false s = first ++ groups.flatMap (',' :: ·) ∧
      (first.length = s.length % 3 ∧ IsDigits first) ∧ ∀ group ∈ groups, group.length = 3 ∧
      IsDigits group := by
  induction s with
  | nil => exact ⟨[], [], rfl, ⟨rfl, List.forall_mem_nil _⟩, List.forall_mem_nil _⟩
  | cons c rest ih =>
      obtain ⟨digit, digits⟩ := List.forall_mem_cons.mp digits
      obtain ⟨first, groups, shown, ⟨size, firstDigits⟩, whole⟩ := ih digits
      have more : IsDigits (c :: first) := List.forall_mem_cons.mpr ⟨digit, firstDigits⟩
      rw [thousandsFrom, shown, List.length_cons]
      by_cases full : (rest.length + 1) % 3 = 0
      · -- the digit completes a group
        rw [if_pos ⟨rfl, full⟩]
        have size : (c :: first).length = 3 := by
          rw [List.length_cons, size]
          omega
        exact ⟨[], (c :: first) :: groups, by simp, ⟨full.symm, List.forall_mem_nil _⟩,
          List.forall_mem_cons.mpr ⟨⟨size, more⟩, whole⟩⟩
      · rw [if_neg (fun both => full both.2)]
        refine ⟨c :: first, groups, by simp, ⟨?_, more⟩, whole⟩
        rw [List.length_cons, size]
        omega

theorem grouped_thousands {s : List Char} (digits : IsDigits s) (some_ : s ≠ []) :
    Grouped (thousands s) := by
  cases s with
  | nil => exact absurd rfl some_
  | cons c rest =>
      obtain ⟨digit, digits⟩ := List.forall_mem_cons.mp digits
      obtain ⟨first, groups, shown, ⟨size, firstDigits⟩, whole⟩ := groups_thousandsFrom digits
      refine ⟨c :: first, groups, ?_, ⟨by simp, ?_, List.forall_mem_cons.mpr ⟨digit, firstDigits⟩⟩,
        whole⟩
      · rw [thousands, thousandsFrom, if_neg (by simp), shown]
        rfl
      · rw [List.length_cons, size]
        omega

/-! ### Digits before and after the point -/

theorem isDigits_decimal (n : Nat) : IsDigits (decimal n) := fun _ => isDigit_decimal

theorem splitDigits_whole (s : List Char) (decimals : Nat) : (splitDigits s decimals).1 ≠ [] := by
  unfold splitDigits
  split
  · simp
  · rw [← List.length_pos_iff, List.length_take]
    omega

/-- The digits of an amount are those of its whole part and of its fraction. -/
theorem splitDigits_value {s : List Char} (digits : IsDigits s) (decimals : Nat) :
    IsDigits (splitDigits s decimals).1 ∧ IsDigits (splitDigits s decimals).2 ∧
    (splitDigits s decimals).2.length = decimals ∧
    Nat.ofDigitChars 10 s 0 = Nat.ofDigitChars 10 (splitDigits s decimals).1 0 * 10 ^ decimals +
      Nat.ofDigitChars 10 (splitDigits s decimals).2 0 := by
  unfold splitDigits
  by_cases small : s.length ≤ decimals
  · rw [if_pos small]
    have padded : IsDigits (List.replicate (decimals - s.length) '0' ++ s) := by
      intro c member
      rcases List.mem_append.mp member with zero | digit
      · rw [List.eq_of_mem_replicate zero]
        rfl
      · exact digits c digit
    have zero : IsDigits ['0'] := List.forall_mem_singleton.mpr rfl
    refine ⟨zero, padded, ?_, ?_⟩
    · rw [List.length_append, List.length_replicate]
      omega
    · rw [Nat.ofDigitChars_append, Nat.ofDigitChars_replicate_zero]
      simp [Nat.ofDigitChars_cons]
  · rw [if_neg small]
    have size : (s.drop (s.length - decimals)).length = decimals := by
      rw [List.length_drop]
      omega
    refine ⟨fun c member => digits c (List.mem_of_mem_take member), fun c member =>
      digits c (List.mem_of_mem_drop member),
      size, ?_⟩
    dsimp only
    conv_lhs => rw [← List.take_append_drop (s.length - decimals) s]
    rw [Nat.ofDigitChars_append, Nat.ofDigitChars_eq_ofDigitChars_zero, size, Nat.mul_comm]

/-! ### What is shown -/

theorem shownValue_plain {s : List Char} (digits : IsDigits s) :
    shownValue s = (Nat.ofDigitChars 10 s 0 : ℚ) := by
  have point : ∀ c ∈ s, (c != '.') = true :=
    fun c member => bne_iff_ne.mpr (not_special_of_digit (digits c member)).2
  have comma : ∀ c ∈ s, (c != ',') = true :=
    fun c member => bne_iff_ne.mpr (not_special_of_digit (digits c member)).1
  rw [shownValue, List.takeWhile_eq_self_iff.mpr point, List.filter_eq_self.mpr comma,
    List.dropWhile_eq_nil_iff.mpr point]
  simp [fractionOf]

theorem point_thousands {whole : List Char} (digits : IsDigits whole) :
    ∀ c ∈ thousands whole, (c != '.') = true := by
  intro c member
  apply bne_iff_ne.mpr
  rintro rfl
  exact no_point_thousandsFrom digits true member

/-- The digits that are shown: the whole part with commas, and those after the
point if there are any. -/
def shownText (whole frac : List Char) : List Char :=
  if frac = [] then thousands whole else thousands whole ++ '.' :: frac

theorem takeWhile_shownText {whole : List Char} (digits : IsDigits whole) (frac : List Char) :
    (shownText whole frac).takeWhile (· != '.') = thousands whole := by
  have point := point_thousands digits
  unfold shownText
  split
  · exact List.takeWhile_eq_self_iff.mpr point
  · rw [List.takeWhile_append_of_pos point, List.takeWhile_cons_of_neg (by decide), List.append_nil]

theorem dropWhile_shownText {whole : List Char} (digits : IsDigits whole) (frac : List Char) :
    ((shownText whole frac).dropWhile (· != '.')).tail = frac := by
  have point := point_thousands digits
  unfold shownText
  split
  · rename_i none_
    rw [List.dropWhile_eq_nil_iff.mpr point, none_]
    rfl
  · rw [List.dropWhile_append_of_pos point, List.dropWhile_cons_of_neg (by decide)]
    rfl

theorem shownValue_shownText {whole : List Char} (digits : IsDigits whole) (frac : List Char) :
    shownValue (shownText whole frac) = (Nat.ofDigitChars 10 whole 0 : ℚ) + fractionOf frac := by
  rw [shownValue, takeWhile_shownText digits, dropWhile_shownText digits, thousands,
    filter_thousandsFrom digits]

/-- What is shown of an amount that is split at the point. -/
theorem formatAmount_eq {raw : U256} {decimals : Nat} (some_ : raw ≠ 0) (pointed : decimals ≠ 0)
    {whole frac : List Char} (halves : splitDigits (decimal raw.toNat) decimals = (whole, frac)) :
    formatAmount raw decimals = shownText whole ((frac.rdropWhile (· == '0')).take
      (fracDigits (Nat.ofDigitChars 10 whole 0) (frac.rdropWhile (· == '0')))) := by
  generalize trim : frac.rdropWhile (· == '0') = fracTrim
  generalize places : fracDigits (Nat.ofDigitChars 10 whole 0) fracTrim = digits
  have cut : (if fracTrim.length > digits then fracTrim.take digits else fracTrim) =
      fracTrim.take digits := by
    split
    · rfl
    · rename_i short
      rw [List.take_of_length_le (Nat.le_of_not_lt short)]
  have none_ : fracTrim.take digits = [] ↔ digits = 0 ∨ fracTrim = [] := by
    rw [List.take_eq_nil_iff]
  simp only [formatAmount, if_neg some_, if_neg pointed, halves, trim, places, cut,
    shownText, none_]

/-- The digits before the point are the whole part of an amount, those behind it its fraction. -/
theorem amount_of_halves {raw : U256} {decimals : Nat} {whole frac : List Char}
    (halves : splitDigits (decimal raw.toNat) decimals = (whole, frac)) :
    IsDigits whole ∧ IsDigits frac ∧ whole ≠ [] ∧
    raw.toNat / 10 ^ decimals = Nat.ofDigitChars 10 whole 0 ∧
    (raw.toNat : ℚ) / 10 ^ decimals = (Nat.ofDigitChars 10 whole 0 : ℚ) + fractionOf frac := by
  obtain ⟨wholeDigits, fracDigits', length, value⟩ :=
    splitDigits_value (isDigits_decimal raw.toNat) decimals
  have some_ := splitDigits_whole (decimal raw.toNat) decimals
  rw [halves] at wholeDigits fracDigits' length value some_
  dsimp only at wholeDigits fracDigits' length value some_
  rw [show Nat.ofDigitChars 10 (decimal raw.toNat) 0 = raw.toNat from
    Nat.ofDigitChars_ten_toDigits] at value
  have small := ofDigitChars_lt fracDigits'
  rw [length] at small
  refine ⟨wholeDigits, fracDigits', some_, ?_, ?_⟩
  · rw [value, Nat.mul_comm, Nat.mul_add_div (by positivity), Nat.div_eq_of_lt small, Nat.add_zero]
  · rw [fractionOf, length, value]
    push_cast
    field_simp

/-- What is shown of a fraction is what it is up to one of the last place. -/
theorem fractionOf_shown {frac : List Char} (digits : IsDigits frac) (whole : Nat) :
    fractionOf ((frac.rdropWhile (· == '0')).take
      (fracDigits whole (frac.rdropWhile (· == '0')))) ≤ fractionOf frac ∧
    fractionOf frac < fractionOf ((frac.rdropWhile (· == '0')).take
      (fracDigits whole (frac.rdropWhile (· == '0')))) + 1 / 10 ^ shownPlaces whole := by
  have trimmed : IsDigits (frac.rdropWhile (· == '0')) :=
    fun c member => digits c ((List.rdropWhile_prefix _ _).subset member)
  have cut := fractionOf_take trimmed
  rw [← fractionOf_trim frac]
  refine ⟨(cut _).1, ?_⟩
  by_cases exhausted : frac.rdropWhile (· == '0') = []
  · rw [exhausted, List.take_nil]
    exact lt_add_of_pos_right _ (by positivity)
  · have places : fracDigits whole (frac.rdropWhile (· == '0')) = shownPlaces whole := by
      rw [fracDigits, if_neg exhausted, shownPlaces]
    rw [places]
    exact (cut _).2

/-- An amount that is shown is never more than there is, less by less than one in the last of the
places for amounts of its size. Its whole part stands in groups of three digits with a comma before
each but the first, except where the token has no decimals: then the amount is bare digits. -/
theorem amounts_are_cut_off (raw : U256) (decimals : Nat) :
    shownValue (formatAmount raw decimals) ≤ (raw.toNat : ℚ) / 10 ^ decimals ∧
    (raw.toNat : ℚ) / 10 ^ decimals <
      shownValue (formatAmount raw decimals) + 1 / 10 ^ shownPlaces (raw.toNat / 10 ^ decimals) ∧
    (decimals ≠ 0 → Grouped ((formatAmount raw decimals).takeWhile (· != '.'))) ∧
    (decimals = 0 → formatAmount raw decimals = decimal raw.toNat) := by
  have place : ∀ k : Nat, (0 : ℚ) < 1 / 10 ^ k := fun k => by positivity
  by_cases zero : raw = 0
  · subst zero
    have shown : formatAmount 0 decimals = shownText ['0'] [] := if_pos rfl
    have digits : IsDigits ['0'] := List.forall_mem_singleton.mpr rfl
    rw [shown, shownValue_shownText digits, takeWhile_shownText digits]
    refine ⟨by simp [fractionOf, Nat.ofDigitChars_cons], ?_, fun _ =>
      grouped_thousands digits (by simp), fun _ => rfl⟩
    simp [fractionOf, Nat.ofDigitChars_cons]
  · by_cases unpointed : decimals = 0
    · subst unpointed
      have shown : formatAmount raw 0 = decimal raw.toNat := by
        rw [formatAmount, if_neg zero]
        exact if_pos rfl
      have value : Nat.ofDigitChars 10 (decimal raw.toNat) 0 = raw.toNat :=
        Nat.ofDigitChars_ten_toDigits
      rw [shown, shownValue_plain (isDigits_decimal _), value, pow_zero, div_one]
      exact ⟨le_refl _, lt_add_of_pos_right _ (place _), fun pointed =>
        absurd rfl pointed, fun _ => rfl⟩
    · rcases halves : splitDigits (decimal raw.toNat) decimals with ⟨whole, frac⟩
      obtain ⟨wholeDigits, fracDigits', some_, quotient, value⟩ := amount_of_halves halves
      obtain ⟨below, above⟩ := fractionOf_shown fracDigits' (Nat.ofDigitChars 10 whole 0)
      rw [formatAmount_eq zero unpointed halves, shownValue_shownText wholeDigits,
        takeWhile_shownText wholeDigits, value, quotient]
      refine ⟨add_le_add_right below _, ?_, fun _ =>
        grouped_thousands wholeDigits some_, fun none_ => absurd none_ unpointed⟩
      rw [add_assoc]
      exact add_lt_add_right above _

/-- One and a half million tokens, and a little more. -/
theorem amounts_are_cut_off_million : formatAmount 1500000999999 6 = "1,500,000".toList ∧
    Grouped ((formatAmount 1500000999999 6).takeWhile (· != '.')) :=
  ⟨by decide +kernel, (amounts_are_cut_off 1500000999999 6).2.2.1 (by decide)⟩

end BscMempool.Watch
