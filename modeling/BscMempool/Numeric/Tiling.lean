/-
Module: BscMempool.Numeric.Tiling
Layer: Numeric
Purpose: Inclusive ranges that follow each other without a gap: what they cover, and that no two of
  them overlap.
Trusted boundary: none
Main exports: Tiles, Tiles.covers_iff, Tiles.unique
-/
import Mathlib.Data.Nat.Basic

namespace BscMempool.Numeric

section
variable {α : Type*} (lo hi : α → Nat)

/-- The ranges of these items tile the numbers from the first on up to, and without, the last. -/
inductive Tiles : Nat → List α → Nat → Prop where
  | nil (start : Nat) : Tiles start [] start
  | snoc {start next : Nat} {items : List α} (item : α) (before : Tiles start items next)
    (starts : lo item = next)
      (proper : lo item ≤ hi item) : Tiles start (items ++ [item]) (hi item + 1)

variable {lo hi}

theorem Tiles.le {start stop : Nat} {items : List α} (tiles : Tiles lo hi start items stop) :
    start ≤ stop := by
  induction tiles with
  | nil => exact le_rfl
  | snoc item before starts proper ih => omega

theorem Tiles.within {start stop : Nat} {items : List α} (tiles : Tiles lo hi start items stop)
    {item : α} (member : item ∈ items) : start ≤ lo item ∧ lo item ≤ hi item ∧ hi item < stop := by
  induction tiles with
  | nil => cases member
  | snoc last before starts proper ih =>
      have bound := before.le
      rcases List.mem_append.mp member with earlier | new
      · obtain ⟨first, own, upTo⟩ := ih earlier
        exact ⟨first, own, by omega⟩
      · rw [List.mem_singleton.mp new]
        exact ⟨by omega, proper, Nat.lt_succ_self _⟩

/-- A number is in one of the ranges exactly if it is between the ends. -/
theorem Tiles.covers_iff {start stop : Nat} {items : List α} (tiles : Tiles lo hi start items stop)
    (b : Nat) :
    (∃ item ∈ items, lo item ≤ b ∧ b ≤ hi item) ↔ start ≤ b ∧ b < stop := by
  induction tiles with
  | nil =>
      simp only [List.not_mem_nil, false_and, exists_false, false_iff, not_and]
      omega
  | snoc last before starts proper ih =>
      have bound := before.le
      simp only [List.mem_append, List.mem_singleton, or_and_right, exists_or, exists_eq_left, ih]
      omega

/-- No number is in two of them. -/
theorem Tiles.unique {start stop : Nat} {items : List α} (tiles : Tiles lo hi start items stop)
    {item item' : α}
    (member : item ∈ items) (member' : item' ∈ items) {b : Nat} (inside : lo item ≤ b ∧ b ≤ hi item)
    (inside' : lo item' ≤ b ∧ b ≤ hi item') : item = item' := by
  induction tiles with
  | nil => cases member
  | snoc last before starts proper ih =>
      rcases List.mem_append.mp member with earlier | new <;> rcases List.mem_append.mp member'
        with earlier' | new'
      · exact ih earlier earlier'
      · have upTo := (before.within earlier).2.2
        rw [List.mem_singleton.mp new'] at inside'
        omega
      · have upTo := (before.within earlier').2.2
        rw [List.mem_singleton.mp new] at inside
        omega
      · rw [List.mem_singleton.mp new, List.mem_singleton.mp new']

end

end BscMempool.Numeric
