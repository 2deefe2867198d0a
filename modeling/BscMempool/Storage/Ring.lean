/-
Module: BscMempool.Storage.Ring
Layer: Storage
Purpose: A buffer that is written in a circle. Whatever was written, the buffer holds the last
  values that fit, and a walk over the right number of cells from the right one on reads them oldest
  first.
Trusted boundary: none
Main exports: Ring, Ring.push, Ring.walk, Ring.Holds, Ring.holds_blank, Ring.Holds.push,
  Ring.Holds.walk_eq, Ring.Holds.last
-/
import Mathlib.Algebra.Order.Ring.Nat
import Mathlib.Data.List.DropRight

namespace BscMempool.Storage

/-- The cells, how many of them were written, and the one to write next. -/
structure Ring (α : Type*) (len : Nat) where
  cells : Vector α len
  count : Nat
  next : Fin len

namespace Ring

variable {α : Type*} {len : Nat} [NeZero len]

/-- A buffer in which nothing was written. -/
def blank (a : α) : Ring α len where
  cells := .replicate len a
  count := 0
  next := 0

def push (r : Ring α len) (a : α) : Ring α len where
  cells := r.cells.set r.next a r.next.isLt
  count := if r.count < len then r.count + 1 else r.count
  next := r.next + 1

/-- The next `n` cells from the one at `start` on. -/
def walk (r : Ring α len) (start n : Nat) : List α :=
  (List.range n).map fun i => r.cells[Fin.ofNat len (start + i)]

/-- The buffer holds the last of the values that were written, each at its
number modulo the length. -/
structure Holds (r : Ring α len) (written : List α) : Prop where
  count_eq : r.count = min written.length len
  next_eq : r.next = written.length % len
  cell : ∀ p (there : p < written.length), written.length ≤ p + len →
    r.cells[Fin.ofNat len p] = written[p]

theorem holds_blank (a : α) : (blank a : Ring α len).Holds [] := by
  constructor
  · exact (Nat.zero_min len).symm
  · rfl
  · exact fun p there => absurd there (Nat.not_lt_zero p)

omit [NeZero len] in
/-- Two of the last values are not in one cell. -/
theorem cell_ne {p written : Nat} (there : p < written) (kept : written < p + len) :
    p % len ≠ written % len := by
  intro same
  have multiple : (written - p) % len = 0 := Nat.sub_mod_eq_zero_of_mod_eq same.symm
  rw [Nat.mod_eq_of_lt (Nat.sub_lt_left_of_lt_add (le_of_lt there) kept)] at multiple
  exact absurd there (Nat.not_lt.mpr (Nat.le_of_sub_eq_zero multiple))

/-- A push writes the next value over the oldest one. -/
theorem Holds.push {r : Ring α len} {written : List α} (holds : r.Holds written) (a : α) :
    (r.push a).Holds (written ++ [a]) := by
  constructor
  · simp only [Ring.push, holds.count_eq, List.length_append, List.length_singleton]
    split <;> omega
  · have one : ((1 : Fin len) : Nat) = 1 % len := rfl
    simp only [Ring.push, Fin.val_add, one, holds.next_eq, List.length_append,
      List.length_singleton]
    exact (Nat.add_mod _ _ _).symm
  · intro p there kept
    rw [List.length_append, List.length_singleton] at there kept
    by_cases old : p < written.length
    · have apart : p % len ≠ r.next := by
        rw [holds.next_eq]
        exact cell_ne old kept
      have same := holds.cell p old (Nat.le_of_succ_le kept)
      simp only [Fin.getElem_fin, Fin.val_ofNat] at same
      simp only [Ring.push, Fin.getElem_fin, Fin.val_ofNat, List.getElem_append_left old]
      rw [Vector.getElem_set_ne _ _ (Ne.symm apart), same]
    · have newest : p = written.length := by omega
      subst newest
      simp only [Ring.push, Fin.getElem_fin, Fin.val_ofNat, ← holds.next_eq,
        Vector.getElem_set_self]
      simp

/-- Whatever is written to a blank buffer, it holds the last of it. -/
theorem holds_pushed (a : α) (written : List α) :
    (written.foldl Ring.push (blank a : Ring α len)).Holds written := by
  induction written using List.reverseRecOn with
  | nil => exact holds_blank a
  | append_singleton before b ih =>
      rw [List.foldl_concat]
      exact ih.push b

/-- A walk over cells that were written, from the cell of the first of the last `n`
values on, reads these. -/
theorem Holds.walk_eq {r : Ring α len} {written : List α} (holds : r.Holds written) {start n : Nat}
    (enough : n ≤ written.length) (fits : n ≤ len)
    (first : start % len = (written.length - n) % len) :
    r.walk start n = written.rtake n := by
  apply List.ext_getElem
  · simp only [walk, List.length_map, List.length_range, List.rtake, List.length_drop]
    omega
  · intro i inWalk inList
    have step : i < n := by simpa [walk] using inWalk
    have cell : Fin.ofNat len (start + i) = Fin.ofNat len (written.length - n + i) := by
      apply Fin.ext
      simp only [Fin.val_ofNat]
      rw [Nat.add_mod, first, ← Nat.add_mod]
    have value := holds.cell (written.length - n + i) (by omega) (by omega)
    simp only [walk, List.getElem_map, List.getElem_range, cell, value, List.rtake,
      List.getElem_drop]

/-- The values of the buffer, oldest first: a full buffer is read from the next cell on, any other
from the first. -/
theorem Holds.last {r : Ring α len} {written : List α} (holds : r.Holds written) :
    r.walk (if len ≤ written.length then r.next else 0) (min written.length len) =
      written.rtake len := by
  by_cases full : len ≤ written.length
  · rw [if_pos full, min_eq_right full]
    apply holds.walk_eq full le_rfl
    rw [holds.next_eq, Nat.mod_mod]
    exact Nat.mod_eq_sub_mod full
  · have few : written.length ≤ len := Nat.le_of_not_le full
    have all : written.rtake len = written.rtake written.length := by
      rw [List.rtake, List.rtake, Nat.sub_eq_zero_of_le few, Nat.sub_self]
    rw [if_neg full, min_eq_left few, all]
    exact holds.walk_eq le_rfl few (by rw [Nat.sub_self])

end Ring

end BscMempool.Storage
