/-
Module: BscMempool.Storage.Replace
Layer: Storage
Purpose: A directory in which a file is replaced by writing a temporary file and renaming it over
  the target. Files are numbered, so that what was opened under a name stays the same file when the
  name moves.
Trusted boundary: none
Main exports: overwrite, Directory, Directory.create, Directory.write, Directory.rename,
  Directory.readTarget
-/
import Mathlib.Data.List.Basic

namespace BscMempool.Storage

variable {α : Type}

/-- What a file holds after `bytes` were written at `offset`.  A gap before them is filled. -/
def overwrite (fill : α) (content : List α) (offset : Nat) (bytes : List α) : List α :=
  content.take offset ++ List.replicate (offset - content.length) fill ++ bytes ++
    content.drop (offset + bytes.length)

/-- Writing a text on from where one stopped. -/
theorem overwrite_take (fill : α) (text : List α) {done : Nat} (within : done ≤ text.length)
    (n : Nat) :
    overwrite fill (text.take done) done ((text.drop done).take n) = text.take (done + n) := by
  have length : (text.take done).length = done := List.length_take_of_le within
  have rest : (text.take done).drop (done + ((text.drop done).take n).length) = [] := by
    apply List.drop_eq_nil_of_le
    omega
  rw [overwrite, length, Nat.sub_self, List.take_take, Nat.min_self, rest, List.take_add]
  simp

/-- The files that were ever made, by number, and the two names.  The names are never of one
file. -/
structure Directory (α : Type) where
  contents : List (List α)
  tmp : Option Nat
  target : Option Nat
  tmp_lt : ∀ n, tmp = some n → n < contents.length
  target_lt : ∀ n, target = some n → n < contents.length
  apart : ∀ n, tmp = some n → target ≠ some n

namespace Directory

/-- A directory without files. -/
def empty : Directory α where
  contents := []
  tmp := none
  target := none
  tmp_lt _ none_ := by cases none_
  target_lt _ none_ := by cases none_
  apart _ none_ := by cases none_

variable (d : Directory α)

/-- What the target holds, if there is one. -/
def readTarget : Option (List α) := d.target.bind fun n => d.contents[n]?

/-- Open the temporary file for writing: it is emptied, or made where there is none. -/
def create : Nat × Directory α :=
  match tmp : d.tmp with
  | some n => (n, { d with
      contents := d.contents.set n []
      tmp_lt := by simpa using d.tmp_lt
      target_lt := by simpa using d.target_lt })
  | none => (d.contents.length, { d with
      contents := d.contents ++ [[]]
      tmp := some d.contents.length
      tmp_lt := by
        rintro n ⟨⟩
        simp
      target_lt := by
        intro n named
        have bound := d.target_lt n named
        simp only [List.length_append, List.length_singleton]
        omega
      apart := by
        rintro n ⟨⟩ named
        exact absurd (d.target_lt _ named) (Nat.lt_irrefl _) })

/-- Write to an open file, whatever names it has now. -/
def write (fill : α) (file offset : Nat) (bytes : List α) : Directory α :=
  { d with
    contents := d.contents.modify file fun content => overwrite fill content offset bytes
    tmp_lt := by simpa using d.tmp_lt
    target_lt := by simpa using d.target_lt }

/-- Rename the temporary file, if there is one, over the target. -/
def rename : Option (Directory α) :=
  match tmp : d.tmp with
  | none => none
  | some n => some { d with
      tmp := none
      target := some n
      tmp_lt := by
        intro n none_
        cases none_
      target_lt := by
        rintro m ⟨⟩
        exact d.tmp_lt n tmp
      apart := by
        intro m none_
        cases none_ }

/-! ### What the operations do -/

variable {d}

theorem create_tmp : d.create.2.tmp = some d.create.1 := by
  unfold create
  split
  · rename_i n tmp
    exact tmp
  · rfl

theorem create_content : d.create.2.contents[d.create.1]? = some [] := by
  unfold create
  split
  · rename_i n tmp
    exact List.getElem?_set_self (d.tmp_lt n tmp)
  · exact List.getElem?_concat_length

/-- What leaves the target's name and its file alone leaves what it holds. -/
theorem readTarget_congr {d' : Directory α} (names : d'.target = d.target)
    (holds : ∀ n, d.target = some n → d'.contents[n]? = d.contents[n]?) :
    d'.readTarget = d.readTarget := by
  unfold readTarget
  rw [names]
  cases named : d.target with
  | none => rfl
  | some n => exact holds n named

/-- Opening the temporary file leaves the target alone. -/
theorem readTarget_create : d.create.2.readTarget = d.readTarget := by
  unfold create
  split
  · rename_i n tmp
    apply readTarget_congr
    · rfl
    · intro m named
      have ne : n ≠ m := by
        rintro rfl
        exact d.apart n tmp named
      exact List.getElem?_set_ne ne
  · apply readTarget_congr
    · rfl
    · intro m named
      exact List.getElem?_append_left (d.target_lt m named)

@[simp] theorem write_tmp {fill : α} {file offset : Nat} {bytes : List α} :
    (d.write fill file offset bytes).tmp = d.tmp := rfl

theorem write_content {fill : α} {file offset : Nat} {bytes content : List α}
    (holds : d.contents[file]? = some content) :
    (d.write fill file offset bytes).contents[file]? =
      some (overwrite fill content offset bytes) := by
  simp [write, holds]

/-- Writing the temporary file leaves the target alone. -/
theorem readTarget_write {fill : α} {file offset : Nat} {bytes : List α}
    (named : d.tmp = some file) :
    (d.write fill file offset bytes).readTarget = d.readTarget := by
  apply readTarget_congr
  · rfl
  · intro m target
    have ne : file ≠ m := by
      rintro rfl
      exact d.apart file named target
    simp [write, ne]

/-- A renamed file is the target. -/
theorem readTarget_rename {d' : Directory α} {file : Nat} (named : d.tmp = some file)
    (renamed : d.rename = some d') : d'.readTarget = d.contents[file]? ∧ d'.tmp = none := by
  unfold rename at renamed
  split at renamed
  · cases renamed
  · rename_i n tmp
    cases renamed
    obtain rfl : n = file := Option.some.inj (tmp.symm.trans named)
    exact ⟨rfl, rfl⟩

end Directory

end BscMempool.Storage
