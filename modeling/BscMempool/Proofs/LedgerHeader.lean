/-
Module: BscMempool.Proofs.LedgerHeader
Layer: Proofs
Purpose: What opening the live ledger does to the rows that are already there.  They stay where the
  file is UTF-8 and the reads work; a file that cannot be read as a string is truncated to the
  header.
Trusted boundary: none
Main exports: withHeader, new_content, new_keeps_iff, new_loses_rows
-/
import BscMempool.Trader.LiveLedger

namespace BscMempool.Trader.LiveLedger

open Codec (asBytes)

/-- The header in front, unless it is there already. -/
def withHeader (b : List UInt8) : List UInt8 :=
  if asBytes CSV_HEADER <+: b then b else asBytes CSV_HEADER ++ b

/-- The read that decides what becomes of the rows: the first one for a file with the
header, else the second. -/
def decidingRead (disk : Disk) (b : List UInt8) : Bool :=
  if asBytes CSV_HEADER <+: b then disk.probe else disk.backup

theorem validUtf8_asBytes (s : String) : ValidUtf8 (asBytes s) := by
  have same : (asBytes s).toByteArray = s.toByteArray := by
    apply ByteArray.ext
    simp [asBytes]
  rw [ValidUtf8, same]
  exact s.isValidUTF8

theorem validUtf8_append {b c : List UInt8} (left : ValidUtf8 b) (right : ValidUtf8 c) :
    ValidUtf8 (b ++ c) := by
  unfold ValidUtf8 at *
  rw [List.toByteArray_append]
  exact left.append right

theorem header_ne_nil : asBytes CSV_HEADER ≠ [] := by decide +kernel

/-! ### The parts of a call -/

theorem needsHeader_eq_false {disk : Disk} {b : List UInt8} :
    needsHeader disk (some b) = false ↔ disk.probe = true ∧ ValidUtf8 b ∧
    asBytes CSV_HEADER <+: b := by
  unfold needsHeader readToString startsWithHeader
  by_cases read : disk.probe = true ∧ ValidUtf8 b
  · simp [read]
  · simp only [read, if_false, Option.map_none, Option.getD_none, Bool.true_eq_false, false_iff]
    intro kept
    exact read ⟨kept.1, kept.2.1⟩

theorem existing_some (disk : Disk) (b : List UInt8) :
    existing disk (some b) = if disk.backup = true ∧ ValidUtf8 b then b else [] := by
  unfold existing readToString
  by_cases read : disk.backup = true ∧ ValidUtf8 b
  · simp [read]
  · simp [read]

/-- Writes that succeed leave the header, and behind it the rows unless they bring their own. -/
theorem rewrite_content {disk : Disk} {rows : List UInt8}
    (written : (rewrite disk rows).1 = .ok ()) :
    (rewrite disk rows).2 = some (if asBytes CSV_HEADER <+: rows then asBytes CSV_HEADER
      else asBytes CSV_HEADER ++ rows) := by
  unfold rewrite startsWithHeader at *
  cases header : disk.header with
  | some n => simp [header] at written
  | none =>
      simp only [header] at written ⊢
      by_cases own : asBytes CSV_HEADER <+: rows
      · simp [own]
      · by_cases empty : rows = []
        · simp [empty]
        · cases rest : disk.existing with
          | some n => simp [own, empty, rest] at written
          | none => simp [own, empty]

/-- What a call that succeeds leaves of a file that held `b`. -/
def contentAfter (disk : Disk) (b : List UInt8) : List UInt8 :=
  if disk.probe = true ∧ ValidUtf8 b ∧ asBytes CSV_HEADER <+: b then b
  else if disk.backup = true ∧ ValidUtf8 b ∧ ¬ asBytes CSV_HEADER <+: b then asBytes CSV_HEADER ++ b
  else asBytes CSV_HEADER

theorem new_content {disk : Disk} {b : List UInt8} (opened : (new disk (some b)).1 = .ok ()) :
    (new disk (some b)).2 = some (contentAfter disk b) := by
  unfold new contentAfter at *
  cases mkdir : disk.mkdir with
  | false => simp [mkdir] at opened
  | true =>
      by_cases kept : needsHeader disk (some b) = false
      · simp [kept, needsHeader_eq_false.mp kept]
      · have notKept := mt needsHeader_eq_false.mpr kept
        cases create : disk.create with
        | false => simp [mkdir, kept, create] at opened
        | true =>
            simp only [mkdir, kept, create, Bool.true_eq_false, if_false] at opened ⊢
            rw [rewrite_content opened, if_neg notKept, existing_some]
            by_cases read : disk.backup = true ∧ ValidUtf8 b
            · by_cases own : asBytes CSV_HEADER <+: b
              · simp [read, own]
              · simp [read, own]
            · simp only [read, if_false, ← and_assoc, false_and]
              simp [header_ne_nil]

/-- Without failures every call succeeds. -/
theorem new_ok (file : Option (List UInt8)) : (new {} file).1 = .ok () := by
  have written : ∀ rows, (rewrite {} rows).1 = .ok () := by
    intro rows
    unfold rewrite
    by_cases kept : rows ≠ [] ∧ startsWithHeader rows = false
    · simp [kept]
    · simp only [kept, if_false]
  unfold new
  by_cases kept : needsHeader {} file = false
  · simp [kept]
  · simp [kept, written]

/-! ### What survives -/

theorem header_prefix_withHeader (b : List UInt8) : asBytes CSV_HEADER <+: withHeader b := by
  unfold withHeader
  split
  · assumption
  · exact List.prefix_append _ _

theorem withHeader_eq_header {b : List UInt8} :
    withHeader b = asBytes CSV_HEADER ↔ b = [] ∨ b = asBytes CSV_HEADER := by
  unfold withHeader
  by_cases own : asBytes CSV_HEADER <+: b
  · have notEmpty : b ≠ [] := by
      intro empty
      rw [empty, List.prefix_nil] at own
      exact header_ne_nil own
    simp [own, notEmpty]
  · have notHeader : b ≠ asBytes CSV_HEADER := by
      intro same
      exact own (same ▸ List.prefix_rfl)
    simp [own, notHeader]

theorem validUtf8_withHeader {b : List UInt8} (text : ValidUtf8 b) : ValidUtf8 (withHeader b) := by
  unfold withHeader
  split
  · exact text
  · exact validUtf8_append (validUtf8_asBytes _) text

/-- The rows are kept, or there are none. -/
theorem contentAfter_eq_withHeader {disk : Disk} {b : List UInt8} :
    contentAfter disk b = withHeader b ↔ withHeader b = asBytes CSV_HEADER ∨
      ValidUtf8 b ∧ decidingRead disk b = true := by
  unfold contentAfter withHeader decidingRead
  by_cases own : asBytes CSV_HEADER <+: b
  · by_cases read : disk.probe = true ∧ ValidUtf8 b
    · simp [own, read]
    · simp only [own, ← and_assoc, read, not_true, and_false, false_and, if_true, if_false]
      rw [and_comm, eq_comm]
      simp [read]
  · by_cases read : disk.backup = true ∧ ValidUtf8 b
    · simp [own, read]
    · simp only [own, ← and_assoc, read, and_false, false_and, if_false]
      rw [and_comm, eq_comm]
      simp [read]

/-- A file with the header is left alone, unless it is rewritten with nothing to lose. -/
theorem contentAfter_eq_self {disk : Disk} {b : List UInt8} (own : asBytes CSV_HEADER <+: b) :
    contentAfter disk b = b ↔ b = asBytes CSV_HEADER ∨ ValidUtf8 b ∧ disk.probe = true := by
  have same := @contentAfter_eq_withHeader disk b
  simp only [withHeader, decidingRead, own, if_true] at same
  exact same

/-- A call keeps what the file held, and a second call changes nothing, exactly when nothing but
perhaps the header was there, or the bytes are UTF-8, the deciding read works and the second call
can read the file. -/
theorem new_keeps_iff {disk again : Disk} {b : List UInt8} (opened : (new disk (some b)).1 = .ok ())
    (reopened : (new again (new disk (some b)).2).1 = .ok ()) :
    ((new disk (some b)).2 = some (withHeader b) ∧
      (new again (new disk (some b)).2).2 = (new disk (some b)).2) ↔
      b = [] ∨ b = asBytes CSV_HEADER ∨
        ValidUtf8 b ∧ decidingRead disk b = true ∧ again.probe = true := by
  rw [new_content opened] at reopened ⊢
  rw [new_content reopened, Option.some.injEq, Option.some.injEq, contentAfter_eq_withHeader,
    ← or_assoc,
    ← withHeader_eq_header]
  by_cases nothing : withHeader b = asBytes CSV_HEADER
  · have first : contentAfter disk b = asBytes CSV_HEADER :=
      (contentAfter_eq_withHeader.mpr (Or.inl nothing)).trans nothing
    have second : contentAfter again (contentAfter disk b) = contentAfter disk b := by
      rw [first]
      exact (contentAfter_eq_self List.prefix_rfl).mpr (Or.inl rfl)
    simp [nothing, second]
  · constructor
    · intro kept
      rcases kept with ⟨first, second⟩
      have whole : contentAfter disk b = withHeader b := contentAfter_eq_withHeader.mpr first
      rcases first.resolve_left nothing with ⟨text, read⟩
      rw [whole, contentAfter_eq_self (header_prefix_withHeader b)] at second
      exact Or.inr ⟨text, read, (second.resolve_left nothing).2⟩
    · intro readable
      rcases readable.resolve_left nothing with ⟨text, read, reread⟩
      have whole : contentAfter disk b = withHeader b :=
        contentAfter_eq_withHeader.mpr (Or.inr ⟨text, read⟩)
      constructor
      · exact Or.inr ⟨text, read⟩
      · rw [whole, contentAfter_eq_self (header_prefix_withHeader b)]
        exact Or.inr ⟨validUtf8_withHeader text, reread⟩

theorem new_keeps_row :
    (new {} (some (asBytes "1,tiny\n"))).2 = some (withHeader (asBytes "1,tiny\n")) ∧
      (new {} (new {} (some (asBytes "1,tiny\n"))).2).2 =
        (new {} (some (asBytes "1,tiny\n"))).2 := by
  apply (@new_keeps_iff {} {} (asBytes "1,tiny\n") (new_ok _) (new_ok _)).mpr
  have read : decidingRead {} (asBytes "1,tiny\n") = true := by decide +kernel
  exact Or.inr (Or.inr ⟨validUtf8_asBytes _, read, rfl⟩)

/-- A file with one byte that is not UTF-8 is emptied but for the header, although nothing fails. -/
theorem new_loses_rows :
    (new {} (some [0xFF])).1 = .ok () ∧ (new {} (some [0xFF])).2 = some (asBytes CSV_HEADER) ∧
      (new {} (some [0xFF])).2 ≠ some (withHeader [0xFF]) := by
  have notText : ¬ ValidUtf8 [0xFF] := by decide +kernel
  have emptied := new_content (new_ok (some [0xFF]))
  simp only [contentAfter, notText, false_and, and_false, if_false] at emptied
  constructor
  · exact new_ok _
  · constructor
    · exact emptied
    · rw [emptied, Ne, Option.some.injEq, eq_comm, withHeader_eq_header]
      decide +kernel

end BscMempool.Trader.LiveLedger
