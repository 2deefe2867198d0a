/-
Module: BscMempool.Telemetry.Replay
Layer: Telemetry
Purpose: The replay reader: read the records of a segment back, in stored order, until the stream
  ends.
Trusted boundary: human-reviewed translation of bsc-telemetry/src/replay.rs
Main exports: ReplayError, ReplayedRecord, ReplayReader, ReplayReader.nextRecord,
  ReplayReader.readAll
-/
import BscMempool.Telemetry.Capture

namespace BscMempool.Telemetry

open Codec

structure ReplayedRecord where
  record : CaptureRecord
  /-- 0-based index in the file. -/
  index : Nat
deriving DecidableEq, Repr

inductive ReplayError where
  | decodeSerde (msg : String)
  | truncatedHeader (offset : Nat)
  | truncatedPayload (wanted got index : Nat)
deriving DecidableEq, Repr

/-- The reader over what is left of the decompressed stream. -/
structure ReplayReader where
  inner : List UInt8
  nextIndex : Nat := 0
deriving Repr

namespace ReplayReader

/-- The next record, `none` where the stream ends: also if it ends within a length prefix. -/
def nextRecord (codec : Bincode) (r : ReplayReader) :
    Except ReplayError (Option (ReplayedRecord × ReplayReader)) :=
  match readExact 4 r.inner with
  | none => .ok none
  | some (lenBytes, inner) =>
      let len := ofLeBytes lenBytes
      match readExact len inner with
      | none => .error (.truncatedPayload len 0 r.nextIndex)
      | some (buf, inner) =>
          match codec.decodeFromSlice buf with
          | .error msg => .error (.decodeSerde msg)
          | .ok (record, _) => .ok (some (⟨record, r.nextIndex⟩, ⟨inner, r.nextIndex + 1⟩))

/-- A record that is read shortens the stream. -/
theorem nextRecord_shorter {codec : Bincode} {r r' : ReplayReader} {out : ReplayedRecord}
    (read : r.nextRecord codec = .ok (some (out, r'))) : r'.inner.length < r.inner.length := by
  unfold nextRecord at read
  cases header : readExact 4 r.inner with
  | none => simp [header] at read
  | some found =>
      obtain ⟨lenBytes, inner⟩ := found
      simp only [header] at read
      cases body : readExact (ofLeBytes lenBytes) inner with
      | none => simp [body] at read
      | some found =>
          obtain ⟨buf, rest⟩ := found
          simp only [body] at read
          cases decoded : codec.decodeFromSlice buf with
          | error msg => simp [decoded] at read
          | ok result =>
              simp only [decoded, Except.ok.injEq, Option.some.injEq, Prod.mk.injEq] at read
              obtain ⟨-, rfl⟩ := read
              obtain ⟨whole, length⟩ := readExact_eq_some header
              obtain ⟨tail, -⟩ := readExact_eq_some body
              rw [whole, tail, List.length_append, List.length_append, length]
              exact Nat.lt_of_lt_of_le (Nat.lt_add_of_pos_left (by decide))
                (Nat.add_le_add_left (Nat.le_add_left _ _) 4)

/-- Drain the reader. -/
def readAll (codec : Bincode) (r : ReplayReader) : Except ReplayError (List ReplayedRecord) :=
  match _next : r.nextRecord codec with
  | .error e => .error e
  | .ok none => .ok []
  | .ok (some (out, r')) => (r'.readAll codec).map (out :: ·)
termination_by r.inner.length
decreasing_by exact nextRecord_shorter _next

end ReplayReader

end BscMempool.Telemetry
