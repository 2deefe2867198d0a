/-
Module: BscMempool.Telemetry.CaptureFaults
Layer: Telemetry
Purpose: The capture sink when the file system fails. A record is two writes into the stream, and
  each may end with an error after a part of its bytes; opening and finishing a segment may fail as
  well.  The error is logged and the next record is written to the same segment.
Trusted boundary: human-reviewed translation of bsc-telemetry/src/capture.rs
Main exports: WriteAll, Attempt, CaptureWriter.rotate, CaptureWriter.tryWriteRecord,
  CaptureWriter.capture
-/
import BscMempool.Telemetry.Capture

namespace BscMempool.Telemetry

/-- How a `write_all` ends; an error leaves the first `n` of its bytes in the stream. -/
inductive WriteAll where
  | whole
  | fails (n : Nat) (error : String)
deriving DecidableEq, Repr

/-- A call of `write_record` and how the calls it makes end. -/
structure Attempt extends Write where
  openError : Option String := none
  finishError : Option String := none
  lenBytes : WriteAll := .whole
  payload : WriteAll := .whole

namespace CaptureWriter

/-- What a write that fails leaves in the active segment. -/
def leave (w : CaptureWriter) (bytes : List UInt8) : CaptureWriter :=
  { w with state := { w.state with encoder := w.state.encoder ++ bytes } }

/-- Replace the active segment when its time is over. A segment that is not
finished cannot be read. -/
def rotate (w : CaptureWriter) (a : Attempt) : Except CaptureError Unit × CaptureWriter :=
  if a.now ≥ w.state.rotateAtUnix then
    match a.openError with
    | some error => (.error (.io error), { w with counter := w.counter + 1 })
    | none =>
        match a.finishError with
        | some error =>
            (.error (.io error),
              { w with counter := w.counter + 1,
                       state := openSegment w.rotateSecs w.counter a.openedAt })
        | none => (.ok (), w.replaceSegment a.openedAt)
  else (.ok (), w)

/-- `write_record`: what it returns, and the writer it leaves. -/
def tryWriteRecord (codec : Bincode) (w : CaptureWriter) (a : Attempt) :
    Except CaptureError Unit × CaptureWriter :=
  match codec.encodeToVec a.record with
  | .error msg => (.error (.encodeSerde msg), w)
  | .ok payload =>
      match w.rotate a with
      | (.error e, w) => (.error e, w)
      | (.ok (), w) =>
          match a.lenBytes with
          | .fails n error => (.error (.io error), w.leave ((Telemetry.lenBytes payload).take n))
          | .whole =>
              match a.payload with
              | .fails n error =>
                  (.error (.io error), w.leave (Telemetry.lenBytes payload ++ payload.take n))
              | .whole => (.ok (), w.append payload)

/-- `run` over the records it receives: the writer, and the records whose `write_record` returned
    `Ok`, each with the number of the segment it went to.  An error is logged. -/
def capture (codec : Bincode) : CaptureWriter → List Attempt →
    CaptureWriter × List (Nat × CaptureRecord)
  | w, [] => (w, [])
  | w, a :: rest =>
      match w.tryWriteRecord codec a with
      | (.ok (), w') =>
          ((w'.capture codec rest).1, (w'.state.path.n, a.record) :: (w'.capture codec rest).2)
      | (.error _, w') => w'.capture codec rest

/-- Where nothing fails this is `writeRecord`. -/
theorem tryWriteRecord_whole (codec : Bincode) (w : CaptureWriter) (write : Write) :
    w.tryWriteRecord codec { toWrite := write } =
      match w.writeRecord codec write.record write.now write.openedAt with
      | .ok w' => (.ok (), w')
      | .error e => (.error e, w) := by
  unfold tryWriteRecord writeRecord rotate
  cases codec.encodeToVec write.record with
  | error msg => rfl
  | ok payload => by_cases due : write.now ≥ w.state.rotateAtUnix <;> simp [due]

end CaptureWriter

end BscMempool.Telemetry
