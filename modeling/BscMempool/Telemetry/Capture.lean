/-
Module: BscMempool.Telemetry.Capture
Layer: Telemetry
Purpose: The capture sink: records are serialised, length-prefixed and appended to the active
  segment, which is replaced by a new one when its time is over.  A segment's content is its
  decompressed byte stream.
Trusted boundary: human-reviewed translation of bsc-telemetry/src/capture.rs; `bincode` is a
  parameter
Main exports: CaptureRecord, Bincode, Bincode.Lawful, CaptureWriter, CaptureWriter.writeRecord,
  CaptureWriter.finalize, CaptureWriter.writeAll
-/
import BscMempool.Codec.Bytes

namespace BscMempool.Telemetry

open Codec

structure CaptureRecord where
  firstSeenNs : UInt64
  /-- `(SourceId, recv_ns)` pairs. -/
  sourceSeen : List (UInt8 × UInt64)
  hash : Vector UInt8 32
  from_ : Vector UInt8 20
  rlp : Option (List UInt8)
  blockNumber : UInt64
  parentBlockHash : Vector UInt8 32
  msIntoBlock : UInt32
deriving DecidableEq, Repr

/-- `bincode::serde` in its standard configuration. -/
structure Bincode where
  encodeToVec : CaptureRecord → Except String (List UInt8)
  /-- The record and how many bytes it took. -/
  decodeFromSlice : List UInt8 → Except String (CaptureRecord × Nat)

/-- What capture and replay rely on: decoding inverts encoding, and fails on an
encoding that is cut short. -/
structure Bincode.Lawful (codec : Bincode) : Prop where
  inverts : ∀ rec payload, codec.encodeToVec rec = .ok payload →
    codec.decodeFromSlice payload = .ok (rec, payload.length)
  truncated : ∀ rec payload n, codec.encodeToVec rec = .ok payload → n < payload.length →
    ∃ msg, codec.decodeFromSlice (payload.take n) = .error msg

inductive CaptureError where
  | io (error : String)
  | encodeSerde (msg : String)
deriving DecidableEq, Repr

/-- The parts of a segment's file name; the second counts the segments of the process. -/
structure SegmentPath where
  unixSecs : UInt64
  n : Nat
deriving DecidableEq, Repr

structure WriterState where
  path : SegmentPath
  /-- What was written to the encoder. -/
  encoder : List UInt8 := []
  bytesWritten : UInt64 := 0
  rotateAtUnix : UInt64
deriving Repr

/-- A segment whose encoder is finished. -/
structure Segment where
  path : SegmentPath
  content : List UInt8
deriving DecidableEq, Repr

structure CaptureWriter where
  rotateSecs : UInt64
  /-- `COUNTER` of `segment_path`. -/
  counter : Nat
  state : WriterState
  /-- The finished segments, in the order in which they were created. -/
  finished : List Segment := []

/-- `u32::MAX`. -/
def u32Max : Nat := 2 ^ 32 - 1

/-- The length prefix of a payload; a length beyond `u32` is written as the largest one. -/
def lenBytes (payload : List UInt8) : List UInt8 := leBytes 4 (min payload.length u32Max)

/-- A record as it stands in the stream. -/
def frame (payload : List UInt8) : List UInt8 := lenBytes payload ++ payload

def openSegment (rotateSecs : UInt64) (counter : Nat) (now : UInt64) : WriterState where
  path := ⟨now, counter⟩
  rotateAtUnix := now + rotateSecs

namespace CaptureWriter

def open_ (rotateSecs now : UInt64) : CaptureWriter where
  rotateSecs := rotateSecs
  counter := 1
  state := openSegment rotateSecs 0 now

/-- Open a new segment and finish the old one. -/
def replaceSegment (w : CaptureWriter) (now : UInt64) : CaptureWriter :=
  { w with
    counter := w.counter + 1
    state := openSegment w.rotateSecs w.counter now
    finished := w.finished ++ [⟨w.state.path, w.state.encoder⟩] }

/-- Append to the active segment. -/
def append (w : CaptureWriter) (payload : List UInt8) : CaptureWriter :=
  { w with
    state := { w.state with
      encoder := w.state.encoder ++ lenBytes payload ++ payload
      bytesWritten :=
        UInt64.ofNat (min (w.state.bytesWritten.toNat + (4 + payload.length)) (UInt64.size - 1)) } }

/-- Serialise and append one record at time `now`; a segment that is opened for it is
opened at `openedAt`. -/
def writeRecord (codec : Bincode) (w : CaptureWriter) (rec : CaptureRecord)
    (now openedAt : UInt64) :
    Except CaptureError CaptureWriter :=
  match codec.encodeToVec rec with
  | .error msg => .error (.encodeSerde msg)
  | .ok payload =>
      let w := if now ≥ w.state.rotateAtUnix then w.replaceSegment openedAt else w
      .ok (w.append payload)

/-- Finish the active segment; a placeholder takes its place. -/
def finalize (w : CaptureWriter) (now : UInt64) : CaptureWriter := w.replaceSegment now

end CaptureWriter

/-- A call of `write_record` and the times it reads. -/
structure Write where
  record : CaptureRecord
  now : UInt64
  openedAt : UInt64

namespace CaptureWriter

/-- Write records one after the other, as long as every write succeeds. -/
def writeAll (codec : Bincode) (w : CaptureWriter) : List Write → Except CaptureError CaptureWriter
  | [] => .ok w
  | write :: rest =>
      match w.writeRecord codec write.record write.now write.openedAt with
      | .error e => .error e
      | .ok w => w.writeAll codec rest

end CaptureWriter

end BscMempool.Telemetry
