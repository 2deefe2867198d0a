/-
Module: BscMempool.Proofs.CaptureReplay
Layer: Proofs
Purpose: Replay reads back what capture wrote, up to the cut. A segment is the sequence of its
  records' frames; read from a cut stream, the records before the cut come back in order, and a cut
  inside a payload is an error. A cut inside a length prefix is not: the reader takes it for the end
  of the stream. Nor does a payload longer than a `u32` come back, its prefix being too small.
Trusted boundary: none
Main exports: frames, Written, written_of_writeAll, InverseUpTo, CleanCut, capture_replay,
  cut_prefix_reads_clean
-/
import BscMempool.Telemetry.Replay

namespace BscMempool.Telemetry

open Codec

section
variable (codec : Bincode)

/-- What `write_record` makes of a record. -/
def payloadOf (r : CaptureRecord) : List UInt8 :=
  match codec.encodeToVec r with
  | .ok payload => payload
  | .error _ => []

/-- The record can be serialised. -/
def Encodes (r : CaptureRecord) : Prop := codec.encodeToVec r = .ok (payloadOf codec r)

/-- The payload's length fits its prefix. -/
def Fits (r : CaptureRecord) : Prop := (payloadOf codec r).length ≤ u32Max

/-- The stream of some records, as blocks. -/
def blocks (records : List CaptureRecord) : List (List UInt8) :=
  records.map fun r => frame (payloadOf codec r)

def frames (records : List CaptureRecord) : List UInt8 := (blocks codec records).flatten

end

@[simp] theorem frames_nil (codec : Bincode) : frames codec [] = [] := rfl

@[simp] theorem frames_cons (codec : Bincode) (r : CaptureRecord) (records : List CaptureRecord) :
    frames codec (r :: records) = frame (payloadOf codec r) ++ frames codec records := rfl

@[simp] theorem frames_append (codec : Bincode) (records more : List CaptureRecord) :
    frames codec (records ++ more) = frames codec records ++ frames codec more := by
  simp [frames, blocks]

theorem frames_take (codec : Bincode) (records : List CaptureRecord) (k : Nat) :
    frames codec (records.take k) = ((blocks codec records).take k).flatten := by
  simp [frames, blocks]

@[simp] theorem length_lenBytes (payload : List UInt8) : (lenBytes payload).length = 4 :=
  length_leBytes 4 _

@[simp] theorem length_frame (payload : List UInt8) :
    (frame payload).length = 4 + payload.length := by simp [frame]

theorem ofLeBytes_lenBytes (payload : List UInt8) :
    ofLeBytes (lenBytes payload) = min payload.length u32Max := by
  have fits : min payload.length u32Max < 256 ^ 4 := by
    have bound : min payload.length u32Max ≤ u32Max := Nat.min_le_right _ _
    have largest : u32Max < 256 ^ 4 := by decide
    omega
  exact ofLeBytes_leBytes_of_lt fits

/-! ### What is written -/

/-- The finished segments hold the frames of `groups`, the active one those of `last`. -/
structure Written (codec : Bincode) (w : CaptureWriter) (groups : List (List CaptureRecord))
    (last : List CaptureRecord) : Prop where
  contents : w.finished.map Segment.content = groups.map (frames codec)
  active : w.state.encoder = frames codec last
  encodes : ∀ r ∈ groups.flatten ++ last, Encodes codec r
  /-- No two segments share a file, and they are listed as they were created. -/
  created : w.finished.map (fun segment => segment.path.n) = List.range w.finished.length
  current : w.state.path.n = w.finished.length
  counted : w.counter = w.finished.length + 1

theorem Written.opened (codec : Bincode) (rotateSecs now : UInt64) :
    Written codec (CaptureWriter.open_ rotateSecs now) [] [] := by
  constructor <;> simp [CaptureWriter.open_, openSegment]

theorem Written.replaceSegment {codec : Bincode} {w : CaptureWriter}
    {groups : List (List CaptureRecord)}
    {last : List CaptureRecord} (written : Written codec w groups last) (now : UInt64) :
    Written codec (w.replaceSegment now) (groups ++ [last]) [] where
  contents := by simp [CaptureWriter.replaceSegment, written.contents, written.active]
  active := rfl
  encodes := by simpa using written.encodes
  created := by
    simp [CaptureWriter.replaceSegment, written.created, written.current, List.range_succ]
  current := by simp [CaptureWriter.replaceSegment, openSegment, written.counted]
  counted := by simp [CaptureWriter.replaceSegment, written.counted]

theorem Written.append {codec : Bincode} {w : CaptureWriter} {groups : List (List CaptureRecord)}
    {last : List CaptureRecord} (written : Written codec w groups last) {r : CaptureRecord}
    (encodes : Encodes codec r) :
    Written codec (w.append (payloadOf codec r)) groups (last ++ [r]) where
  contents := written.contents
  active := by simp [CaptureWriter.append, written.active, frame]
  encodes := by
    intro r' member
    rw [← List.append_assoc] at member
    rcases List.mem_append.mp member with before | isLast
    · exact written.encodes r' before
    · rw [List.mem_singleton.mp isLast]
      exact encodes
  created := written.created
  current := written.current
  counted := written.counted

/-- One write adds its record to the active segment, or to a new one. -/
theorem Written.writeRecord {codec : Bincode} {w w' : CaptureWriter}
    {groups : List (List CaptureRecord)}
    {last : List CaptureRecord} (written : Written codec w groups last) {write : Write}
    (succeeds : w.writeRecord codec write.record write.now write.openedAt = .ok w') :
    ∃ groups' last', Written codec w' groups' last' ∧
      groups'.flatten ++ last' = groups.flatten ++ last ++ [write.record] := by
  unfold CaptureWriter.writeRecord at succeeds
  cases encoded : codec.encodeToVec write.record with
  | error msg => simp [encoded] at succeeds
  | ok payload =>
      have isPayload : payloadOf codec write.record = payload := by simp [payloadOf, encoded]
      have encodes : Encodes codec write.record := by rw [Encodes, encoded, isPayload]
      simp only [encoded, Except.ok.injEq] at succeeds
      subst succeeds
      rw [← isPayload]
      split
      · exact ⟨groups ++ [last], [write.record], (written.replaceSegment _).append encodes, by simp⟩
      · exact ⟨groups, last ++ [write.record], written.append encodes, by simp⟩

theorem written_of_writeAll {codec : Bincode} {w w' : CaptureWriter}
    {groups : List (List CaptureRecord)}
    {last : List CaptureRecord} (written : Written codec w groups last) {writes : List Write}
    (succeed : w.writeAll codec writes = .ok w') :
    ∃ groups' last', Written codec w' groups' last' ∧
      groups'.flatten ++ last' = groups.flatten ++ last ++ writes.map Write.record := by
  induction writes generalizing w groups last with
  | nil =>
      simp only [CaptureWriter.writeAll, Except.ok.injEq] at succeed
      subst succeed
      exact ⟨groups, last, written, by simp⟩
  | cons write rest ih =>
      simp only [CaptureWriter.writeAll] at succeed
      cases first : w.writeRecord codec write.record write.now write.openedAt with
      | error e => simp [first] at succeed
      | ok w₁ =>
          simp only [first] at succeed
          obtain ⟨groups₁, last₁, written₁, added⟩ := written.writeRecord first
          obtain ⟨groups', last', written', all⟩ := ih written₁ succeed
          refine ⟨groups', last', written', ?_⟩
          rw [all, added]
          simp

/-! ### What is read -/

/-- Records as they are replayed, counted from `i`. -/
def indexedFrom : Nat → List CaptureRecord → List ReplayedRecord
  | _, [] => []
  | i, r :: rest => ⟨r, i⟩ :: indexedFrom (i + 1) rest

namespace ReplayReader

theorem readAll_none {codec : Bincode} {r : ReplayReader} (read : r.nextRecord codec = .ok none) :
    r.readAll codec = .ok [] := by
  rw [readAll]
  split
  · rename_i stopped
    rw [read] at stopped
    cases stopped
  · rfl
  · rename_i stopped
    rw [read] at stopped
    cases stopped

theorem readAll_error {codec : Bincode} {r : ReplayReader} {e : ReplayError}
    (read : r.nextRecord codec = .error e) : r.readAll codec = .error e := by
  rw [readAll]
  split
  · rename_i stopped
    rw [read] at stopped
    cases stopped
    rfl
  · rename_i stopped
    rw [read] at stopped
    cases stopped
  · rename_i stopped
    rw [read] at stopped
    cases stopped

theorem readAll_some {codec : Bincode} {r r' : ReplayReader} {out : ReplayedRecord}
    (read : r.nextRecord codec = .ok (some (out, r'))) :
    r.readAll codec = (r'.readAll codec).map (out :: ·) := by
  rw [readAll]
  split
  · rename_i stopped
    rw [read] at stopped
    cases stopped
  · rename_i stopped
    rw [read] at stopped
    cases stopped
  · rename_i went
    rw [read] at went
    cases went
    rfl

/-- Too little for a length prefix: the reader takes it for the end. -/
theorem readAll_end {codec : Bincode} {s : List UInt8} {i : Nat} (short : s.length < 4) :
    (⟨s, i⟩ : ReplayReader).readAll codec = .ok [] := by
  apply readAll_none
  simp [nextRecord, readExact_short short]

/-- Less than the prefix announces. -/
theorem readAll_short {codec : Bincode} {payload part : List UInt8} {i : Nat}
    (short : part.length < min payload.length u32Max) :
    (⟨lenBytes payload ++ part, i⟩ : ReplayReader).readAll codec =
      .error (.truncatedPayload (min payload.length u32Max) 0 i) := by
  apply readAll_error
  simp [nextRecord, readExact_of_length (length_lenBytes payload), ofLeBytes_lenBytes,
    readExact_short short]

/-- A whole frame is the next record. -/
theorem nextRecord_frame {codec : Bincode} (lawful : codec.Lawful) {r : CaptureRecord}
    (encodes : Encodes codec r) (fits : Fits codec r) (s : List UInt8) (i : Nat) :
    (⟨frame (payloadOf codec r) ++ s, i⟩ : ReplayReader).nextRecord codec =
      .ok (some (⟨r, i⟩, ⟨s, i + 1⟩)) := by
  have announced : min (payloadOf codec r).length u32Max = (payloadOf codec r).length :=
    Nat.min_eq_left fits
  have decoded := lawful.inverts r _ encodes
  simp [nextRecord, frame, readExact_of_length (length_lenBytes _), ofLeBytes_lenBytes, announced,
    decoded]

/-- A whole frame is read as its record. -/
theorem readAll_frame {codec : Bincode} (lawful : codec.Lawful) {r : CaptureRecord}
    (encodes : Encodes codec r) (fits : Fits codec r) (s : List UInt8) (i : Nat) :
    (⟨frame (payloadOf codec r) ++ s, i⟩ : ReplayReader).readAll codec =
      ((⟨s, i + 1⟩ : ReplayReader).readAll codec).map (⟨r, i⟩ :: ·) :=
  readAll_some (nextRecord_frame lawful encodes fits s i)

/-- Of a payload beyond `u32` only a part is decoded. -/
theorem readAll_oversize {codec : Bincode} (lawful : codec.Lawful) {r : CaptureRecord}
    (encodes : Encodes codec r) (oversize : ¬ Fits codec r) (s : List UInt8) (i : Nat) :
    ∃ msg, (⟨lenBytes (payloadOf codec r) ++ ((payloadOf codec r).take u32Max ++ s), i⟩ :
      ReplayReader).readAll codec =
      .error (.decodeSerde msg) := by
  have longer : u32Max < (payloadOf codec r).length := Nat.lt_of_not_le oversize
  have announced : min (payloadOf codec r).length u32Max = u32Max :=
    Nat.min_eq_right (le_of_lt longer)
  have length : ((payloadOf codec r).take u32Max).length = u32Max := by simpa using le_of_lt longer
  obtain ⟨msg, failed⟩ := lawful.truncated r _ u32Max encodes longer
  refine ⟨msg, ?_⟩
  apply readAll_error
  simp only [nextRecord, readExact_of_length (length_lenBytes _), ofLeBytes_lenBytes, announced,
    readExact_of_length length, failed]

/-- Whole frames are read as their records, in order, before what follows them. -/
theorem readAll_frames {codec : Bincode} (lawful : codec.Lawful) {records : List CaptureRecord}
    (encode : ∀ r ∈ records, Encodes codec r) (fit : ∀ r ∈ records, Fits codec r) (s : List UInt8)
    (i : Nat) : (⟨frames codec records ++ s, i⟩ : ReplayReader).readAll codec =
      ((⟨s, i + records.length⟩ : ReplayReader).readAll codec).map
        (indexedFrom i records ++ ·) := by
  induction records generalizing i with
  | nil =>
      simp only [frames_nil, List.nil_append, indexedFrom, List.length_nil, Nat.add_zero]
      cases (⟨s, i⟩ : ReplayReader).readAll codec <;> rfl
  | cons r rest ih =>
      have encodeRest : ∀ r ∈ rest, Encodes codec r :=
        fun r' member => encode r' (List.mem_cons_of_mem _ member)
      have fitRest : ∀ r ∈ rest, Fits codec r :=
        fun r' member => fit r' (List.mem_cons_of_mem _ member)
      have first :=
        readAll_frame lawful (encode r (by simp)) (fit r (by simp)) (frames codec rest ++ s) i
      rw [frames_cons, List.append_assoc, first, ih encodeRest fitRest, List.length_cons,
        show i + 1 + rest.length = i + (rest.length + 1) by omega]
      cases (⟨s, i + (rest.length + 1)⟩ : ReplayReader).readAll codec <;> rfl

/-- Once so much of a payload beyond `u32` is there, reading fails on a record
that does not decode. -/
theorem readAll_reaches_oversize {codec : Bincode} (lawful : codec.Lawful)
    {records : List CaptureRecord}
    (encode : ∀ r ∈ records, Encodes codec r) {k : Nat} (at_ : k < records.length)
    (oversize : ¬ Fits codec records[k]) {cut : Nat}
    (reached : (frames codec (records.take k)).length + 4 + u32Max ≤ cut) (i : Nat) :
    ∃ msg, (⟨(frames codec records).take cut, i⟩ : ReplayReader).readAll codec =
      .error (.decodeSerde msg) := by
  induction records generalizing k cut i with
  | nil => simp at at_
  | cons r rest ih =>
      have encodesFirst := encode r (by simp)
      by_cases fits : Fits codec r
      · cases k with
        | zero => exact absurd fits oversize
        | succ k =>
            rw [List.take_succ_cons, frames_cons, List.length_append] at reached
            have encodeRest : ∀ r ∈ rest, Encodes codec r :=
              fun r' member => encode r' (List.mem_cons_of_mem _ member)
            have further : (frames codec (rest.take k)).length + 4 + u32Max ≤
                cut - (frame (payloadOf codec r)).length := by omega
            obtain ⟨msg, failed⟩ :=
              ih encodeRest (by simpa using at_) (by simpa using oversize) further (i + 1)
            have whole : (frame (payloadOf codec r)).length ≤ cut := by omega
            refine ⟨msg, ?_⟩
            rw [frames_cons, List.take_append, List.take_of_length_le whole,
              readAll_frame lawful encodesFirst fits, failed]
            rfl
      · -- the first record is too long already
        have longer : u32Max < (payloadOf codec r).length := Nat.lt_of_not_le fits
        have enough : 4 + u32Max ≤ cut := by omega
        have front : (frames codec (r :: rest)).take cut =
            lenBytes (payloadOf codec r) ++ ((payloadOf codec r).take u32Max ++
              (((payloadOf codec r).drop u32Max ++ frames codec rest).take
                (cut - 4 - u32Max))) := by
          have split : frames codec (r :: rest) = lenBytes (payloadOf codec r) ++
              ((payloadOf codec r).take u32Max ++
              ((payloadOf codec r).drop u32Max ++ frames codec rest)) := by
            rw [frames_cons, frame, List.append_assoc, ← List.append_assoc (List.take _ _),
              List.take_append_drop]
          have announced : ((payloadOf codec r).take u32Max).length = u32Max := by
            simpa using le_of_lt longer
          rw [split, List.take_append, List.take_of_length_le (by rw [length_lenBytes]; omega),
            List.take_append,
            List.take_of_length_le (by rw [length_lenBytes, announced]; omega), length_lenBytes,
            announced]
        rw [front]
        exact readAll_oversize lawful encodesFirst fits _ i

end ReplayReader

/-! ### Cuts -/

/-- The stream ends too early, in a length prefix or in a payload. -/
def ReplayError.IsTruncated : ReplayError → Prop
  | .truncatedHeader _ => True
  | .truncatedPayload _ _ _ => True
  | .decodeSerde _ => False

section
variable (codec : Bincode)

/-- Read the stream of some records that ends after `cut` bytes. -/
def readCut (records : List CaptureRecord) (cut : Nat) : Except ReplayError (List ReplayedRecord) :=
  (⟨(frames codec records).take cut, 0⟩ : ReplayReader).readAll codec

/-- A cut at the end of a record yields the records before it, numbered from zero; any other is
    reported as a truncation. -/
structure InverseUpTo (records : List CaptureRecord) (cut : Nat) : Prop where
  boundary : ∀ k ≤ records.length, cut = (frames codec (records.take k)).length →
    readCut codec records cut = .ok (indexedFrom 0 (records.take k))
  inside : (∀ k ≤ records.length, cut ≠ (frames codec (records.take k)).length) →
    ∃ e, readCut codec records cut = .error e ∧ e.IsTruncated

/-- The cut is not within a length prefix, and no payload beyond `u32` is there as far
as its prefix says. -/
structure CleanCut (records : List CaptureRecord) (cut : Nat) : Prop where
  header : ∀ k < records.length, (frames codec (records.take k)).length < cut →
    (frames codec (records.take k)).length + 4 ≤ cut
  oversize : ∀ k (at_ : k < records.length), ¬ Fits codec records[k] →
    cut < (frames codec (records.take k)).length + 4 + u32Max

end

section
variable {codec : Bincode} {records : List CaptureRecord}

theorem length_blocks : (blocks codec records).length = records.length := by simp [blocks]

theorem getElem_blocks {k : Nat} (at_ : k < records.length)
    {bound : k < (blocks codec records).length} :
    (blocks codec records)[k] = frame (payloadOf codec records[k]) := by
  simp [blocks]

theorem frames_boundary (k : Nat) :
    (frames codec records).take (frames codec (records.take k)).length =
      frames codec (records.take k) := by
  simp only [frames_take]
  exact take_flatten_boundary (blocks codec records) k

/-- What a cut within the `k`-th frame leaves. -/
theorem frames_inside {k : Nat} (at_ : k < records.length) {j : Nat}
    (within : j ≤ (frame (payloadOf codec records[k])).length) :
    (frames codec records).take ((frames codec (records.take k)).length + j) =
      frames codec (records.take k) ++ (frame (payloadOf codec records[k])).take j := by
  have next : k < (blocks codec records).length := by rw [length_blocks]; exact at_
  have cutBlock :=
    take_flatten (blocks codec records) next j (by rw [getElem_blocks at_]; exact within)
  rw [getElem_blocks at_] at cutBlock
  simp only [frames_take]
  exact cutBlock

theorem frames_succ {k : Nat} (at_ : k < records.length) :
    (frames codec (records.take (k + 1))).length =
      (frames codec (records.take k)).length + (frame (payloadOf codec records[k])).length := by
  have next : k < (blocks codec records).length := by rw [length_blocks]; exact at_
  have step := boundary_succ (blocks codec records) next
  rw [getElem_blocks at_] at step
  simpa only [frames_take] using step

theorem frames_mono {k m : Nat} (before : k ≤ m) :
    (frames codec (records.take k)).length ≤ (frames codec (records.take m)).length := by
  simp only [frames_take]
  exact boundary_mono (blocks codec records) before

/-- An earlier record's frame, its prefix included, lies before the later records. -/
theorem frames_through {i k : Nat} (at_ : i < records.length) (before : i < k) :
    (frames codec (records.take i)).length + 4 + (payloadOf codec records[i]).length ≤
      (frames codec (records.take k)).length := by
  have ends : (frames codec (records.take (i + 1))).length ≤
      (frames codec (records.take k)).length :=
    frames_mono (Nat.succ_le_of_lt before)
  rw [frames_succ at_, length_frame] at ends
  omega

/-- Records that end before a clean cut fit their prefixes. -/
theorem CleanCut.fit {cut : Nat} (clean : CleanCut codec records cut) {k : Nat}
    (bound : k ≤ records.length)
    (upTo : (frames codec (records.take k)).length ≤ cut) : ∀ r ∈ records.take k, Fits codec r := by
  intro r member
  by_contra oversize
  obtain ⟨i, within, rfl⟩ := List.getElem_of_mem member
  rw [List.length_take] at within
  have before : i < k := lt_of_lt_of_le within (Nat.min_le_left _ _)
  have at_ : i < records.length := by omega
  rw [List.getElem_take] at oversize
  have early := clean.oversize i at_ oversize
  have longer : u32Max < (payloadOf codec records[i]).length := Nat.lt_of_not_le oversize
  have ends : (frames codec (records.take i)).length + 4 + (payloadOf codec records[i]).length ≤
      (frames codec (records.take k)).length := frames_through at_ before
  omega

/-- Where reading is inverse no record fails to decode. -/
theorem InverseUpTo.decodes {cut : Nat} (inverse : InverseUpTo codec records cut) (msg : String) :
    readCut codec records cut ≠ .error (.decodeSerde msg) := by
  intro failed
  by_cases boundary : ∃ k ≤ records.length, cut = (frames codec (records.take k)).length
  · obtain ⟨k, bound, at_⟩ := boundary
    have read := inverse.boundary k bound at_
    rw [failed] at read
    cases read
  · push Not at boundary
    obtain ⟨e, read, truncated⟩ := inverse.inside boundary
    rw [failed] at read
    cases read
    exact truncated

variable (lawful : codec.Lawful) (encode : ∀ r ∈ records, Encodes codec r)
include lawful encode

/-- What a cut within the `k`-th frame reads as, the frames before it being whole. -/
theorem readCut_inside {k : Nat} (at_ : k < records.length)
    (fit : ∀ r ∈ records.take k, Fits codec r) {j : Nat}
    (within : j ≤ (frame (payloadOf codec records[k])).length) :
    readCut codec records ((frames codec (records.take k)).length + j) =
      ((⟨(frame (payloadOf codec records[k])).take j, k⟩ : ReplayReader).readAll codec).map
        (indexedFrom 0 (records.take k) ++ ·) := by
  have encodeFront : ∀ r ∈ records.take k, Encodes codec r :=
    fun r member => encode r (List.mem_of_mem_take member)
  have count : 0 + (records.take k).length = k := by
    rw [List.length_take]
    omega
  rw [readCut, frames_inside at_ within, ReplayReader.readAll_frames lawful encodeFront fit, count]

/-- A cut within a length prefix is taken for the end of the stream, if nothing before
it fails to decode. -/
theorem not_inverse_of_header {k : Nat} (at_ : k < records.length) {cut : Nat}
    (after : (frames codec (records.take k)).length < cut)
    (before : cut < (frames codec (records.take k)).length + 4) :
    ¬ InverseUpTo codec records cut := by
  intro inverse
  obtain ⟨j, rfl⟩ := Nat.exists_eq_add_of_le (le_of_lt after)
  have pos : 0 < j := by omega
  have few : j < 4 := by omega
  have inFrame : j < (frame (payloadOf codec records[k])).length := by
    rw [length_frame]
    omega
  have noBoundary : ∀ m ≤ records.length,
      (frames codec (records.take k)).length + j ≠ (frames codec (records.take m)).length := by
    intro m _
    have next : k < (blocks codec records).length := by rw [length_blocks]; exact at_
    have inBlock : j < (blocks codec records)[k].length := by rw [getElem_blocks at_]; exact inFrame
    have apart := ne_boundary_of_inside (blocks codec records) next pos inBlock m
    simpa only [frames_take] using apart
  by_cases fit : ∀ r ∈ records.take k, Fits codec r
  · obtain ⟨e, failed, -⟩ := inverse.inside noBoundary
    have short : ((frame (payloadOf codec records[k])).take j).length < 4 := by
      rw [List.length_take]
      omega
    rw [readCut_inside lawful encode at_ fit (le_of_lt inFrame),
      ReplayReader.readAll_end short] at failed
    cases failed
  · push Not at fit
    obtain ⟨r, member, oversize⟩ := fit
    obtain ⟨i, within, rfl⟩ := List.getElem_of_mem member
    rw [List.length_take] at within
    have early : i < k := by omega
    have there : i < records.length := by omega
    rw [List.getElem_take] at oversize
    have longer : u32Max < (payloadOf codec records[i]).length := Nat.lt_of_not_le oversize
    have ends : (frames codec (records.take i)).length + 4 + (payloadOf codec records[i]).length ≤
        (frames codec (records.take k)).length := frames_through there early
    have reached : (frames codec (records.take i)).length + 4 + u32Max ≤
        (frames codec (records.take k)).length + j := by omega
    obtain ⟨msg, failed⟩ :=
      ReplayReader.readAll_reaches_oversize lawful encode there oversize reached 0
    exact inverse.decodes msg failed

/-- Reading a stream up to a cut is inverse to writing exactly if the cut is clean. -/
theorem inverseUpTo_iff {cut : Nat} (within : cut ≤ (frames codec records).length) :
    InverseUpTo codec records cut ↔ CleanCut codec records cut := by
  constructor
  · intro inverse
    constructor
    · intro k at_ after
      by_contra before
      exact not_inverse_of_header lawful encode at_ after (Nat.lt_of_not_le before) inverse
    · intro k at_ oversize
      by_contra reached
      obtain ⟨msg, failed⟩ :=
        ReplayReader.readAll_reaches_oversize lawful encode at_ oversize
          (Nat.le_of_not_lt reached) 0
      exact inverse.decodes msg failed
  · intro clean
    constructor
    · intro k bound atEnd
      have fit := clean.fit bound (le_of_eq atEnd.symm)
      have encodeFront : ∀ r ∈ records.take k, Encodes codec r :=
        fun r member => encode r (List.mem_of_mem_take member)
      have whole := ReplayReader.readAll_frames lawful encodeFront fit [] 0
      have nothing : (⟨[], 0 + (records.take k).length⟩ : ReplayReader).readAll codec = .ok [] :=
        ReplayReader.readAll_end (by simp)
      rw [List.append_nil, nothing] at whole
      rw [readCut, atEnd, frames_boundary, whole]
      simp [Except.map]
    · intro noBoundary
      have withinBlocks : cut ≤ (blocks codec records).flatten.length := within
      rcases exists_cut_flatten (blocks codec records) withinBlocks
        with ⟨k, bound, atEnd⟩ | ⟨k, next, j, pos, part, at_⟩
      · rw [length_blocks] at bound
        exact absurd atEnd (by simpa only [frames_take] using noBoundary k bound)
      · have there : k < records.length := by rwa [length_blocks] at next
        rw [getElem_blocks there, length_frame] at part
        rw [← frames_take] at at_
        subst at_
        have header : 4 ≤ j := by
          have enough := clean.header k there (by omega)
          omega
        have fit := clean.fit (le_of_lt there) (Nat.le_add_right _ _)
        have cutFrame : (frame (payloadOf codec records[k])).take j =
            lenBytes (payloadOf codec records[k]) ++ (payloadOf codec records[k]).take (j - 4) := by
          rw [frame, List.take_append, List.take_of_length_le (by simpa using header),
            length_lenBytes]
        have short : ((payloadOf codec records[k]).take (j - 4)).length <
            min (payloadOf codec records[k]).length u32Max := by
          rw [List.length_take, Nat.lt_min]
          constructor
          · omega
          · by_cases fits : Fits codec records[k]
            · have bounded : (payloadOf codec records[k]).length ≤ u32Max := fits
              omega
            · have early := clean.oversize k there fits
              omega
        refine ⟨.truncatedPayload (min (payloadOf codec records[k]).length u32Max) 0 k, ?_, trivial⟩
        rw [readCut_inside lawful encode there fit (by rw [length_frame]; omega), cutFrame,
          ReplayReader.readAll_short short]
        rfl

/-- A whole stream is read back if every payload fits its prefix. -/
theorem readAll_whole (fit : ∀ r ∈ records, Fits codec r) :
    (⟨frames codec records, 0⟩ : ReplayReader).readAll codec = .ok (indexedFrom 0 records) := by
  have whole := ReplayReader.readAll_frames lawful encode fit [] 0
  have nothing : (⟨[], 0 + records.length⟩ : ReplayReader).readAll codec = .ok [] :=
    ReplayReader.readAll_end (by simp)
  rw [List.append_nil, nothing] at whole
  rw [whole]
  simp [Except.map]

/-- And is not read at all otherwise. -/
theorem readAll_whole_fails {r : CaptureRecord} (member : r ∈ records) (oversize : ¬ Fits codec r) :
    ∃ msg, (⟨frames codec records, 0⟩ : ReplayReader).readAll codec =
      .error (.decodeSerde msg) := by
  obtain ⟨k, at_, rfl⟩ := List.getElem_of_mem member
  have longer : u32Max < (payloadOf codec records[k]).length := Nat.lt_of_not_le oversize
  have ends : (frames codec (records.take k)).length + 4 + (payloadOf codec records[k]).length ≤
      (frames codec (records.take records.length)).length := frames_through at_ at_
  rw [List.take_length] at ends
  have reached : (frames codec (records.take k)).length + 4 + u32Max ≤
      (frames codec records).length := by omega
  obtain ⟨msg, failed⟩ := ReplayReader.readAll_reaches_oversize lawful encode at_ oversize reached 0
  rw [List.take_length] at failed
  exact ⟨msg, failed⟩

end

/-! ### Capture and replay -/

/-- Read segments one after the other; the records of all of them. -/
def replaySegments (codec : Bincode) : List Segment → Except ReplayError (List CaptureRecord)
  | [] => .ok []
  | segment :: rest =>
      match (⟨segment.content, 0⟩ : ReplayReader).readAll codec with
      | .error e => .error e
      | .ok out => (replaySegments codec rest).map (out.map ReplayedRecord.record ++ ·)

@[simp] theorem map_record_indexedFrom (i : Nat) (records : List CaptureRecord) :
    (indexedFrom i records).map ReplayedRecord.record = records := by
  induction records generalizing i with
  | nil => rfl
  | cons r rest ih => simp [indexedFrom, ih]

theorem replaySegments_iff {codec : Bincode} (lawful : codec.Lawful) {segments : List Segment}
    {groups : List (List CaptureRecord)}
    (contents : segments.map Segment.content = groups.map (frames codec))
    (encode : ∀ r ∈ groups.flatten, Encodes codec r) :
    replaySegments codec segments = .ok groups.flatten ↔ ∀ r ∈ groups.flatten, Fits codec r := by
  induction segments generalizing groups with
  | nil =>
      cases groups with
      | nil => simp [replaySegments]
      | cons g rest => simp at contents
  | cons segment rest ih =>
      cases groups with
      | nil => simp at contents
      | cons g groups =>
          simp only [List.map_cons, List.cons.injEq] at contents
          obtain ⟨content, later⟩ := contents
          simp only [List.flatten_cons, List.forall_mem_append] at encode ⊢
          by_cases fit : ∀ r ∈ g, Fits codec r
          · have first := readAll_whole lawful encode.1 fit
            have others := ih later encode.2
            rw [replaySegments, content, first, ← others]
            cases replaySegments codec rest with
            | error e => simp [Except.map]
            | ok records => simpa [Except.map] using fun _ => fit
          · have fails : ∃ r ∈ g, ¬ Fits codec r := by
              push Not at fit
              exact fit
            obtain ⟨r, member, oversize⟩ := fails
            obtain ⟨msg, failed⟩ := readAll_whole_fails lawful encode.1 member oversize
            rw [replaySegments, content, failed]
            constructor
            · intro read
              cases read
            · rintro ⟨fits, -⟩
              exact absurd fits fit

/-- However the segments rotate: every finished segment holds the frames of a run of the records,
    reading it up to a cut is inverse to writing exactly if the cut is clean, and the segments
    together give back the list exactly if every payload fits its prefix. -/
theorem capture_replay (codec : Bincode) (lawful : codec.Lawful)
    (rotateSecs openedAt finalizedAt : UInt64) (writes : List Write) (w : CaptureWriter)
    (succeed : (CaptureWriter.open_ rotateSecs openedAt).writeAll codec writes = .ok w) :
    ∃ groups : List (List CaptureRecord), groups.flatten = writes.map Write.record ∧
      (w.finalize finalizedAt).finished.map Segment.content = groups.map (frames codec) ∧
      (w.finalize finalizedAt).finished.map (fun segment => segment.path.n) =
        List.range groups.length ∧
      (∀ records ∈ groups, ∀ cut ≤ (frames codec records).length,
        InverseUpTo codec records cut ↔ CleanCut codec records cut) ∧
      (replaySegments codec (w.finalize finalizedAt).finished = .ok (writes.map Write.record) ↔
        ∀ write ∈ writes, Fits codec write.record) := by
  obtain ⟨groups, last, written, all⟩ :=
    written_of_writeAll (Written.opened codec rotateSecs openedAt) succeed
  have finalized : Written codec (w.finalize finalizedAt) (groups ++ [last]) [] :=
    written.replaceSegment finalizedAt
  have whole : (groups ++ [last]).flatten = writes.map Write.record := by
    rw [List.flatten_append, List.flatten_singleton, all]
    rfl
  have encode : ∀ r ∈ (groups ++ [last]).flatten, Encodes codec r := fun r member =>
    finalized.encodes r (List.mem_append_left _ member)
  have number : (w.finalize finalizedAt).finished.length = (groups ++ [last]).length := by
    have lengths := congrArg List.length finalized.contents
    simpa only [List.length_map] using lengths
  refine ⟨groups ++ [last], whole, finalized.contents, ?_, ?_, ?_⟩
  · rw [← number]
    exact finalized.created
  · intro records member cut within
    have encodeGroup : ∀ r ∈ records, Encodes codec r := fun r inGroup =>
      encode r (List.mem_flatten.mpr ⟨records, member, inGroup⟩)
    exact inverseUpTo_iff lawful encodeGroup within
  · have together := replaySegments_iff lawful finalized.contents encode
    rw [whole] at together
    simpa only [List.forall_mem_map] using together

/-! ### One record -/

/-- A transaction seen once, without its raw bytes. -/
def seenOnce : CaptureRecord where
  firstSeenNs := 1
  sourceSeen := [(0, 1)]
  hash := Vector.replicate 32 0
  from_ := Vector.replicate 20 0
  rlp := none
  blockNumber := 5
  parentBlockHash := Vector.replicate 32 0
  msIntoBlock := 7

/-- Its encoding: small numbers and lengths take one byte, arrays stand as they are. -/
def seenOnceBytes : List UInt8 :=
  [1, 1, 0, 1] ++ List.replicate 32 0 ++ List.replicate 20 0 ++ [0, 5] ++ List.replicate 32 0 ++ [7]

/-- `bincode` on that record; it refuses all others. -/
def seenOnceCodec : Bincode where
  encodeToVec r := if r = seenOnce then .ok seenOnceBytes else .error "unsupported record"
  decodeFromSlice b :=
    if b = seenOnceBytes then .ok (seenOnce, seenOnceBytes.length) else .error "unexpected end"

theorem seenOnceCodec_lawful : seenOnceCodec.Lawful where
  inverts := by
    intro r payload encoded
    by_cases same : r = seenOnce
    · simp only [seenOnceCodec, same, if_true, Except.ok.injEq] at encoded ⊢
      simp [← encoded]
    · simp [seenOnceCodec, same] at encoded
  truncated := by
    intro r payload n encoded short
    by_cases same : r = seenOnce
    · simp only [seenOnceCodec, same, if_true, Except.ok.injEq] at encoded
      subst encoded
      have shorter : seenOnceBytes.take n ≠ seenOnceBytes := by
        intro whole
        have lengths := congrArg List.length whole
        rw [List.length_take] at lengths
        omega
      exact ⟨"unexpected end", by simp [seenOnceCodec, shorter]⟩
    · simp [seenOnceCodec, same] at encoded

/-- Two records, the second in a segment of its own. -/
def seenOnceWrites : List Write := [⟨seenOnce, 10, 10⟩, ⟨seenOnce, 100, 100⟩]

/-- What the writer holds after them. -/
def seenOnceWriter : CaptureWriter :=
  (((CaptureWriter.open_ 60 10).append seenOnceBytes).replaceSegment 100).append seenOnceBytes

theorem seenOnce_writes : (CaptureWriter.open_ 60 10).writeAll seenOnceCodec seenOnceWrites =
    .ok seenOnceWriter := by
  rfl

theorem capture_replay_two_segments :
    ∃ groups : List (List CaptureRecord), groups.flatten = [seenOnce, seenOnce] ∧
      groups.length = 2 ∧
      replaySegments seenOnceCodec (seenOnceWriter.finalize 200).finished =
        .ok [seenOnce, seenOnce] := by
  obtain ⟨groups, whole, contents, -, -, together⟩ :=
    capture_replay seenOnceCodec seenOnceCodec_lawful 60 10 200
    seenOnceWrites seenOnceWriter seenOnce_writes
  refine ⟨groups, whole, ?_, together.mpr ?_⟩
  · have lengths := congrArg List.length contents
    rw [List.length_map, List.length_map] at lengths
    rw [← lengths]
    rfl
  · intro write member
    have isRecord : write.record = seenOnce := by
      simp only [seenOnceWrites, List.mem_cons, List.not_mem_nil, or_false] at member
      rcases member with rfl | rfl <;> rfl
    rw [isRecord, Fits]
    decide

/-- A stream cut after two bytes of a length prefix is read as if it ended before the record. -/
theorem cut_prefix_reads_clean :
    ¬ ∀ (codec : Bincode), codec.Lawful → ∀ (rotateSecs openedAt finalizedAt : UInt64)
      (writes : List Write)
      (w : CaptureWriter), (CaptureWriter.open_ rotateSecs openedAt).writeAll codec writes = .ok w →
      ∃ groups : List (List CaptureRecord), groups.flatten = writes.map Write.record ∧
        (w.finalize finalizedAt).finished.map Segment.content = groups.map (frames codec) ∧
        (∀ records ∈ groups, ∀ cut ≤ (frames codec records).length, InverseUpTo codec records cut) ∧
        replaySegments codec (w.finalize finalizedAt).finished = .ok (writes.map Write.record) := by
  intro claimed
  obtain ⟨groups, whole, contents, inverse, -⟩ :=
    claimed seenOnceCodec seenOnceCodec_lawful 60 10 200
    [⟨seenOnce, 10, 10⟩] ((CaptureWriter.open_ 60 10).append seenOnceBytes) rfl
  have single : groups = [[seenOnce]] := by
    have number := congrArg List.length contents
    rw [List.length_map, List.length_map] at number
    obtain ⟨records, rfl⟩ := List.length_eq_one_iff.mp number.symm
    simpa using whole
  have cutWithin : 2 ≤ (frames seenOnceCodec [seenOnce]).length := by decide
  have atCut := inverse [seenOnce] (by simp [single]) 2 cutWithin
  have encode : ∀ r ∈ [seenOnce], Encodes seenOnceCodec r := by
    intro r member
    rw [List.mem_singleton.mp member]
    rfl
  exact not_inverse_of_header seenOnceCodec_lawful encode (k := 0) (by simp) (by simp)
    (by simp) atCut

end BscMempool.Telemetry
