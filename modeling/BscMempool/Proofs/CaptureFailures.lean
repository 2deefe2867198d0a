/-
Module: BscMempool.Proofs.CaptureFailures
Layer: Proofs
Purpose: Which records survive a capture write that fails. The stream has no marker by which a
  reader finds the next record, so a part of a record that a failed write leaves takes every later
  record of its segment with it; a failed write that leaves nothing, or all of its record, does no
  harm.
Trusted boundary: none
Main exports: Call, CaptureWriter.calls, Unbroken, Recorded, accepted_return, torn_write_hides_next
-/
import BscMempool.Telemetry.CaptureFaults
import BscMempool.Proofs.CaptureReplay

namespace BscMempool.Telemetry

open Codec

/-! ### Calls that reach the stream -/

namespace Attempt

/-- What the call adds to the stream, once it gets there. -/
def left (codec : Bincode) (a : Attempt) : List UInt8 :=
  match a.lenBytes with
  | .fails n _ => (Telemetry.lenBytes (payloadOf codec a.record)).take n
  | .whole =>
      match a.payload with
      | .fails n _ =>
          Telemetry.lenBytes (payloadOf codec a.record) ++ (payloadOf codec a.record).take n
      | .whole => frame (payloadOf codec a.record)

/-- Neither of the two writes fails. -/
def complete (a : Attempt) : Bool := a.lenBytes == .whole && a.payload == .whole

/-- The call leaves nothing of its record in the stream, or all of it, with a prefix that
says how long it is. -/
def Aligned (codec : Bincode) (a : Attempt) : Prop :=
  a.left codec = [] ∨ (a.left codec = frame (payloadOf codec a.record) ∧ Fits codec a.record)

theorem left_of_complete (codec : Bincode) {a : Attempt} (complete : a.complete = true) :
    a.left codec = frame (payloadOf codec a.record) := by
  obtain ⟨header, payload⟩ : a.lenBytes = .whole ∧ a.payload = .whole := by
    simpa [Attempt.complete] using complete
  simp [left, header, payload]

theorem aligned_of_complete {codec : Bincode} {a : Attempt} (complete : a.complete = true)
    (fits : Fits codec a.record) : a.Aligned codec :=
  .inr ⟨left_of_complete codec complete, fits⟩

end Attempt

theorem frame_ne_nil (payload : List UInt8) : frame payload ≠ [] := by
  intro empty
  have length := congrArg List.length empty
  rw [length_frame] at length
  simp at length

/-- A call that reached the stream of a segment. -/
structure Call where
  segment : Nat
  attempt : Attempt

namespace CaptureWriter

/-- The call that one attempt makes, if its record can be serialised and there
is a segment for it. -/
def call (codec : Bincode) (w : CaptureWriter) (a : Attempt) : List Call :=
  match codec.encodeToVec a.record, w.rotate a with
  | .ok _, (.ok (), w') => [⟨w'.state.path.n, a⟩]
  | _, _ => []

/-- The calls that a run makes. -/
def calls (codec : Bincode) : CaptureWriter → List Attempt → List Call
  | _, [] => []
  | w, a :: rest => w.call codec a ++ calls codec (w.tryWriteRecord codec a).2 rest

end CaptureWriter

/-- The stream of one segment, as its calls leave it. -/
def stream (codec : Bincode) (calls : List Call) (n : Nat) : List UInt8 :=
  (calls.filter (·.segment == n)).flatMap fun call => call.attempt.left codec

@[simp] theorem stream_append (codec : Bincode) (calls more : List Call) (n : Nat) :
    stream codec (calls ++ more) n = stream codec calls n ++ stream codec more n := by
  simp [stream]

theorem stream_eq_nil (codec : Bincode) {calls : List Call} {n : Nat}
    (elsewhere : ∀ call ∈ calls, call.segment ≠ n) : stream codec calls n = [] := by
  have none : calls.filter (·.segment == n) = [] := by
    rw [List.filter_eq_nil_iff]
    intro call member same
    exact elsewhere call member (by simpa using same)
  rw [stream, none]
  rfl

/-! ### What is written -/

/-- Every segment holds what its calls left in it, and no two segments share a number. -/
structure Recorded (codec : Bincode) (w : CaptureWriter) (calls : List Call) : Prop where
  finished : ∀ segment ∈ w.finished, segment.content = stream codec calls segment.path.n
  active : w.state.encoder = stream codec calls w.state.path.n
  current : w.state.path.n < w.counter
  before : ∀ segment ∈ w.finished, segment.path.n ≠ w.state.path.n ∧ segment.path.n < w.counter
  counted : ∀ call ∈ calls, call.segment < w.counter
  encodes : ∀ call ∈ calls, Encodes codec call.attempt.record

namespace Recorded

theorem opened (codec : Bincode) (rotateSecs now : UInt64) :
    Recorded codec (CaptureWriter.open_ rotateSecs now) [] := by
  constructor <;> simp [CaptureWriter.open_, openSegment, stream]

variable {codec : Bincode} {w : CaptureWriter} {calls : List Call}

/-- A new segment is empty; what is kept of the old ones is what they held. -/
theorem reopened (recorded : Recorded codec w calls) (now : UInt64) {kept : List Segment}
    (old : ∀ segment ∈ kept, segment ∈ w.finished ∨ segment = ⟨w.state.path, w.state.encoder⟩) :
    Recorded codec { w with
      counter := w.counter + 1, state := openSegment w.rotateSecs w.counter now, finished := kept }
        calls where
  finished := by
    intro segment member
    rcases old segment member with before | rfl
    · exact recorded.finished segment before
    · exact recorded.active
  active := by
    have unused : ∀ call ∈ calls, call.segment ≠ w.counter :=
      fun call member => ne_of_lt (recorded.counted call member)
    simp [openSegment, stream_eq_nil codec unused]
  current := Nat.lt_succ_self _
  before := by
    intro segment member
    have earlier : segment.path.n < w.counter := by
      rcases old segment member with before | rfl
      · exact (recorded.before segment before).2
      · exact recorded.current
    exact ⟨ne_of_lt earlier, Nat.lt_succ_of_lt earlier⟩
  counted := fun call member => Nat.lt_succ_of_lt (recorded.counted call member)
  encodes := recorded.encodes

theorem replaceSegment (recorded : Recorded codec w calls) (now : UInt64) :
    Recorded codec (w.replaceSegment now) calls := by
  apply recorded.reopened now
  intro segment member
  rcases List.mem_append.mp member with before | last
  · exact .inl before
  · exact .inr (List.mem_singleton.mp last)

theorem rotate (recorded : Recorded codec w calls) (a : Attempt) :
    Recorded codec (w.rotate a).2 calls := by
  unfold CaptureWriter.rotate
  split
  · cases opening : a.openError with
    | some error =>
        constructor
        · exact recorded.finished
        · exact recorded.active
        · exact Nat.lt_succ_of_lt recorded.current
        · intro segment member
          have apart := recorded.before segment member
          exact ⟨apart.1, Nat.lt_succ_of_lt apart.2⟩
        · intro call member
          exact Nat.lt_succ_of_lt (recorded.counted call member)
        · exact recorded.encodes
    | none =>
        cases finishing : a.finishError with
        | some error => exact recorded.reopened a.openedAt fun segment member => .inl member
        | none => exact recorded.replaceSegment a.openedAt
  · exact recorded

/-- Bytes that a call leaves in the active segment. -/
theorem leave (recorded : Recorded codec w calls) {a : Attempt} (encodes : Encodes codec a.record)
    {w' : CaptureWriter} (content : w'.state.encoder = w.state.encoder ++ a.left codec)
    (path : w'.state.path = w.state.path)
    (counter : w'.counter = w.counter) (finished : w'.finished = w.finished) :
    Recorded codec w' (calls ++ [⟨w.state.path.n, a⟩]) where
  finished := by
    intro segment member
    rw [finished] at member
    have elsewhere : stream codec [⟨w.state.path.n, a⟩] segment.path.n = [] := by
      apply stream_eq_nil
      intro call isCall
      rw [List.mem_singleton.mp isCall]
      exact (recorded.before segment member).1.symm
    rw [recorded.finished segment member, stream_append, elsewhere, List.append_nil]
  active := by
    rw [content, path, recorded.active, stream_append]
    simp [stream]
  current := by
    rw [path, counter]
    exact recorded.current
  before := by
    rw [finished, path, counter]
    exact recorded.before
  counted := by
    intro call member
    rw [counter]
    rcases List.mem_append.mp member with before | last
    · exact recorded.counted call before
    · rw [List.mem_singleton.mp last]
      exact recorded.current
  encodes := by
    intro call member
    rcases List.mem_append.mp member with before | last
    · exact recorded.encodes call before
    · rw [List.mem_singleton.mp last]
      exact encodes

/-- One call of `write_record`, however it ends. -/
theorem tryWriteRecord (recorded : Recorded codec w calls) (a : Attempt) :
    Recorded codec (w.tryWriteRecord codec a).2 (calls ++ w.call codec a) := by
  cases encoded : codec.encodeToVec a.record with
  | error msg => simpa [CaptureWriter.tryWriteRecord, CaptureWriter.call, encoded] using recorded
  | ok payload =>
      have isPayload : payloadOf codec a.record = payload := by simp [payloadOf, encoded]
      have encodes : Encodes codec a.record := by rw [Encodes, encoded, isPayload]
      have rotated := recorded.rotate a
      rcases rotation : w.rotate a with ⟨e | _, w'⟩
      · rw [rotation] at rotated
        simpa [CaptureWriter.tryWriteRecord, CaptureWriter.call, encoded, rotation] using rotated
      · rw [rotation] at rotated
        simp only [CaptureWriter.tryWriteRecord, CaptureWriter.call, encoded, rotation]
        cases header : a.lenBytes with
        | fails n error =>
            exact rotated.leave encodes
              (by simp [CaptureWriter.leave, Attempt.left, header, isPayload]) rfl rfl rfl
        | whole =>
            cases body : a.payload with
            | fails n error =>
                exact rotated.leave encodes
                  (by simp [CaptureWriter.leave, Attempt.left, header, body, isPayload])
                  rfl rfl rfl
            | whole =>
                exact rotated.leave encodes
                  (by simp [CaptureWriter.append, Attempt.left, header, body, isPayload, frame])
                  rfl rfl rfl

/-- A whole run. -/
theorem capture (recorded : Recorded codec w calls) (attempts : List Attempt) :
    Recorded codec (w.capture codec attempts).1 (calls ++ w.calls codec attempts) := by
  induction attempts generalizing w calls with
  | nil => simpa [CaptureWriter.capture, CaptureWriter.calls] using recorded
  | cons a rest ih =>
      have later := ih (recorded.tryWriteRecord a)
      rw [List.append_assoc] at later
      simp only [CaptureWriter.capture, CaptureWriter.calls]
      rcases outcome : w.tryWriteRecord codec a with ⟨e | _, w'⟩ <;> rw [outcome] at later
        <;> exact later

end Recorded

/-! ### What is accepted -/

/-- `write_record` returns `Ok` exactly if the call reaches the stream and both writes go
through. -/
theorem call_of_tryWriteRecord (codec : Bincode) (w : CaptureWriter) (a : Attempt) :
    (w.call codec a).filter (·.attempt.complete) =
      if (w.tryWriteRecord codec a).1.isOk then [⟨(w.tryWriteRecord codec a).2.state.path.n, a⟩]
      else [] := by
  cases encoded : codec.encodeToVec a.record with
  | error msg =>
      simp [CaptureWriter.tryWriteRecord, CaptureWriter.call, encoded, Except.isOk, Except.toBool]
  | ok payload =>
      rcases rotation : w.rotate a with ⟨e | _, w'⟩
      · simp [CaptureWriter.tryWriteRecord, CaptureWriter.call, encoded, rotation, Except.isOk,
          Except.toBool]
      · cases header : a.lenBytes with
        | fails n error =>
            simp [CaptureWriter.tryWriteRecord, CaptureWriter.call, encoded, rotation, header,
              Attempt.complete,
              Except.isOk, Except.toBool]
        | whole =>
            cases body : a.payload with
            | fails n error =>
                simp [CaptureWriter.tryWriteRecord, CaptureWriter.call, encoded, rotation, header,
                  body, Attempt.complete,
                  Except.isOk, Except.toBool]
            | whole =>
                simp [CaptureWriter.tryWriteRecord, CaptureWriter.call, encoded, rotation, header,
                  body, Attempt.complete,
                  Except.isOk, Except.toBool, CaptureWriter.append]

theorem accepted_eq (codec : Bincode) (w : CaptureWriter) (attempts : List Attempt) :
    (w.capture codec attempts).2 =
      ((w.calls codec attempts).filter (·.attempt.complete)).map fun call =>
        (call.segment, call.attempt.record) := by
  induction attempts generalizing w with
  | nil => rfl
  | cons a rest ih =>
      have first := call_of_tryWriteRecord codec w a
      simp only [CaptureWriter.capture, CaptureWriter.calls, List.filter_append, List.map_append]
      rcases outcome : w.tryWriteRecord codec a with ⟨e | _, w'⟩
      · rw [outcome] at first
        simpa [first, Except.isOk, Except.toBool] using ih w'
      · rw [outcome] at first
        simpa [first, Except.isOk, Except.toBool] using ih w'

/-! ### What is read -/

namespace ReplayReader

/-- The records that successive calls of `next_record` return, up to the first that has none. -/
def returned (codec : Bincode) (r : ReplayReader) : List ReplayedRecord :=
  match _next : r.nextRecord codec with
  | .error _ => []
  | .ok none => []
  | .ok (some (out, r')) => out :: r'.returned codec
termination_by r.inner.length
decreasing_by exact nextRecord_shorter _next

theorem returned_some {codec : Bincode} {r r' : ReplayReader} {out : ReplayedRecord}
    (read : r.nextRecord codec = .ok (some (out, r'))) :
    r.returned codec = out :: r'.returned codec := by
  rw [returned]
  split
  · rename_i stopped
    rw [read] at stopped
    cases stopped
  · rename_i stopped
    rw [read] at stopped
    cases stopped
  · rename_i went
    rw [read] at went
    cases went
    rfl

theorem returned_error {codec : Bincode} {r : ReplayReader} {e : ReplayError}
    (read : r.nextRecord codec = .error e) : r.returned codec = [] := by
  rw [returned]
  split
  · rfl
  · rfl
  · rename_i went
    rw [read] at went
    cases went

theorem returned_none {codec : Bincode} {r : ReplayReader} (read : r.nextRecord codec = .ok none) :
    r.returned codec = [] := by
  rw [returned]
  split
  · rfl
  · rfl
  · rename_i went
    rw [read] at went
    cases went

end ReplayReader

/-- No record whose `write_record` returns `Ok` is beyond `u32`, and none goes to a segment in which
    an earlier call left a part of its record. -/
structure Unbroken (codec : Bincode) (calls : List Call) : Prop where
  fit : ∀ call ∈ calls, call.attempt.complete = true → Fits codec call.attempt.record
  aligned : calls.Pairwise fun earlier later =>
    later.attempt.complete = true → later.segment = earlier.segment → earlier.attempt.Aligned codec

theorem Unbroken.filter {codec : Bincode} {calls : List Call} (unbroken : Unbroken codec calls)
    (p : Call → Bool) :
    Unbroken codec (calls.filter p) where
  fit := fun call member => unbroken.fit call (List.mem_filter.mp member).1
  aligned := unbroken.aligned.filter p

section
variable {codec : Bincode} (lawful : codec.Lawful) {calls : List Call} (n : Nat)
  (same : ∀ call ∈ calls, call.segment = n)
  (encode : ∀ call ∈ calls, Encodes codec call.attempt.record)
include lawful

include same encode in
/-- The reader returns the records of the complete calls of a segment, in order. -/
theorem complete_sublist (unbroken : Unbroken codec calls) (i : Nat) :
    ((calls.filter (·.attempt.complete)).map (·.attempt.record)).Sublist
      (((⟨calls.flatMap fun call => call.attempt.left codec, i⟩ : ReplayReader).returned codec).map
        ReplayedRecord.record) := by
  induction calls generalizing i with
  | nil => exact List.nil_sublist _
  | cons call rest ih =>
      have sameRest : ∀ later ∈ rest, later.segment = n :=
        fun later member => same later (List.mem_cons_of_mem _ member)
      have encodeRest : ∀ later ∈ rest, Encodes codec later.attempt.record :=
        fun later member => encode later (List.mem_cons_of_mem _ member)
      have aligned := List.pairwise_cons.mp unbroken.aligned
      have unbrokenRest : Unbroken codec rest :=
        ⟨fun later member => unbroken.fit later (List.mem_cons_of_mem _ member), aligned.2⟩
      by_cases first : call.attempt.Aligned codec
      · rw [List.flatMap_cons]
        rcases first with nothing | ⟨whole, fits⟩
        · have incomplete : call.attempt.complete = false := by
            rw [Bool.eq_false_iff]
            intro complete
            rw [Attempt.left_of_complete codec complete] at nothing
            exact frame_ne_nil _ nothing
          have dropped : (call :: rest).filter (·.attempt.complete) =
              rest.filter (·.attempt.complete) := by
            simp [incomplete]
          rw [nothing, List.nil_append, dropped]
          exact ih sameRest encodeRest unbrokenRest i
        · have next := ReplayReader.nextRecord_frame lawful (encode call (by simp)) fits
            (rest.flatMap fun call => call.attempt.left codec) i
          have later := ih sameRest encodeRest unbrokenRest (i + 1)
          rw [whole, ReplayReader.returned_some next, List.map_cons]
          by_cases complete : call.attempt.complete = true
          · have kept : (call :: rest).filter (·.attempt.complete) = call ::
                rest.filter (·.attempt.complete) := by
              simp [complete]
            rw [kept]
            exact later.cons_cons _
          · have dropped : (call :: rest).filter (·.attempt.complete) =
                rest.filter (·.attempt.complete) := by
              simp [complete]
            rw [dropped]
            exact later.cons _
      · -- the reader is lost after this call: no complete one may follow
        have noneComplete : (call :: rest).filter (·.attempt.complete) = [] := by
          rw [List.filter_eq_nil_iff]
          intro later member complete
          rcases List.mem_cons.mp member with rfl | inRest
          · exact first (Attempt.aligned_of_complete complete
              (unbroken.fit later (by simp) complete))
          · have here : later.segment = call.segment := by
              rw [sameRest later inRest, same call (by simp)]
            exact first (aligned.1 later inRest complete here)
        rw [noneComplete]
        exact List.nil_sublist _

include encode in
/-- If no call left a part of its record, nothing is lost by reading all at once. -/
theorem readAll_aligned (aligned : ∀ call ∈ calls, call.attempt.Aligned codec) (i : Nat) :
    (⟨calls.flatMap fun call => call.attempt.left codec, i⟩ : ReplayReader).readAll codec =
      .ok ((⟨calls.flatMap fun call => call.attempt.left codec, i⟩ : ReplayReader).returned
        codec) := by
  induction calls generalizing i with
  | nil =>
      have empty : (⟨[], i⟩ : ReplayReader).nextRecord codec = .ok none := rfl
      rw [List.flatMap_nil, ReplayReader.readAll_none empty, ReplayReader.returned_none empty]
  | cons call rest ih =>
      have encodeRest : ∀ later ∈ rest, Encodes codec later.attempt.record :=
        fun later member => encode later (List.mem_cons_of_mem _ member)
      have alignedRest : ∀ later ∈ rest, later.attempt.Aligned codec :=
        fun later member => aligned later (List.mem_cons_of_mem _ member)
      rw [List.flatMap_cons]
      rcases aligned call (by simp) with nothing | ⟨whole, fits⟩
      · rw [nothing, List.nil_append]
        exact ih encodeRest alignedRest i
      · have next := ReplayReader.nextRecord_frame lawful (encode call (by simp)) fits
          (rest.flatMap fun call => call.attempt.left codec) i
        rw [whole, ReplayReader.readAll_some next, ReplayReader.returned_some next,
          ih encodeRest alignedRest (i + 1)]
        rfl

end

/-! ### A whole run -/

/-- Every call's segment is there to be read, or still active. -/
def Kept (w : CaptureWriter) (calls : List Call) : Prop :=
  ∀ call ∈ calls, call.segment = w.state.path.n ∨
    ∃ segment ∈ w.finished, segment.path.n = call.segment

namespace Kept

variable {codec : Bincode} {w : CaptureWriter} {calls : List Call}

theorem replaceSegment (kept : Kept w calls) (now : UInt64) :
    Kept (w.replaceSegment now) calls := by
  intro call member
  right
  rcases kept call member with active | ⟨segment, finished, there⟩
  · exact ⟨⟨w.state.path, w.state.encoder⟩, List.mem_append_right _ (List.mem_singleton.mpr rfl),
      active.symm⟩
  · exact ⟨segment, List.mem_append_left _ finished, there⟩

theorem opened (rotateSecs now : UInt64) : Kept (CaptureWriter.open_ rotateSecs now) [] := by
  simp [Kept]

theorem rotate (kept : Kept w calls) {a : Attempt} (finishes : a.finishError = none) :
    Kept (w.rotate a).2 calls := by
  unfold CaptureWriter.rotate
  split
  · cases opening : a.openError with
    | some error => exact kept
    | none =>
        simp only [finishes]
        exact kept.replaceSegment a.openedAt
  · exact kept

theorem tryWriteRecord (kept : Kept w calls) {a : Attempt} (finishes : a.finishError = none) :
    Kept (w.tryWriteRecord codec a).2 (calls ++ w.call codec a) := by
  cases encoded : codec.encodeToVec a.record with
  | error msg => simpa [CaptureWriter.tryWriteRecord, CaptureWriter.call, encoded] using kept
  | ok payload =>
      have rotated := kept.rotate finishes
      rcases rotation : w.rotate a with ⟨e | _, w'⟩
      · rw [rotation] at rotated
        simpa [CaptureWriter.tryWriteRecord, CaptureWriter.call, encoded, rotation] using rotated
      · rw [rotation] at rotated
        have added : Kept w' (calls ++ [⟨w'.state.path.n, a⟩]) := by
          intro call member
          rcases List.mem_append.mp member with before | last
          · exact rotated call before
          · left
            rw [List.mem_singleton.mp last]
        simp only [CaptureWriter.tryWriteRecord, CaptureWriter.call, encoded, rotation]
        cases header : a.lenBytes with
        | fails n error => exact added
        | whole =>
            cases body : a.payload with
            | fails n error => exact added
            | whole => exact added

theorem capture (kept : Kept w calls) {attempts : List Attempt}
    (finish : ∀ a ∈ attempts, a.finishError = none) :
    Kept (w.capture codec attempts).1 (calls ++ w.calls codec attempts) := by
  induction attempts generalizing w calls with
  | nil => simpa [CaptureWriter.capture, CaptureWriter.calls] using kept
  | cons a rest ih =>
      have finishRest : ∀ a ∈ rest, a.finishError = none :=
        fun later member => finish later (List.mem_cons_of_mem _ member)
      have step : Kept (w.tryWriteRecord codec a).2 (calls ++ w.call codec a) :=
        kept.tryWriteRecord (finish a (by simp))
      have later := ih step finishRest
      rw [List.append_assoc] at later
      simp only [CaptureWriter.capture, CaptureWriter.calls]
      rcases outcome : w.tryWriteRecord codec a with ⟨e | _, w'⟩ <;> rw [outcome] at later
        <;> exact later

end Kept

/-- The accepted records of one segment. -/
def acceptedIn (accepted : List (Nat × CaptureRecord)) (n : Nat) : List CaptureRecord :=
  (accepted.filter (·.1 == n)).map Prod.snd

/-- However writes fail: where no accepted record is too long or follows a part of a record in its
    segment, the reader returns the accepted records of every finished segment, in order. If no call
    left a part of its record there, reading all at once returns them too; and if `finish` does not
    fail, every accepted record's segment is among the finished ones. -/
theorem accepted_return (codec : Bincode) (lawful : codec.Lawful)
    (rotateSecs openedAt finalizedAt : UInt64)
    (attempts : List Attempt) (w : CaptureWriter) (accepted : List (Nat × CaptureRecord))
    (ran : (CaptureWriter.open_ rotateSecs openedAt).capture codec attempts = (w, accepted))
    (unbroken : Unbroken codec ((CaptureWriter.open_ rotateSecs openedAt).calls codec attempts)) :
    (∀ segment ∈ (w.finalize finalizedAt).finished,
      (acceptedIn accepted segment.path.n).Sublist
        (((⟨segment.content, 0⟩ : ReplayReader).returned codec).map ReplayedRecord.record) ∧
      ((∀ call ∈ (CaptureWriter.open_ rotateSecs openedAt).calls codec attempts,
          call.segment = segment.path.n → call.attempt.Aligned codec) →
        (⟨segment.content, 0⟩ : ReplayReader).readAll codec =
          .ok ((⟨segment.content, 0⟩ : ReplayReader).returned codec))) ∧
    ((∀ a ∈ attempts, a.finishError = none) →
      ∀ n r, (n, r) ∈ accepted → ∃ segment ∈ (w.finalize finalizedAt).finished,
        segment.path.n = n) := by
  have written := (Recorded.opened codec rotateSecs openedAt).capture attempts
  have outcomes := accepted_eq codec (CaptureWriter.open_ rotateSecs openedAt) attempts
  rw [ran] at written outcomes
  rw [List.nil_append] at written
  change accepted = _ at outcomes
  constructor
  · intro segment member
    have content := (written.replaceSegment finalizedAt).finished segment member
    have same : ∀ call ∈ ((CaptureWriter.open_ rotateSecs openedAt).calls codec attempts).filter
        (·.segment == segment.path.n), call.segment = segment.path.n :=
      fun call inSegment => by simpa using (List.mem_filter.mp inSegment).2
    have encode : ∀ call ∈ ((CaptureWriter.open_ rotateSecs openedAt).calls codec attempts).filter
        (·.segment == segment.path.n), Encodes codec call.attempt.record :=
      fun call inSegment => written.encodes call (List.mem_filter.mp inSegment).1
    rw [content, stream]
    constructor
    · have returns := complete_sublist lawful segment.path.n same encode (unbroken.filter _) 0
      have records : acceptedIn accepted segment.path.n =
          ((((CaptureWriter.open_ rotateSecs openedAt).calls codec attempts).filter
            (·.segment == segment.path.n)).filter (·.attempt.complete)).map (·.attempt.record) := by
        rw [acceptedIn, outcomes, List.filter_map, List.map_map, List.filter_filter,
          List.filter_filter]
        simp [Function.comp_def, Bool.and_comm]
      rw [records]
      exact returns
    · intro aligned
      apply readAll_aligned lawful encode
      intro call inSegment
      exact aligned call (List.mem_filter.mp inSegment).1 (same call inSegment)
  · intro finish n r member
    have kept : Kept ((CaptureWriter.open_ rotateSecs openedAt).capture codec attempts).1 _ :=
      (Kept.opened rotateSecs openedAt).capture finish
    rw [ran, List.nil_append] at kept
    rw [outcomes] at member
    obtain ⟨call, inCalls, isCall⟩ := List.mem_map.mp member
    obtain ⟨rfl, rfl⟩ := Prod.mk.inj isCall
    rcases (kept.replaceSegment finalizedAt) call (List.mem_filter.mp inCalls).1
      with active | finished
    · -- the segment that is opened last has a number of its own
      have isNew : call.segment = w.counter := active
      exact absurd isNew (ne_of_lt (written.counted call (List.mem_filter.mp inCalls).1))
    · exact finished

/-- One write fails before its first byte, a record goes through, and one more write
fails inside its prefix. -/
def unbrokenAttempts : List Attempt :=
  [{ record := seenOnce, now := 10, openedAt := 10,
     lenBytes := .fails 0 "no space left on device" },
   { record := seenOnce, now := 11, openedAt := 11 },
   { record := seenOnce, now := 12, openedAt := 12,
     lenBytes := .fails 2 "no space left on device" }]

theorem accepted_return_between_failures :
    (acceptedIn [(0, seenOnce)] 0).Sublist
      (((⟨frame seenOnceBytes ++ (lenBytes seenOnceBytes).take 2, 0⟩ : ReplayReader).returned
        seenOnceCodec).map
        ReplayedRecord.record) := by
  have unbroken : Unbroken seenOnceCodec
      ((CaptureWriter.open_ 60 10).calls seenOnceCodec unbrokenAttempts) := by
    have reached : (CaptureWriter.open_ 60 10).calls seenOnceCodec unbrokenAttempts =
        unbrokenAttempts.map fun a => ⟨0, a⟩ := rfl
    rw [reached]
    constructor
    · intro call member complete
      have isRecord : call.attempt.record = seenOnce := by
        obtain ⟨a, inAttempts, rfl⟩ := List.mem_map.mp member
        simp only [unbrokenAttempts, List.mem_cons, List.not_mem_nil, or_false] at inAttempts
        rcases inAttempts with rfl | rfl | rfl <;> rfl
      rw [Fits, isRecord]
      decide
    · have first : Attempt.Aligned seenOnceCodec
          { record := seenOnce, now := 10, openedAt := 10,
            lenBytes := .fails 0 "no space left on device" } := .inl rfl
      simp [unbrokenAttempts, Attempt.complete, first]
  have returns :=
    accepted_return seenOnceCodec seenOnceCodec_lawful 60 10 20 unbrokenAttempts _
      [(0, seenOnce)] rfl
    unbroken
  exact (returns.1 ⟨⟨10, 0⟩, frame seenOnceBytes ++ (lenBytes seenOnceBytes).take 2⟩
    (List.mem_singleton.mpr rfl)).1

/-- One byte of a length prefix is left, and the record accepted next is lost. -/
theorem torn_write_hides_next :
    ¬ ∀ (codec : Bincode), codec.Lawful → ∀ (rotateSecs openedAt finalizedAt : UInt64)
      (attempts : List Attempt) (w : CaptureWriter) (accepted : List (Nat × CaptureRecord)),
      (∀ a ∈ attempts, a.openError = none ∧ a.finishError = none) →
      (CaptureWriter.open_ rotateSecs openedAt).capture codec attempts = (w, accepted) →
      ∀ segment ∈ (w.finalize finalizedAt).finished, ∀ r ∈ acceptedIn accepted segment.path.n,
        r ∈ ((⟨segment.content, 0⟩ : ReplayReader).returned codec).map ReplayedRecord.record := by
  intro claimed
  have lost := claimed seenOnceCodec seenOnceCodec_lawful 60 10 20
    [{ record := seenOnce, now := 10, openedAt := 10,
       lenBytes := .fails 1 "no space left on device" },
     { record := seenOnce, now := 11, openedAt := 11 }]
    _ [(0, seenOnce)] (by simp) rfl
    ⟨⟨10, 0⟩, (lenBytes seenOnceBytes).take 1 ++ frame seenOnceBytes⟩ (List.mem_singleton.mpr rfl)
    seenOnce (by decide)
  have stuck :
      (⟨(lenBytes seenOnceBytes).take 1 ++ frame seenOnceBytes, 0⟩ : ReplayReader).nextRecord
        seenOnceCodec =
      .error (.truncatedPayload 23387 0 0) := rfl
  rw [ReplayReader.returned_error stuck] at lost
  cases lost

end BscMempool.Telemetry
