/-
Module: BscMempool.Proofs.PipelineFlow
Layer: Proofs
Purpose: The pipeline loses and invents nothing. Every task keeps to a protocol: what a worker took
  and could decode is what it sends next, and what the dedupe task took is what it records. So
  whatever the sources had accepted is queued, in a worker's hands, waiting for the dedupe task, or
  was taken by it, in any interleaving.
Trusted boundary: none
Main exports: Stage, Pipeline.protocol, Pipeline.obeys, accepted, received, taken, hands,
  pipeline_conserves, single_worker_in_order
-/
import BscMempool.Bus.Pipeline

namespace BscMempool.Bus

open Concurrent (Broadcast Config Fifo Machine Outcome Proc Protocol Received Tid)

variable {Envelope : Type}

/-! ### The protocol of the tasks -/

/-- What a task has in its hands between two operations. -/
inductive Stage (Envelope : Type) where
  | idle
  | decoded (d : DecodedTx Envelope)
  | taken (d : DecodedTx Envelope)
  | fresh (d : DecodedTx Envelope) (fs : FirstSeen)
  | stamped (d : DecodedTx Envelope) (fs : FirstSeen) (context : BlockContext)

namespace Stage

/-- What a task may do with what it holds. -/
def Admits (q : Stage Envelope) : PipeOp Envelope → Prop
  | .sendDecoded d => q = .decoded d
  | .record hash source recvNs =>
      ∃ d, q = .taken d ∧ hash = d.hash ∧ source = d.source ∧ recvNs = d.recvNs
  | .blockContextFor unixNs => ∃ d fs, q = .fresh d fs ∧ unixNs = d.recvNs
  | .publish p => ∃ d fs context, q = .stamped d fs context ∧ p = Pipeline.pendingOf d fs context
  | _ => q = .idle

/-- What it holds afterwards. -/
def next (x : Pipeline Envelope) (q : Stage Envelope) :
    (o : PipeOp Envelope) → o.Res → Stage Envelope
  | .recvRaw, some raw =>
      match x.lib.decodeToDecoded raw with
      | .ok d => .decoded d
      | .error _ => .idle
  | .recvDecoded, some d => .taken d
  | .record .., .fresh fs =>
      match q with
      | .taken d => .fresh d fs
      | _ => .idle
  | .blockContextFor _, context =>
      match q with
      | .fresh d fs => .stamped d fs context
      | _ => .idle
  | _, _ => .idle

/-- The decoded transaction that waits for room in the queue. -/
def hand : Stage Envelope → Option (DecodedTx Envelope)
  | .decoded d => some d
  | _ => none

end Stage

/-- Which task makes which operations. -/
def PipeTask.Does : PipeTask Envelope → PipeOp Envelope → Prop
  | .worker _, .recvRaw => True
  | .worker _, .dropRawRx => True
  | .worker _, .sendDecoded _ => True
  | .worker _, .dropDecodedTx => True
  | .dedupe _, .recvDecoded => True
  | .dedupe _, .dropDecodedRx => True
  | .dedupe _, .record .. => True
  | .dedupe _, .blockContextFor _ => True
  | .dedupe _, .publish _ => True
  | .janitor _, .unixNowNs => True
  | .janitor _, .sweepShard .. => True
  | .source _, .trySendRaw _ => True
  | .heads _, .onNewHead _ => True
  | .subscriber i _, .recv j => j = i
  | .subscriber i _, .dropSubscription j => j = i
  | _, _ => False

namespace Pipeline

variable (x : Pipeline Envelope)

def protocol (t : PipeTask Envelope) : Protocol (PipeSig Envelope) (Stage Envelope) where
  allows q o := t.Does o ∧ q.Admits o
  next q o result := q.next x o result

variable {x}

theorem stopWorker_obeys (rounds : Nat) :
    (stopWorker : Piping Envelope Unit).Obeys (x.protocol (.worker rounds)) (fun q _ => q = .idle)
      .idle := by
  unfold stopWorker
  apply Proc.Obeys.call
  · exact ⟨trivial, rfl⟩
  intro _
  exact ⟨⟨trivial, rfl⟩, fun _ => rfl⟩

theorem runDecoderWorker_obeys (all rounds : Nat) :
    (x.runDecoderWorker rounds).Obeys (x.protocol (.worker all)) (fun q _ => q = .idle) .idle := by
  induction rounds with
  | zero => exact stopWorker_obeys all
  | succ rounds ih =>
      unfold runDecoderWorker
      apply Proc.Obeys.call
      · exact ⟨trivial, rfl⟩
      intro got
      cases got with
      | none => exact stopWorker_obeys all
      | some raw =>
          simp only [protocol, Stage.next]
          cases x.lib.decodeToDecoded raw with
          | error _ => exact ih
          | ok d =>
              apply Proc.Obeys.call
              · exact ⟨trivial, rfl⟩
              intro sent
              simp only
              split
              · exact ih
              · exact stopWorker_obeys all

theorem runDedupe_obeys (all rounds : Nat) :
    (runDedupe rounds : Piping Envelope Unit).Obeys (x.protocol (.dedupe all))
      (fun q _ => q = .idle) .idle := by
  induction rounds with
  | zero => exact ⟨⟨trivial, rfl⟩, fun _ => rfl⟩
  | succ rounds ih =>
      unfold runDedupe
      apply Proc.Obeys.call
      · exact ⟨trivial, rfl⟩
      intro got
      cases got with
      | none => exact ⟨⟨trivial, rfl⟩, fun _ => rfl⟩
      | some d =>
          apply Proc.Obeys.call
          · exact ⟨trivial, d, rfl, rfl, rfl, rfl⟩
          intro outcome
          cases outcome with
          | duplicate => exact ih
          | fresh fs =>
              apply Proc.Obeys.call
              · exact ⟨trivial, d, fs, rfl, rfl⟩
              intro context
              apply Proc.Obeys.call
              · exact ⟨trivial, d, fs, context, rfl, rfl⟩
              exact fun _ => ih

theorem sweepShards_obeys (all : Nat) (nowNs : UInt64) (shards : List Nat) :
    (sweepShards nowNs shards : Piping Envelope Unit).Obeys (x.protocol (.janitor all))
      (fun q _ => q = .idle) .idle := by
  induction shards with
  | nil => exact rfl
  | cons shard rest ih => exact .call ⟨trivial, rfl⟩ fun _ => ih

theorem runJanitor_obeys (all ticks : Nat) :
    (x.runJanitor ticks).Obeys (x.protocol (.janitor all)) (fun q _ => q = .idle) .idle := by
  induction ticks with
  | zero => exact rfl
  | succ ticks ih =>
      unfold runJanitor
      apply Proc.Obeys.call
      · exact ⟨trivial, rfl⟩
      intro nowNs
      apply (sweepShards_obeys all nowNs _).bind
      rintro q _ rfl
      exact ih

theorem runSource_obeys (all raws : List (RawTx Envelope)) :
    (runSource raws).Obeys (x.protocol (.source all)) (fun q _ => q = .idle) .idle := by
  induction raws with
  | nil => exact rfl
  | cons raw rest ih => exact .call ⟨trivial, rfl⟩ fun _ => ih

theorem runHeads_obeys (all blocks : List CurrentBlock) :
    (runHeads blocks : Piping Envelope Unit).Obeys (x.protocol (.heads all)) (fun q _ => q = .idle)
      .idle := by
  induction blocks with
  | nil => exact rfl
  | cons block rest ih => exact .call ⟨trivial, rfl⟩ fun _ => ih

theorem runSubscriber_obeys (i all rounds : Nat) :
    (runSubscriber i rounds : Piping Envelope Unit).Obeys (x.protocol (.subscriber i all))
      (fun q _ => q = .idle)
      .idle := by
  induction rounds with
  | zero => exact ⟨⟨rfl, rfl⟩, fun _ => rfl⟩
  | succ rounds ih => exact .call ⟨rfl, rfl⟩ fun _ => ih

/-- Every task keeps to the protocol and ends with nothing in its hands. -/
theorem obeys (t : PipeTask Envelope) :
    (x.machine.body t).Obeys (x.protocol t) (fun q _ => q = .idle) .idle := by
  cases t with
  | worker rounds => exact runDecoderWorker_obeys rounds rounds
  | dedupe rounds => exact runDedupe_obeys rounds rounds
  | janitor ticks => exact runJanitor_obeys ticks ticks
  | source raws => exact runSource_obeys raws raws
  | heads blocks => exact runHeads_obeys blocks blocks
  | subscriber i rounds => exact runSubscriber_obeys i rounds rounds

/-- No step of the pipeline starts a task. -/
theorem fixed : x.machine.Fixed := by
  intro i fresh o a s out did
  have same : PipeOp.exec x o a s = some out := did
  cases o with
  | trySendRaw raw =>
      simp only [PipeOp.exec] at same
      split at same <;> cases same <;> rfl
  | recvRaw =>
      obtain ⟨_, -, rfl⟩ := Option.map_eq_some_iff.mp same
      rfl
  | sendDecoded d =>
      obtain ⟨_, -, rfl⟩ := Option.map_eq_some_iff.mp same
      rfl
  | recvDecoded =>
      obtain ⟨_, -, rfl⟩ := Option.map_eq_some_iff.mp same
      rfl
  | recv j =>
      obtain ⟨_, -, rfl⟩ := Option.map_eq_some_iff.mp same
      rfl
  | _ =>
      cases same
      rfl

end Pipeline

/-! ### What went through the queues -/

namespace PipeOp

def accepts : (o : PipeOp Envelope) → o.Res → Option (RawTx Envelope)
  | .trySendRaw raw, true => some raw
  | _, _ => none

def receives : (o : PipeOp Envelope) → o.Res → Option (RawTx Envelope)
  | .recvRaw, some raw => some raw
  | _, _ => none

def forwards : (o : PipeOp Envelope) → o.Res → Option (DecodedTx Envelope)
  | .sendDecoded d, true => some d
  | _, _ => none

def takes : (o : PipeOp Envelope) → o.Res → Option (DecodedTx Envelope)
  | .recvDecoded, some d => some d
  | _, _ => none

end PipeOp

section Histories

variable {x : Pipeline Envelope}

/-- What the raw queue took from the sources. -/
def accepted (h : List x.machine.Event) : List (RawTx Envelope) :=
  Machine.collect (fun _ => PipeOp.accepts) h

/-- What the workers took from the raw queue. -/
def received (h : List x.machine.Event) : List (RawTx Envelope) :=
  Machine.collect (fun _ => PipeOp.receives) h

/-- What the decoded queue took from the workers. -/
def forwarded (h : List x.machine.Event) : List (DecodedTx Envelope) :=
  Machine.collect (fun _ => PipeOp.forwards) h

/-- What the dedupe task took from the decoded queue. -/
def taken (h : List x.machine.Event) : List (DecodedTx Envelope) :=
  Machine.collect (fun _ => PipeOp.takes) h

/-- What a raw transaction decodes to, if it does. -/
def Pipeline.decodes (x : Pipeline Envelope) (raw : RawTx Envelope) : Option (DecodedTx Envelope) :=
  (x.lib.decodeToDecoded raw).toOption

/-- The decoded transaction that a process is about to send. -/
def handOf (p : Piping Envelope Unit) : Option (DecodedTx Envelope) :=
  match p with
  | .op (.sendDecoded d) _ => some d
  | _ => none

/-- The decoded transactions that the workers have in their hands. -/
def hands (c : Config (PipeSig Envelope) (PipeState Envelope × List x.machine.Event)
    (PipeTask Envelope) Unit) :
    List (DecodedTx Envelope) :=
  c.pool.filterMap fun entry => handOf entry.2

end Histories

/-! ### The two queues -/

variable {x : Pipeline Envelope}

/-- What a step does to the raw queue. -/
theorem exec_raw {o : PipeOp Envelope} {a : o.Ans} {s : PipeState Envelope}
    {out : Outcome (PipeState Envelope) (PipeTask Envelope) o.Res} (did : o.exec x a s = some out)
    {before taken : List (RawTx Envelope)} (holds : s.raw.Accounts before taken) :
    out.shared.raw.Accounts (before ++ (o.accepts out.res).toList)
      (taken ++ (o.receives out.res).toList) := by
  cases o with
  | trySendRaw raw =>
      simp only [PipeOp.exec] at did
      split at did
      · rename_i sent found
        cases did
        simpa [PipeOp.accepts, PipeOp.receives] using holds.trySend found
      · cases did
        simpa [PipeOp.accepts, PipeOp.receives] using holds
  | recvRaw =>
      obtain ⟨⟨got, rest⟩, took, rfl⟩ := Option.map_eq_some_iff.mp did
      have after := holds.await took
      cases got <;> simpa [PipeOp.accepts, PipeOp.receives] using after
  | dropRawRx =>
      cases did
      simpa [PipeOp.accepts, PipeOp.receives] using holds.dropReceiver
  | sendDecoded d =>
      obtain ⟨_, -, rfl⟩ := Option.map_eq_some_iff.mp did
      simpa [PipeOp.accepts, PipeOp.receives] using holds
  | recvDecoded =>
      obtain ⟨_, -, rfl⟩ := Option.map_eq_some_iff.mp did
      simpa [PipeOp.accepts, PipeOp.receives] using holds
  | recv i =>
      obtain ⟨_, -, rfl⟩ := Option.map_eq_some_iff.mp did
      simpa [PipeOp.accepts, PipeOp.receives] using holds
  | _ =>
      cases did
      simpa [PipeOp.accepts, PipeOp.receives] using holds

/-- What a step does to the decoded queue. -/
theorem exec_decoded {o : PipeOp Envelope} {a : o.Ans} {s : PipeState Envelope}
    {out : Outcome (PipeState Envelope) (PipeTask Envelope) o.Res} (did : o.exec x a s = some out)
    {before taken : List (DecodedTx Envelope)} (holds : s.decoded.Accounts before taken) :
    out.shared.decoded.Accounts (before ++ (o.forwards out.res).toList)
      (taken ++ (o.takes out.res).toList) := by
  cases o with
  | trySendRaw raw =>
      simp only [PipeOp.exec] at did
      split at did <;> cases did <;> simpa [PipeOp.forwards, PipeOp.takes] using holds
  | recvRaw =>
      obtain ⟨_, -, rfl⟩ := Option.map_eq_some_iff.mp did
      simpa [PipeOp.forwards, PipeOp.takes] using holds
  | sendDecoded d =>
      obtain ⟨⟨sent, rest⟩, sending, rfl⟩ := Option.map_eq_some_iff.mp did
      have after := holds.sendAwait sending
      cases sent <;> simpa [PipeOp.forwards, PipeOp.takes] using after
  | dropDecodedTx =>
      cases did
      simpa [PipeOp.forwards, PipeOp.takes] using holds.dropSender
  | recvDecoded =>
      obtain ⟨⟨got, rest⟩, took, rfl⟩ := Option.map_eq_some_iff.mp did
      have after := holds.await took
      cases got <;> simpa [PipeOp.forwards, PipeOp.takes] using after
  | dropDecodedRx =>
      cases did
      simpa [PipeOp.forwards, PipeOp.takes] using holds.dropReceiver
  | recv i =>
      obtain ⟨_, -, rfl⟩ := Option.map_eq_some_iff.mp did
      simpa [PipeOp.forwards, PipeOp.takes] using holds
  | _ =>
      cases did
      simpa [PipeOp.forwards, PipeOp.takes] using holds

/-- A decoded queue that is open after a step was open before, and a send of the step was taken. -/
theorem exec_decoded_open {o : PipeOp Envelope} {a : o.Ans} {s : PipeState Envelope}
    {out : Outcome (PipeState Envelope) (PipeTask Envelope) o.Res} (did : o.exec x a s = some out)
    (still : out.shared.decoded.isOpen = true) :
    s.decoded.isOpen = true ∧ ∀ d, o = .sendDecoded d → o.forwards out.res = some d := by
  cases o with
  | trySendRaw raw =>
      simp only [PipeOp.exec] at did
      split at did <;> cases did <;> exact ⟨still, by simp⟩
  | recvRaw =>
      obtain ⟨_, -, rfl⟩ := Option.map_eq_some_iff.mp did
      exact ⟨still, by simp⟩
  | sendDecoded d =>
      obtain ⟨⟨sent, rest⟩, sending, rfl⟩ := Option.map_eq_some_iff.mp did
      have took : sent = true := Fifo.sendAwait_open sending still
      have opened : rest.isOpen = s.decoded.isOpen := Fifo.sendAwait_isOpen sending
      subst took
      constructor
      · rw [← opened]
        exact still
      · intro d' same
        cases same
        rfl
  | recvDecoded =>
      obtain ⟨⟨got, rest⟩, took, rfl⟩ := Option.map_eq_some_iff.mp did
      have opened : rest.isOpen = s.decoded.isOpen := Fifo.await_isOpen took
      exact ⟨opened ▸ still, by simp⟩
  | dropDecodedRx =>
      cases did
      exact ⟨(Fifo.dropReceiver_queue still).2, by simp⟩
  | recv i =>
      obtain ⟨_, -, rfl⟩ := Option.map_eq_some_iff.mp did
      exact ⟨still, by simp⟩
  | _ =>
      cases did
      exact ⟨still, by simp⟩

section Runs

variable {C : x.machine.recording.Cond} {workers subscribers : Nat} {all : List (PipeTask Envelope)}
  {c : Config (PipeSig Envelope) (PipeState Envelope × List x.machine.Event)
    (PipeTask Envelope) Unit}

/-- Both queues account for what went through them. -/
theorem queues_account
    (run : x.machine.recording.Run C
      (x.machine.recording.start (x.build workers subscribers, []) all) c) :
    c.shared.1.raw.Accounts (accepted c.shared.2) (received c.shared.2) ∧
      c.shared.1.decoded.Accounts (forwarded c.shared.2) (taken c.shared.2) := by
  apply Machine.invariant_of_exec (I := fun s : PipeState Envelope × List x.machine.Event =>
    s.1.raw.Accounts (accepted s.2) (received s.2) ∧
      s.1.decoded.Accounts (forwarded s.2) (taken s.2)) _ run
  · exact ⟨Fifo.accounts_new _ _ _, Fifo.accounts_new _ _ _⟩
  · rintro i fresh o a s out ⟨raw, decoded⟩ - did
    simp only [accepted, received, forwarded, taken, Machine.collect_cons]
    exact ⟨exec_raw did raw, exec_decoded did decoded⟩

end Runs

/-! ### What the workers hold -/

/-- A process has in its hands what its stage says. -/
theorem handOf_eq {t : PipeTask Envelope} {p : Piping Envelope Unit} {q : Stage Envelope}
    (obeys : p.Obeys (x.protocol t) (fun q _ => q = .idle) q) : handOf p = q.hand := by
  cases p with
  | ret value =>
      have idle : q = .idle := obeys
      rw [idle]
      rfl
  | op o rest =>
      have admitted : q.Admits o := obeys.1.2
      cases o with
      | sendDecoded d =>
          have held : q = .decoded d := admitted
          rw [held]
          rfl
      | record hash source recvNs =>
          obtain ⟨d, rfl, -⟩ := admitted
          rfl
      | blockContextFor unixNs =>
          obtain ⟨d, fs, rfl, -⟩ := admitted
          rfl
      | publish p =>
          obtain ⟨d, fs, context, rfl, -⟩ := admitted
          rfl
      | _ =>
          have idle : q = .idle := admitted
          rw [idle]
          rfl

/-- After a step a task has in its hands what it received, decoded. -/
theorem hand_next (q : Stage Envelope) (o : PipeOp Envelope) (result : o.Res) :
    (q.next x o result).hand = (o.receives result).bind x.decodes := by
  cases o with
  | recvRaw =>
      cases result with
      | none => rfl
      | some raw =>
          simp only [Stage.next, PipeOp.receives, Option.bind_some, Pipeline.decodes]
          cases x.lib.decodeToDecoded raw <;> rfl
  | recvDecoded => cases result <;> rfl
  | record hash source recvNs =>
      cases result with
      | duplicate => rfl
      | fresh fs => cases q <;> rfl
  | blockContextFor unixNs => cases q <;> rfl
  | _ => rfl

/-- What a step forwards is what the process had in its hands. -/
theorem handOf_op {o : PipeOp Envelope} {a : o.Ans} {s : PipeState Envelope}
    {out : Outcome (PipeState Envelope) (PipeTask Envelope) o.Res}
    {next : o.Res → Piping Envelope Unit}
    (did : o.exec x a s = some out) (still : out.shared.decoded.isOpen = true) :
    handOf (.op o next) = o.forwards out.res := by
  cases o with
  | sendDecoded d => exact ((exec_decoded_open did still).2 d rfl).symm
  | _ => rfl

section Workers

variable {C : x.machine.recording.Cond} {s : PipeState Envelope} {all : List (PipeTask Envelope)}
  {i : Tid} {c c' : Config (PipeSig Envelope) (PipeState Envelope × List x.machine.Event)
    (PipeTask Envelope) Unit}

/-- What a step of the process at `i` does to what was received and forwarded, and to what
that process holds. -/
theorem hand_step (obeyed : Machine.Obeyed x.protocol (fun _ q _ => q = .idle) (fun _ => .idle) c)
    (step : x.machine.recording.Step C i c c') (still : c'.shared.1.decoded.isOpen = true) :
    ∃ t old new, c.pool[i]? = some (t, old) ∧ c'.pool = c.pool.set i (t, new) ∧
      c.shared.1.decoded.isOpen = true ∧ c'.pool[i]? = some (t, new) ∧
      (received c'.shared.2).filterMap x.decodes =
        (received c.shared.2).filterMap x.decodes ++ (handOf new).toList ∧
      forwarded c'.shared.2 = forwarded c.shared.2 ++ (handOf old).toList := by
  have obeyed' := obeyed.step Pipeline.obeys step
  obtain ⟨t, o, next, a, out, running, -, -, did, shared, pool⟩ := step.inversion
  rw [Pipeline.fixed _ _ o a _ out did, List.map_nil, List.append_nil] at pool
  have bound : i < c.pool.length := (List.getElem?_eq_some_iff.mp running).1
  have moved : c'.pool[i]? = some (t, next out.res) := by rw [pool, List.getElem?_set_self bound]
  rw [shared] at still ⊢
  have oldHand : handOf (.op o next) = PipeOp.forwards o out.res := handOf_op did still
  have newHand : handOf (next out.res) = (PipeOp.receives o out.res).bind x.decodes := by
    rw [handOf_eq (obeyed'.obeys i t _ moved), shared]
    simp only [Protocol.phase_own]
    exact hand_next _ o out.res
  refine ⟨t, _, _, running, pool, (exec_decoded_open did still).1, moved, ?_, ?_⟩
  · rw [newHand, received, Machine.collect_cons, List.filterMap_append]
    cases PipeOp.receives o out.res with
    | none => rfl
    | some raw => cases found : x.decodes raw <;> simp [received, found]
  · rw [oldHand, forwarded, Machine.collect_cons]
    rfl

/-- What the workers received and could decode is forwarded or in their hands. -/
theorem workers_account (run : x.machine.recording.Run C (x.machine.recording.start (s, []) all) c)
    (still : c.shared.1.decoded.isOpen = true) :
    ((received c.shared.2).filterMap x.decodes).Perm (forwarded c.shared.2 ++ hands c) := by
  have kept : Machine.Obeyed x.protocol (fun _ q _ => q = .idle) (fun _ => .idle) c ∧
      (c.shared.1.decoded.isOpen = true →
        ((received c.shared.2).filterMap x.decodes).Perm (forwarded c.shared.2 ++ hands c)) := by
    apply run.invariant
      (I := fun c => Machine.Obeyed x.protocol (fun _ q _ => q = .idle) (fun _ => .idle) c ∧
      (c.shared.1.decoded.isOpen = true →
        ((received c.shared.2).filterMap x.decodes).Perm (forwarded c.shared.2 ++ hands c)))
    · rintro i d d' ⟨obeyed, holds⟩ step
      refine ⟨obeyed.step Pipeline.obeys step, fun still => ?_⟩
      obtain ⟨t, old, new, running, pool, before, -, more, sent⟩ := hand_step obeyed step still
      have exchanged := Concurrent.perm_filterMap_set (fun entry => handOf entry.2) (t, new) running
      rw [← pool] at exchanged
      rw [more, sent, List.append_assoc]
      calc ((received d.shared.2).filterMap x.decodes ++ (handOf new).toList).Perm
            (forwarded d.shared.2 ++ hands d ++ (handOf new).toList) :=
              (holds before).append_right _
        _ = forwarded d.shared.2 ++ (hands d ++ (handOf new).toList) := List.append_assoc _ _ _
        List.Perm _ (forwarded d.shared.2 ++ (hands d' ++ (handOf old).toList)) :=
          exchanged.symm.append_left _
        List.Perm _ (forwarded d.shared.2 ++ ((handOf old).toList ++ hands d')) :=
            List.perm_append_comm.append_left _
    · refine ⟨.start Pipeline.obeys s all, fun _ => ?_⟩
      have nothing : hands (x.machine.recording.start (s, []) all) = [] := by
        apply List.filterMap_eq_nil_iff.mpr
        intro entry member
        obtain ⟨t, -, rfl⟩ := List.mem_map.mp member
        exact handOf_eq (q := .idle) (Pipeline.obeys (x := x) t)
      rw [nothing]
      exact List.Perm.refl _
  exact kept.2 still

end Workers

/-- Whatever the sources had accepted, as far as it decodes, was taken by the dedupe task, waits for
it, is in a worker's hands or is still to be decoded: in every run of any number of workers, as long
as both queues are open. -/
theorem pipeline_conserves (x : Pipeline Envelope) {C : x.machine.recording.Cond}
    (workers : List Nat) (dedupeRounds janitorTicks : Nat) (sources : List (List (RawTx Envelope)))
    (heads : List CurrentBlock) (subscribers : List Nat)
    {c : Config (PipeSig Envelope) (PipeState Envelope × List x.machine.Event)
      (PipeTask Envelope) Unit}
    (run : x.machine.recording.Run C
      (x.machine.recording.start (x.build workers.length subscribers.length, [])
        (Pipeline.tasks workers dedupeRounds janitorTicks sources heads subscribers)) c)
    (rawOpen : c.shared.1.raw.isOpen = true) (decodedOpen : c.shared.1.decoded.isOpen = true) :
    ((accepted c.shared.2).filterMap x.decodes).Perm
      (taken c.shared.2 ++ c.shared.1.decoded.queue ++ hands c ++
        c.shared.1.raw.queue.filterMap x.decodes) := by
  obtain ⟨raw, decoded⟩ := queues_account run
  rw [raw rawOpen, List.filterMap_append, ← decoded decodedOpen]
  exact (workers_account run decodedOpen).append_right _

/-- Envelopes that are numbers: one byte encodes one, and nobody signed zero. -/
def numbers : Envelopes Nat where
  decode
    | [byte] => .ok byte.toNat
    | _ => .error "not one byte"
  recoverSigner tx := if tx = 0 then .error "no signer" else .ok (BitVec.ofNat 160 tx)

/-- A pipeline of numbers, with a table of one shard. -/
def numberPipeline : Pipeline Nat where
  cfg := {}
  lib := numbers
  shards := 1
  shardOf _ := 0

/-- The clock stands. -/
def clockAt (nowNs : UInt64) : (o : PipeOp Nat) → o.Ans
  | .unixNowNs => nowNs
  | .trySendRaw _ => ()
  | .recvRaw => ()
  | .dropRawRx => ()
  | .sendDecoded _ => ()
  | .dropDecodedTx => ()
  | .recvDecoded => ()
  | .dropDecodedRx => ()
  | .record .. => ()
  | .blockContextFor _ => ()
  | .publish _ => ()
  | .sweepShard .. => ()
  | .onNewHead _ => ()
  | .recv _ => ()
  | .dropSubscription _ => ()

/-- What the local node sends, and what a provider sends: the first transaction again, and one that
does not decode. -/
def localRaws : List (RawTx Nat) :=
  [⟨10, 500, 1#256, .decoded 7 none⟩, ⟨10, 600, 2#256, .rlpBytes [8]⟩]

def providerRaws : List (RawTx Nat) :=
  [⟨20, 700, 1#256, .rlpBytes [7]⟩, ⟨20, 800, 3#256, .rlpBytes []⟩]

/-- Two workers have taken one transaction each; the dedupe task has taken the first one. -/
theorem pipeline_conserves_midway :
    ∃ c, numberPipeline.machine.recording.Run numberPipeline.machine.recording.anyStep
        (numberPipeline.machine.recording.start (numberPipeline.build 2 1, [])
          (Pipeline.tasks [4, 4] 4 1 [localRaws, providerRaws] [] [4])) c ∧
      (c.shared.1.raw.isOpen = true ∧ c.shared.1.decoded.isOpen = true) ∧
      ((taken c.shared.2).length = 1 ∧ (hands c).length = 1 ∧ c.shared.1.raw.queue.length = 2) ∧
      ((accepted c.shared.2).filterMap numberPipeline.decodes).Perm
        (taken c.shared.2 ++ c.shared.1.decoded.queue ++ hands c ++
          c.shared.1.raw.queue.filterMap numberPipeline.decodes) := by
  obtain ⟨c, run, opened, midway⟩ : ∃ c,
      numberPipeline.machine.recording.Run numberPipeline.machine.recording.anyStep
        (numberPipeline.machine.recording.start (numberPipeline.build 2 1, [])
          (Pipeline.tasks [4, 4] 4 1 [localRaws, providerRaws] [] [4])) c ∧
      (c.shared.1.raw.isOpen = true ∧ c.shared.1.decoded.isOpen = true) ∧
      ((taken c.shared.2).length = 1 ∧ (hands c).length = 1 ∧ c.shared.1.raw.queue.length = 2) :=
    Machine.exists_run_of_follow (C := numberPipeline.machine.recording.anyStep)
      [(5, 2, clockAt 1000000000), (6, 2, clockAt 1000000000), (4, 1, clockAt 1000000000),
        (3, 2, clockAt 1000000000), (0, 1, clockAt 1000000000)]
      (by decide +kernel)
  exact ⟨c, run, opened, midway,
    pipeline_conserves numberPipeline [4, 4] 4 1 [localRaws, providerRaws] [] [4] run opened.1
      opened.2⟩

/-! ### One worker -/

/-- Only a worker has something in its hands. -/
theorem worker_of_hand {t : PipeTask Envelope} {p : Piping Envelope Unit} {q : Stage Envelope}
    (obeys : p.Obeys (x.protocol t) (fun q _ => q = .idle) q)
    (idle : ∀ rounds, t ≠ .worker rounds) :
    handOf p = none := by
  cases p with
  | ret value => rfl
  | op o rest =>
      have does : t.Does o := obeys.1.1
      cases o with
      | sendDecoded d =>
          cases t with
          | worker rounds => exact absurd rfl (idle rounds)
          | _ => cases does
      | _ => rfl

/-- The only worker of a pipeline comes after its first three tasks. -/
theorem worker_position {rounds dedupeRounds janitorTicks : Nat}
    {sources : List (List (RawTx Envelope))}
    {heads : List CurrentBlock} {subscribers : List Nat} {i n : Nat}
    (found : (Pipeline.tasks [rounds] dedupeRounds janitorTicks sources heads subscribers)[i]? =
      some (.worker n)) :
    i = 3 := by
  match i with
  | 0 | 1 | 2 => cases found
  | 3 => rfl
  | i + 4 =>
      simp only [Pipeline.tasks, List.map_cons, List.map_nil, List.cons_append, List.nil_append,
        List.getElem?_cons_succ] at found
      have member := List.mem_of_getElem? found
      rcases List.mem_append.mp member with source | subscriber
      · obtain ⟨_, -, wrong⟩ := List.mem_map.mp source
        cases wrong
      · obtain ⟨_, _, wrong⟩ := List.mem_mapIdx.mp subscriber
        cases wrong

section OneWorker

variable {C : x.machine.recording.Cond} {s : PipeState Envelope}
  {rounds dedupeRounds janitorTicks : Nat} {sources : List (List (RawTx Envelope))}
  {heads : List CurrentBlock} {subscribers : List Nat}
  {c : Config (PipeSig Envelope) (PipeState Envelope × List x.machine.Event)
    (PipeTask Envelope) Unit}

/-- What is in the workers' hands is in the hands of the only one. -/
theorem hands_single (run : x.machine.recording.Run C (x.machine.recording.start (s, [])
      (Pipeline.tasks [rounds] dedupeRounds janitorTicks sources heads subscribers)) c)
    {t : PipeTask Envelope} {p : Piping Envelope Unit} (there : c.pool[3]? = some (t, p)) :
    hands c = (handOf p).toList := by
  apply Concurrent.filterMap_single there
  rintro j ⟨u, q⟩ found other
  apply worker_of_hand ((Machine.obeyed_of_run Pipeline.obeys run).obeys j u q found)
  rintro n rfl
  exact other (worker_position (Machine.taskAt_of_run Pipeline.fixed run found))

/-- The only worker forwards what it received in its order. -/
theorem single_worker_account (run : x.machine.recording.Run C (x.machine.recording.start (s, [])
      (Pipeline.tasks [rounds] dedupeRounds janitorTicks sources heads subscribers)) c)
    (still : c.shared.1.decoded.isOpen = true) :
    (received c.shared.2).filterMap x.decodes = forwarded c.shared.2 ++ hands c := by
  induction run with
  | refl =>
      have start : x.machine.recording.Run C (x.machine.recording.start (s, [])
          (Pipeline.tasks [rounds] dedupeRounds janitorTicks sources heads subscribers)) _ := .refl
      rw [hands_single start (p := x.runDecoderWorker rounds) rfl]
      cases rounds <;> rfl
  | @tail d c before step ih =>
      obtain ⟨i, step⟩ := step
      have run := before.tail ⟨i, step⟩
      have obeyed := Machine.obeyed_of_run Pipeline.obeys before
      have obeyed' := Machine.obeyed_of_run Pipeline.obeys run
      obtain ⟨t, old, new, running, pool, opened, moved, more, sent⟩ := hand_step obeyed step still
      rw [more, sent, ih opened]
      by_cases here : i = 3
      · subst here
        rw [hands_single before running, hands_single run moved, List.append_assoc]
      · have idle : ∀ n, t ≠ .worker n := by
          rintro n rfl
          exact here (worker_position (Machine.taskAt_of_run Pipeline.fixed before running))
        have same : hands c = hands d := by
          have bound : 3 < d.pool.length := by
            rw [Machine.length_of_run Pipeline.fixed before]
            simp [Pipeline.tasks]
          have there : d.pool[3]? = some d.pool[3] := List.getElem?_eq_getElem bound
          have still : c.pool[3]? = some d.pool[3] := by rw [pool, List.getElem?_set_ne here, there]
          rw [hands_single before there, hands_single run still]
        rw [worker_of_hand (obeyed.obeys i t old running) idle,
          worker_of_hand (obeyed'.obeys i t new moved) idle, same]
        simp

end OneWorker

/-- With one worker the dedupe task gets what the sources had accepted in its order. -/
theorem single_worker_in_order (x : Pipeline Envelope) {C : x.machine.recording.Cond}
    (rounds dedupeRounds janitorTicks : Nat) (sources : List (List (RawTx Envelope)))
    (heads : List CurrentBlock) (subscribers : List Nat)
    {c : Config (PipeSig Envelope) (PipeState Envelope × List x.machine.Event)
      (PipeTask Envelope) Unit}
    (run : x.machine.recording.Run C
      (x.machine.recording.start (x.build 1 subscribers.length, [])
        (Pipeline.tasks [rounds] dedupeRounds janitorTicks sources heads subscribers)) c)
    (rawOpen : c.shared.1.raw.isOpen = true) (decodedOpen : c.shared.1.decoded.isOpen = true) :
    (accepted c.shared.2).filterMap x.decodes =
      taken c.shared.2 ++ c.shared.1.decoded.queue ++ hands c ++
        c.shared.1.raw.queue.filterMap x.decodes := by
  obtain ⟨raw, decoded⟩ := queues_account run
  have inOrder : (received c.shared.2).filterMap x.decodes = forwarded c.shared.2 ++ hands c :=
    single_worker_account run decodedOpen
  rw [raw rawOpen, List.filterMap_append, ← decoded decodedOpen, inOrder]

/-- Both sources are taken in one after the other; the worker holds the third transaction. -/
theorem single_worker_in_order_midway :
    ∃ c, numberPipeline.machine.recording.Run numberPipeline.machine.recording.anyStep
        (numberPipeline.machine.recording.start (numberPipeline.build 1 1, [])
          (Pipeline.tasks [4] 4 1 [localRaws, providerRaws] [] [4])) c ∧
      (c.shared.1.raw.isOpen = true ∧ c.shared.1.decoded.isOpen = true) ∧
      ((taken c.shared.2).length = 1 ∧ c.shared.1.decoded.queue.length = 1 ∧ (hands c).length = 1) ∧
      (accepted c.shared.2).filterMap numberPipeline.decodes =
        taken c.shared.2 ++ c.shared.1.decoded.queue ++ hands c ++
          c.shared.1.raw.queue.filterMap numberPipeline.decodes := by
  obtain ⟨c, run, opened, midway⟩ : ∃ c,
      numberPipeline.machine.recording.Run numberPipeline.machine.recording.anyStep
        (numberPipeline.machine.recording.start (numberPipeline.build 1 1, [])
          (Pipeline.tasks [4] 4 1 [localRaws, providerRaws] [] [4])) c ∧
      (c.shared.1.raw.isOpen = true ∧ c.shared.1.decoded.isOpen = true) ∧
      ((taken c.shared.2).length = 1 ∧ c.shared.1.decoded.queue.length = 1 ∧
        (hands c).length = 1) :=
    Machine.exists_run_of_follow (C := numberPipeline.machine.recording.anyStep)
      [(4, 2, clockAt 1000000000), (5, 2, clockAt 1000000000), (3, 5, clockAt 1000000000),
        (0, 1, clockAt 1000000000)] (by decide +kernel)
  exact ⟨c, run, opened, midway,
    single_worker_in_order numberPipeline 4 4 1 [localRaws, providerRaws] [] [4] run opened.1
      opened.2⟩

end BscMempool.Bus
