/-
Module: BscMempool.Proofs.EntryFrame
Layer: Proofs
Purpose: What an entry that opens no position does to the map of the position cache. The duplicate
  guard drops an exited entry before any of the gates; apart from that a call of `execute` leaves
  the map alone until its BUY is broadcast.
Trusted boundary: none
Main exports: sawExited, mapLeftTo, Dropped, entry_frame_iff, refused_entry_drops_exited
-/
import BscMempool.Concurrent.Protocol
import BscMempool.Proofs.Scenario
import BscMempool.Proofs.TaskOrder

namespace BscMempool.Trader

open Concurrent (Tid Machine Outcome Config Protocol Proc)
open Concurrent.Proc
open LiveExecutor

/-- What a look-up found is an exited entry. -/
def exitedHit (cached : Option (EntryId × PositionEntry)) : Bool :=
  cached.any fun held => held.2.exited

variable {w : TrailWatcher}

/-- The task at `i` looked a token up and found an exited entry. -/
def sawExited (i : Tid) : List w.machine.Event → Bool
  | [] => false
  | ⟨j, .trade (.positionsGet _), _, cached⟩ :: older =>
      (decide (j = i) && exitedHit cached) || sawExited i older
  | _ :: older => sawExited i older

/-- The steps of everyone but the task at `i` leave the map of the position cache alone. -/
def mapLeftTo (i : Tid) : w.machine.recording.Cond := fun j o a s =>
  j = i ∨ ∀ fresh out, w.machine.exec j fresh o a s.1 = some out →
    out.shared.trade.book.positions = s.1.trade.book.positions

/-- What a task did to the map so far.  `stale` is the token that its last look-up found exited. -/
structure GuardPhase where
  stale : Option Address := none
  saw : Bool := false
  removed : List Address := []
  opened : Bool := false

/-- A token is dropped from the map only if it was just found exited. -/
def guardOrder : Protocol LiveSig GuardPhase where
  allows
    | q, .trade (.positionsRemove token) => q.stale = some token
    | _, _ => True
  next
    | q, .trade (.positionsGet token), cached =>
        { q with stale := if exitedHit cached then some token
          else none, saw := exitedHit cached || q.saw }
    | q, .trade (.positionsRemove token), _ =>
        { q with stale := none, removed := token :: q.removed }
    | q, .trade (.openPosition ..), _ => { q with opened := true }
    | q, _, _ => q

/-- What the task at `i` did to the map so far. -/
def guardPhaseAt (i : Tid) (h : List w.machine.Event) : GuardPhase := guardOrder.phase i {} h

/-- From `q` to `q'` the guard found nothing and dropped nothing, or it dropped the
exited entry it found. -/
def Dropped (q q' : GuardPhase) : Prop :=
  q'.opened = q.opened ∧
    (q'.saw = q.saw ∧ q'.removed = q.removed ∨ q'.saw = true ∧
      ∃ token, q'.removed = token :: q.removed)

namespace EntryFrame

/-! ### Kinds of operations -/

/-- The operations that neither look an entry up for the guard nor change the map. -/
def still : Op → Prop
  | .trade (.positionsGet _) | .trade (.positionsRemove _) | .trade (.openPosition ..) => False
  | _ => True

section Kinds

variable {o : Op}

theorem still.keeps (kind : still o) : guardOrder.Still o := by
  cases o with
  | trade o => cases o <;> first | exact kind.elim | exact ⟨fun _ => trivial, fun _ _ => rfl⟩
  | _ => exact ⟨fun _ => trivial, fun _ _ => rfl⟩

theorem still_of_basic (basic : o.basic) : still o := by
  cases o with
  | trade o => exact basic.elim False.elim False.elim
  | _ => trivial

theorem still_of_calm (calm : o.calm) : still o := by
  cases o with
  | trade o => exact calm.elim
  | _ => trivial

theorem free_of_basic (basic : o.basic) : guardOrder.Free o := (still_of_basic basic).keeps.1

theorem free_of_roams (roams : o.roams) : guardOrder.Free o := by
  unfold Op.roams at roams
  split at roams <;> first | exact free_of_basic (Op.light.basic roams) | exact fun _ => trivial

theorem free_of_exits {broadcast : Bool} (exits : o.exits broadcast) : guardOrder.Free o := by
  unfold Op.exits at exits
  split at exits <;> first | exact free_of_basic exits | exact fun _ => trivial

theorem free_of_finalizes {broadcast : Bool} (finalizes : o.finalizes broadcast) :
    guardOrder.Free o := by
  unfold Op.finalizes at finalizes
  split at finalizes <;> first | exact free_of_basic finalizes | exact fun _ => trivial

theorem guardOrder_roams : Roams guardOrder fun _ => True := .of_free fun _ => free_of_roams

/-- What follows them goes on from the phase they started in. -/
theorem then_kept {α β : Type} {p : Live α} {f : α → Live β} {ends : GuardPhase → β → Prop}
    {q : GuardPhase} (all : p.All still) (rest : ∀ value, (f value).Obeys guardOrder ends q) :
    (p >>= f).Obeys guardOrder ends q :=
  guardOrder.kinds.then_still (all.mono fun _ => still.keeps) rest

end Kinds

/-! ### Entries -/

section Functions

variable {x : LiveExecutor} {q q' : GuardPhase}

/-- A duplicate is not an exited entry, and what is dropped is. -/
theorem dupGuard_obeys (token : Address) :
    (dupGuard token).Obeys guardOrder (fun q' _ => Dropped q q') q := by
  apply Obeys.call trivial
  intro cached
  cases cached with
  | none => exact ⟨rfl, .inl ⟨rfl, rfl⟩⟩
  | some held =>
      obtain ⟨e, p⟩ := held
      dsimp only
      cases exited : p.exited with
      | false =>
          have missed : exitedHit (some (e, p)) = false := exited
          have seen : (guardOrder.next q (.trade (.positionsGet token)) (some (e, p))).saw =
              q.saw := by
            simp [guardOrder, missed]
          exact ⟨rfl, .inl ⟨seen, rfl⟩⟩
      | true =>
          have hit : exitedHit (some (e, p)) = true := exited
          have found : (guardOrder.next q (.trade (.positionsGet token)) (some (e, p))).stale =
              some token := by
            simp [guardOrder, hit]
          have seen : (guardOrder.next q (.trade (.positionsGet token)) (some (e, p))).saw =
              true := by
            simp [guardOrder, hit]
          apply Obeys.call (f := fun _ => .ret false) found
          exact fun _ => ⟨rfl, .inr ⟨seen, token, rfl⟩⟩

theorem broadcastEntry_obeys (kolName visibility : String) (token : Address) (entry : Entry) :
    (x.broadcastEntry kolName visibility token entry).Obeys guardOrder
      (fun q' outcome => (∀ e, outcome ≠ .opened e) → q' = q) q := by
  have records : ∀ nonce txHash broadcast,
      (x.recordEntry kolName visibility token entry nonce txHash broadcast).All still :=
    fun _ _ _ => (x.recordEntry_calm _ _ _ _ _ _ _).mono fun _ => still_of_calm
  have resync : NonceManager.resync.All still := resync_basic.mono fun _ => still_of_basic
  unfold broadcastEntry
  apply then_kept ((x.buyCall_mild _ _ _).mono fun _ mild => still_of_calm mild.calm)
  rintro ⟨target, gasLimit, calldata⟩
  apply then_kept (reserveNonce_basic.mono fun _ => still_of_basic)
  intro nonce
  apply Obeys.call trivial
  intro signed
  cases signed with
  | none => exact then_kept resync fun _ _ => rfl
  | some txHash =>
      dsimp only
      split
      · apply Obeys.call trivial
        intro sent
        cases sent with
        | false => exact then_kept resync fun _ _ => rfl
        | true =>
            apply then_kept ((ask_calm _).mono fun _ => still_of_calm)
            intro bnbUsd
            apply then_kept (records _ _ _)
            intro _
            apply Obeys.call trivial
            intro e unopened
            exact absurd rfl (unopened e)
      · apply Obeys.call trivial
        intro _
        exact then_kept (records _ _ _) fun _ _ => rfl

/-- A call that opens no position drops an exited entry or nothing. -/
theorem execute_obeys (decision : Decision) (visibility : String) (openPositions : Nat) :
    (x.execute decision visibility openPositions).Obeys guardOrder
      (fun q' outcome => (∀ e, outcome ≠ .opened e) → Dropped q q') q := by
  cases decision with
  | enter kolName token bnbAmount kolBnbInput kolBlock kolTx =>
      apply (dupGuard_obeys token).bind
      intro q' duplicate dropped
      split
      · exact fun _ => dropped
      · apply then_kept ((x.sizeByUsd_mild _ _).mono fun _ mild => still_of_calm mild.calm)
        intro size
        cases size with
        | none => exact fun _ => dropped
        | some bnbAmount =>
            apply then_kept ((x.entryGates_gates _ _ _ _ _).mono fun _ gates =>
              still_of_calm gates.calm)
            intro gated
            cases gated with
            | error reason => exact fun _ => dropped
            | ok entry =>
                apply (broadcastEntry_obeys kolName visibility token entry).mono
                intro q'' outcome same unopened
                rw [same unopened]
                exact dropped
  | _ => exact fun _ => ⟨rfl, .inl ⟨rfl, rfl⟩⟩

end Functions

/-- How a task ends: a call of `execute` that opened no position dropped an
exited entry or nothing. -/
def Ended : Task → GuardPhase → Done → Prop
  | .execute .., q, .entered outcome => (∀ e, outcome ≠ .opened e) → Dropped {} q
  | _, _, _ => True

theorem body_obeys (t : Task) : (w.machine.body t).Obeys guardOrder (Ended t) {} := by
  have enters : ∀ decision visibility openPositions q, True →
      (w.exec.execute decision visibility openPositions).Obeys guardOrder (fun _ _ => True) q :=
    fun decision visibility openPositions q _ =>
      (execute_obeys decision visibility openPositions).mono fun _ _ _ => trivial
  have exits : ∀ token kolName kolBlock kolAddr q, True →
      (w.exec.executeExit token kolName kolBlock kolAddr).Obeys guardOrder (fun _ _ => True) q :=
    fun token kolName kolBlock kolAddr q _ =>
      guardOrder.kinds.obeys_free ((executeExit_exits token kolName kolBlock kolAddr).mono fun _ =>
        free_of_exits)
  have others : (w.machine.body t).Obeys guardOrder (fun _ _ => True) {} := by
    apply guardOrder_roams.body_obeys exits enters _ _ t trivial
    · exact fun token buyTxHash route entry q _ => guardOrder.kinds.obeys_free
        ((finalizePosition_finalizes token buyTxHash route entry).mono fun _ => free_of_finalizes)
    · exact fun _ _ _ _ => trivial
  cases t with
  | execute decision visibility openPositions =>
      apply (execute_obeys decision visibility openPositions).bind
      exact fun q outcome dropped => dropped
  | _ => exact others.mono fun _ _ _ => trivial

/-! ### The map -/

/-- The map without some tokens. -/
def without (m : AList fun _ : Address => EntryId) (tokens : List Address) : AList fun _ :
    Address => EntryId :=
  tokens.foldr (fun token rest => rest.erase token) m

theorem mem_of_mem_without {m : AList fun _ : Address => EntryId} {tokens : List Address}
    {token : Address} (held : token ∈ without m tokens) : token ∈ m := by
  induction tokens with
  | nil => exact held
  | cons first rest ih => exact ih ((AList.mem_erase).mp held).2

/-- What a look-up finds is in the map. -/
theorem mem_of_cached {b : Book} {token : Address} (hit : exitedHit (b.cached token) = true) :
    token ∈ b.positions := by
  rw [← AList.lookup_isSome]
  unfold Book.cached at hit
  cases held : b.positions.lookup token with
  | none => simp [held, exitedHit] at hit
  | some e => rfl

variable {i fresh : Tid} {o : Op} {a : w.machine.Ans o} {out : Outcome World Task o.Res}

/-- Operations that keep the phase keep the map. -/
theorem map_of_still {s : World} (kind : still o) (did : w.machine.exec i fresh o a s = some out) :
    out.shared.trade.book.positions = s.trade.book.positions := by
  have ran : o.exec i fresh a s = some out := did
  cases o with
  | trade o =>
      obtain ⟨mid, access, rfl⟩ := Option.map_eq_some_iff.1 ran
      cases o with
      | positionsGet | positionsRemove | openPosition => exact kind.elim
      | loadEntry entry =>
          obtain ⟨p, -, rfl⟩ := Option.map_eq_some_iff.1 access
          rfl
      | lockExit token =>
          dsimp only [TradeOp.exec] at access
          split at access
          · cases access
            rfl
          · cases access
      | writeBack token tokens sized =>
          cases access
          exact Book.writeBack_positions
      | _ =>
          cases access
          rfl
  | env o =>
      obtain ⟨after, -, rfl⟩ := Option.map_eq_some_iff.1 ran
      rfl
  | sign tx => cases a <;> cases ran <;> rfl
  | _ =>
      cases ran
      rfl

/-- As long as the task opened nothing: the map is the first one without what the task dropped, and
what it dropped or is about to drop is in it. -/
structure Framed (first : AList fun _ : Address => EntryId) (q : GuardPhase) (s : World) :
    Prop where
  map : s.trade.book.positions = without first q.removed
  held : ∀ token, q.stale = some token → token ∈ first
  dropped : ∀ token ∈ q.removed, token ∈ first

/-- The task looked up what it looked up. -/
structure Frame (first : AList fun _ : Address => EntryId) (i : Tid) (s : LiveRecorded w) :
    Prop where
  saw : (guardPhaseAt i s.2).saw = sawExited i s.2
  framed : (guardPhaseAt i s.2).opened = false → Framed first (guardPhaseAt i s.2) s.1

theorem guardPhaseAt_own (r : o.Res) (older : List w.machine.Event) :
    guardPhaseAt i (⟨i, o, a, r⟩ :: older) = guardOrder.next (guardPhaseAt i older) o r :=
  Protocol.phase_own rfl

theorem guardPhaseAt_other {j : Tid} (other : j ≠ i) (r : o.Res) (older : List w.machine.Event) :
    guardPhaseAt i (⟨j, o, a, r⟩ :: older) = guardPhaseAt i older :=
  Protocol.phase_other other

theorem sawExited_other {j : Tid} (other : j ≠ i) (r : o.Res) (older : List w.machine.Event) :
    sawExited i (⟨j, o, a, r⟩ :: older) = sawExited i older := by
  cases o with
  | trade o => cases o <;> simp [sawExited, other]
  | _ => rfl

theorem sawExited_still (kind : still o) (r : o.Res) (older : List w.machine.Event) :
    sawExited i (⟨i, o, a, r⟩ :: older) = sawExited i older := by
  cases o with
  | trade o => cases o <;> first | exact kind.elim | rfl
  | _ => rfl

/-- A step of the task itself. -/
theorem frame_own {first : AList fun _ : Address => EntryId} {s : LiveRecorded w}
    (frame : Frame first i s) (allowed : guardOrder.allows (guardPhaseAt i s.2) o)
    (did : w.machine.exec i fresh o a s.1 = some out) :
    Frame (w := w) first i (out.shared, ⟨i, o, a, out.res⟩ :: s.2) := by
  by_cases kind : still o
  · constructor
    · rw [guardPhaseAt_own, kind.keeps.2, sawExited_still kind]
      exact frame.saw
    · intro unopened
      rw [guardPhaseAt_own, kind.keeps.2] at unopened ⊢
      have framed := frame.framed unopened
      exact ⟨(map_of_still kind did).trans framed.map, framed.held, framed.dropped⟩
  · cases o with
    | trade o =>
        cases o with
        | positionsGet token =>
            cases did
            constructor
            · rw [guardPhaseAt_own]
              simp [guardOrder, sawExited, frame.saw]
            · intro unopened
              rw [guardPhaseAt_own] at unopened ⊢
              have framed := frame.framed unopened
              constructor
              · exact framed.map
              · intro found isStale
                by_cases hit : exitedHit (s.1.trade.cached token) = true
                · simp only [guardOrder, hit, if_true, Option.some.injEq] at isStale
                  subst isStale
                  have inMap := mem_of_cached hit
                  rw [framed.map] at inMap
                  exact mem_of_mem_without inMap
                · simp [guardOrder, hit] at isStale
              · exact framed.dropped
        | positionsRemove token =>
            cases did
            constructor
            · rw [guardPhaseAt_own]
              exact frame.saw
            · intro unopened
              rw [guardPhaseAt_own] at unopened ⊢
              have framed := frame.framed unopened
              constructor
              · change s.1.trade.book.positions.erase token =
                    (without first (guardPhaseAt i s.2).removed).erase token
                rw [framed.map]
              · intro found isStale
                cases isStale
              · intro gone member
                rcases List.mem_cons.1 member with rfl | before
                · exact framed.held gone allowed
                · exact framed.dropped gone before
        | openPosition token route bnbIn txHash =>
            constructor
            · rw [guardPhaseAt_own]
              exact frame.saw
            · intro unopened
              rw [guardPhaseAt_own] at unopened
              cases unopened
        | _ => exact absurd trivial kind
    | _ => exact absurd trivial kind

/-- A step of another task. -/
theorem frame_other {first : AList fun _ : Address => EntryId} {s : LiveRecorded w} {j : Tid}
    (other : j ≠ i)
    (frame : Frame first i s) (keeps : out.shared.trade.book.positions = s.1.trade.book.positions) :
    Frame (w := w) first i (out.shared, ⟨j, o, a, out.res⟩ :: s.2) := by
  constructor
  · rw [guardPhaseAt_other other, sawExited_other other]
    exact frame.saw
  · intro unopened
    rw [guardPhaseAt_other other] at unopened ⊢
    have framed := frame.framed unopened
    exact ⟨keeps.trans framed.map, framed.held, framed.dropped⟩

end EntryFrame

open EntryFrame in
/-- In every run in which the steps of others leave the map alone: a call of `execute` that
returned without opening a position has left the map as it was exactly if its duplicate guard did
not find an exited entry. -/
theorem entry_frame_iff (s : World) (tasks : List Task) (i : Tid) (decision : Decision)
    (visibility : String)
    (openPositions : Nat) (outcome : EnterOutcome) (c : Config LiveSig (LiveRecorded w) Task Done)
    (run : w.machine.recording.Run (mapLeftTo i) (w.machine.recording.start (s, []) tasks) c)
    (runs : c.taskAt i = some (.execute decision visibility openPositions))
    (returned : c.returned i = some (.entered outcome)) (unopened : ∀ e, outcome ≠ .opened e) :
    c.shared.1.trade.book.positions = s.trade.book.positions ↔ sawExited i c.shared.2 = false := by
  have bodies : ∀ t, (w.machine.body t).Obeys guardOrder (Ended t) {} := body_obeys
  have frame : Frame s.trade.book.positions i c.shared := by
    apply Machine.invariant_of_obeyed (I := Frame s.trade.book.positions i) bodies _ run
    · constructor
      · rfl
      · intro _
        constructor
        · rfl
        · intro token found
          cases found
        · intro token member
          cases member
    · intro j fresh t o a s out frame _ allowed leaves did
      by_cases own : j = i
      · subst own
        exact frame_own frame allowed did
      · exact frame_other own frame ((leaves.resolve_left own) fresh out did)
  have obeyed := Machine.obeyed_of_run bodies run
  have ended : Dropped {} (guardPhaseAt i c.shared.2) :=
    obeyed.obeys i _ _ (Config.pool_of_returned runs returned) unopened
  obtain ⟨closed, found⟩ := ended
  have framed := frame.framed closed
  rw [← frame.saw]
  rcases found with ⟨unseen, nothing⟩ | ⟨seen, token, gone⟩
  · rw [unseen, framed.map, nothing]
    exact ⟨fun _ => rfl, fun _ => rfl⟩
  · rw [seen, framed.map, gone]
    constructor
    · intro same
      have inMap : token ∈ s.trade.book.positions := framed.dropped token (by simp [gone])
      rw [← same] at inMap
      exact absurd rfl (AList.mem_erase.mp inMap).1
    · intro unseen
      cases unseen

/-- A BUY for a KOL that is not followed. -/
def refusedTask : Task := .execute (.enter "E" scenarioToken 1000 1000 8 2) "public" 0

/-- The position of another token is open, with its tokens and its approval. -/
def otherOpen : World where
  trade := {
    book := ((Book.empty.insert {
      token := 0x4445#160
      route := .fourMeme
      tokensBought := 0
      bnbIn := 1
      approved := false
      openedAt := 0
      finalizer := 0 }).setTokens 0 1000).setApproved 0 }
  nonce := NonceManager.new 5 none

/-- A refused entry leaves an open position in the map, and nothing else. -/
theorem entry_frame_iff_refused :
    ∃ c, (scenario false).machine.recording.Run (mapLeftTo 0)
        ((scenario false).machine.recording.start (otherOpen, []) [refusedTask]) c ∧
      (otherOpen.trade.cached 0x4445#160).map (fun held => held.2.tokensBought) = some 1000 ∧
      sawExited 0 c.shared.2 = false ∧ c.shared.1.trade.book.positions =
        otherOpen.trade.book.positions := by
  let r : Replies := {}
  let own : (scenario false).machine.recording.Cond := fun j _ _ _ => j = 0
  have dec : ∀ i o a s, Decidable (own i o a s) :=
    fun j _ _ _ => inferInstanceAs (Decidable (j = 0))
  obtain ⟨c, run, runs, returned, unseen⟩ : ∃ c, (scenario false).machine.recording.Run own
        ((scenario false).machine.recording.start (otherOpen, []) [refusedTask]) c ∧
      c.taskAt 0 = some refusedTask ∧ c.returned 0 = some (.entered (.skipped "not_whitelisted")) ∧
      sawExited 0 c.shared.2 = false :=
    Machine.exists_run_of_follow (C := own) [(0, 7, r.ans)] (by decide +kernel)
  have alone : (scenario false).machine.recording.Run (mapLeftTo 0)
      ((scenario false).machine.recording.start (otherOpen, []) [refusedTask]) c :=
    run.mono fun j o a s isFirst => .inl isFirst
  have frame := entry_frame_iff otherOpen [refusedTask] 0 _ _ _ _ c alone runs returned (by simp)
  exact ⟨c, alone, by decide, unseen, frame.mpr unseen⟩

/-- A position is opened and sold, and its entry stays in the map for the exits to come; a refused
BUY of its token drops it. -/
theorem refused_entry_drops_exited :
    ∃ c c', (scenario false).machine.recording.Run (scenario false).machine.recording.anyStep
        ((scenario false).machine.recording.start (World.boot 5 none, []) [buyTask, exitTask]) c ∧
        c.Quiet ∧
      (scenario false).machine.recording.Run (mapLeftTo 0)
        ((scenario false).machine.recording.start (c.shared.1, []) [refusedTask]) c' ∧
      c'.returned 0 = some (.entered (.skipped "not_whitelisted")) ∧
      scenarioToken ∈ c.shared.1.trade.book.positions ∧
      scenarioToken ∉ c'.shared.1.trade.book.positions ∧
      c'.shared.1.trade.book.positions ≠ c.shared.1.trade.book.positions := by
  let r : Replies := { balance := some 1000 }
  let own : (scenario false).machine.recording.Cond := fun j _ _ _ => j = 0
  have dec : ∀ i o a s, Decidable (own i o a s) :=
    fun j _ _ _ => inferInstanceAs (Decidable (j = 0))
  obtain ⟨c, run, quiet, c', run', returned, held, gone⟩ : ∃ c,
      (scenario false).machine.recording.Run (scenario false).machine.recording.anyStep
        ((scenario false).machine.recording.start (World.boot 5 none, []) [buyTask, exitTask]) c ∧
        c.Quiet ∧
      ∃ c', (scenario false).machine.recording.Run own
          ((scenario false).machine.recording.start (c.shared.1, []) [refusedTask]) c' ∧
        c'.returned 0 = some (.entered (.skipped "not_whitelisted")) ∧
        scenarioToken ∈ c.shared.1.trade.book.positions ∧
        scenarioToken ∉ c'.shared.1.trade.book.positions := by
    have passes :
        ((scenario false).machine.recording.follow (scenario false).machine.recording.anyStep
        [(0, 18, r.ans), (2, 13, r.ans), (1, 17, r.ans)]
        ((scenario false).machine.recording.start (World.boot 5 none, []) [buyTask, exitTask])).any
          (fun c =>
          decide c.Quiet && ((scenario false).machine.recording.follow own [(0, 8, r.ans)]
            ((scenario false).machine.recording.start (c.shared.1, []) [refusedTask])).any fun c' =>
              decide (c'.returned 0 = some (.entered (.skipped "not_whitelisted")) ∧
                scenarioToken ∈ c.shared.1.trade.book.positions ∧
                scenarioToken ∉ c'.shared.1.trade.book.positions)) = true := by decide +kernel
    obtain ⟨c, followed, rest⟩ := (Option.any_eq_true _ _).1 passes
    rw [Bool.and_eq_true] at rest
    obtain ⟨c', followed', holds⟩ := (Option.any_eq_true _ _).1 rest.2
    exact ⟨c, Machine.run_of_follow followed, of_decide_eq_true rest.1, c',
      Machine.run_of_follow followed',
      of_decide_eq_true holds⟩
  have changed : c'.shared.1.trade.book.positions ≠ c.shared.1.trade.book.positions := by
    intro same
    rw [same] at gone
    exact gone held
  exact ⟨c, c', run, quiet, run'.mono fun j o a s isFirst =>
    .inl isFirst, returned, held, gone, changed⟩

end BscMempool.Trader
