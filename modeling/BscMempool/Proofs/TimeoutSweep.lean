/-
Module: BscMempool.Proofs.TimeoutSweep
Layer: Proofs
Purpose: When a timeout sweep of the paper trader leaves nothing overdue. A position that it finds
  with tokens it removes, with one row and one credit for the whole, unless another close of the
  position is under way; a position without tokens it leaves.
Trusted boundary: none
Main exports: SweepLog, sweepLog, noEntry, sweepsClear, Swept, sweep_leaves_nothing_overdue,
  sweep_leaves_empty_fill
-/
import BscMempool.Concurrent.History
import BscMempool.Proofs.CommittedBudget
import BscMempool.Proofs.PaperProtocol
import BscMempool.Proofs.PaperScenario

namespace BscMempool.Trader

open Concurrent (Tid Machine Contract Outcome)
open Concurrent.Proc

/-! ### What a sweep did -/

/-- What happened under one key since the sweep read it: the position it found, the rows handed to
the ledger, the cost bases credited, and whether the sweep removed the position. -/
structure CloseLog where
  read : Option OpenPosition := none
  rows : List ClosedTrade := []
  credits : List U256 := []
  removed : Bool := false

/-- A row counts if the sweep has read the position. -/
def CloseLog.row (c : CloseLog) (trade : ClosedTrade) : CloseLog :=
  if c.read.isSome then { c with rows := trade :: c.rows } else c

def CloseLog.credit (c : CloseLog) (bnbIn : U256) : CloseLog :=
  if c.read.isSome then { c with credits := bnbIn :: c.credits } else c

/-- The cutoff of the sweep that the task at position 0 makes, and what happened under each key. -/
structure SweepLog where
  cutoff : Option Nat := none
  closes : PositionKey → CloseLog := fun _ => {}

def SweepLog.change (l : SweepLog) (key : PositionKey) (f : CloseLog → CloseLog) : SweepLog :=
  { l with closes := Function.update l.closes key (f (l.closes key)) }

/-- Note one operation. -/
def SweepLog.note (l : SweepLog) (i : Tid) : (o : PaperOp) → o.Res → SweepLog
  | .openedBefore cutoff, _ => if i = 0 then { l with cutoff := some cutoff } else l
  | .get key, held => if i = 0 then l.change key fun _ => { read := held } else l
  | .creditClose key _ bnbIn _, _ => l.change key fun c => c.credit bnbIn
  | .appendTrade trade, _ => l.change trade.key fun c => c.row trade
  | .remove key _, _ => if i = 0 then l.change key fun c => { c with removed := true } else l
  | _, _ => l

section Log

variable {x : PaperExecutor}

def sweepLog : List x.machine.Event → SweepLog
  | [] => {}
  | e :: older => (sweepLog older).note e.tid e.op e.res

/-- No entry is booked from the moment the sweep asks the book what is overdue. -/
def noEntry (_ : Tid) (o : PaperOp) (_ : o.Ans) (s : x.Recorded) : Bool :=
  match o with
  | .openAll _ => (sweepLog s.2).cutoff.isNone
  | _ => true

instance (i : Tid) (o : PaperOp) (a : x.machine.recording.Ans o) (s : x.Recorded) :
    Decidable (noEntry i o a s = true) :=
  decEq (noEntry i o a s) true

/-- The steps of a clear sweep: the position that the sweep reads, if there is one, holds
tokens, and no other task credits, records or takes out of the book anything of a position that
the sweep has read. -/
def sweepsClear (i : Tid) (o : PaperOp) (_ : o.Ans) (s : x.Recorded) : Bool :=
  match o with
  | .get key => decide (i ≠ 0) || (s.1.book.get key).all fun p => decide (p.tokensHeld ≠ 0)
  | .creditClose key _ _ _ | .remove key _ | .shrink key _ _ _ =>
      decide (i = 0) || ((sweepLog s.2).closes key).read.isNone
  | .appendTrade trade => decide (i = 0) || ((sweepLog s.2).closes trade.key).read.isNone
  | _ => true

end Log

/-- One row and, with budgets on, one credit, each of the whole position that was read. -/
structure CloseLog.BookedOnce (x : PaperExecutor) (c : CloseLog) (p : OpenPosition) : Prop where
  read : c.read = some p
  row : ∃ trade, c.rows = [trade] ∧ trade.key = p.key ∧ trade.tokensTraded = p.tokensHeld ∧
    trade.bnbInWei = p.bnbIn
  credit : c.credits = if x.kolBudgets.isSome then [p.bnbIn] else []

/-- What the sweep is to leave: nothing overdue, and each removed position with one
row and one credit. -/
structure Swept (x : PaperExecutor) (s : x.Recorded) : Prop where
  nothingOverdue : ∃ cutoff, (sweepLog s.2).cutoff = some cutoff ∧
    ∀ key p, s.1.book.get key = some p → cutoff < p.openedAtUnixNs
  bookedOnce : ∀ key, ((sweepLog s.2).closes key).removed = true →
    ∃ p, ((sweepLog s.2).closes key).BookedOnce x p

/-- A removal by the sweep takes the position that it was sized from out of the book. -/
def RemovesAsSized {x : PaperExecutor} (s s' : x.Recorded) : Prop :=
  ∀ key p a held, s'.2 = ⟨0, .remove key p, a, held⟩ :: s.2 → s.1.book.get key = some p

namespace TimeoutSweep

variable {x : PaperExecutor} {cutoff : Nat} {key : PositionKey} {p : OpenPosition}

/-! ### The book and the log -/

/-- What the sweep is about. -/
def view (s : x.Recorded) : PositionBook × SweepLog := (s.1.book, sweepLog s.2)

/-- What a step of another task leaves, once the sweep is under way. -/
structure Beside (v v' : PositionBook × SweepLog) : Prop where
  log : v'.2 = v.2
  opened : v.2.cutoff.isSome → ∀ key p', v'.1.get key = some p' →
    ∃ p, v.1.get key = some p ∧ p.openedAtUnixNs = p'.openedAtUnixNs
  held : v.2.cutoff.isSome → ∀ key, (v.2.closes key).read.isSome → v'.1.get key = v.1.get key

def contract (x : PaperExecutor) (holdTimeoutNs : Nat) : Contract x.machine.recording where
  cond i o a s := (noEntry i o a s && sweepsClear i o a s) = true
  inv _ := True
  guar i s s' := (i ≠ 0 → Beside (view s) (view s')) ∧ (i = 0 → RemovesAsSized s s')
  pre t i s := i = 0 → t = .sweeper holdTimeoutNs 1 ∧ sweepLog s.2 = {}
  post _ i _ s := i = 0 → Swept x s

variable {holdTimeoutNs : Nat}

theorem change_closes (l : SweepLog) (key other : PositionKey) (f : CloseLog → CloseLog) :
    (l.change key f).closes other = if other = key then f (l.closes key) else l.closes other := by
  simp [SweepLog.change, Function.update_apply]

theorem change_same {l : SweepLog} {f : CloseLog → CloseLog}
    (same : f (l.closes key) = l.closes key) :
    l.change key f = l := by
  unfold SweepLog.change
  rw [same, Function.update_eq_self]

section Note

variable (l : SweepLog)

theorem note_openedBefore {keys : List PositionKey} :
    l.note 0 (.openedBefore cutoff) keys = { l with cutoff := some cutoff } := rfl

theorem note_get {held : Option OpenPosition} :
    l.note 0 (.get key) held = l.change key fun _ => { read := held } := rfl

theorem note_remove {held : Bool} :
    l.note 0 (.remove key p) held = l.change key fun c => { c with removed := true } := rfl

end Note

/-! ### The other tasks -/

/-- While the sweep is under way another task's step books no position. -/
theorem others_older {i : Tid} {o : PaperOp} {a : o.Ans} {s : x.Recorded}
    (entry : noEntry i o a s = true)
    {out : Outcome PaperWorld PaperTask o.Res} (did : o.exec i a s.1 = some out)
    (begun : (sweepLog s.2).cutoff.isSome) (key : PositionKey) (p' : OpenPosition)
    (held : out.shared.book.get key = some p') :
    ∃ p, s.1.book.get key = some p ∧ p.openedAtUnixNs = p'.openedAtUnixNs := by
  by_cases sets : o.setsBook
  · cases o with
    | openAll fill =>
        rw [noEntry, Option.isNone_iff_eq_none] at entry
        rw [entry] at begun
        cases begun
    | remove removed sized =>
        cases did
        exact ⟨p', PositionBook.get_of_remove held, rfl⟩
    | shrink shrunk tokens bnb sized =>
        cases did
        exact PositionBook.get_of_shrink held
    | _ => exact sets.elim
  · rw [(PaperOp.exec_frame did).1.book sets] at held
    exact ⟨p', held, rfl⟩

/-- What the sweep has read another task's step leaves in the book as it is. -/
theorem others_unread {i : Tid} (ne : i ≠ 0) {o : PaperOp} {a : o.Ans} {s : x.Recorded}
    (entry : noEntry i o a s = true) (clear : sweepsClear i o a s = true)
    {out : Outcome PaperWorld PaperTask o.Res} (did : o.exec i a s.1 = some out)
    (begun : (sweepLog s.2).cutoff.isSome) (key : PositionKey)
    (read : ((sweepLog s.2).closes key).read.isSome) :
    out.shared.book.get key = s.1.book.get key := by
  have apart : ∀ {changed}, ((sweepLog s.2).closes changed).read.isNone = true → key ≠ changed := by
    rintro changed unread rfl
    rw [Option.isNone_iff_eq_none] at unread
    rw [unread] at read
    cases read
  by_cases sets : o.setsBook
  · cases o with
    | openAll fill =>
        rw [noEntry, Option.isNone_iff_eq_none] at entry
        rw [entry] at begun
        cases begun
    | remove removed sized =>
        cases did
        exact PositionBook.get_remove_of_ne (apart (by simpa [sweepsClear, ne] using clear))
    | shrink shrunk tokens bnb sized =>
        cases did
        exact PositionBook.get_shrink_of_ne (apart (by simpa [sweepsClear, ne] using clear))
    | _ => exact sets.elim
  · rw [(PaperOp.exec_frame did).1.book sets]

/-- Another task's step leaves the log of the sweep alone. -/
theorem note_other {i : Tid} (ne : i ≠ 0) {o : PaperOp} {a : o.Ans} {s : x.Recorded}
    (clear : sweepsClear i o a s = true) (result : o.Res) :
    (sweepLog s.2).note i o result = sweepLog s.2 := by
  cases o with
  | openedBefore => exact if_neg ne
  | get => exact if_neg ne
  | remove => exact if_neg ne
  | creditClose key tokens bnbIn bnbOut =>
      have unread : ((sweepLog s.2).closes key).read = none := by
        simpa [sweepsClear, ne] using clear
      exact change_same (if_neg (by simp [unread]))
  | appendTrade trade =>
      have unread : ((sweepLog s.2).closes trade.key).read = none := by
        simpa [sweepsClear, ne] using clear
      exact change_same (if_neg (by simp [unread]))
  | _ => rfl

/-- Every step of another task is beside the sweep. -/
theorem other_triple {i : Tid} (ne : i ≠ 0) (o : PaperOp) :
    (contract x holdTimeoutNs).Triple i (fun _ => True) o fun _ _ => True := by
  intro s _ _ fresh _ a meets out did
  obtain ⟨ran, past⟩ := Machine.exec_of_recording did
  have did' : o.exec i a s.1 = some ⟨out.res, out.shared.1, out.spawned⟩ := ran
  obtain ⟨entry, clear⟩ := Bool.and_eq_true_iff.1 meets
  refine ⟨.quiet trivial ⟨fun _ => ?_, fun same => absurd same ne⟩ (PaperOp.exec_frame did').2,
    trivial⟩
  constructor
  · change sweepLog out.shared.2 = sweepLog s.2
    rw [past]
    exact note_other ne clear out.res
  · intro begun
    exact others_older entry did' begun
  · intro begun
    exact others_unread ne entry clear did' begun

/-! ### The sweep -/

/-- The sweep is finished with a key: nothing overdue is left under it, and what was
removed was booked once. -/
structure Done (x : PaperExecutor) (cutoff : Nat) (key : PositionKey)
    (v : PositionBook × SweepLog) : Prop where
  notOverdue : ∀ p, v.1.get key = some p → cutoff < p.openedAtUnixNs
  bookedOnce : (v.2.closes key).removed = true → ∃ p, (v.2.closes key).BookedOnce x p

/-- Only the keys of `todo` are still to be swept. -/
structure Sweeping (x : PaperExecutor) (cutoff : Nat) (todo : List PositionKey)
    (v : PositionBook × SweepLog) : Prop where
  begun : v.2.cutoff = some cutoff
  done : ∀ key, key ∉ todo → Done x cutoff key v

/-- The sweep is closing the position under one more key, where so far `c` happened. -/
structure Closing (x : PaperExecutor) (cutoff : Nat) (todo : List PositionKey) (key : PositionKey)
    (p : OpenPosition) (c : CloseLog) (v : PositionBook × SweepLog) : Prop where
  begun : v.2.cutoff = some cutoff
  done : ∀ other, other ≠ key → other ∉ todo → Done x cutoff other v
  held : v.1.get key = some p
  log : v.2.closes key = c
  read : c.read = some p

/-- The others leave what the sweep is finished with. -/
theorem Done.beside {v v' : PositionBook × SweepLog} (beside : Beside v v')
    (begun : v.2.cutoff = some cutoff) (done : Done x cutoff key v) : Done x cutoff key v' := by
  constructor
  · intro p' held'
    obtain ⟨p, held, same⟩ := beside.opened (by simp [begun]) key p' held'
    rw [← same]
    exact done.notOverdue p held
  · rw [beside.log]
    exact done.bookedOnce

variable {todo : List PositionKey} {c : CloseLog}

theorem sweeping_stable :
    (contract x holdTimeoutNs).Stable 0 fun s => Sweeping x cutoff todo (view s) := by
  rintro j s s' other - - guar ⟨begun, done⟩
  have beside := guar.1 other
  exact ⟨by rw [beside.log, begun], fun key done_ => (done key done_).beside beside begun⟩

theorem closing_stable :
    (contract x holdTimeoutNs).Stable 0 fun s => Closing x cutoff todo key p c (view s) := by
  rintro j s s' other - - guar ⟨begun, done, held, log, read⟩
  have beside := guar.1 other
  refine ⟨by rw [beside.log, begun], fun key ne done_ => (done key ne done_).beside beside begun,
    ?_, ?_, read⟩
  · rw [beside.held (by simp [begun]) key (by simp [log, read]), held]
  · rw [beside.log, log]

/-- An operation of the sweep other than a removal. -/
theorem own_triple {P : x.Recorded → Prop} {o : PaperOp} {Q : o.Res → x.Recorded → Prop}
    (keeps : ∀ key p, o ≠ .remove key p)
    (does : ∀ s, P s → ∀ a, sweepsClear 0 o a s = true → ∀ out, o.exec 0 a s.1 = some out → ∀ s',
      view s' = (out.shared.book, (sweepLog s.2).note 0 o out.res) → Q out.res s') :
    (contract x holdTimeoutNs).Triple 0 P o Q := by
  intro s _ now fresh _ a meets out did
  obtain ⟨ran, past⟩ := Machine.exec_of_recording did
  have did' : o.exec 0 a s.1 = some ⟨out.res, out.shared.1, out.spawned⟩ := ran
  constructor
  · refine .quiet trivial ⟨fun ne => absurd rfl ne, fun _ key p a' result same => ?_⟩
      (PaperOp.exec_frame did').2
    rw [past] at same
    cases (List.cons.inj same).1
    exact absurd rfl (keeps key p)
  · apply does s now a (Bool.and_eq_true_iff.1 meets).2 _ did'
    unfold view
    rw [past]
    rfl

/-- The operations that the sweep's assertions do not speak about. -/
def aside (o : PaperOp) : Prop :=
  match o with
  | .ask _ | .saveBook | .snapshotBudgets | .writeBudgets _ | .renameBudgets | .heldRemove _ => True
  | _ => False

theorem aside_of_asks {α : Type} {q : Paper α} (all : q.All PaperOp.asks) : q.All aside := by
  apply all.mono
  intro o asks
  cases o <;> first | exact asks.elim | trivial

theorem aside_wp {P : PositionBook × SweepLog → Prop}
    (stable : (contract x holdTimeoutNs).Stable 0 fun s => P (view s))
    {α : Type} {q : Paper α} (all : q.All aside) {Q : α → x.Recorded → Prop}
    (done : ∀ value s, P (view s) → Q value s)
    {s : x.Recorded} (now : P (view s)) : (contract x holdTimeoutNs).wp 0 q Q s := by
  refine Contract.wp_of_all (A := aside) stable (fun o kind => ?_) all done now
  apply own_triple
  · rintro key p rfl
    exact kind
  · intro s now a _ out did s' after
    have book : out.shared.book = s.1.book := by
      apply (PaperOp.exec_frame did).1.book
      cases o <;> first | exact kind.elim | exact id
    have log : (sweepLog s.2).note 0 o out.res = sweepLog s.2 := by
      cases o <;> first | exact kind.elim | rfl
    rw [after, book, log]
    exact now

/-- The sweep asks the book what is overdue. -/
theorem openedBefore_triple :
    (contract x holdTimeoutNs).Triple 0 (fun s => (view s).2 = {}) (.openedBefore cutoff)
      fun keys s =>
      keys.Nodup ∧ Sweeping x cutoff keys (view s) := by
  apply own_triple (by simp)
  intro s empty order _ out did s' after
  simp only [PaperOp.exec] at did
  split at did
  · rename_i perm
    cases did
    have begun : view s' = (s.1.book, { cutoff := some cutoff }) := by
      rw [after, show sweepLog s.2 = {} from empty, note_openedBefore]
    rw [begun]
    refine ⟨perm.nodup_iff.2 (PositionBook.nodup_openedBefore _ _), rfl, fun key absent =>
      ⟨fun p held => ?_, ?_⟩⟩
    · rw [perm.mem_iff, PositionBook.mem_openedBefore] at absent
      by_contra overdue
      exact absent ⟨p, held, not_lt.1 overdue⟩
    · intro removed
      cases removed
  · cases did

/-- The sweep reads a position, which holds tokens if it is there. -/
theorem get_triple : (contract x holdTimeoutNs).Triple 0
    (fun s => Sweeping x cutoff (key :: todo) (view s)) (.get key)
    fun held s => (held = none → Sweeping x cutoff todo (view s)) ∧ ∀ p, held = some p →
      p.tokensHeld ≠ 0 ∧ p.key = key ∧ Closing x cutoff todo key p { read := some p } (view s) := by
  apply own_triple (by simp)
  intro s now a clear out did s' after
  cases did
  have seen : view s' = (s.1.book, (sweepLog s.2).change key fun _ =>
      { read := s.1.book.get key }) := by
    rw [after, note_get]
  -- what the log has under the key afterwards, and that it has the same under the others
  have closes :
      ∀ other, ((sweepLog s.2).change key fun _ => { read := s.1.book.get key }).closes other =
      if other = key then { read := s.1.book.get key } else (sweepLog s.2).closes other :=
        fun other =>
    change_closes _ _ _ _
  have others : ∀ other, other ≠ key → other ∉ todo →
      Done x cutoff other (s.1.book, (sweepLog s.2).change key fun _ =>
        { read := s.1.book.get key }) := by
    intro other ne done_
    have done := now.done other (by simp [ne, done_])
    refine ⟨done.notOverdue, ?_⟩
    dsimp only
    rw [closes, if_neg ne]
    exact done.bookedOnce
  rw [seen]
  constructor
  · intro (absent : s.1.book.get key = none)
    refine ⟨now.begun, fun other done_ => ?_⟩
    by_cases same : other = key
    · subst same
      constructor
      · intro p held
        cases absent.symm.trans held
      · dsimp only
        rw [closes, if_pos rfl]
        intro removed
        cases removed
    · exact others other same done_
  · intro p (held : s.1.book.get key = some p)
    refine ⟨?_, PositionBook.key_of_get held, now.begun, others, held, ?_, rfl⟩
    · simpa [sweepsClear, held] using clear
    · dsimp only
      rw [closes, if_pos rfl, held]

/-- Noting something under the key of the position. -/
theorem Closing.note {v : PositionBook × SweepLog} {f : CloseLog → CloseLog}
    (now : Closing x cutoff todo key p c v)
    (read : (f c).read = some p) : Closing x cutoff todo key p (f c) (v.1, v.2.change key f) := by
  constructor
  · exact now.begun
  · intro other ne done_
    have done := now.done other ne done_
    refine ⟨done.notOverdue, ?_⟩
    dsimp only
    rw [change_closes, if_neg ne]
    exact done.bookedOnce
  · exact now.held
  · dsimp only
    rw [change_closes, if_pos rfl, now.log]
  · exact read

/-- The whole position is credited, if budgets are on. -/
theorem creditSlice_wp {trade : ClosedTrade} (own : trade.key = key)
    (whole : trade.bnbInWei = p.bnbIn) {s : x.Recorded}
    (now : Closing x cutoff todo key p { read := some p } (view s)) :
    (contract x holdTimeoutNs).wp 0 (x.creditSlice trade) (fun _ s => Closing x cutoff todo key p
      { read := some p, credits := if x.kolBudgets.isSome then [p.bnbIn] else [] } (view s)) s := by
  subst own
  unfold PaperExecutor.creditSlice
  split
  · rename_i off
    simpa [off] using now
  · rename_i on
    refine Contract.wp_call_seq
      (fun _ s => Closing x cutoff todo trade.key p { read := some p, credits := [p.bnbIn] }
        (view s)) closing_stable ?_ (fun _ s now => ?_) now
    · apply own_triple (by simp)
      intro s now nowNs _ out did s' after
      cases did
      have entry : CloseLog.credit { read := some p } trade.bnbInWei =
          { read := some p, credits := [p.bnbIn] } := by
        rw [whole]
        rfl
      rw [after, ← entry]
      exact now.note (f := fun c => c.credit trade.bnbInWei) rfl
    · simp only [on, Option.isSome_some, if_true]
      apply aside_wp closing_stable _ (fun _ _ now => now) now
      exact PaperExecutor.saveBudgets_all trivial (fun _ => trivial) trivial

/-- The row of the whole position. -/
theorem appendTrade_wp {trade : ClosedTrade} {credits : List U256} (own : trade.key = key)
    {s : x.Recorded}
    (now : Closing x cutoff todo key p { read := some p, credits := credits } (view s)) :
    (contract x holdTimeoutNs).wp 0 (onPaper (.appendTrade trade))
      (fun _ s => Closing x cutoff todo key p
      { read := some p, rows := [trade], credits := credits } (view s)) s := by
  subst own
  refine Contract.wp_call closing_stable ?_ now
  apply own_triple (by simp)
  intro s now appended _ out did s' after
  have book : out.shared.book = s.1.book := (PaperOp.exec_frame did).1.book id
  rw [after, book]
  exact now.note (f := fun c => c.row trade) rfl

/-- The removal finishes the key. -/
theorem removePosition_wp {c : CloseLog} (booked : c.BookedOnce x p) {s : x.Recorded}
    (now : Closing x cutoff todo key p c (view s)) :
    (contract x holdTimeoutNs).wp 0 (onPaper (.remove key p))
      (fun _ s => Sweeping x cutoff todo (view s)) s := by
  refine Contract.wp_call closing_stable ?_ now
  intro s _ now fresh _ a meets out did
  have held := now.held
  cases did
  constructor
  · refine .quiet trivial ⟨fun ne => absurd rfl ne, fun _ key' p' a' result same => ?_⟩ rfl
    cases (List.cons.inj same).1
    exact held
  · dsimp only
    rw [view, sweepLog, note_remove]
    refine ⟨now.begun, fun other done_ => ?_⟩
    have closes := change_closes (sweepLog s.2) key other fun c => { c with removed := true }
    have log : (sweepLog s.2).closes key = c := now.log
    change Done x cutoff other (s.1.book.remove key, _)
    by_cases same : other = key
    · subst same
      constructor
      · intro q left
        simp [PositionBook.get_remove] at left
      · dsimp only
        rw [closes, if_pos rfl, log]
        exact fun _ => ⟨p, booked.read, booked.row, booked.credit⟩
    · have done := now.done other same done_
      constructor
      · intro q left
        dsimp only at left
        rw [PositionBook.get_remove_of_ne same] at left
        exact done.notOverdue q left
      · dsimp only
        rw [closes, if_neg same]
        exact done.bookedOnce

/-- A close of the sweep finishes its key. -/
theorem closeOne_wp {s : x.Recorded} (now : Sweeping x cutoff (key :: todo) (view s)) :
    (contract x holdTimeoutNs).wp 0 (x.closeOne key .timeout none 1)
      (fun _ s => Sweeping x cutoff todo (view s)) s := by
  refine Contract.wp_call_seq _ sweeping_stable get_triple ?_ now
  rintro held s ⟨absent, found⟩
  cases held with
  | none => exact absent rfl
  | some p =>
      obtain ⟨tokens, own, now⟩ := found p rfl
      dsimp only
      rw [PaperExecutor.closeSlice_most p (by norm_num)]
      dsimp only
      rw [if_neg tokens]
      refine Contract.wp_seq (fun trade s =>
        (trade.key = p.key ∧ trade.tokensTraded = p.tokensHeld ∧ trade.bnbInWei = p.bnbIn) ∧
          Closing x cutoff todo key p { read := some p } (view s)) ?_ ?_
      · apply Contract.wp_ends (PaperExecutor.priceClose_ends p _ _ _)
        refine aside_wp closing_stable (aside_of_asks (PaperExecutor.priceClose_asks ..)) ?_ now
        intro trade s now row
        obtain ⟨-, key_, tokens, bnb⟩ := Slice.mk.inj row
        exact ⟨⟨key_, tokens, bnb⟩, now⟩
      · rintro trade s ⟨⟨key_, tokens, bnb⟩, now⟩
        refine Contract.wp_seq _ (creditSlice_wp (key_.trans own) bnb now) fun _ s now => ?_
        refine Contract.wp_seq _ (appendTrade_wp (key_.trans own) now) fun _ s now => ?_
        have booked : CloseLog.BookedOnce x ⟨some p, [trade], if x.kolBudgets.isSome then [p.bnbIn]
            else [], false⟩ p :=
          ⟨rfl, ⟨trade, rfl, key_, tokens, bnb⟩, rfl⟩
        refine Contract.wp_seq _ (removePosition_wp booked now) fun tokenStillHeld s now => ?_
        apply aside_wp sweeping_stable _ (fun _ _ now => now) now
        split
        · exact (all_call.2 trivial).bind fun _ => (all_call.2 trivial).bind fun _ => trivial
        · exact (all_call.2 trivial).bind fun _ => trivial

theorem closeAll_wp {keys : List PositionKey} (once : keys.Nodup) {s : x.Recorded}
    (now : Sweeping x cutoff keys (view s)) :
    (contract x holdTimeoutNs).wp 0 (x.closeAll .timeout none 1 keys)
      (fun _ s => Sweeping x cutoff [] (view s)) s := by
  induction keys generalizing s with
  | nil => exact now
  | cons key rest ih =>
      exact Contract.wp_seq _ (closeOne_wp now) fun _ _ now => ih (List.nodup_cons.1 once).2 now

/-- What the sweep leaves survives the steps of the others. -/
theorem swept_of_sweeping {s : x.Recorded} (now : Sweeping x cutoff [] (view s)) : Swept x s := by
  constructor
  · exact ⟨cutoff, now.begun, fun key => (now.done key List.not_mem_nil).notOverdue⟩
  · exact fun key => (now.done key List.not_mem_nil).bookedOnce

theorem sweeping_of_swept {s : x.Recorded} (swept : Swept x s) :
    ∃ cutoff, Sweeping x cutoff [] (view s) := by
  obtain ⟨cutoff, begun, notOverdue⟩ := swept.nothingOverdue
  exact ⟨cutoff, begun, fun key _ => ⟨notOverdue key, swept.bookedOnce key⟩⟩

theorem swept_stable : (contract x holdTimeoutNs).Stable 0 fun s => 0 = 0 → Swept x s := by
  intro j s s' other inv inv' guar swept _
  obtain ⟨cutoff, now⟩ := sweeping_of_swept (swept rfl)
  exact swept_of_sweeping (sweeping_stable j s s' other inv inv' guar now)

theorem fresh_stable : (contract x holdTimeoutNs).Stable 0 fun s => (view s).2 = {} := by
  intro j s s' other _ _ guar fresh
  rw [(guar.1 other).log, fresh]

/-- The sweep, from the reading of the clock to the last close. -/
theorem sweepTimeouts_wp {s : x.Recorded} (now : (view s).2 = {}) :
    (contract x holdTimeoutNs).wp 0 (x.sweepTimeouts holdTimeoutNs) (fun _ s => Swept x s) s := by
  refine Contract.wp_seq (fun _ s => (view s).2 = {}) ?_ fun nowNs s now => ?_
  · exact aside_wp (P := fun v => v.2 = {}) fresh_stable (aside_of_asks (PaperExecutor.ask_asks _))
      (fun _ _ now => now)
      now
  · refine Contract.wp_call_seq _ fresh_stable openedBefore_triple ?_ now
    rintro keys s ⟨once, now⟩
    exact Contract.wp_mono (fun _ _ => swept_of_sweeping) (closeAll_wp once now)

/-- Every task keeps the contract. -/
theorem bodies (t : PaperTask) (i : Tid) (s : x.Recorded)
    (starts : i = 0 → t = .sweeper holdTimeoutNs 1 ∧ sweepLog s.2 = {}) :
    (contract x holdTimeoutNs).wp i (x.machine.recording.body t)
      ((contract x holdTimeoutNs).post t i) s := by
  by_cases sweep : i = 0
  · subst sweep
    obtain ⟨rfl, fresh⟩ := starts rfl
    refine Contract.wp_seq _ (sweepTimeouts_wp fresh) fun _ s swept => ?_
    exact fun _ => swept
  · refine Contract.wp_of_all (A := fun _ => True) .true (fun o _ => other_triple sweep o) ?_
      (fun _ _ _ same => absurd same sweep) trivial
    exact All.any _

end TimeoutSweep

open TimeoutSweep in
/-- Over any run in which no entry is booked while the sweep is under way, every position that the
sweep reads holds tokens, and no other task credits, records or takes out of the book anything of a
position that the sweep has read: when the sweep is through nothing overdue is left, every position
that it removed has one row and one credit of the whole of it, and each removal takes out the
position as it was sized. -/
theorem sweep_leaves_nothing_overdue {x : PaperExecutor} (start : PaperWorld) (holdTimeoutNs : Nat)
    (others : List PaperTask) {c : x.PastConfig}
    (run : x.machine.recording.Run (fun i o a s => (noEntry i o a s && sweepsClear i o a s) = true)
      (x.machine.recording.start (start, []) (.sweeper holdTimeoutNs 1 :: others)) c) :
    (c.finished 0 = true → Swept x c.shared) ∧
      ∀ c', x.machine.recording.Step (fun i o a s =>
        (noEntry i o a s && sweepsClear i o a s) = true) 0 c c' →
        RemovesAsSized c.shared c'.shared := by
  have sound : (contract x holdTimeoutNs).Sound c := by
    refine (contract x holdTimeoutNs).sound (fun t i s _ starts => bodies t i s starts)
      trivial ?_ run
    rintro i t started rfl
    cases started
    exact ⟨rfl, rfl⟩
  constructor
  · intro done
    unfold Concurrent.Config.finished at done
    split at done
    · rename_i t v returned
      exact sound.post_of_ret swept_stable returned rfl
    · cases done
  · intro c' step
    exact (sound.step (fun t i s _ starts => bodies t i s starts) step).1.2 rfl

/-- A BUY of 1000 tokens, and a sweep after it. -/
theorem sweep_leaves_nothing_overdue_bought :
    ∃ c : (paperScenario none).PastConfig, (paperScenario none).machine.recording.Run
        (fun i o a s => (noEntry i o a s && sweepsClear i o a s) = true)
        ((paperScenario none).machine.recording.start (PaperExecutor.new .empty ∅, [])
          [.sweeper 0 1, .consumer [paperBuy]]) c ∧
      Swept (paperScenario none) c.shared ∧ ((sweepLog c.shared.2).closes paperKey).removed =
        true := by
  let r : PaperReplies := { quote := v2Quote 1000, order := [paperKey] }
  obtain ⟨c, run, done, removed⟩ : ∃ c : (paperScenario none).PastConfig,
      (paperScenario none).machine.recording.Run
      (fun i o a s => (noEntry i o a s && sweepsClear i o a s) = true)
      ((paperScenario none).machine.recording.start (PaperExecutor.new .empty ∅, [])
        [.sweeper 0 1, .consumer [paperBuy]]) c ∧
      c.finished 0 = true ∧ ((sweepLog c.shared.2).closes paperKey).removed = true :=
    Machine.exists_run_of_follow [(1, 11, r.ans), (0, 11, r.ans)] (by decide +kernel)
  exact ⟨c, run, (sweep_leaves_nothing_overdue _ 0 _ run).1 done, removed⟩

/-- A paper trader that takes a hundredth off a fill on V2. -/
def haircutScenario : PaperExecutor := { paperScenario none with costs := ⟨100, 0, 0⟩ }

/-- The quote of the BUY is a single unit of the token, and the haircut leaves nothing of it. The
sweep reads the position, has nothing to sell, and leaves it. -/
theorem sweep_leaves_empty_fill :
    ∃ c : haircutScenario.PastConfig, haircutScenario.machine.recording.Run
        (fun i o a s => noEntry i o a s = true)
        (haircutScenario.machine.recording.start (PaperExecutor.new .empty ∅, [])
          [.sweeper 0 1, .consumer [paperBuy]]) c ∧
      c.finished 0 = true ∧ ¬Swept haircutScenario c.shared := by
  let r : PaperReplies := { quote := v2Quote 1, order := [paperKey] }
  obtain ⟨c, run, done, overdue⟩ : ∃ c : haircutScenario.PastConfig,
      haircutScenario.machine.recording.Run
      (fun i o a s => noEntry i o a s = true)
      (haircutScenario.machine.recording.start (PaperExecutor.new .empty ∅, [])
        [.sweeper 0 1, .consumer [paperBuy]]) c ∧
      c.finished 0 = true ∧ (c.shared.1.book.get paperKey).any
        (fun p => decide (p.openedAtUnixNs = 0)) = true :=
    Machine.exists_run_of_follow [(1, 11, r.ans), (0, 3, r.ans)] (by decide +kernel)
  refine ⟨c, run, done, fun swept => ?_⟩
  obtain ⟨cutoff, -, notOverdue⟩ := swept.nothingOverdue
  obtain ⟨p, held, opened⟩ := (Option.any_eq_true _ _).1 overdue
  have after := notOverdue paperKey p held
  rw [of_decide_eq_true opened] at after
  exact absurd after (Nat.not_lt_zero _)

end BscMempool.Trader
