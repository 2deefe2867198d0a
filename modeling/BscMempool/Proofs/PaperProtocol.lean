/-
Module: BscMempool.Proofs.PaperProtocol
Layer: Proofs
Purpose: The order in which the tasks of the paper trader make their operations. An entry is booked
  after its KOL's budget was asked, a close is credited to the KOL of the position it was sized from
  and gets its row before the next credit, and a change of the book that touches the held set is
  followed by that of the held set.
Trusted boundary: none
Main exports: PaperPhase, PaperPhase.Idle, PaperExecutor.order, PaperExecutor.body_orderly,
  PaperExecutor.orderly_of_run, PaperExecutor.idle_of_quiet
-/
import BscMempool.Concurrent.Protocol
import BscMempool.Proofs.PaperSlices

namespace BscMempool.Trader

open Concurrent (Tid Proc Machine Protocol Config)
open Concurrent.Proc

/-- The profit of a close, in wei. -/
def pnlWei (bnbIn bnbOut : U256) : Int :=
  saturateI128 (i128OfU128 (u128OfU256 bnbOut) - i128OfU128 (u128OfU256 bnbIn))

/-- After a buy there is a position under its key, and under the others what was there. -/
theorem isSome_get_openIn {w : PaperWorld} {fill : Fill} {nowNs : Nat} {i : Tid}
    {mode : PortfolioMode}
    {key : PositionKey} : ((w.openIn fill nowNs i mode).book.get key).isSome =
      (decide (key = ⟨mode, fill.kolName, fill.token⟩) || (w.book.get key).isSome) := by
  rw [← PositionBook.isSome_get_openOrAdd]
  exact PositionBook.isSome_get_setEntryMcaps

/-- What a task has begun: the KOL whose budget it asked last, the position it read last, the KOL
and the profit of a close it credited that has no row yet, and the token for which the held set is
still to follow its change of the book. -/
structure PaperPhase where
  budgeted : Option String := none
  sized : Option OpenPosition := none
  credited : Option (String × Int) := none
  errand : Option Address := none

/-- No row is to be written and the held set need not follow. -/
def PaperPhase.Idle (q : PaperPhase) : Prop := q.credited = none ∧ q.errand = none

namespace PaperExecutor

variable (x : PaperExecutor)

/-- The order of a task's operations.  With budgets off nothing is reserved and nothing credited. -/
def order : Protocol PaperSig PaperPhase where
  allows q
    | .openAll fill =>
        q.errand = none ∧ (x.kolBudgets.isSome = true → q.budgeted = some fill.kolName)
    | .remove .. => q.errand = none
    | .shrink .. => q.errand = none
    | .creditClose key _ _ _ => q.credited = none ∧ ∃ p, q.sized = some p ∧ p.kolName = key.kolName
    | .appendTrade trade =>
        x.kolBudgets.isSome = true → q.credited = some (trade.kolName, trade.pnlWei)
    | .heldInsert token _ => q.errand = some token
    | .heldRemove token => q.errand = some token
    | _ => True
  next q
    | .openAll fill, _ => { q with errand := some fill.token }
    | .get _, held => { q with sized := held }
    | .remove key _, stillHeld =>
        { q with errand := if stillHeld = true then none else some key.token }
    | .shrink key _ _ _, stillHeld =>
        { q with errand := if stillHeld = true then none else some key.token }
    | .tryReserve _ kolName, _ => { q with budgeted := some kolName }
    | .creditClose key _ bnbIn bnbOut, _ =>
        { q with credited := some (key.kolName, pnlWei bnbIn bnbOut) }
    | .appendTrade _, _ => { q with credited := none }
    | .heldInsert .., _ => { q with errand := none }
    | .heldRemove _, _ => { q with errand := none }
    | _, _ => q

end PaperExecutor

/-- The operations that are allowed at any time and begin nothing. -/
def PaperOp.aside : PaperOp → Prop
  | .openAll _ | .get _ | .remove .. | .shrink .. | .tryReserve .. | .creditClose ..
  | .appendTrade _
  | .heldInsert .. | .heldRemove _ => False
  | _ => True

theorem PaperOp.aside_of_asks {α : Type} {p : Paper α} (all : p.All PaperOp.asks) :
    p.All PaperOp.aside := by
  apply all.mono
  intro o asks
  cases o <;> trivial

namespace PaperExecutor

variable {x : PaperExecutor} {α β : Type} {q : PaperPhase}

theorem aside_allowed {o : PaperOp} (aside : o.aside) : x.order.allows q o := by
  cases o <;> trivial

theorem aside_next {o : PaperOp} (aside : o.aside) (result : o.Res) :
    x.order.next q o result = q := by
  cases o <;> first | rfl | exact aside.elim

theorem order_kinds : x.order.Kinds PaperOp.aside PaperOp.aside where
  allowed _ _ := aside_allowed
  still_free _ aside := aside
  kept _ _ := aside_next

/-- A part of a task that leaves nothing begun. -/
structure Orderly (x : PaperExecutor) (p : Paper α) : Prop where
  obeys : ∀ q : PaperPhase, q.Idle → p.Obeys x.order (fun q' _ => q'.Idle) q

theorem Orderly.ret (value : α) : x.Orderly (.ret value) := ⟨fun _ idle => idle⟩

theorem Orderly.bind {p : Paper α} {f : α → Paper β} (first : x.Orderly p)
    (rest : ∀ value, x.Orderly (f value)) : x.Orderly (p >>= f) := by
  constructor
  intro q idle
  exact (first.obeys q idle).bind fun q' value idle' => (rest value).obeys q' idle'

theorem Orderly.aside {p : Paper α} (all : p.All PaperOp.aside) : x.Orderly p := by
  constructor
  intro q idle
  apply (order_kinds.obeys_still all (Ends.any p)).mono
  rintro q' value ⟨rfl, -⟩
  exact idle

theorem Orderly.asks {p : Paper α} (all : p.All PaperOp.asks) : x.Orderly p :=
  .aside (PaperOp.aside_of_asks all)

theorem saveBudgets_aside : saveBudgets.All PaperOp.aside := by
  apply Proc.All.bind (all_call.2 trivial)
  intro rows
  apply Proc.All.bind (all_call.2 trivial)
  intro written
  split
  · exact Proc.All.bind (all_call.2 trivial) fun _ => trivial
  · trivial

/-! ### Entries -/

/-- With budgets on the KOL's budget is asked. -/
theorem reserveAmount_obeys (kolName : String) (bnbAmount : U256) (idle : q.Idle) :
    (x.reserveAmount kolName bnbAmount).Obeys x.order
      (fun q' _ => q'.Idle ∧ (x.kolBudgets.isSome = true → q'.budgeted = some kolName)) q := by
  unfold reserveAmount
  split
  · rename_i off
    simp [Proc.Obeys, off, idle]
  · apply Obeys.call trivial
    intro reserved
    have asked : (x.order.next q (.tryReserve _ kolName) reserved).Idle := idle
    split
    · exact ⟨asked, fun _ => rfl⟩
    · apply order_kinds.after_still saveBudgets_aside (Ends.any _)
      intro _ _
      exact ⟨asked, fun _ => rfl⟩

/-- The held set follows the book. -/
theorem bookEntry_obeys (fill : Fill) (idle : q.Idle)
    (budgeted : x.kolBudgets.isSome = true → q.budgeted = some fill.kolName) :
    (bookEntry fill).Obeys x.order (fun q' _ => q'.Idle) q := by
  have allowed : x.order.allows q (.openAll fill) := ⟨idle.2, budgeted⟩
  apply Obeys.call allowed
  intro _
  apply order_kinds.after_still (PaperOp.aside_of_asks (ask_asks _)) (Ends.any _)
  intro _ _
  apply Obeys.call rfl
  intro _
  have back : PaperPhase.Idle { q with errand := none } := ⟨idle.1, rfl⟩
  have saves : (do let _ ← onPaper .saveBook; return () : Paper Unit).All PaperOp.aside :=
    Proc.All.bind (all_call.2 trivial) fun _ => trivial
  exact (Orderly.aside saves).obeys _ back

theorem priceEntry_obeys (kolName : String) (token : Address) (bnbAmount : U256) (kolTx : B256)
    (idle : q.Idle) (budgeted : x.kolBudgets.isSome = true → q.budgeted = some kolName) :
    (x.priceEntry kolName token bnbAmount kolTx).Obeys x.order (fun q' _ => q'.Idle) q := by
  have asks : ∀ {α β : Type} {p : Paper α} {f : α → Paper β}, p.All PaperOp.asks →
      (∀ value, (f value).Obeys x.order (fun q' _ => q'.Idle) q) →
      (p >>= f).Obeys x.order (fun q' _ => q'.Idle) q :=
    fun all rest => order_kinds.after_still (PaperOp.aside_of_asks all) (Ends.any _) fun value _ =>
      rest value
  apply asks (ask_asks _)
  intro info
  cases info with
  | none => exact idle
  | some info =>
      apply asks (rawQuote_asks ..)
      intro raw
      match raw with
      | .error _ => exact idle
      | .ok none => exact idle
      | .ok (some raw) =>
          apply asks (entryQuote_asks ..)
          intro quote
          apply asks (ask_asks _)
          intro bnbUsd
          apply asks (entryMcaps_asks ..)
          intro mcaps
          apply asks (ask_asks _)
          intro block
          exact (bookEntry_obeys _ idle budgeted).bind fun _ _ idle => idle

theorem handleEnter_orderly (kolName : String) (token : Address) (calldata : List UInt8)
    (bnbAmount : U256)
    (kolTx : B256) : x.Orderly (x.handleEnter kolName token calldata bnbAmount kolTx) := by
  constructor
  intro q idle
  unfold handleEnter
  split
  · exact idle
  · split
    · exact idle
    · apply (reserveAmount_obeys kolName bnbAmount idle).bind
      rintro q' reserved ⟨idle, budgeted⟩
      cases reserved with
      | none => exact idle
      | some amount => exact priceEntry_obeys _ _ _ _ idle budgeted

/-! ### Closes -/

/-- A row is for the KOL of the position, and its profit is what the close brought
in less what it cost. -/
theorem priceClose_pnl (p : OpenPosition) (slice : CloseSlice) (reason : CloseReason)
    (triggerSellTx : Option B256) : (x.priceClose p slice reason triggerSellTx).Ends fun trade =>
      trade.kolName = p.kolName ∧ trade.pnlWei = pnlWei trade.bnbInWei trade.bnbOutWei := by
  refine (Ends.any _).bind fun _ _ => (Ends.any _).bind fun _ _ => (Ends.any _).bind fun _ _ => ?_
  refine (Ends.any _).bind fun _ _ => (Ends.any _).bind fun _ _ => (Ends.any _).bind fun _ _ => ?_
  exact ⟨rfl, rfl⟩

/-- With budgets on the close is credited. -/
theorem creditSlice_obeys {p : OpenPosition} {trade : ClosedTrade} (idle : q.Idle)
    (sized : q.sized = some p) (kolName : trade.kolName = p.kolName)
    (pnl : trade.pnlWei = pnlWei trade.bnbInWei trade.bnbOutWei) :
    (x.creditSlice trade).Obeys x.order (fun q' _ => q'.errand = none ∧
      (x.kolBudgets.isSome = true → q'.credited = some (trade.kolName, trade.pnlWei))) q := by
  unfold creditSlice
  split
  · rename_i off
    simp [Proc.Obeys, off, idle.2]
  · have allowed : x.order.allows q
        (.creditClose trade.key trade.tokensTraded trade.bnbInWei trade.bnbOutWei) :=
      ⟨idle.1, p, sized, kolName.symm⟩
    apply Obeys.call allowed
    intro _
    apply (order_kinds.obeys_still saveBudgets_aside (Ends.any _)).mono
    rintro q' _ ⟨rfl, -⟩
    rw [pnl]
    exact ⟨idle.2, fun _ => rfl⟩

/-- The held set is to follow if no portfolio holds the token any more. -/
theorem updateBook_obeys {key : PositionKey} {p : OpenPosition} {slice : CloseSlice}
    (idle : q.Idle) :
    (updateBook key p slice).Obeys x.order (fun q' (stillHeld : Bool) => q'.credited = none ∧
      q'.errand = if stillHeld = true then none else some key.token) q := by
  unfold updateBook
  split
  · exact Obeys.call (f := .ret) idle.2 fun _ => ⟨idle.1, rfl⟩
  · exact Obeys.call (f := .ret) idle.2 fun _ => ⟨idle.1, rfl⟩

theorem closeOne_orderly (key : PositionKey) (reason : CloseReason) (triggerSellTx : Option B256)
    (fraction : ℚ) : x.Orderly (x.closeOne key reason triggerSellTx fraction) := by
  constructor
  intro q idle
  apply Obeys.call trivial
  intro held
  cases held with
  | none => exact idle
  | some p =>
      dsimp only
      split
      · exact idle
      · have priced := priceClose_pnl (x := x) p (closeSlice p fraction) reason triggerSellTx
        apply order_kinds.after_still (PaperOp.aside_of_asks (priceClose_asks ..)) priced
        rintro trade ⟨kolName, pnl⟩
        have idle : PaperPhase.Idle { q with sized := some p } := idle
        apply (creditSlice_obeys idle rfl kolName pnl).bind
        rintro q' _ ⟨errand, credited⟩
        apply Obeys.call credited
        intro _
        have idle : PaperPhase.Idle { q' with credited := none } := ⟨rfl, errand⟩
        apply (updateBook_obeys idle).bind
        rintro q'' stillHeld ⟨credited, errand⟩
        have saves : (do let _ ← onPaper .saveBook; return () : Paper Unit).All PaperOp.aside :=
          Proc.All.bind (all_call.2 trivial) fun _ => trivial
        cases stillHeld with
        | true => exact (Orderly.aside saves).obeys q'' ⟨credited, errand⟩
        | false =>
            apply Obeys.call errand
            intro _
            exact (Orderly.aside saves).obeys { q'' with errand := none } ⟨credited, rfl⟩

theorem closeAll_orderly (reason : CloseReason) (triggerSellTx : Option B256) (fraction : ℚ)
    (keys : List PositionKey) : x.Orderly (x.closeAll reason triggerSellTx fraction keys) := by
  induction keys with
  | nil => exact .ret ()
  | cons key rest ih => exact (closeOne_orderly key reason triggerSellTx fraction).bind fun _ => ih

theorem handleExit_orderly (kolName : String) (token : Address) (sellTx : B256) (kolBlock : Nat)
    (kolAddr : Address) : x.Orderly (x.handleExit kolName token sellTx kolBlock kolAddr) := by
  apply (Orderly.aside (all_call.2 (by trivial))).bind
  intro keys
  dsimp only
  split
  · exact .ret ()
  · apply (Orderly.asks (kolSellFraction_asks ..)).bind
    intro fraction
    exact closeAll_orderly ..

theorem sweepTimeouts_orderly (holdTimeoutNs : Nat) :
    x.Orderly (x.sweepTimeouts holdTimeoutNs) := by
  apply (Orderly.asks (ask_asks _)).bind
  intro nowNs
  apply (Orderly.aside (all_call.2 (by trivial))).bind
  intro keys
  exact closeAll_orderly ..

/-! ### Tasks and runs -/

theorem execute_orderly (decision : Decision) (calldata : List UInt8) :
    x.Orderly (x.execute decision calldata) := by
  cases decision with
  | skip reason => exact .ret true
  | enter => exact handleEnter_orderly ..
  | exit => exact (handleExit_orderly ..).bind fun _ => .ret true

theorem body_orderly (t : PaperTask) : x.Orderly (x.machine.body t) := by
  cases t with
  | consumer decisions =>
      change x.Orderly (x.runConsumer decisions)
      induction decisions with
      | nil => exact .ret ()
      | cons decided rest ih =>
          apply (Orderly.asks (ask_asks _)).bind
          intro _
          exact (execute_orderly ..).bind fun _ => ih
  | sweeper holdTimeoutNs ticks =>
      change x.Orderly (x.runSweeper holdTimeoutNs ticks)
      induction ticks with
      | zero => exact .ret ()
      | succ ticks ih => exact (sweepTimeouts_orderly holdTimeoutNs).bind fun _ => ih

/-- What the task at `i` has begun, by what it did. -/
def phaseAt (i : Tid) (h : List x.machine.Event) : PaperPhase := x.order.phase i {} h

section Phase

variable {i : Tid} {h : List x.machine.Event} {o : PaperOp} {a : o.Ans} {res : o.Res}

theorem phaseAt_own : phaseAt i ((⟨i, o, a, res⟩ : x.machine.Event) :: h) =
    x.order.next (phaseAt i h) o res :=
  Protocol.phase_own rfl

theorem phaseAt_other {j : Tid} (ne : j ≠ i) :
    phaseAt j ((⟨i, o, a, res⟩ : x.machine.Event) :: h) = phaseAt j h :=
  Protocol.phase_other (Ne.symm ne)

end Phase

/-- A configuration of the paper trader with its history. -/
abbrev PastConfig (x : PaperExecutor) :=
  Config PaperSig (PaperWorld × List x.machine.Event) PaperTask Unit

/-- Every task keeps to the order. -/
abbrev KeepsOrder (c : x.PastConfig) : Prop :=
  Machine.Obeyed (fun _ => x.order) (fun _ q _ => q.Idle) (fun _ => {}) c

theorem body_obeys (t : PaperTask) : (x.machine.body t).Obeys x.order (fun q _ => q.Idle) {} :=
  (body_orderly t).obeys {} ⟨rfl, rfl⟩

theorem orderly_of_run {C : x.machine.recording.Cond} {w : PaperWorld} {tasks : List PaperTask}
    {c : x.PastConfig}
    (run : x.machine.recording.Run C (x.machine.recording.start (w, []) tasks) c) :
    x.KeepsOrder c :=
  Machine.obeyed_of_run body_obeys run

/-- Once every task has returned, nothing is begun. -/
theorem idle_of_quiet {c : x.PastConfig} (orderly : x.KeepsOrder c) (quiet : c.Quiet) (i : Tid) :
    (phaseAt i c.shared.2).Idle := by
  by_cases bound : i < c.pool.length
  · have done := quiet i bound
    unfold Concurrent.Config.finished at done
    split at done
    · rename_i t v returned
      exact orderly.obeys i t _ returned
    · cases done
  · have fresh : ∀ e ∈ c.shared.2, e.tid ≠ i := by
      intro e member same
      have known := orderly.known e member
      rw [same] at known
      exact bound known
    rw [phaseAt, Protocol.phase_fresh fresh]
    exact ⟨rfl, rfl⟩

end PaperExecutor

end BscMempool.Trader
