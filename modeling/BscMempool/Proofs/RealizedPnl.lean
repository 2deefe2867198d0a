/-
Module: BscMempool.Proofs.RealizedPnl
Layer: Proofs
Purpose: The profit that the budget book has realised for a KOL is that of the KOL's rows in the
  trade ledger, but for the closes that were credited and have no row yet.
Trusted boundary: none
Main exports: realizedPnlWei, rowsPnlWei, keepsPnl, realized_pnl_agrees
-/
import BscMempool.Proofs.PaperProtocol
import BscMempool.Proofs.PaperScenario
import Mathlib.Algebra.BigOperators.Group.Finset.Basic

namespace BscMempool.Trader

open Concurrent (Tid Machine Outcome Protocol)
open PaperExecutor (phaseAt phaseAt_own phaseAt_other)

/-- The profit that the budget book has realised for a KOL. -/
def realizedPnlWei (budgets : KolBudgets) (kolName : String) : Int :=
  ((budgets.lookup kolName).map KolBudget.realizedPnlWei).getD 0

/-- The profit of a KOL's rows. -/
def rowsPnlWei (trades : List ClosedTrade) (kolName : String) : Int :=
  ((trades.filter fun t => decide (t.kolName = kolName)).map ClosedTrade.pnlWei).sum

/-- What the closes that were credited to a KOL cost and brought in. -/
def creditedWei {x : PaperExecutor} (kolName : String) : List x.machine.Event → Nat × Nat
  | [] => (0, 0)
  | ⟨_, .creditClose key _ bnbIn bnbOut, _, _⟩ :: older =>
      if key.kolName = kolName then
        ((creditedWei kolName older).1 + bnbIn.toNat, (creditedWei kolName older).2 + bnbOut.toNat)
      else creditedWei kolName older
  | _ :: older => creditedWei kolName older

/-- The steps at which the ledger does not fail and the sums of the amounts fit an `i128`. -/
def keepsPnl {x : PaperExecutor} (o : PaperOp) (a : o.Ans)
    (s : PaperWorld × List x.machine.Event) : Bool :=
  match o, a with
  | .creditClose key _ bnbIn bnbOut, _ =>
      decide ((creditedWei key.kolName s.2).1 + bnbIn.toNat < 2 ^ 127 ∧
        (creditedWei key.kolName s.2).2 + bnbOut.toNat < 2 ^ 127)
  | .appendTrade _, appended => appended
  | _, _ => true

instance {x : PaperExecutor} (o : PaperOp) (a : x.machine.recording.Ans o)
    (s : PaperWorld × List x.machine.Event) : Decidable (keepsPnl o a s = true) :=
  decEq (keepsPnl o a s) true

/-- The profit of a KOL's close that the task has credited and not yet written. -/
def PaperPhase.pnlOf (q : PaperPhase) (kolName : String) : Int :=
  match q.credited with
  | some (name, pnl) => if name = kolName then pnl else 0
  | none => 0

namespace RealizedPnl

variable {x : PaperExecutor} {i : Tid} {w : PaperWorld} {h : List x.machine.Event}

/-! ### Budgets and rows -/

section Budgets

variable {budgets : KolBudgets} {kolName other : String} {nowNs : Nat}

theorem isSome_tryReserve {limits : KolBudgetBook} :
    ((limits.tryReserve budgets kolName nowNs).2.lookup other).isSome =
      (decide (other = kolName) || (budgets.lookup other).isSome) := by
  unfold KolBudgetBook.tryReserve
  by_cases same : other = kolName
  · subst same
    dsimp only
    split <;> simp
  · dsimp only
    split <;> simp [AList.lookup_insert_ne same, same]

theorem isSome_creditClose {bnbIn bnbOut : U256} :
    ((KolBudgetBook.creditClose budgets kolName bnbIn bnbOut nowNs).lookup other).isSome =
      (budgets.lookup other).isSome := by
  unfold KolBudgetBook.creditClose
  cases known : budgets.lookup kolName with
  | none => rfl
  | some entry =>
      by_cases same : other = kolName
      · subst same
        simp [known]
      · simp [AList.lookup_insert_ne same]

theorem realizedPnlWei_insert {entry : KolBudget} :
    realizedPnlWei (budgets.insert kolName entry) other =
    if other = kolName then entry.realizedPnlWei else realizedPnlWei budgets other := by
  unfold realizedPnlWei
  split
  · rename_i same
    rw [same, AList.lookup_insert]
    rfl
  · rename_i ne
    rw [AList.lookup_insert_ne ne]

/-- A reservation realises nothing. -/
theorem realizedPnlWei_tryReserve {limits : KolBudgetBook} :
    realizedPnlWei (limits.tryReserve budgets kolName nowNs).2 other =
      realizedPnlWei budgets other := by
  have now_ : ((budgets.lookup kolName).getD (.new limits.initialWei)).realizedPnlWei =
      realizedPnlWei budgets kolName := by
    unfold realizedPnlWei
    cases budgets.lookup kolName <;> rfl
  unfold KolBudgetBook.tryReserve
  dsimp only
  split <;>
  · rw [realizedPnlWei_insert]
    split
    · rename_i same
      rw [same]
      exact now_
    · rfl

/-- A credit realises the profit of its close. -/
theorem realizedPnlWei_creditClose {bnbIn bnbOut : U256}
    (known : (budgets.lookup kolName).isSome = true) :
    realizedPnlWei (KolBudgetBook.creditClose budgets kolName bnbIn bnbOut nowNs) other =
      if other = kolName then saturateI128 (realizedPnlWei budgets kolName + pnlWei bnbIn bnbOut)
      else realizedPnlWei budgets other := by
  obtain ⟨entry, found⟩ := Option.isSome_iff_exists.1 known
  have now_ : entry.realizedPnlWei = realizedPnlWei budgets kolName := by
    rw [realizedPnlWei, found]
    rfl
  simp only [KolBudgetBook.creditClose, found, realizedPnlWei_insert, ← now_]
  rfl

end Budgets

theorem rowsPnlWei_append (trades : List ClosedTrade) (trade : ClosedTrade) (kolName : String) :
    rowsPnlWei (trades ++ [trade]) kolName =
      rowsPnlWei trades kolName + if trade.kolName = kolName then trade.pnlWei else 0 := by
  by_cases same : trade.kolName = kolName <;> simp [rowsPnlWei, same]

/-- Amounts below the bounds are not saturated. -/
theorem pnlWei_of_lt {bnbIn bnbOut : U256} (inFits : bnbIn.toNat < 2 ^ 127)
    (outFits : bnbOut.toNat < 2 ^ 127) :
    pnlWei bnbIn bnbOut = (bnbOut.toNat : Int) - bnbIn.toNat := by
  simp only [pnlWei, saturateI128, i128OfU128, u128OfU256, I128_MAX, I128_MIN, U128_MAX]
  omega

/-! ### Every KOL that is credited has a budget -/

/-- The KOLs of the positions, and those that the tasks asked for or read a
position of, have budgets. -/
structure Known (s : PaperWorld × List x.machine.Event) : Prop where
  held : ∀ key, (s.1.book.get key).isSome = true → (s.1.budgets.lookup key.kolName).isSome = true
  asked : ∀ j kolName, (phaseAt j s.2).budgeted = some kolName →
    (s.1.budgets.lookup kolName).isSome = true
  sized : ∀ j p, (phaseAt j s.2).sized = some p → (s.1.budgets.lookup p.kolName).isSome = true

section Step

variable {o : PaperOp} {a : o.Ans} {out : Outcome PaperWorld PaperTask o.Res}

/-- No budget is ever removed. -/
theorem budgets_mono (did : o.exec i a w = some out) {kolName : String}
    (known : (w.budgets.lookup kolName).isSome = true) :
    (out.shared.budgets.lookup kolName).isSome = true := by
  have frame := (PaperOp.exec_frame did).1
  cases o with
  | tryReserve limits name =>
      cases did
      exact isSome_tryReserve.trans (by rw [known, Bool.or_true])
  | creditClose key tokens bnbIn bnbOut =>
      cases did
      exact isSome_creditClose.trans known
  | _ =>
      rw [frame.budgets id]
      exact known

/-- A position that was not there before was bought. -/
theorem held_step (did : o.exec i a w = some out) {key : PositionKey}
    (held : (out.shared.book.get key).isSome = true) :
    (w.book.get key).isSome = true ∨ ∃ fill, o = .openAll fill ∧ fill.kolName = key.kolName := by
  have frame := (PaperOp.exec_frame did).1
  cases o with
  | openAll fill =>
      cases did
      have opened : ∀ (modes : List PortfolioMode) (w : PaperWorld),
          ((modes.foldl (fun w mode => w.openIn fill a i mode) w).book.get key).isSome = true →
          (w.book.get key).isSome = true ∨ fill.kolName = key.kolName := by
        intro modes
        induction modes with
        | nil => exact fun _ there => .inl there
        | cons mode rest ih =>
            intro w there
            rcases ih _ there with before | same
            · rw [isSome_get_openIn, Bool.or_eq_true, decide_eq_true_eq] at before
              rcases before with rfl | before
              · exact .inr rfl
              · exact .inl before
            · exact .inr same
      exact (opened _ w held).imp_right fun same => ⟨fill, rfl, same⟩
  | remove removed sized =>
      cases did
      have there : ((w.book.remove removed).get key).isSome = true := held
      rw [PositionBook.get_remove] at there
      split at there
      · cases there
      · exact .inl there
  | shrink shrunk tokens bnb sized =>
      cases did
      exact .inl (PositionBook.isSome_get_shrink.symm.trans held)
  | _ =>
      rw [frame.book id] at held
      exact .inl held

/-- A KOL's budget is asked by an operation. -/
theorem asked_step {j : Tid} {res : o.Res} {kolName : String}
    (asked : (phaseAt j ((⟨i, o, a, res⟩ : x.machine.Event) :: h)).budgeted = some kolName) :
    (phaseAt j h).budgeted = some kolName ∨ ∃ limits, o = .tryReserve limits kolName := by
  by_cases same : j = i
  · subst same
    rw [phaseAt_own] at asked
    cases o with
    | tryReserve limits name =>
        cases asked
        exact .inr ⟨limits, rfl⟩
    | _ => exact .inl asked
  · rw [phaseAt_other same] at asked
    exact .inl asked

/-- A position that a task sized a close from was in the book. -/
theorem sized_step (did : o.exec i a w = some out) {j : Tid} {p : OpenPosition}
    (sized : (phaseAt j ((⟨i, o, a, out.res⟩ : x.machine.Event) :: h)).sized = some p) :
    (phaseAt j h).sized = some p ∨ w.book.get p.key = some p := by
  by_cases same : j = i
  · subst same
    rw [phaseAt_own] at sized
    cases o with
    | get key =>
        cases did
        have found : w.book.get key = some p := sized
        have keyed : p.key = key := PositionBook.key_of_get found
        rw [← keyed] at found
        exact .inr found
    | _ => exact .inl sized
  · rw [phaseAt_other same] at sized
    exact .inl sized

theorem known_step (budgeted : x.kolBudgets.isSome = true) (known : Known (w, h))
    (allowed : x.order.allows (phaseAt i h) o) (did : o.exec i a w = some out) :
    Known (x := x) (out.shared, ⟨i, o, a, out.res⟩ :: h) := by
  constructor
  · intro key held
    rcases held_step did held with before | ⟨fill, rfl, same⟩
    · exact budgets_mono did (known.held key before)
    · have asked := known.asked i fill.kolName (allowed.2 budgeted)
      rw [← same]
      exact budgets_mono did asked
  · intro j kolName asked
    rcases asked_step asked with before | ⟨limits, rfl⟩
    · exact budgets_mono did (known.asked j kolName before)
    · cases did
      exact isSome_tryReserve.trans (by simp)
  · intro j p sized
    rcases sized_step did sized with before | found
    · exact budgets_mono did (known.sized j p before)
    · have there : (w.book.get p.key).isSome = true := Option.isSome_iff_exists.2 ⟨p, found⟩
      exact budgets_mono did (known.held p.key there)

/-! ### What is realised -/

/-- What was realised is in the rows or in the closes that have none yet, and is
within what was credited. -/
structure Accounted (s : PaperWorld × List x.machine.Event) : Prop where
  matched : ∀ kolName tasks, (∀ e ∈ s.2, e.tid < tasks) → realizedPnlWei s.1.budgets kolName =
    rowsPnlWei s.1.closedTrades kolName + ∑ j ∈ Finset.range tasks, (phaseAt j s.2).pnlOf kolName
  least : ∀ kolName, -((creditedWei kolName s.2).1 : Int) ≤ realizedPnlWei s.1.budgets kolName
  most : ∀ kolName, realizedPnlWei s.1.budgets kolName ≤ (creditedWei kolName s.2).2

/-- An operation changes what its own task has begun. -/
theorem sum_pnlOf {res : o.Res} {tasks : Nat} (bound : i < tasks) (kolName : String) :
    ∑ j ∈ Finset.range tasks, (phaseAt j ((⟨i, o, a, res⟩ : x.machine.Event) :: h)).pnlOf kolName =
      ∑ j ∈ Finset.range tasks, (phaseAt j h).pnlOf kolName - (phaseAt i h).pnlOf kolName +
        (x.order.next (phaseAt i h) o res).pnlOf kolName := by
  have member : i ∈ Finset.range tasks := Finset.mem_range.2 bound
  have others : ∑ j ∈ (Finset.range tasks).erase i,
      (phaseAt j ((⟨i, o, a, res⟩ : x.machine.Event) :: h)).pnlOf kolName =
      ∑ j ∈ (Finset.range tasks).erase i, (phaseAt j h).pnlOf kolName := by
    apply Finset.sum_congr rfl
    intro j there
    rw [phaseAt_other (Finset.ne_of_mem_erase there)]
  rw [← Finset.add_sum_erase _ _ member, others, phaseAt_own,
    ← Finset.add_sum_erase (Finset.range tasks)
    (fun j => (phaseAt j h).pnlOf kolName) member]
  omega

/-- A step that realises what it begins and writes what it ends keeps the accounts. -/
theorem matched_step {w' : PaperWorld} {res : o.Res} (accounted : Accounted (w, h))
    (credit row : String → Int)
    (realized : ∀ n, realizedPnlWei w'.budgets n = realizedPnlWei w.budgets n + credit n)
    (rows : ∀ n, rowsPnlWei w'.closedTrades n = rowsPnlWei w.closedTrades n + row n)
    (begun : ∀ n, (x.order.next (phaseAt i h) o res).pnlOf n = (phaseAt i h).pnlOf n +
      credit n - row n)
    (kolName : String) (tasks : Nat)
    (acted : ∀ e ∈ (⟨i, o, a, res⟩ : x.machine.Event) :: h, e.tid < tasks) :
    realizedPnlWei w'.budgets kolName = rowsPnlWei w'.closedTrades kolName +
      ∑ j ∈ Finset.range tasks, (phaseAt j ((⟨i, o, a, res⟩ : x.machine.Event) :: h)).pnlOf
        kolName := by
  have bound : i < tasks := acted _ List.mem_cons_self
  have before : realizedPnlWei w.budgets kolName = rowsPnlWei w.closedTrades kolName +
      ∑ j ∈ Finset.range tasks, (phaseAt j h).pnlOf kolName :=
    accounted.matched kolName tasks fun e there => acted e (List.mem_cons_of_mem _ there)
  rw [sum_pnlOf bound, realized, rows, begun, before]
  omega

/-- A credit realises the profit of its close, since the KOL has a budget and nothing saturates. -/
theorem accounted_creditClose {key : PositionKey} {tokens bnbIn bnbOut : U256} {nowNs : Nat}
    (accounted : Accounted (w, h)) (known : (w.budgets.lookup key.kolName).isSome = true)
    (free : (phaseAt i h).credited = none)
    (fits : (creditedWei key.kolName h).1 + bnbIn.toNat < 2 ^ 127 ∧
      (creditedWei key.kolName h).2 + bnbOut.toNat < 2 ^ 127) {w' : PaperWorld}
    (budgets : w'.budgets = KolBudgetBook.creditClose w.budgets key.kolName bnbIn bnbOut nowNs)
    (rows : w'.closedTrades = w.closedTrades) :
    Accounted (x := x) (w', ⟨i, .creditClose key tokens bnbIn bnbOut, nowNs, ()⟩ :: h) := by
  have pnl : pnlWei bnbIn bnbOut = (bnbOut.toNat : Int) - bnbIn.toNat :=
    pnlWei_of_lt (by omega) (by omega)
  have least : -((creditedWei key.kolName h).1 : Int) ≤ realizedPnlWei w.budgets key.kolName :=
    accounted.least key.kolName
  have most : realizedPnlWei w.budgets key.kolName ≤ (creditedWei key.kolName h).2 :=
    accounted.most key.kolName
  have realized : ∀ n, realizedPnlWei w'.budgets n =
      realizedPnlWei w.budgets n + if key.kolName = n then pnlWei bnbIn bnbOut else 0 := by
    intro n
    rw [budgets, realizedPnlWei_creditClose known]
    by_cases same : n = key.kolName
    · subst same
      rw [if_pos rfl, if_pos rfl, saturateI128_eq]
      · unfold I128_MIN
        omega
      · unfold I128_MAX
        omega
    · rw [if_neg same, if_neg (Ne.symm same), add_zero]
  constructor
  · apply matched_step accounted (fun n => if key.kolName = n then pnlWei bnbIn bnbOut else 0)
      (fun _ => 0) realized
    · simp [rows]
    · intro n
      simp [PaperPhase.pnlOf, free, PaperExecutor.order]
  · intro n
    have before := accounted.least n
    simp only [realized, creditedWei]
    split
    · rename_i same
      subst same
      simp only [pnl]
      omega
    · simpa using before
  · intro n
    have before := accounted.most n
    simp only [realized, creditedWei]
    split
    · rename_i same
      subst same
      simp only [pnl]
      omega
    · simpa using before

/-- A row is written for the close that its task credited. -/
theorem accounted_appendTrade {trade : ClosedTrade} {appended : Bool} {res : Bool}
    (accounted : Accounted (w, h))
    (credited : (phaseAt i h).credited = some (trade.kolName, trade.pnlWei)) {w' : PaperWorld}
    (budgets : w'.budgets = w.budgets) (rows : w'.closedTrades = w.closedTrades ++ [trade]) :
    Accounted (x := x) (w', ⟨i, .appendTrade trade, appended, res⟩ :: h) := by
  constructor
  · apply matched_step accounted (fun _ => 0)
      (fun n => if trade.kolName = n then trade.pnlWei else 0)
    · simp [budgets]
    · intro n
      rw [rows, rowsPnlWei_append]
    · intro n
      simp [PaperPhase.pnlOf, credited, PaperExecutor.order]
  · intro n
    rw [budgets]
    exact accounted.least n
  · intro n
    rw [budgets]
    exact accounted.most n

/-- The operations that neither credit a close nor write its row. -/
def unpriced : PaperOp → Prop
  | .creditClose .. | .appendTrade _ => False
  | _ => True

theorem accounted_unpriced (kind : unpriced o) (accounted : Accounted (w, h))
    (did : o.exec i a w = some out) :
    Accounted (x := x) (out.shared, ⟨i, o, a, out.res⟩ :: h) := by
  have frame := (PaperOp.exec_frame did).1
  have realized : ∀ n, realizedPnlWei out.shared.budgets n = realizedPnlWei w.budgets n := by
    intro n
    cases o with
    | creditClose => exact kind.elim
    | tryReserve =>
        cases did
        exact realizedPnlWei_tryReserve
    | _ => rw [frame.budgets id]
  have rows : out.shared.closedTrades = w.closedTrades := by
    apply frame.closedTrades
    cases o <;> first | exact kind.elim | exact id
  have begun : (x.order.next (phaseAt i h) o out.res).credited = (phaseAt i h).credited := by
    cases o <;> first | exact kind.elim | rfl
  have credited : ∀ n, creditedWei n ((⟨i, o, a, out.res⟩ : x.machine.Event) :: h) =
      creditedWei n h := by
    intro n
    cases o <;> first | exact kind.elim | rfl
  constructor
  · apply matched_step accounted (fun _ => 0) (fun _ => 0)
    · simp [realized]
    · simp [rows]
    · simp [PaperPhase.pnlOf, begun]
  · intro n
    rw [realized, credited]
    exact accounted.least n
  · intro n
    rw [realized, credited]
    exact accounted.most n

theorem accounted_step (budgeted : x.kolBudgets.isSome = true) (known : Known (w, h))
    (accounted : Accounted (w, h))
    (allowed : x.order.allows (phaseAt i h) o) (keeps : keepsPnl o a (w, h) = true)
    (did : o.exec i a w = some out) : Accounted (x := x) (out.shared, ⟨i, o, a, out.res⟩ :: h) := by
  cases o with
  | creditClose key tokens bnbIn bnbOut =>
      cases did
      obtain ⟨free, p, sized, same⟩ := allowed
      have row : (w.budgets.lookup key.kolName).isSome = true := by
        rw [← same]
        exact known.sized i p sized
      exact accounted_creditClose accounted row free (of_decide_eq_true keeps) rfl rfl
  | appendTrade trade =>
      cases did
      obtain rfl : a = true := keeps
      exact accounted_appendTrade accounted (allowed budgeted) rfl rfl
  | _ => exact accounted_unpriced (by trivial) accounted did

end Step

theorem known_start : Known (x := x) (PaperExecutor.new .empty ∅, []) := by
  constructor
  · intro key held
    cases held
  · intro j kolName asked
    cases asked
  · intro j p sized
    cases sized

theorem accounted_start : Accounted (x := x) (PaperExecutor.new .empty ∅, []) := by
  constructor
  · intro kolName tasks _
    simp [PaperPhase.pnlOf, phaseAt, Protocol.phase]
    rfl
  · exact fun _ => le_rfl
  · exact fun _ => le_rfl

end RealizedPnl

/-- With budgets on, from an empty book, budgets and ledger, in every run of consumers and sweepers
without ledger failures whose amounts fit, what the budget book has realised for a KOL is the profit
of the KOL's rows: at every moment at which no close of the KOL is credited and without a row, and
for every KOL once the tasks have returned. -/
theorem realized_pnl_agrees {x : PaperExecutor} {limits : KolBudgetBook}
    (budgeted : x.kolBudgets = some limits) (tasks : List PaperTask) (c : x.PastConfig)
    (run : x.machine.recording.Run (fun _ o a s => keepsPnl o a s)
      (x.machine.recording.start (PaperExecutor.new .empty ∅, []) tasks) c) :
    (∀ kolName, (∀ i pnl, (phaseAt i c.shared.2).credited ≠ some (kolName, pnl)) →
        realizedPnlWei c.shared.1.budgets kolName = rowsPnlWei c.shared.1.closedTrades kolName) ∧
      (c.Quiet → ∀ kolName,
        realizedPnlWei c.shared.1.budgets kolName =
          rowsPnlWei c.shared.1.closedTrades kolName) := by
  have on : x.kolBudgets.isSome = true := by simp [budgeted]
  have kept : RealizedPnl.Known c.shared ∧ RealizedPnl.Accounted c.shared := by
    apply Machine.invariant_of_obeyed (I := fun s => RealizedPnl.Known s ∧ RealizedPnl.Accounted s)
      PaperExecutor.body_obeys _ run
    · exact ⟨RealizedPnl.known_start, RealizedPnl.accounted_start⟩
    · rintro i fresh t o a s out ⟨known, accounted⟩ _ allowed meets did
      exact ⟨RealizedPnl.known_step on known allowed did,
        RealizedPnl.accounted_step on known accounted allowed meets did⟩
  have orderly : x.KeepsOrder c := PaperExecutor.orderly_of_run run
  have agrees : ∀ kolName, (∀ i pnl, (phaseAt i c.shared.2).credited ≠ some (kolName, pnl)) →
      realizedPnlWei c.shared.1.budgets kolName = rowsPnlWei c.shared.1.closedTrades kolName := by
    intro kolName written
    rw [kept.2.matched kolName c.pool.length orderly.known, Finset.sum_eq_zero, add_zero]
    intro i _
    unfold PaperPhase.pnlOf
    split
    · rename_i name pnl credited
      rw [if_neg]
      rintro rfl
      exact written i pnl credited
    · rfl
  refine ⟨agrees, fun quiet kolName => agrees kolName fun i pnl => ?_⟩
  rw [(PaperExecutor.idle_of_quiet orderly quiet i).1]
  simp

/-- Two sweepers close the same position at a loss of 99000 wei each. -/
theorem realized_pnl_agrees_overlapping :
    ∃ c, (paperScenario (some ⟨1000000, 1000, 1⟩)).machine.recording.Run
      (fun _ o a s => keepsPnl o a s)
        ((paperScenario (some ⟨1000000, 1000, 1⟩)).machine.recording.start
          (PaperExecutor.new .empty ∅, [])
          [.consumer [paperBuy], .sweeper 0 1, .sweeper 0 1]) c ∧
      c.Quiet ∧ realizedPnlWei c.shared.1.budgets "D" = -198000 := by
  let r : PaperReplies := { quote := v2Quote 1000, order := [paperKey] }
  obtain ⟨c, run, quiet, rows⟩ : ∃ c,
      (paperScenario (some ⟨1000000, 1000, 1⟩)).machine.recording.Run
        (fun _ o a s => keepsPnl o a s)
        ((paperScenario (some ⟨1000000, 1000, 1⟩)).machine.recording.start
          (PaperExecutor.new .empty ∅, [])
          [.consumer [paperBuy], .sweeper 0 1, .sweeper 0 1]) c ∧
      c.Quiet ∧ rowsPnlWei c.shared.1.closedTrades "D" = -198000 :=
    Machine.exists_run_of_follow [(0, 15, r.ans), (1, 9, r.ans), (2, 15, r.ans), (1, 6, r.ans)]
      (by decide +kernel)
  have agrees := (realized_pnl_agrees rfl _ c run).2 quiet "D"
  exact ⟨c, run, quiet, agrees.trans rows⟩

end BscMempool.Trader
