/-
Module: BscMempool.Proofs.PartialCloses
Layer: Proofs
Purpose: Partial closes of one position add up. Each close takes a slice off tokens and cost basis
  and writes what is left back into the book, so what is open under the key and what was handed to
  the ledger stay the position that was there first; a last close of the whole leaves all of it in
  the ledger's rows.
Trusted boundary: none
Main exports: PaperExecutor.handed, CloseCall, Parted, partial_closes_add_up
-/
import BscMempool.Concurrent.Sequential
import BscMempool.Proofs.CommittedBudget
import BscMempool.Proofs.PaperSlices
import BscMempool.Proofs.RealizedPnl
import Mathlib.Algebra.Order.BigOperators.Group.List

namespace BscMempool.Trader

open Concurrent (Tid Machine Contract Outcome)
open Concurrent.Proc

/-- A call of `close_one` on a given key. -/
structure CloseCall where
  reason : CloseReason
  triggerSellTx : Option B256
  fraction : ℚ

namespace PaperExecutor

variable {x : PaperExecutor}

/-- The rows handed to `append_trade`, in order. -/
def handed : List x.machine.Event → List ClosedTrade
  | [] => []
  | ⟨_, .appendTrade trade, _, _⟩ :: older => handed older ++ [trade]
  | _ :: older => handed older

/-- Every row that was handed over was written. -/
def AllWritten (past : List x.machine.Event) : Prop :=
  ∀ i trade appended result, (⟨i, .appendTrade trade, appended, result⟩ : x.machine.Event) ∈ past →
    appended = true

variable (x)

/-- `close_one` on the position under `key`. -/
def closeUnder (key : PositionKey) (k : CloseCall) : Paper Unit :=
  x.closeOne key k.reason k.triggerSellTx k.fraction

end PaperExecutor

/-- Tokens and cost basis of some rows. -/
def rowsAmounts (rows : List ClosedTrade) : Nat × Nat :=
  (rows.map fun t => (t.tokensTraded.toNat, t.bnbInWei.toNat)).sum

namespace PartialCloses

open PaperExecutor (handed AllWritten closeSlice)

variable {x : PaperExecutor} {key : PositionKey} {whole : Nat × Nat}

/-- The contract of a lone call. -/
abbrev contract (x : PaperExecutor) : Contract x.machine.recording :=
  .lone x.machine.recording.anyStep 0

theorem rowsAmounts_concat (rows : List ClosedTrade) (t : ClosedTrade) :
    rowsAmounts (rows ++ [t]) = rowsAmounts rows + (t.tokensTraded.toNat, t.bnbInWei.toNat) := by
  simp [rowsAmounts]

theorem rowsAmounts_fst (rows : List ClosedTrade) :
    (rowsAmounts rows).1 = (rows.map fun t => t.tokensTraded.toNat).sum := by
  induction rows with
  | nil => rfl
  | cons t rest ih => simpa [rowsAmounts] using ih

theorem rowsAmounts_snd (rows : List ClosedTrade) :
    (rowsAmounts rows).2 = (rows.map fun t => t.bnbInWei.toNat).sum := by
  induction rows with
  | nil => rfl
  | cons t rest ih => simpa [rowsAmounts] using ih

/-! ### Slices -/

/-- A close of a part leaves tokens. -/
theorem remainingTokens_pos {p : OpenPosition} {fraction : ℚ} (held : p.tokensHeld ≠ 0)
    (part : (closeSlice p fraction).isFullClose = false) :
    (closeSlice p fraction).remainingTokens ≠ 0 := by
  unfold closeSlice at part ⊢
  dsimp only at part ⊢
  split at part
  · cases part
  · rename_i below
    rw [if_neg below]
    have less : (scaleU256ByFraction p.tokensHeld (clamp01 fraction)).toNat <
        p.tokensHeld.toNat := by
      apply scaleU256ByFraction_lt _ held
      linarith
    intro zero
    have left := congrArg BitVec.toNat zero
    rw [saturatingSubU256_toNat] at left
    have none_ : p.tokensHeld.toNat - (scaleU256ByFraction p.tokensHeld (clamp01 fraction)).toNat =
        0 := left
    omega

/-! ### Assertions -/

/-- What the book has under the key and what the handed rows sold are the whole; a position has
tokens; and every row's profit is what it says it brought in less what it cost. -/
structure Parted (key : PositionKey) (whole : Nat × Nat) (book : PositionBook)
    (rows : List ClosedTrade) : Prop where
  sum : book.amounts key + rowsAmounts rows = whole
  tokens : ∀ p, book.get key = some p → p.tokensHeld ≠ 0
  pnl : ∀ t ∈ rows, t.pnlWei = pnlWei t.bnbInWei t.bnbOutWei

/-- An assertion about the book and the handed rows. -/
def about (P : PositionBook → List ClosedTrade → Prop) (s : x.Recorded) : Prop :=
  P s.1.book (handed s.2)

/-- The operations that change neither the book nor what was handed over. -/
def still (o : PaperOp) : Prop := ¬o.setsBook ∧ ¬o.setsLedger

theorem still_of_asks {α : Type} {p : Paper α} (all : p.All PaperOp.asks) : p.All still := by
  apply all.mono
  intro o asks
  cases o <;> first | exact asks.elim | exact ⟨id, id⟩

theorem still_call {o : PaperOp} (kind : still o) : (onPaper o).All still := all_call.2 kind

theorem still_creditSlice (trade : ClosedTrade) : (x.creditSlice trade).All still := by
  unfold PaperExecutor.creditSlice
  split
  · trivial
  · apply (still_call ⟨id, id⟩).bind
    intro _
    exact PaperExecutor.saveBudgets_all ⟨id, id⟩ (fun _ => ⟨id, id⟩) ⟨id, id⟩

theorem still_keeps {P : PositionBook → List ClosedTrade → Prop} {o : PaperOp} (kind : still o)
    {i fresh : Tid}
    {a : o.Ans} {s : x.Recorded} (now : about P s) {out : Outcome x.Recorded PaperTask o.Res}
    (did : x.machine.recording.exec i fresh o a s = some out) : about P out.shared := by
  obtain ⟨ran, past⟩ := Machine.exec_of_recording did
  have book : out.shared.1.book = s.1.book := (PaperOp.exec_frame ran).1.book kind.1
  have rows : handed out.shared.2 = handed s.2 := by
    rw [past]
    cases o with
    | appendTrade => exact absurd trivial kind.2
    | _ => rfl
  unfold about
  rw [book, rows]
  exact now

/-- Operations of this kind keep every such assertion. -/
theorem still_wp {P : PositionBook → List ClosedTrade → Prop} {α : Type} {p : Paper α}
    (all : p.All still)
    {Q : α → x.Recorded → Prop} (done : ∀ value s, about P s → Q value s) {s : x.Recorded}
    (now : about P s) :
    (contract x).wp 0 p Q s :=
  Contract.lone_of_all (A := still) (P := about P)
    (fun _ kind _ now _ _ _ _ did => still_keeps kind now did) all done
    now

/-! ### One close -/

/-- The slice was handed over and is still in the book. -/
structure Handed (key : PositionKey) (whole : Nat × Nat) (p : OpenPosition) (slice : Nat × Nat)
    (book : PositionBook) (rows : List ClosedTrade) : Prop where
  held : book.get key = some p
  tokens : p.tokensHeld ≠ 0
  sum : p.amounts + rowsAmounts rows = whole + slice
  pnl : ∀ t ∈ rows, t.pnlWei = pnlWei t.bnbInWei t.bnbOutWei

/-- What a close sells. -/
def sold (p : OpenPosition) (fraction : ℚ) : Nat × Nat :=
  ((closeSlice p fraction).sellTokens.toNat, (closeSlice p fraction).sellBnbIn.toNat)

/-- Handing over the row of a slice. -/
theorem appendTrade_wp {p : OpenPosition} {trade : ClosedTrade} {slice : Nat × Nat}
    (row : (trade.tokensTraded.toNat, trade.bnbInWei.toNat) = slice)
    (pnl : trade.pnlWei = pnlWei trade.bnbInWei trade.bnbOutWei) {s : x.Recorded}
    (now : about (fun book rows => Parted key whole book rows ∧ book.get key = some p) s) :
    (contract x).wp 0 (onPaper (.appendTrade trade))
      (fun _ => about (Handed key whole p slice)) s := by
  refine Contract.wp_call Contract.lone_stable (Contract.lone_triple
    (P := about fun book rows => Parted key whole book rows ∧ book.get key = some p) ?_) now
  rintro s ⟨parted, held⟩ fresh appended - out did
  obtain ⟨ran, past⟩ := Machine.exec_of_recording did
  have book : out.shared.1.book = s.1.book :=
    (PaperOp.exec_frame (o := .appendTrade trade) (a := appended) ran).1.book id
  have rows : handed out.shared.2 = handed s.2 ++ [trade] := by
    rw [past]
    rfl
  unfold about
  rw [book, rows]
  constructor
  · exact held
  · exact parted.tokens p held
  · rw [rowsAmounts_concat, row, ← add_assoc, ← PositionBook.amounts_of_get held, parted.sum]
  · intro t here
    rcases List.mem_append.1 here with older | new
    · exact parted.pnl t older
    · rw [List.mem_singleton.1 new]
      exact pnl

/-- A book with what the close leaves of the position, if it leaves anything. -/
theorem parted_of_left {p : OpenPosition} {fraction : ℚ} {book book' : PositionBook}
    {rows : List ClosedTrade} (now : Handed key whole p (sold p fraction) book rows)
    (amounts : book'.amounts key =
      ((closeSlice p fraction).remainingTokens.toNat, (closeSlice p fraction).remainingBnbIn.toNat))
    (tokens : ∀ p, book'.get key = some p → p.tokensHeld ≠ 0) : Parted key whole book' rows := by
  have split : book'.amounts key + sold p fraction = p.amounts := by
    rw [amounts]
    exact PaperExecutor.closeSlice_amounts p fraction
  constructor
  · have sum := now.sum
    rw [← split, add_right_comm] at sum
    exact add_right_cancel sum
  · exact tokens
  · exact now.pnl

/-- The update of the book takes the slice out of it. -/
theorem updateBook_wp {p : OpenPosition} {fraction : ℚ} {s : x.Recorded}
    (now : about (Handed key whole p (sold p fraction)) s) :
    (contract x).wp 0 (PaperExecutor.updateBook key p (closeSlice p fraction))
      (fun _ => about fun book rows => Parted key whole book rows ∧
        ((closeSlice p fraction).isFullClose = true → book.get key = none)) s := by
  unfold PaperExecutor.updateBook
  split
  · rename_i full
    refine Contract.wp_call Contract.lone_stable
      (Contract.lone_triple (P := about (Handed key whole p _)) ?_) now
    intro s now fresh a _ out did
    cases did
    have gone : (s.1.book.remove key).get key = none := by simp [PositionBook.get_remove]
    refine ⟨parted_of_left now ?_ ?_, fun _ => gone⟩
    · obtain ⟨tokens, bnb⟩ := PaperExecutor.closeSlice_full full
      change (s.1.book.remove key).amounts key = _
      rw [PositionBook.amounts_remove, if_pos rfl, tokens, bnb]
      rfl
    · intro p held
      cases gone.symm.trans held
  · rename_i part
    refine Contract.wp_call Contract.lone_stable
      (Contract.lone_triple (P := about (Handed key whole p _)) ?_) now
    intro s now fresh a _ out did
    cases did
    refine ⟨parted_of_left now ?_ ?_, fun full => absurd full part⟩
    · change (s.1.book.shrink key _ _).amounts key = _
      rw [PositionBook.amounts_shrink now.held, if_pos rfl]
    · intro p' held
      change (s.1.book.shrink key _ _).get key = some p' at held
      rw [PositionBook.get_shrink, if_pos rfl, now.held] at held
      cases held
      exact remainingTokens_pos now.tokens (by simpa using part)

/-- A completed close parts the position further; one of at least 0.99 closes it. -/
theorem closeOne_wp (key : PositionKey) (reason : CloseReason) (triggerSellTx : Option B256)
    (fraction : ℚ) {s : x.Recorded} (now : about (Parted key whole) s) :
    (contract x).wp 0 (x.closeOne key reason triggerSellTx fraction)
      (fun _ => about fun book rows => Parted key whole book rows ∧
        (99 / 100 ≤ fraction → book.get key = none)) s := by
  refine Contract.lone_call (P := about (Parted key whole))
    (fun held => about fun book rows => Parted key whole book rows ∧ book.get key = held) ?_ ?_ now
  · intro s now fresh _ _ out did
    cases did
    exact ⟨now, rfl⟩
  · intro held s now
    cases held with
    | none => exact ⟨now.1, fun _ => now.2⟩
    | some p =>
        have own : p.key = key := PositionBook.key_of_get now.2
        dsimp only
        split
        · rename_i zero
          refine ⟨now.1, fun most => ?_⟩
          rw [PaperExecutor.closeSlice_most p most] at zero
          exact absurd zero (now.1.tokens p now.2)
        · refine Contract.wp_seq (fun trade s =>
            ((trade.tokensTraded.toNat, trade.bnbInWei.toNat) = sold p fraction ∧
              trade.pnlWei = pnlWei trade.bnbInWei trade.bnbOutWei) ∧
              about (fun book rows => Parted key whole book rows ∧ book.get key = some p) s) ?_ ?_
          · apply Contract.wp_ends (PaperExecutor.priceClose_ends p _ reason triggerSellTx)
            apply Contract.wp_ends (PaperExecutor.priceClose_pnl p _ reason triggerSellTx)
            refine still_wp (still_of_asks (PaperExecutor.priceClose_asks ..)) ?_ now
            intro trade s now pnl row
            obtain ⟨-, -, tokens, bnb⟩ := Slice.mk.inj row
            exact ⟨⟨by rw [tokens, bnb]; rfl, pnl.2⟩, now⟩
          · rintro trade s ⟨⟨row, pnl⟩, now⟩
            refine Contract.wp_seq _ (still_wp (still_creditSlice trade) (fun _ _ now => now) now)
              fun _ s now => ?_
            refine Contract.wp_seq _ (appendTrade_wp row pnl now) fun _ s now => ?_
            refine Contract.wp_seq _ (updateBook_wp now) fun tokenStillHeld s now => ?_
            refine still_wp ?_ (fun _ s now => ?_) now
            · split
              · exact (still_call ⟨id, id⟩).bind fun _ =>
                  (still_call ⟨id, id⟩).bind fun _ => trivial
              · exact (still_call ⟨id, id⟩).bind fun _ => trivial
            · refine ⟨now.1, fun most => now.2 ?_⟩
              rw [PaperExecutor.closeSlice_most p most]

/-! ### A slice of nothing -/

/-- A close whose slice rounds to zero returns. -/
theorem closeOne_zero {p : OpenPosition} {reason : CloseReason} {triggerSellTx : Option B256}
    {fraction : ℚ} {s s' : x.Recorded} {value : Unit} (held : s.1.book.get key = some p)
    (zero : (closeSlice p fraction).sellTokens = 0)
    (completes : x.machine.recording.Completes x.machine.recording.anyStep 0
      (x.closeOne key reason triggerSellTx fraction) s value s') :
        s'.1 = s.1 ∧ handed s'.2 = handed s.2 := by
  refine (Contract.completes_of_wp (K := contract x)
    (Q := fun _ s' => s'.1 = s.1 ∧ handed s'.2 = handed s.2) ?_ trivial
    completes).2
  refine Contract.lone_call (P := fun s' => s' = s)
    (fun found s' => found = some p ∧ s'.1 = s.1 ∧ handed s'.2 = handed s.2) ?_ ?_ rfl
  · rintro s' rfl fresh _ _ out did
    cases did
    exact ⟨held, rfl, rfl⟩
  · rintro found s' ⟨rfl, same⟩
    dsimp only
    rw [if_pos zero]
    exact same

/-! ### The ledger -/

/-- The ledger has what it had and, when every row was written, the rows that were handed over. -/
def Grown (rows : List ClosedTrade) (s : x.Recorded) : Prop :=
  AllWritten s.2 → s.1.closedTrades = rows ++ handed s.2

theorem grown_exec {rows : List ClosedTrade} {o : PaperOp} {i fresh : Tid} {a : o.Ans}
    {s : x.Recorded} (now : Grown rows s) {out : Outcome x.Recorded PaperTask o.Res}
    (did : x.machine.recording.exec i fresh o a s = some out) : Grown rows out.shared := by
  obtain ⟨ran, past⟩ := Machine.exec_of_recording did
  intro written
  rw [past] at written ⊢
  have before := now fun i trade appended result there =>
      written i trade appended result (List.mem_cons_of_mem _ there)
  have frame : o.Frame s.1 out.shared.1 := (PaperOp.exec_frame ran).1
  cases o with
  | appendTrade trade =>
      have appended : a = true := written i trade a out.res List.mem_cons_self
      have wrote : out.shared.1.closedTrades = s.1.closedTrades ++ [trade] := by
        subst appended
        cases did
        rfl
      rw [wrote, before, List.append_assoc]
      rfl
  | _ =>
      rw [frame.closedTrades id, before]
      rfl

theorem completes_grown {rows : List ClosedTrade} {α : Type} {q : Paper α} {s s' : x.Recorded}
    {value : α} (now : Grown rows s)
    (completes : x.machine.recording.Completes x.machine.recording.anyStep 0 q s value s') :
    Grown rows s' :=
  completes.invariant (I := Grown rows) (fun _ _ _ _ _ did now => grown_exec now did) now

end PartialCloses

open PartialCloses in
/-- Close a position that holds tokens, one call after the other and with any fractions, the last
one of at least 0.99: the rows handed to the ledger have its tokens and its cost basis between them,
each row's profit is what it brought in less what it cost, the ledger grows by these rows if every
row is written, and a call whose slice rounds to zero changes nothing. -/
theorem partial_closes_add_up {x : PaperExecutor} {start : PaperWorld} {key : PositionKey}
    {p : OpenPosition} (held : start.book.get key = some p) (tokens : p.tokensHeld ≠ 0)
    (cost : p.bnbIn.toNat < 2 ^ 127)
    {s s' : x.Recorded} {value : Unit} {k : CloseCall} (most : 99 / 100 ≤ k.fraction)
    (before : x.machine.recording.Serial x.machine.recording.anyStep 0 (x.closeUnder key)
      (start, []) s)
    (last : x.machine.recording.Completes x.machine.recording.anyStep 0 (x.closeUnder key k) s
      value s') :
    ((PaperExecutor.handed s'.2).map fun t => t.tokensTraded.toNat).sum = p.tokensHeld.toNat ∧
    ((PaperExecutor.handed s'.2).map fun t => t.bnbInWei.toNat).sum = p.bnbIn.toNat ∧
    (∀ t ∈ PaperExecutor.handed s'.2, t.bnbOutWei.toNat < 2 ^ 127 →
      t.pnlWei = (t.bnbOutWei.toNat : Int) - t.bnbInWei.toNat) ∧
    (PaperExecutor.AllWritten s'.2 → s'.1.closedTrades = start.closedTrades ++
      PaperExecutor.handed s'.2) ∧
    ∀ (c : CloseCall) (now later : x.Recorded) (done : Unit)
      (q : OpenPosition), now.1.book.get key = some q →
      (PaperExecutor.closeSlice q c.fraction).sellTokens = 0 →
      x.machine.recording.Completes x.machine.recording.anyStep 0 (x.closeUnder key c) now
        done later →
      later.1 = now.1 ∧ PaperExecutor.handed later.2 = PaperExecutor.handed now.2 := by
  -- the position is what is open and what was handed over, after every call
  have parted : about (Parted key p.amounts) s := by
    refine before.invariant (I := about (Parted key p.amounts)) ?_ ?_
    · intro c now value later parted completes
      exact (Contract.completes_of_wp (closeOne_wp key c.reason c.triggerSellTx c.fraction parted)
        trivial
        completes).2.1
    · constructor
      · rw [PositionBook.amounts_of_get held]
        rfl
      · intro p' held'
        cases held.symm.trans held'
        exact tokens
      · intro t there
        cases there
  obtain ⟨-, parted', gone⟩ :=
    Contract.completes_of_wp (closeOne_wp key k.reason k.triggerSellTx k.fraction parted)
      trivial last
  -- the last call leaves nothing open
  have rows : rowsAmounts (PaperExecutor.handed s'.2) = p.amounts := by
    have sum := parted'.sum
    rw [PositionBook.amounts, gone most] at sum
    simpa using sum
  have tokens_ := congrArg Prod.fst rows
  have bnb := congrArg Prod.snd rows
  rw [rowsAmounts_fst] at tokens_
  rw [rowsAmounts_snd] at bnb
  refine ⟨tokens_, bnb, ?_, ?_, ?_⟩
  · intro t there out
    have part : t.bnbInWei.toNat ≤ p.bnbIn.toNat := by
      rw [show p.bnbIn.toNat = _ from bnb.symm]
      exact List.le_sum_of_mem (List.mem_map_of_mem there)
    rw [parted'.pnl t there]
    exact RealizedPnl.pnlWei_of_lt (by omega) out
  · have grown : Grown start.closedTrades s := by
      refine before.invariant (I := Grown start.closedTrades) ?_ fun _ => by
        simp [PaperExecutor.handed]
      intro c now value later grown completes
      exact completes_grown grown completes
    exact completes_grown grown last
  · intro c now later done q held zero completes
    exact closeOne_zero held zero completes

/-- A position of 1000 tokens that cost 100 wei. -/
def thousand : OpenPosition :=
  { portfolio := .fastTip, kolName := "D", tokenAddress := 0x4444#160, tokenSymbol := "T",
    tokenDecimals := 18, bnbIn := 100, tokensHeld := 1000, openedAtBlock := 7, openedAtUnixNs := 0,
    lastAddedBlock := 7, buyTxHashes := [1] }

/-- A third of it is sold, rounded down on both sides, and then all that is left. -/
theorem partial_closes_add_up_third :
    ∃ s', ((PaperExecutor.handed (x := paperScenario none) s').map fun t =>
      t.tokensTraded.toNat).sum = 1000 ∧
      ((PaperExecutor.handed s').map fun t => t.bnbInWei.toNat).sum = 100 ∧
      (PaperExecutor.handed s').map (fun t => (t.tokensTraded.toNat, t.bnbInWei.toNat)) =
        [(333, 33), (667, 67)] := by
  let x := paperScenario none
  let r : PaperReplies := { quote := v2Quote 50 }
  let start : PaperWorld := { book := PositionBook.empty.put thousand }
  obtain ⟨s, before, last⟩ : ∃ s : x.Recorded,
      x.machine.recording.Serial x.machine.recording.anyStep 0 (x.closeUnder paperKey)
        (start, []) s ∧
      (x.machine.recording.evaluate x.machine.recording.anyStep 0 r.ans
        (x.closeUnder paperKey ⟨.timeout, none, 1⟩) s).any (fun ended =>
        decide ((PaperExecutor.handed ended.2.2).map
          (fun t => (t.tokensTraded.toNat, t.bnbInWei.toNat)) =
          [(333, 33), (667, 67)])) = true :=
    Machine.exists_serial_of_evaluateAll [(⟨.kolSell, some 2, 1 / 3⟩, r.ans)] (by decide +kernel)
  obtain ⟨⟨value, s'⟩, evaluates, rows⟩ := (Option.any_eq_true _ _).1 last
  obtain ⟨tokens, bnb, -⟩ :=
    partial_closes_add_up (p := thousand) (by decide) (by decide) (by decide)
    (k := ⟨.timeout, none, 1⟩) (by norm_num) before (Machine.completes_of_evaluate evaluates)
  exact ⟨s'.2, tokens, bnb, of_decide_eq_true rows⟩

end BscMempool.Trader
