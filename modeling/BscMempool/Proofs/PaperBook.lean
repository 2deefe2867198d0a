/-
Module: BscMempool.Proofs.PaperBook
Layer: Proofs
Purpose: When the paper trader's book and its ledger together account for every buy, and a run in
  which they do not because a close writes back what it made of an outdated snapshot.
Trusted boundary: none
Main exports: keepsBook, paper_book_conserves, paper_book_loses
-/
import BscMempool.Concurrent.RelyGuarantee
import BscMempool.Proofs.PaperScenario
import BscMempool.Proofs.PaperSlices

namespace BscMempool.Trader

open Concurrent (Tid Machine Contract Outcome)
open Concurrent.Proc

/-- The steps that keep the accounts: a close updates the book while the position still is what the
close was sized from, every row reaches the ledger, and no buy saturates. -/
def keepsBook : (o : PaperOp) → o.Ans → PaperWorld → Bool
  | .openAll fill, _, w => PortfolioMode.ALL.all fun mode =>
      let held := w.book.amounts ⟨mode, fill.kolName, fill.token⟩
      decide (held.1 + fill.tokensIn.toNat < 2 ^ 256 ∧ held.2 + fill.bnbIn.toNat < 2 ^ 256)
  | .appendTrade _, appended, _ => appended
  | .remove key sized, _, w | .shrink key _ _ sized, _, w =>
      (w.book.get key).any fun p => decide (p.amounts = sized.amounts)
  | _, _, _ => true

instance {x : PaperExecutor} (o : PaperOp) (a : x.machine.Ans o) (w : PaperWorld) :
    Decidable (keepsBook o a w = true) := decEq (keepsBook o a w) true

namespace PaperBook

/-- The executor starts with the book and the budgets it finds on disk. -/
def boot (book : PositionBook) (budgets : KolBudgets) : PaperWorld :=
  { book := book, budgets := budgets }

/-- What was there and what was bought is closed, waiting to be taken out of the book, or open; and
no more was credited than was closed or is about to be. -/
structure Inv (start : PositionBook) (a : Accounts) : Prop where
  conserved : ∀ key, start.amounts key + total a.added key + total a.settling key =
    total (a.closedTrades.map ClosedTrade.slice) key + a.book.amounts key
  within : ∀ key, total a.credits key ≤
    total (a.closedTrades.map ClosedTrade.slice) key + total a.credited key

/-- A task leaves the slices of the others to them. -/
def Guar (i : Tid) (a a' : Accounts) : Prop :=
  ∀ j, j ≠ i → mine j a'.credited = mine j a.credited ∧ mine j a'.settling = mine j a.settling

/-- No close of the task is under way. -/
def Idle (i : Tid) (a : Accounts) : Prop := mine i a.credited = [] ∧ mine i a.settling = []

def contract (start : PositionBook) (x : PaperExecutor) : Contract x.machine where
  cond _ o a w := keepsBook o a w = true
  inv w := Inv start w.accounts
  guar i w w' := Guar i w.accounts w'.accounts
  pre _ i w := Idle i w.accounts
  post _ i _ w := Idle i w.accounts

variable {start : PositionBook} {x : PaperExecutor} {i : Tid}

/-! ### What the operations do to the accounts -/

/-- A buy adds its slice to what was bought and to what is open. -/
theorem Inv.openIn {w : PaperWorld} {fill : Fill} {mode : PortfolioMode}
    (inv : Inv start w.accounts) (nowNs : Nat)
    (fits : (w.book.amounts ⟨mode, fill.kolName, fill.token⟩).1 + fill.tokensIn.toNat < 2 ^ 256 ∧
      (w.book.amounts ⟨mode, fill.kolName, fill.token⟩).2 + fill.bnbIn.toNat < 2 ^ 256) :
    Inv start (w.openIn fill nowNs i mode).accounts := by
  refine ⟨fun key => ?_, inv.within⟩
  change start.amounts key + total (w.added ++ [_]) key + total w.settling key =
    total (w.closedTrades.map ClosedTrade.slice) key +
      ((w.book.openOrAdd mode _ _ _ _ _ _ _ _ nowNs).setEntryMcaps _ _ _).amounts key
  have conserved : start.amounts key + total w.added key + total w.settling key =
    total (w.closedTrades.map ClosedTrade.slice) key + w.book.amounts key := inv.conserved key
  rw [PositionBook.amounts_setEntryMcaps, PositionBook.amounts_openOrAdd fits, total_append,
    total_singleton, ← add_assoc, ← add_assoc, ← conserved]
  exact add_right_comm _ _ _

/-- A credit is for a slice that has no row yet. -/
theorem Inv.credit {a : Accounts} (inv : Inv start a) (slice : Slice) :
    Inv start { a with credits := a.credits ++ [slice], credited := a.credited ++ [slice] } := by
  refine ⟨inv.conserved, fun key => ?_⟩
  rw [total_append, total_append, ← add_assoc]
  exact add_le_add_left (inv.within key) _

/-- A row closes a slice that is still open, and stands for the credit its task
gave for it, if any. -/
theorem Inv.append {a : Accounts} {trade : ClosedTrade} (inv : Inv start a)
    (once : ∀ key, total (mine i a.credited) key ≤ total [trade.slice] key) :
    Inv start { a with
      closedTrades := a.closedTrades ++ [trade]
      credited := a.credited.filter fun slice => decide (slice.owner ≠ i)
      settling := a.settling ++ [⟨i, trade.key, trade.tokensTraded, trade.bnbInWei⟩] } := by
  have same : ∀ key, total [⟨i, trade.key, trade.tokensTraded, trade.bnbInWei⟩] key =
      total [trade.slice] key := fun _ => rfl
  refine ⟨fun key => ?_, fun key => ?_⟩
  · rw [List.map_append, total_append, total_append, same, ← add_assoc, inv.conserved key]
    exact add_right_comm _ _ _
  · rw [List.map_append, total_append, add_assoc]
    refine (inv.within key).trans (add_le_add_right ?_ _)
    rw [← total_others a.credited i key, add_comm]
    exact add_le_add_left (once key) _

/-- Taking a slice out of the book, from a position with the amounts it was made from. -/
theorem Inv.settle {a : Accounts} {book : PositionBook} {slice : Slice} {rest : Nat × Nat}
    (inv : Inv start a) (own : mine i a.settling = [slice])
    (whole : rest + slice.amounts = a.book.amounts slice.key)
    (left : ∀ key, book.amounts key = if key = slice.key then rest else a.book.amounts key) :
    Inv start { a with
      book := book
      settling := a.settling.filter fun slice => decide (slice.owner ≠ i) } := by
  have taken : ∀ key, a.book.amounts key = book.amounts key + total [slice] key := by
    intro key
    rw [left, total_singleton]
    by_cases same : key = slice.key
    · rw [if_pos same, if_pos same.symm, same, whole]
    · rw [if_neg same, if_neg (Ne.symm same), add_zero]
  refine ⟨fun key => ?_, inv.within⟩
  have conserved := inv.conserved key
  rw [taken key, ← total_others a.settling i key, own, ← add_assoc, ← add_assoc] at conserved
  exact add_right_cancel conserved

/-! ### The tasks -/

theorem about : (contract start x).About PaperWorld.accounts where
  inv s s' same inv := by
    change Inv start s'.accounts
    rw [same]
    exact inv
  guar j s s' same _ := by
    change Guar j s.accounts s'.accounts
    rw [same]
    exact fun _ _ => ⟨rfl, rfl⟩

theorem calm_still {o : PaperOp} (calm : o.calm) :
    (contract start x).Still PaperWorld.accounts o := by
  intro j fresh a s out did
  obtain ⟨same, none_⟩ := PaperOp.calm_accounts calm did
  refine ⟨same, fun k t started => ?_⟩
  rw [none_] at started
  cases started

/-- An assertion about the slices of the task itself. -/
def owns (start : PositionBook) (x : PaperExecutor) (i : Tid) (P : List Slice → List Slice → Prop) :
    (contract start x).Assertion PaperWorld.accounts i where
  holds a := P (mine i a.credited) (mine i a.settling)
  stable j s s' ne _ _ guar now := by
    obtain ⟨credited, settling⟩ := guar i (Ne.symm ne)
    rw [credited, settling]
    exact now

/-- Nothing is under way. -/
abbrev idle (start : PositionBook) (x : PaperExecutor) (i : Tid) :=
  owns start x i fun credited settling => credited = [] ∧ settling = []

/-- The slice is credited, or budgets are off. -/
abbrev paid (start : PositionBook) (x : PaperExecutor) (i : Tid) (slice : Slice) :=
  owns start x i fun credited settling => (credited = [] ∨ credited = [slice]) ∧ settling = []

/-- The slice has its row. -/
abbrev recorded (start : PositionBook) (x : PaperExecutor) (i : Tid) (slice : Slice) :=
  owns start x i fun credited settling => credited = [] ∧ settling = [slice]

theorem calm_wp {P : List Slice → List Slice → Prop} {α : Type} {p : Paper α}
    (all : p.All PaperOp.calm)
    {Q : α → PaperWorld → Prop} (done : ∀ value s, (owns start x i P).on s → Q value s)
    {s : PaperWorld} (now : (owns start x i P).on s) : (contract start x).wp i p Q s :=
  (owns start x i P).wp_still about (all.mono fun _ => calm_still) done now

theorem asks_wp {P : List Slice → List Slice → Prop} {α : Type} {p : Paper α}
    (all : p.All PaperOp.asks)
    {Q : α → PaperWorld → Prop} (done : ∀ value s, (owns start x i P).on s → Q value s)
    {s : PaperWorld} (now : (owns start x i P).on s) : (contract start x).wp i p Q s :=
  calm_wp (PaperOp.calm_of_asks all) done now

theorem creditSlice_wp (trade : ClosedTrade) {s : PaperWorld} (now : (idle start x i).on s) :
    (contract start x).wp i (x.creditSlice trade) (fun _ s =>
      (paid start x i ⟨i, trade.key, trade.tokensTraded, trade.bnbInWei⟩).on s) s := by
  unfold PaperExecutor.creditSlice
  split
  · exact ⟨.inl now.1, now.2⟩
  · refine Contract.wp_call_seq (fun _ s =>
      (paid start x i ⟨i, trade.key, trade.tokensTraded, trade.bnbInWei⟩).on s)
        (idle start x i).stable
      ?_ (fun _ s paid => calm_wp PaperExecutor.saveBudgets_calm (fun _ _ paid => paid) paid) now
    intro s inv idle fresh _ nowNs _ out did
    cases did
    by_cases known : (s.budgets.lookup trade.key.kolName).isSome = true
    · simp only [if_pos known]
      exact ⟨.quiet (inv.credit _) (fun j ne => ⟨mine_add_other ne, rfl⟩) rfl,
        .inr (mine_add_self idle.1), idle.2⟩
    · simp only [if_neg known]
      exact ⟨.quiet inv (fun _ _ => ⟨rfl, rfl⟩) rfl, .inl idle.1, idle.2⟩

/-- The row of a credited slice. -/
theorem appendTrade_triple (trade : ClosedTrade) : (contract start x).Triple i
    (paid start x i ⟨i, trade.key, trade.tokensTraded, trade.bnbInWei⟩).on (.appendTrade trade)
    fun _ s => (recorded start x i ⟨i, trade.key, trade.tokensTraded, trade.bnbInWei⟩).on s := by
  intro s inv paid fresh _ appended keeps out did
  cases did
  obtain rfl : appended = true := keeps
  refine ⟨.quiet (inv.append fun key => ?_) (fun j ne =>
    ⟨mine_drop_other ne _, mine_add_other ne⟩) rfl,
    mine_drop_self i _, mine_add_self paid.2⟩
  rcases paid.1 with off | on
  · rw [off]
    exact bot_le
  · rw [on]
    exact le_rfl

/-- The update of the book takes the recorded slice out of it. -/
theorem updateBook_wp {key : PositionKey} {p : OpenPosition} (fraction : ℚ) {s : PaperWorld}
    (now : (recorded start x i ⟨i, key, (PaperExecutor.closeSlice p fraction).sellTokens,
      (PaperExecutor.closeSlice p fraction).sellBnbIn⟩).on s) :
    (contract start x).wp i (PaperExecutor.updateBook key p (PaperExecutor.closeSlice p fraction))
      (fun _ s => (idle start x i).on s) s := by
  have whole := PaperExecutor.closeSlice_amounts p fraction
  -- either update leaves what the close was to leave, since the position is what it was sized from
  have settles : ∀ {w : PaperWorld} {book : PositionBook}, Inv start w.accounts →
      (recorded start x i ⟨i, key, (PaperExecutor.closeSlice p fraction).sellTokens,
        (PaperExecutor.closeSlice p fraction).sellBnbIn⟩).on w →
      (w.book.get key).any (fun q => decide (q.amounts = p.amounts)) = true →
      (∀ other, book.amounts other = if other = key then
        ((PaperExecutor.closeSlice p fraction).remainingTokens.toNat,
          (PaperExecutor.closeSlice p fraction).remainingBnbIn.toNat) else w.book.amounts other) →
      Inv start ({ w with book := book }.settled i).accounts ∧
        Guar i w.accounts ({ w with book := book }.settled i).accounts ∧
        (idle start x i).on ({ w with book := book }.settled i) := by
    intro w book inv recorded keeps left
    obtain ⟨q, held, same⟩ := (Option.any_eq_true _ _).1 keeps
    refine ⟨inv.settle recorded.2 ?_ left, fun j ne => ⟨rfl, mine_drop_other ne _⟩, recorded.1,
      mine_drop_self i _⟩
    exact whole.trans ((of_decide_eq_true same).symm.trans (PositionBook.amounts_of_get held).symm)
  unfold PaperExecutor.updateBook
  split
  · rename_i full
    obtain ⟨tokens, bnb⟩ := PaperExecutor.closeSlice_full full
    refine Contract.wp_call (recorded start x i _).stable ?_ now
    intro w inv recorded fresh _ _ keeps out did
    cases did
    obtain ⟨inv', guar, idle⟩ := settles inv recorded keeps fun other => by
      rw [PositionBook.amounts_remove, tokens, bnb]
      rfl
    exact ⟨.quiet inv' guar rfl, idle⟩
  · refine Contract.wp_call (recorded start x i _).stable ?_ now
    intro w inv recorded fresh _ _ keeps out did
    cases did
    obtain ⟨q, held, _⟩ := (Option.any_eq_true _ _).1 keeps
    obtain ⟨inv', guar, idle⟩ := settles inv recorded keeps fun other =>
      PositionBook.amounts_shrink held
    exact ⟨.quiet inv' guar rfl, idle⟩

/-- A close books what it takes out of the book. -/
theorem closeOne_wp (key : PositionKey) (reason : CloseReason) (triggerSellTx : Option B256)
    (fraction : ℚ) {s : PaperWorld} (now : (idle start x i).on s) :
    (contract start x).wp i (x.closeOne key reason triggerSellTx fraction)
      (fun _ s => (idle start x i).on s) s := by
  refine Contract.wp_call_seq (fun held s => (∀ p, held = some p → p.key = key) ∧
    (idle start x i).on s)
    (idle start x i).stable ?_ (fun held s now => ?_) now
  · intro w inv idle fresh _ _ _ out did
    cases did
    exact ⟨.quiet inv (fun _ _ => ⟨rfl, rfl⟩) rfl, fun p held => PositionBook.key_of_get held, idle⟩
  obtain ⟨keyed, now⟩ := now
  cases held with
  | none => exact now
  | some p =>
      obtain rfl := keyed p rfl
      dsimp only
      split
      · exact now
      · refine Contract.wp_seq (fun trade s => trade.slice = ⟨0, p.key,
            (PaperExecutor.closeSlice p fraction).sellTokens,
            (PaperExecutor.closeSlice p fraction).sellBnbIn⟩ ∧ (idle start x i).on s) ?_ ?_
        · exact Contract.wp_ends (PaperExecutor.priceClose_ends p _ reason triggerSellTx)
            (asks_wp (PaperExecutor.priceClose_asks ..) (fun _ _ idle row => ⟨row, idle⟩) now)
        rintro trade s ⟨row, idle_⟩
        obtain ⟨-, sold, tokens, bnb⟩ := Slice.mk.inj row
        refine Contract.wp_seq _ (creditSlice_wp trade idle_) fun _ s paid_ => ?_
        refine Contract.wp_call_seq _ (paid start x i _).stable (appendTrade_triple trade)
          (fun _ s recorded_ => ?_) paid_
        rw [sold, tokens, bnb] at recorded_
        refine Contract.wp_seq _ (updateBook_wp fraction recorded_) fun tokenStillHeld s idle_ => ?_
        refine calm_wp ?_ (fun _ _ idle => idle) idle_
        split
        · exact (all_call.2 trivial).bind fun _ => (all_call.2 trivial).bind fun _ => trivial
        · exact (all_call.2 trivial).bind fun _ => trivial

theorem closeAll_wp (reason : CloseReason) (triggerSellTx : Option B256) (fraction : ℚ)
    (keys : List PositionKey) {s : PaperWorld} (now : (idle start x i).on s) :
    (contract start x).wp i (x.closeAll reason triggerSellTx fraction keys)
      (fun _ s => (idle start x i).on s) s := by
  induction keys generalizing s with
  | nil => exact now
  | cons key rest ih =>
      exact Contract.wp_seq _ (closeOne_wp key reason triggerSellTx fraction now) fun _ _
        idle => ih idle

theorem handleExit_wp (kolName : String) (token : Address) (sellTx : B256) (kolBlock : Nat)
    (kolAddr : Address) {s : PaperWorld} (now : (idle start x i).on s) :
    (contract start x).wp i (x.handleExit kolName token sellTx kolBlock kolAddr)
      (fun _ s => (idle start x i).on s) s := by
  refine Contract.wp_seq (fun _ => (idle start x i).on)
    (calm_wp (all_call.2 (by trivial)) (fun _ _ idle => idle) now) fun keys s now => ?_
  dsimp only
  split
  · exact now
  · refine Contract.wp_seq (fun _ => (idle start x i).on)
      (asks_wp (PaperExecutor.kolSellFraction_asks ..) (fun _ _ idle => idle) now) fun fraction s
        now => ?_
    exact closeAll_wp _ _ _ keys now

theorem sweepTimeouts_wp (holdTimeoutNs : Nat) {s : PaperWorld} (now : (idle start x i).on s) :
    (contract start x).wp i (x.sweepTimeouts holdTimeoutNs)
      (fun _ s => (idle start x i).on s) s := by
  refine Contract.wp_seq (fun _ => (idle start x i).on)
    (asks_wp (PaperExecutor.ask_asks _) (fun _ _ idle => idle) now) fun nowNs s now => ?_
  refine Contract.wp_seq (fun _ => (idle start x i).on)
    (calm_wp (all_call.2 (by trivial)) (fun _ _ idle => idle) now) fun keys s now => ?_
  exact closeAll_wp _ _ _ keys now

theorem bookEntry_wp (fill : Fill) {s : PaperWorld} (now : (idle start x i).on s) :
    (contract start x).wp i (PaperExecutor.bookEntry fill)
      (fun _ s => (idle start x i).on s) s := by
  refine Contract.wp_call_seq (fun _ => (idle start x i).on) (idle start x i).stable ?_
    (fun _ s now => ?_) now
  · intro w inv idle fresh _ nowNs keeps out did
    cases did
    have fits := of_decide_eq_true ((List.all_eq_true.1 keeps) .fastTip (List.mem_singleton_self _))
    exact ⟨.quiet (inv.openIn nowNs fits) (fun _ _ => ⟨rfl, rfl⟩) rfl, idle⟩
  · refine calm_wp ?_ (fun _ _ idle => idle) now
    exact (PaperOp.calm_of_asks (PaperExecutor.ask_asks _)).bind fun _ =>
      (all_call.2 trivial).bind fun _ =>
      (all_call.2 trivial).bind fun _ => trivial

theorem handleEnter_wp (kolName : String) (token : Address) (calldata : List UInt8)
    (bnbAmount : U256) (kolTx : B256) {s : PaperWorld} (now : (idle start x i).on s) :
    (contract start x).wp i (x.handleEnter kolName token calldata bnbAmount kolTx)
      (fun _ s => (idle start x i).on s) s := by
  have asks : ∀ {α β : Type} {p : Paper α} {f : α → Paper β} {s : PaperWorld}, p.All PaperOp.asks →
      (∀ value s, (idle start x i).on s → (contract start x).wp i (f value)
        (fun _ s => (idle start x i).on s) s) → (idle start x i).on s →
      (contract start x).wp i (p >>= f) (fun _ s => (idle start x i).on s) s :=
    fun all rest now => Contract.wp_seq (fun _ => (idle start x i).on)
      (asks_wp all (fun _ _ idle => idle) now) rest
  unfold PaperExecutor.handleEnter
  split
  · exact now
  · split
    · exact now
    · refine Contract.wp_seq (fun _ => (idle start x i).on)
        (calm_wp (PaperExecutor.reserveAmount_calm _ _) (fun _ _ idle => idle) now) fun amount s
          now => ?_
      cases amount with
      | none => exact now
      | some amount =>
          refine asks (PaperExecutor.ask_asks _) (fun info s now => ?_) now
          cases info with
          | none => exact now
          | some info =>
              refine asks (PaperExecutor.rawQuote_asks ..) (fun raw s now => ?_) now
              match raw with
              | .error _ => exact now
              | .ok none => exact now
              | .ok (some raw) =>
                  refine asks (PaperExecutor.entryQuote_asks ..) (fun quote s now => ?_) now
                  refine asks (PaperExecutor.ask_asks _) (fun bnbUsd s now => ?_) now
                  refine asks (PaperExecutor.entryMcaps_asks ..) (fun mcaps s now => ?_) now
                  refine asks (PaperExecutor.ask_asks _) (fun block s now => ?_) now
                  exact Contract.wp_seq _ (bookEntry_wp _ now) fun _ _ idle => idle

/-- Every task keeps the accounts. -/
theorem bodies (t : PaperTask) (s : PaperWorld) (now : (idle start x i).on s) :
    (contract start x).wp i (x.machine.body t) (fun _ s => (idle start x i).on s) s := by
  cases t with
  | consumer decisions =>
      change (contract start x).wp i (x.runConsumer decisions) _ s
      induction decisions generalizing s with
      | nil => exact now
      | cons decided rest ih =>
          obtain ⟨decision, calldata⟩ := decided
          refine Contract.wp_seq (fun _ => (idle start x i).on)
            (asks_wp (PaperExecutor.ask_asks _) (fun _ _ idle => idle) now) fun _ s now => ?_
          refine Contract.wp_seq (fun _ => (idle start x i).on) ?_ fun _ s now => ih s now
          cases decision with
          | skip reason => exact now
          | enter => exact handleEnter_wp _ _ _ _ _ now
          | exit => exact Contract.wp_seq _ (handleExit_wp _ _ _ _ _ now) fun _ _ idle => idle
  | sweeper holdTimeoutNs ticks =>
      change (contract start x).wp i (x.runSweeper holdTimeoutNs ticks) _ s
      induction ticks generalizing s with
      | zero => exact now
      | succ ticks ih => exact Contract.wp_seq _ (sweepTimeouts_wp _ now) fun _ s now => ih s now

/-! ### Every slice under way has an owner -/

/-- The slices of the closes that are under way. -/
def underWay (a : Accounts) : List Slice := a.credited ++ a.settling

theorem exec_owner {o : PaperOp} {a : o.Ans} {w : PaperWorld}
    {out : Outcome PaperWorld PaperTask o.Res} (did : o.exec i a w = some out) :
    ∀ slice ∈ underWay out.shared.accounts, slice ∈ underWay w.accounts ∨ slice.owner = i := by
  intro slice found
  by_cases calm : o.calm
  · rw [(PaperOp.calm_accounts calm did).1] at found
    exact .inl found
  · cases o with
    | openAll =>
        cases did
        exact .inl found
    | remove | shrink =>
        cases did
        refine .inl (List.mem_append.2 ?_)
        exact (List.mem_append.1 found).imp_right fun settling => (List.mem_filter.1 settling).1
    | creditClose key tokens bnbIn bnbOut =>
        cases did
        by_cases known : (w.budgets.lookup key.kolName).isSome = true
        · simp only [underWay, PaperWorld.accounts, if_pos known, List.mem_append,
            List.mem_singleton] at found ⊢
          rcases found with (old | rfl) | old
          · exact .inl (.inl old)
          · exact .inr rfl
          · exact .inl (.inr old)
        · simp only [if_neg known] at found
          exact .inl found
    | appendTrade trade =>
        cases did
        cases a with
        | false => exact .inl found
        | true =>
            simp only [underWay, PaperWorld.accounts, if_true, List.mem_append, List.mem_filter,
              List.mem_singleton] at found ⊢
            rcases found with ⟨old, _⟩ | old | rfl
            · exact .inl (.inl old)
            · exact .inl (.inr old)
            · exact .inr rfl
    | _ => exact absurd trivial calm

theorem owner_lt {C : x.machine.Cond} {s : PaperWorld} (none_ : underWay s.accounts = [])
    {tasks : List PaperTask} {c : PaperConfig} (run : x.machine.Run C (x.machine.start s tasks) c) :
    ∀ slice ∈ underWay c.shared.accounts, slice.owner < c.pool.length := by
  let Owned : PaperConfig → Prop :=
    fun c => ∀ slice ∈ underWay c.shared.accounts, slice.owner < c.pool.length
  have init : Owned (x.machine.start s tasks) := by
    intro slice found
    change slice ∈ underWay s.accounts at found
    rw [none_] at found
    cases found
  refine run.invariant (fun i c c' owned step => ?_) init
  cases step with
  | mk running _ _ did =>
    intro slice found
    have bound := (List.getElem?_eq_some_iff.1 running).1
    rcases exec_owner did slice found with old | own
    · exact (owned slice old).trans_le Machine.advance_length_le
    · exact (own ▸ bound).trans_le Machine.advance_length_le

theorem sound {budgets : KolBudgets} {tasks : List PaperTask} {c : PaperConfig}
    (run : x.machine.Run (fun _ o a w => keepsBook o a w)
      (x.machine.start (boot start budgets) tasks) c) :
    (contract start x).Sound c := by
  refine (contract start x).sound (fun t i s _ pre => bodies t s pre) ⟨fun key => ?_, fun key => ?_⟩
    (fun i t _ => ⟨rfl, rfl⟩) run
  · change start.amounts key + 0 + 0 = 0 + start.amounts key
    rw [add_zero, add_zero, zero_add]
  · exact le_rfl

/-- Once every task has returned, no close is under way. -/
theorem settled_of_quiet {budgets : KolBudgets} {tasks : List PaperTask} {c : PaperConfig}
    (run : x.machine.Run (fun _ o a w => keepsBook o a w)
      (x.machine.start (boot start budgets) tasks) c)
    (quiet : c.Quiet) : c.shared.credited = [] ∧ c.shared.settling = [] := by
  have none_ : underWay c.shared.accounts = [] := by
    refine List.eq_nil_iff_forall_not_mem.2 fun slice found => ?_
    have done := quiet slice.owner (owner_lt rfl run slice found)
    unfold Concurrent.Config.finished at done
    split at done
    · rename_i t v returned
      have idle := (sound run).post_of_ret (idle start x slice.owner).stable returned
      have own : slice ∈ mine slice.owner (underWay c.shared.accounts) :=
        List.mem_filter.2 ⟨found, by simp⟩
      have none_ : mine slice.owner (underWay c.shared.accounts) = [] :=
        (List.filter_append ..).trans (List.append_eq_nil_iff.2 idle)
      rw [none_] at own
      cases own
    · cases done
  exact List.append_eq_nil_iff.1 none_

end PaperBook

/-- In every run of consumers and sweepers whose steps keep the book: at every moment, under every
key, what was there at the start and what was bought is what the ledger's rows closed plus what is
still open, not counting the slices whose row was just written, of which there are none once the
tasks have returned; and no more is credited to a budget than was closed or is about to be. -/
theorem paper_book_conserves {x : PaperExecutor} (book : PositionBook) (budgets : KolBudgets)
    (tasks : List PaperTask) (c : PaperConfig)
    (run : x.machine.Run (fun _ o a w => keepsBook o a w)
      (x.machine.start (PaperBook.boot book budgets) tasks) c) :
    (∀ key, book.amounts key + total c.shared.added key + total c.shared.settling key =
        total (c.shared.closedTrades.map ClosedTrade.slice) key + c.shared.book.amounts key) ∧
      (∀ key, total c.shared.credits key ≤
        total (c.shared.closedTrades.map ClosedTrade.slice) key + total c.shared.credited key) ∧
      (c.Quiet → c.shared.credited = [] ∧ c.shared.settling = []) :=
  ⟨(PaperBook.sound run).inv.conserved, (PaperBook.sound run).inv.within,
    PaperBook.settled_of_quiet run⟩

theorem paper_book_conserves_averaged :
    ∃ c, (paperScenario none).machine.Run (fun _ o a w => keepsBook o a w)
        ((paperScenario none).machine.start (PaperBook.boot .empty ∅)
          [.consumer [paperBuy, paperBuy], .sweeper 0 1]) c ∧
      total (c.shared.closedTrades.map ClosedTrade.slice) paperKey = (2000, 2000) ∧
      PositionBook.empty.amounts paperKey + total c.shared.added paperKey = (2000, 2000) := by
  let r : PaperReplies := { quote := v2Quote 1000, order := [paperKey] }
  obtain ⟨c, run, quiet, closed, none_⟩ : ∃ c,
      (paperScenario none).machine.Run (fun _ o a w => keepsBook o a w)
        ((paperScenario none).machine.start (PaperBook.boot .empty ∅)
          [.consumer [paperBuy, paperBuy], .sweeper 0 1]) c ∧
      c.Quiet ∧ total (c.shared.closedTrades.map ClosedTrade.slice) paperKey = (2000, 2000) ∧
      c.shared.book.amounts paperKey = 0 :=
    Machine.exists_run_of_follow [(0, 22, r.ans), (1, 11, r.ans)] (by decide +kernel)
  obtain ⟨conserved, -, settled⟩ := paper_book_conserves .empty ∅ _ c run
  have here := conserved paperKey
  rw [(settled quiet).2, closed, none_, total_nil, add_zero, add_zero] at here
  exact ⟨c, run, closed, here⟩

/-- The sweeper takes its snapshot, the consumer averages a second BUY in, and the sweeper removes
the position: of the 2000 tokens bought the ledger closes 1000 and none are left. -/
theorem paper_book_loses :
    ∃ c, (paperScenario none).machine.Run (paperScenario none).machine.anyStep
        ((paperScenario none).machine.start (PaperBook.boot .empty ∅)
          [.consumer [paperBuy, paperBuy], .sweeper 0 1]) c ∧
      c.Quiet ∧ total c.shared.added paperKey = (2000, 2000) ∧
      total (c.shared.closedTrades.map ClosedTrade.slice) paperKey = (1000, 1000) ∧
      c.shared.book.amounts paperKey = (0, 0) := by
  let r : PaperReplies := { quote := v2Quote 1000, order := [paperKey] }
  exact Machine.exists_run_of_follow [(0, 11, r.ans), (1, 3, r.ans), (0, 11, r.ans), (1, 8, r.ans)]
    (by decide +kernel)

end BscMempool.Trader
