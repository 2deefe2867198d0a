/-
Module: BscMempool.Proofs.CommittedBudget
Layer: Proofs
Purpose: When the committed part of every KOL's budget is the cost basis of the KOL's open positions
  after each completed call of the paper trader, and an entry that keeps its reservation without a
  position.
Trusted boundary: none
Main exports: committedWei, PositionBook.costBasis, PaperCall, booksReservation, committed_backed,
  committed_leaks
-/
import BscMempool.Concurrent.History
import BscMempool.Concurrent.Sequential
import BscMempool.Proofs.PaperScenario
import BscMempool.Proofs.PaperSlices

namespace BscMempool.Trader

open Concurrent (Tid Machine Contract Outcome)
open Concurrent.Proc

/-! ### Committed and open -/

/-- What is committed of a KOL's budget. -/
def committedWei (budgets : KolBudgets) (kolName : String) : Nat :=
  ((budgets.lookup kolName).map KolBudget.committedWei).getD 0

/-- An amount of one KOL. -/
def only (kolName : String) (amount : Nat) (other : String) : Nat :=
  if other = kolName then amount else 0

@[simp] theorem only_self (kolName : String) (amount : Nat) :
    only kolName amount kolName = amount :=
  if_pos rfl

@[simp] theorem only_zero (kolName other : String) : only kolName 0 other = 0 := by
  simp [only]

/-- The sum of the cost bases of a KOL's open positions. -/
def PositionBook.costBasis (b : PositionBook) (kolName : String) : Nat :=
  (b.byKey.entries.map fun held => if held.1.kolName = kolName then held.2.bnbIn.toNat else 0).sum

/-- The cost basis under one key. -/
def PositionBook.bnbInAt (b : PositionBook) (key : PositionKey) : Nat :=
  ((b.get key).map fun p => p.bnbIn.toNat).getD 0

/-- A sum over an association list is the sum without a key and what is under the key. -/
theorem sum_kerase {K : Type} [DecidableEq K] {V : K → Type} (f : Sigma V → Nat) (key : K)
    (l : List (Sigma V)) :
    (l.map f).sum = ((l.kerase key).map f).sum +
      ((l.dlookup key).map fun v => f ⟨key, v⟩).getD 0 := by
  induction l with
  | nil => rfl
  | cons entry rest ih =>
      by_cases here : key = entry.1
      · subst here
        rw [List.kerase_cons_eq rfl, List.dlookup_cons_eq]
        simp [Nat.add_comm]
      · rw [List.kerase_cons_ne here, List.dlookup_cons_ne _ _ here]
        simp only [List.map_cons, List.sum_cons, ih]
        omega

namespace PositionBook

variable {b : PositionBook} {key : PositionKey} {p : OpenPosition} {kolName : String}

theorem bnbInAt_of_get (held : b.get key = some p) : b.bnbInAt key = p.bnbIn.toNat := by
  simp [bnbInAt, held]

theorem costBasis_remove (b : PositionBook) (key : PositionKey) (kolName : String) :
    (b.remove key).costBasis kolName + only key.kolName (b.bnbInAt key) kolName =
      b.costBasis kolName := by
  have split := sum_kerase
    (fun held : Sigma fun _ : PositionKey => OpenPosition =>
      if held.1.kolName = kolName then held.2.bnbIn.toNat else 0) key b.byKey.entries
  change _ + _ = (b.byKey.entries.map _).sum
  rw [split]
  congr 1
  change only key.kolName (((b.byKey.lookup key).map fun p => p.bnbIn.toNat).getD 0) kolName =
    ((b.byKey.lookup key).map fun p => if key.kolName = kolName then p.bnbIn.toNat else 0).getD 0
  cases b.byKey.lookup key with
  | none => simp
  | some p => simp [only, eq_comm]

theorem costBasis_put :
    (b.put p).costBasis kolName =
      (b.remove p.key).costBasis kolName + only p.kolName p.bnbIn.toNat kolName := by
  change (List.map _ (AList.insert p.key p b.byKey).entries).sum = _
  rw [AList.entries_insert, List.map_cons, List.sum_cons, Nat.add_comm]
  change _ + (if p.kolName = kolName then _ else _) = _
  congr 1
  simp [only, eq_comm]

/-- Changing a position under its key changes the cost basis by the difference. -/
theorem costBasis_modify {f : OpenPosition → OpenPosition} (same : ∀ p, (f p).key = p.key)
    (held : b.get key = some p) :
    (b.modify key f).costBasis kolName + only key.kolName p.bnbIn.toNat kolName =
      b.costBasis kolName + only key.kolName (f p).bnbIn.toNat kolName := by
  have whole := costBasis_remove b key kolName
  have own : (f p).key = key := (same p).trans (key_of_get held)
  have kol : (f p).kolName = key.kolName := congrArg PositionKey.kolName own
  rw [bnbInAt_of_get held] at whole
  rw [modify, held]
  dsimp only
  rw [costBasis_put, own, kol, ← whole]
  omega

/-- A buy that does not saturate adds its cost. -/
theorem costBasis_openOrAdd {mode : PortfolioMode} {token : Address} {symbol : String}
    {decimals block nowNs : Nat} {bnbIn tokensIn : U256} {tx : B256}
    (fits : b.bnbInAt ⟨mode, kolName, token⟩ + bnbIn.toNat < 2 ^ 256) (other : String) :
    (b.openOrAdd mode kolName token symbol decimals bnbIn tokensIn block tx nowNs).costBasis other =
      b.costBasis other + only kolName bnbIn.toNat other := by
  have whole := costBasis_remove b ⟨mode, kolName, token⟩ other
  unfold openOrAdd
  cases held : b.get ⟨mode, kolName, token⟩ with
  | none =>
      have none_ : b.bnbInAt ⟨mode, kolName, token⟩ = 0 := by simp [bnbInAt, held]
      rw [none_, only_zero, Nat.add_zero] at whole
      dsimp only
      rw [costBasis_put, ← whole]
      rfl
  | some p =>
      have own : p.key = ⟨mode, kolName, token⟩ := key_of_get held
      have kol : p.kolName = kolName := congrArg PositionKey.kolName own
      rw [bnbInAt_of_get held] at whole fits
      dsimp only
      rw [costBasis_put]
      change (b.remove p.key).costBasis other +
          only p.kolName (saturatingAddU256 p.bnbIn bnbIn).toNat other = _
      rw [own, kol, saturatingAddU256_toNat fits, ← whole]
      unfold only
      split <;> omega

theorem costBasis_setEntryMcaps {dMcap ourMcap : ℚ} :
    (b.setEntryMcaps key dMcap ourMcap).costBasis kolName = b.costBasis kolName := by
  unfold setEntryMcaps
  cases held : b.get key with
  | none => rw [modify, held]
  | some p =>
      refine Nat.add_right_cancel (m := only key.kolName p.bnbIn.toNat kolName) ?_
      exact costBasis_modify (fun _ => rfl) held

/-- What is under one key is a part of its KOL's cost basis. -/
theorem bnbInAt_le_costBasis (b : PositionBook) (key : PositionKey) :
    b.bnbInAt key ≤ b.costBasis key.kolName := by
  rw [← costBasis_remove b key, only_self]
  exact Nat.le_add_left _ _

end PositionBook

/-! ### What the budget operations commit -/

theorem committedWei_insert {budgets : KolBudgets} {kolName other : String} {entry : KolBudget} :
    committedWei (budgets.insert kolName entry) other =
      if other = kolName then entry.committedWei else committedWei budgets other := by
  unfold committedWei
  split
  · rename_i same
    rw [same, AList.lookup_insert]
    rfl
  · rename_i ne
    rw [AList.lookup_insert_ne ne]

/-- The amount that an entry reserves. -/
def reserved (amount : Option U256) : Nat := (amount.map BitVec.toNat).getD 0

/-- A reservation that does not saturate is committed. -/
theorem committedWei_tryReserve {limits : KolBudgetBook} {budgets : KolBudgets} {kolName : String}
    {nowNs : Nat}
    (fits : committedWei budgets kolName + reserved (limits.tryReserve budgets kolName nowNs).1 ≤
      U128_MAX)
    (other : String) :
    committedWei (limits.tryReserve budgets kolName nowNs).2 other = committedWei budgets other +
      only kolName (reserved (limits.tryReserve budgets kolName nowNs).1) other := by
  have now_ : ((budgets.lookup kolName).getD (.new limits.initialWei)).committedWei =
      committedWei budgets kolName := by
    unfold committedWei
    cases budgets.lookup kolName <;> rfl
  unfold KolBudgetBook.tryReserve at fits ⊢
  dsimp only at fits ⊢
  generalize (budgets.lookup kolName).getD (.new limits.initialWei) = entry at now_ fits ⊢
  split
  · simp only [committedWei_insert, reserved, only]
    split
    · rename_i same
      rw [same]
      simpa using now_
    · rfl
  · rename_i above
    rw [if_neg above] at fits
    generalize wanted : min (limits.positionPctBps * entry.cashWei) U128_MAX / 10000 = want
      at fits ⊢
    have small : want < 2 ^ 256 := by
      have le : want ≤ U128_MAX := wanted ▸ (Nat.div_le_self _ _).trans (Nat.min_le_right _ _)
      exact le.trans_lt (by decide)
    have amount : reserved (some (BitVec.ofNat 256 want)) = want := by
      simpa [reserved] using Nat.mod_eq_of_lt small
    rw [amount] at fits
    simp only [committedWei_insert, amount, only, now_, Nat.min_eq_left fits]
    split
    · rename_i same
      rw [same]
    · rfl

/-- A credit takes what it is for out of the committed part. -/
theorem committedWei_creditClose (budgets : KolBudgets) (kolName : String) (bnbIn bnbOut : U256)
    (nowNs : Nat) (other : String) :
    committedWei (KolBudgetBook.creditClose budgets kolName bnbIn bnbOut nowNs) other =
      committedWei budgets other - only kolName (u128OfU256 bnbIn) other := by
  unfold KolBudgetBook.creditClose
  cases known : budgets.lookup kolName with
  | none =>
      by_cases same : other = kolName
      · subst same
        simp [committedWei, known]
      · simp [only, same]
  | some entry =>
      simp only [committedWei_insert, only]
      split
      · rename_i same
        subst same
        simp [committedWei, known]
      · rfl

/-! ### Calls and their history -/

/-- The calls that the consumer and the sweeper make. -/
inductive PaperCall where
  | enter (kolName : String) (token : Address) (calldata : List UInt8) (bnbAmount : U256)
    (kolTx : B256)
  | exit (kolName : String) (token : Address) (sellTx : B256) (kolBlock : Nat) (kolAddr : Address)
  | sweep (holdTimeoutNs : Nat)
deriving DecidableEq, Repr

namespace PaperExecutor

variable (x : PaperExecutor)

def call : PaperCall → Paper Unit
  | .enter kolName token calldata bnbAmount kolTx => do
      let _ ← x.handleEnter kolName token calldata bnbAmount kolTx
      return ()
  | .exit kolName token sellTx kolBlock kolAddr =>
      x.handleExit kolName token sellTx kolBlock kolAddr
  | .sweep holdTimeoutNs => x.sweepTimeouts holdTimeoutNs

/-- The state of the paper trader and what was done so far. -/
abbrev Recorded := PaperWorld × List x.machine.Event

variable {x}

/-- What the latest reservation granted. -/
def granted : List x.machine.Event → Option U256
  | [] => none
  | ⟨_, .tryReserve .., _, amount⟩ :: _ => amount
  | _ :: older => granted older

/-- The latest operation asked for a pool quote of a BUY. -/
def simulated : List x.machine.Event → Bool
  | ⟨_, .ask (.simulateBuy ..), _, _⟩ :: _ => true
  | _ => false

end PaperExecutor

/-- The steps that keep every reservation backed: it does not overflow the committed part, and,
if it is for more than nothing, the token's metadata is found and the BUY gets a quote: the
simulation does not fail, and where it finds no pool the KOL's own price, which is asked for
next, is positive. -/
def booksReservation {x : PaperExecutor} (o : PaperOp) (a : o.Ans) (s : x.Recorded) : Bool :=
  match o, a with
  | .tryReserve limits kolName, nowNs => decide (committedWei s.1.budgets kolName +
      reserved (limits.tryReserve s.1.budgets kolName nowNs).1 ≤ U128_MAX)
  | .ask (.lookup _), info => decide (reserved (PaperExecutor.granted s.2) = 0) || info.isSome
  | .ask (.simulateBuy ..), quoted =>
      decide (reserved (PaperExecutor.granted s.2) = 0) || quoted.toOption.isSome
  | .ask (.kolExecPrice ..), price =>
      !PaperExecutor.simulated s.2 || decide (reserved (PaperExecutor.granted s.2) = 0) ||
        price.any fun p => decide (0 < p)
  | _, _ => true

instance {x : PaperExecutor} (o : PaperOp) (a : x.machine.recording.Ans o) (s : x.Recorded) :
    Decidable (booksReservation o a s = true) := decEq (booksReservation o a s) true

namespace CommittedBudget

variable {x : PaperExecutor}

/-- The contract of a lone call whose steps keep reservations backed. -/
abbrev contract (x : PaperExecutor) : Contract x.machine.recording :=
  .lone (fun _ o a s => booksReservation o a s) 0

/-- What is committed is open, but for what is `owed` to the book and what was
`paid` back already. -/
structure Backed (owed paid : String → Nat) (book : PositionBook) (budgets : KolBudgets) :
    Prop where
  matched : ∀ kolName, committedWei budgets kolName + paid kolName =
    book.costBasis kolName + owed kolName
  bounded : ∀ kolName, committedWei budgets kolName ≤ U128_MAX

/-- No KOL has anything under way. -/
def nothing : String → Nat := fun _ => 0

/-- The operations that leave book and budgets alone. -/
def fixed : PaperOp → Prop
  | .openAll _ | .remove .. | .shrink .. | .tryReserve .. | .creditClose .. => False
  | _ => True

theorem fixed_of_asks {α : Type} {p : Paper α} (all : p.All PaperOp.asks) : p.All fixed := by
  refine all.mono fun o asks => ?_
  cases o <;> trivial

theorem fixed_saveBudgets : PaperExecutor.saveBudgets.All fixed :=
  PaperExecutor.saveBudgets_all trivial (fun _ => trivial) trivial

theorem fixed_exec {o : PaperOp} (kind : fixed o) {i : Tid} {a : o.Ans} {w : PaperWorld}
    {out : Outcome PaperWorld PaperTask o.Res} (did : o.exec i a w = some out) :
    out.shared.book = w.book ∧ out.shared.budgets = w.budgets := by
  have frame := (PaperOp.exec_frame did).1
  constructor
  · apply frame.book
    cases o <;> first | exact kind.elim | exact id
  · apply frame.budgets
    cases o <;> first | exact kind.elim | exact id

theorem fixed_granted {o : PaperOp} (kind : fixed o) {i : Tid} {a : o.Ans} {res : o.Res}
    {past : List x.machine.Event} :
    PaperExecutor.granted (⟨i, o, a, res⟩ :: past) = PaperExecutor.granted past := by
  cases o with
  | tryReserve => exact kind.elim
  | _ => rfl

/-- An assertion about the book, the budgets and the latest reservation. -/
def about (P : PositionBook → KolBudgets → Option U256 → Prop) (s : x.Recorded) : Prop :=
  P s.1.book s.1.budgets (PaperExecutor.granted s.2)

theorem fixed_keeps {P : PositionBook → KolBudgets → Option U256 → Prop} {o : PaperOp}
    (kind : fixed o) {i fresh : Tid} {a : o.Ans} {s : x.Recorded} (now : about P s)
    {out : Outcome x.Recorded PaperTask o.Res}
    (did : x.machine.recording.exec i fresh o a s = some out) :
    about P out.shared := by
  obtain ⟨ran, past⟩ := Machine.exec_of_recording did
  obtain ⟨book, budgets⟩ : out.shared.1.book = s.1.book ∧ out.shared.1.budgets = s.1.budgets :=
    fixed_exec kind ran
  have same : PaperExecutor.granted out.shared.2 = PaperExecutor.granted s.2 := by
    rw [past]
    exact fixed_granted kind
  unfold about
  rw [same, book, budgets]
  exact now

/-- Operations of this kind keep every such assertion. -/
theorem fixed_wp {P : PositionBook → KolBudgets → Option U256 → Prop} {α : Type} {p : Paper α}
    (all : p.All fixed) {Q : α → x.Recorded → Prop} (done : ∀ value s, about P s → Q value s)
    {s : x.Recorded} (now : about P s) : (contract x).wp 0 p Q s :=
  Contract.lone_of_all (A := fixed) (P := about P)
    (fun _ kind _ now _ _ _ _ did => fixed_keeps kind now did) all done now

/-! ### Entries -/

/-- Every reservation is backed. -/
abbrev settled (s : x.Recorded) : Prop :=
  about (fun book budgets _ => Backed nothing nothing book budgets) s

/-- All but the latest reservation are backed. -/
abbrev owes (kolName : String) (amount : U256) (s : x.Recorded) : Prop :=
  about (fun book budgets latest =>
    Backed (only kolName amount.toNat) nothing book budgets ∧ latest = some amount) s

/-- A reservation of nothing needs no backing. -/
theorem settled_of_owes {kolName : String} {amount : U256} {s : x.Recorded}
    (now : owes kolName amount s) (zero : amount.toNat = 0) : settled s := by
  obtain ⟨⟨matched, bounded⟩, -⟩ := now
  constructor
  · intro other
    simpa [nothing, zero] using matched other
  · exact bounded

/-- A reservation for a KOL, if it was granted. -/
def entered (kolName : String) : Option U256 → x.Recorded → Prop
  | none, s => settled s
  | some amount, s => owes kolName amount s

theorem tryReserve_exec {limits : KolBudgetBook} {kolName : String} {i fresh : Tid} {nowNs : Nat}
    {s : x.Recorded} {out : Outcome x.Recorded PaperTask (Option U256)}
    (did : x.machine.recording.exec i fresh (.tryReserve limits kolName) nowNs s = some out) :
    out.res = (limits.tryReserve s.1.budgets kolName nowNs).1 ∧ out.shared.1.book = s.1.book ∧
      out.shared.1.budgets = (limits.tryReserve s.1.budgets kolName nowNs).2 ∧
      PaperExecutor.granted out.shared.2 = out.res := by
  cases did
  exact ⟨rfl, rfl, rfl, rfl⟩

theorem reserveAmount_wp {limits : KolBudgetBook} (budgeted : x.kolBudgets = some limits)
    (kolName : String) (bnbAmount : U256) {s : x.Recorded} (now : settled s) :
    (contract x).wp 0 (x.reserveAmount kolName bnbAmount) (entered kolName) s := by
  unfold PaperExecutor.reserveAmount
  rw [budgeted]
  refine Contract.lone_call (P := settled) (entered kolName) ?_ ?_ now
  · intro s now fresh nowNs meets out did
    obtain ⟨matched, bounded⟩ := now
    have fits := of_decide_eq_true meets
    have commits := committedWei_tryReserve fits
    obtain ⟨res, book, budgets, latest⟩ := tryReserve_exec did
    rw [← res, ← budgets] at commits
    rw [← res] at fits
    -- the committed part grew by what was granted
    have grown : Backed (only kolName (reserved out.res)) nothing out.shared.1.book
        out.shared.1.budgets := by
      constructor
      · intro other
        rw [commits other, book]
        have before := matched other
        simp only [nothing] at before ⊢
        omega
      · intro other
        rw [commits other]
        unfold only
        split
        · rename_i same
          rw [same]
          exact fits
        · exact bounded other
    cases amount : out.res with
    | none =>
        rw [amount] at grown
        constructor
        · intro other
          simpa [nothing, reserved] using grown.matched other
        · exact grown.bounded
    | some amount_ =>
        rw [amount] at grown latest
        exact ⟨grown, latest⟩
  · intro amount s now
    cases amount with
    | none => exact now
    | some amount =>
        refine Contract.wp_seq (fun _ => owes kolName amount) ?_ fun _ _ owes => owes
        exact fixed_wp fixed_saveBudgets (fun _ _ owes => owes) now

/-- An entry for more than nothing gets a quote. -/
theorem rawQuote_wp {kolName : String} {amount : U256} (token : Address) (decimals : Nat)
    (kolTx : B256) {s : x.Recorded} (now : owes kolName amount s) :
    (contract x).wp 0 (PaperExecutor.rawQuote amount token decimals kolTx) (fun raw s =>
      owes kolName amount s ∧ (amount.toNat = 0 ∨ ∃ quote, raw = .ok (some quote))) s := by
  refine Contract.lone_call (P := owes kolName amount) (fun quoted s => owes kolName amount s ∧
    PaperExecutor.simulated s.2 = true ∧ (amount.toNat = 0 ∨ quoted.toOption.isSome = true))
      ?_ ?_ now
  · intro s now fresh quoted meets out did
    have after : owes kolName amount out.shared := fixed_keeps (o := .ask _) trivial now did
    have priced := Bool.or_eq_true_iff.1 meets
    rw [show PaperExecutor.granted s.2 = some amount from now.2] at priced
    cases did
    exact ⟨after, rfl, priced.imp_left of_decide_eq_true⟩
  · rintro quoted s ⟨now, simulated, priced⟩
    match quoted with
    | .error _ => exact ⟨now, .inl (priced.resolve_right (by simp [Except.toOption]))⟩
    | .ok (some quote) => exact ⟨now, .inr ⟨quote.toQuoteResult, rfl⟩⟩
    | .ok none =>
        refine Contract.lone_call
          (P := fun s => owes kolName amount s ∧ PaperExecutor.simulated s.2 = true)
          (fun price s => owes kolName amount s ∧
            (amount.toNat = 0 ∨ (price.any fun p => decide (0 < p)) = true)) ?_ ?_ ⟨now, simulated⟩
        · rintro s ⟨now, simulated⟩ fresh price meets out did
          have after : owes kolName amount out.shared := fixed_keeps (o := .ask _) trivial now did
          have priced : (decide (reserved (PaperExecutor.granted s.2) = 0) ||
              price.any fun p => decide (0 < p)) = true := by
            simpa [booksReservation, simulated] using meets
          rw [show PaperExecutor.granted s.2 = some amount from now.2] at priced
          cases did
          exact ⟨after, (Bool.or_eq_true_iff.1 priced).imp_left of_decide_eq_true⟩
        · rintro price s ⟨now, priced⟩
          cases price with
          | none => exact ⟨now, .inl (priced.resolve_right (by simp))⟩
          | some price =>
              dsimp only
              split
              · exact ⟨now, .inr ⟨_, rfl⟩⟩
              · rename_i low
                refine ⟨now, .inl (priced.resolve_right ?_)⟩
                simpa using low

theorem openAll_exec {fill : Fill} {i fresh : Tid} {nowNs : Nat} {s : x.Recorded}
    {out : Outcome x.Recorded PaperTask Unit}
    (did : x.machine.recording.exec i fresh (.openAll fill) nowNs s = some out) :
    out.shared.1.book =
      (s.1.book.openOrAdd .fastTip fill.kolName fill.token fill.symbol fill.decimals
        fill.bnbIn fill.tokensIn fill.block fill.tx nowNs).setEntryMcaps
        ⟨.fastTip, fill.kolName, fill.token⟩ fill.dMcapUsd fill.ourMcapUsd ∧
      out.shared.1.budgets = s.1.budgets := by
  cases did
  exact ⟨rfl, rfl⟩

/-- Booking an entry backs its reservation. -/
theorem bookEntry_wp {fill : Fill} {s : x.Recorded} (now : owes fill.kolName fill.bnbIn s) :
    (contract x).wp 0 (PaperExecutor.bookEntry fill) (fun _ => settled) s := by
  refine Contract.lone_call (P := owes fill.kolName fill.bnbIn) (fun _ => settled) ?_ ?_ now
  · intro s now fresh (nowNs : Nat) _ out did
    obtain ⟨⟨matched, bounded⟩, -⟩ := now
    have fits : s.1.book.bnbInAt ⟨.fastTip, fill.kolName, fill.token⟩ + fill.bnbIn.toNat <
        2 ^ 256 := by
      have part := s.1.book.bnbInAt_le_costBasis ⟨.fastTip, fill.kolName, fill.token⟩
      have whole := matched fill.kolName
      have most := bounded fill.kolName
      rw [only_self] at whole
      simp only [nothing, U128_MAX] at whole most part
      omega
    obtain ⟨book, budgets⟩ := openAll_exec did
    unfold settled about
    rw [book, budgets]
    constructor
    · intro other
      rw [PositionBook.costBasis_setEntryMcaps, PositionBook.costBasis_openOrAdd fits]
      exact matched other
    · exact bounded
  · intro _ s now
    refine fixed_wp ?_ (fun _ _ settled => settled) now
    exact (fixed_of_asks (PaperExecutor.ask_asks _)).bind fun _ =>
      (all_call.2 trivial).bind fun _ =>
      (all_call.2 trivial).bind fun _ => trivial

/-- Whatever an entry comes to, its reservation is backed or was for nothing. -/
theorem priceEntry_wp {kolName : String} {amount : U256} (token : Address) (kolTx : B256)
    {s : x.Recorded} (now : owes kolName amount s) :
    (contract x).wp 0 (x.priceEntry kolName token amount kolTx) (fun _ => settled) s := by
  have asks : ∀ {α β : Type} {p : Paper α} {f : α → Paper β} {s : x.Recorded}, p.All PaperOp.asks →
      (∀ value s, owes kolName amount s → (contract x).wp 0 (f value) (fun _ => settled) s) →
      owes kolName amount s → (contract x).wp 0 (p >>= f) (fun _ => settled) s := by
    intro α β p f s all rest now
    refine Contract.wp_seq (fun _ => owes kolName amount) ?_ rest
    exact fixed_wp (fixed_of_asks all) (fun _ _ owes => owes) now
  refine Contract.lone_call (P := owes kolName amount)
    (fun info s => owes kolName amount s ∧ (amount.toNat = 0 ∨ info.isSome = true)) ?_ ?_ now
  · intro s now fresh info meets out did
    have after : owes kolName amount out.shared := fixed_keeps (o := .ask _) trivial now did
    have found := Bool.or_eq_true_iff.1 meets
    rw [show PaperExecutor.granted s.2 = some amount from now.2] at found
    cases did
    exact ⟨after, found.imp_left of_decide_eq_true⟩
  · rintro info s ⟨now, found⟩
    cases info with
    | none => exact settled_of_owes now (found.resolve_right (by simp))
    | some info =>
        refine Contract.wp_seq _ (rawQuote_wp token info.decimals kolTx now) ?_
        rintro raw s ⟨now, priced⟩
        match raw with
        | .error _ => exact settled_of_owes now (priced.resolve_right (by simp))
        | .ok none => exact settled_of_owes now (priced.resolve_right (by simp))
        | .ok (some raw) =>
            refine asks (PaperExecutor.entryQuote_asks ..) (fun quote s now => ?_) now
            refine asks (PaperExecutor.ask_asks _) (fun bnbUsd s now => ?_) now
            refine asks (PaperExecutor.entryMcaps_asks ..) (fun mcaps s now => ?_) now
            refine asks (PaperExecutor.ask_asks _) (fun block s now => ?_) now
            exact Contract.wp_seq _ (bookEntry_wp now) fun _ _ settled => settled

theorem handleEnter_wp {limits : KolBudgetBook} (budgeted : x.kolBudgets = some limits)
    (kolName : String) (token : Address) (calldata : List UInt8) (bnbAmount : U256) (kolTx : B256)
    {s : x.Recorded} (now : settled s) :
    (contract x).wp 0 (x.handleEnter kolName token calldata bnbAmount kolTx)
      (fun _ => settled) s := by
  unfold PaperExecutor.handleEnter
  split
  · exact now
  · split
    · exact now
    · refine Contract.wp_seq _ (reserveAmount_wp budgeted kolName bnbAmount now) ?_
      intro amount s now
      cases amount with
      | none => exact now
      | some amount => exact priceEntry_wp _ kolTx now

/-! ### Closes -/

/-- All is backed and the position is in the book. -/
abbrev sized (key : PositionKey) (p : OpenPosition) (s : x.Recorded) : Prop :=
  about (fun book budgets _ => Backed nothing nothing book budgets ∧ book.get key = some p) s

/-- The slice of the position was credited and is still in the book. -/
abbrev credited (key : PositionKey) (p : OpenPosition) (slice : U256) (s : x.Recorded) : Prop :=
  about (fun book budgets _ => Backed nothing (only key.kolName slice.toNat) book budgets ∧
    book.get key = some p) s

/-- What a credit is for leaves the committed part. -/
theorem creditSlice_wp {limits : KolBudgetBook} (budgeted : x.kolBudgets = some limits)
    {key : PositionKey} {p : OpenPosition} {trade : ClosedTrade} (row : trade.key = key)
    (part : trade.bnbInWei.toNat ≤ p.bnbIn.toNat) {s : x.Recorded} (now : sized key p s) :
    (contract x).wp 0 (x.creditSlice trade) (fun _ => credited key p trade.bnbInWei) s := by
  unfold PaperExecutor.creditSlice
  rw [budgeted]
  refine Contract.lone_call (P := sized key p) (fun _ => credited key p trade.bnbInWei) ?_ ?_ now
  · rintro s ⟨⟨matched, bounded⟩, held⟩ fresh nowNs _ out did
    have credits :=
      committedWei_creditClose s.1.budgets trade.key.kolName trade.bnbInWei trade.bnbOutWei
      nowNs
    -- the slice is a part of what the KOL has committed, so no subtraction saturates
    have within : trade.bnbInWei.toNat ≤ committedWei s.1.budgets key.kolName := by
      have under := s.1.book.bnbInAt_le_costBasis key
      rw [PositionBook.bnbInAt_of_get held] at under
      have whole := matched key.kolName
      simp only [nothing, Nat.add_zero] at whole
      omega
    have fits : u128OfU256 trade.bnbInWei = trade.bnbInWei.toNat :=
      Nat.min_eq_left (within.trans (bounded _))
    rw [row, fits] at credits
    cases did
    refine ⟨⟨?_, ?_⟩, held⟩
    · intro other
      change committedWei (KolBudgetBook.creditClose s.1.budgets trade.key.kolName _ _ nowNs)
          other + _ = _
      rw [row, credits other]
      have before := matched other
      simp only [nothing, only] at before ⊢
      split
      · rename_i same
        rw [same] at before ⊢
        omega
      · omega
    · intro other
      change committedWei (KolBudgetBook.creditClose s.1.budgets trade.key.kolName _ _ nowNs)
          other ≤ _
      rw [row, credits other]
      exact (Nat.sub_le _ _).trans (bounded other)
  · intro _ s now
    exact fixed_wp fixed_saveBudgets (fun _ _ credited => credited) now

theorem remove_exec {key : PositionKey} {p : OpenPosition} {i fresh : Tid} {s : x.Recorded}
    {out : Outcome x.Recorded PaperTask Bool}
    (did : x.machine.recording.exec i fresh (.remove key p) () s = some out) :
    out.shared.1.book = s.1.book.remove key ∧ out.shared.1.budgets = s.1.budgets := by
  cases did
  exact ⟨rfl, rfl⟩

theorem shrink_exec {key : PositionKey} {tokens bnb : U256} {p : OpenPosition} {i fresh : Tid}
    {s : x.Recorded} {out : Outcome x.Recorded PaperTask Bool}
    (did : x.machine.recording.exec i fresh (.shrink key tokens bnb p) () s = some out) :
    out.shared.1.book = s.1.book.shrink key tokens bnb ∧ out.shared.1.budgets = s.1.budgets := by
  cases did
  exact ⟨rfl, rfl⟩

theorem sellBnbIn_add (p : OpenPosition) (fraction : ℚ) :
    (PaperExecutor.closeSlice p fraction).remainingBnbIn.toNat +
      (PaperExecutor.closeSlice p fraction).sellBnbIn.toNat = p.bnbIn.toNat :=
  congrArg Prod.snd (PaperExecutor.closeSlice_amounts p fraction)

/-- The update of the book takes the credited slice out of it. -/
theorem updateBook_wp {key : PositionKey} {p : OpenPosition} (fraction : ℚ) {s : x.Recorded}
    (now : credited key p (PaperExecutor.closeSlice p fraction).sellBnbIn s) :
    (contract x).wp 0 (PaperExecutor.updateBook key p (PaperExecutor.closeSlice p fraction))
      (fun _ => settled) s := by
  have whole := sellBnbIn_add p fraction
  -- a book that has the rest of the position left backs what is left of the committed part
  have settles : ∀ {s : x.Recorded} {book : PositionBook},
      credited key p (PaperExecutor.closeSlice p fraction).sellBnbIn s →
      (∀ other, book.costBasis other + only key.kolName p.bnbIn.toNat other =
        s.1.book.costBasis other +
        only key.kolName (PaperExecutor.closeSlice p fraction).remainingBnbIn.toNat other) →
      Backed nothing nothing book s.1.budgets := by
    rintro s book ⟨⟨matched, bounded⟩, -⟩ left
    constructor
    · intro other
      have before := matched other
      have after := left other
      simp only [nothing, only] at before after ⊢
      by_cases same : other = key.kolName
      · simp only [if_pos same] at before after
        omega
      · simp only [if_neg same] at before after
        omega
    · exact bounded
  unfold PaperExecutor.updateBook
  split
  · rename_i full
    refine Contract.wp_call Contract.lone_stable
      (Contract.lone_triple (P := credited key p _) ?_) now
    intro s now fresh _ _ out did
    obtain ⟨book, budgets⟩ := remove_exec did
    unfold settled about
    rw [book, budgets]
    refine settles now fun other => ?_
    have removed := PositionBook.costBasis_remove s.1.book key other
    rw [PositionBook.bnbInAt_of_get now.2] at removed
    rw [removed, (PaperExecutor.closeSlice_full full).2]
    simp
  · refine Contract.wp_call Contract.lone_stable
      (Contract.lone_triple (P := credited key p _) ?_) now
    intro s now fresh _ _ out did
    obtain ⟨book, budgets⟩ := shrink_exec did
    unfold settled about
    rw [book, budgets]
    exact settles now fun other => PositionBook.costBasis_modify (fun _ => rfl) now.2

theorem closeOne_wp {limits : KolBudgetBook} (budgeted : x.kolBudgets = some limits)
    (key : PositionKey) (reason : CloseReason) (triggerSellTx : Option B256) (fraction : ℚ)
    {s : x.Recorded} (now : settled s) :
    (contract x).wp 0 (x.closeOne key reason triggerSellTx fraction) (fun _ => settled) s := by
  refine Contract.lone_call (P := settled) (fun held s => settled s ∧
    (∀ p, held = some p → p.key = key ∧ s.1.book.get key = some p)) ?_ ?_ now
  · intro s now fresh _ _ out did
    cases did
    exact ⟨now, fun p held => ⟨PositionBook.key_of_get held, held⟩⟩
  · rintro held s ⟨now, found⟩
    cases held with
    | none => exact now
    | some p =>
        obtain ⟨rfl, held⟩ := found p rfl
        dsimp only
        split
        · exact now
        · refine Contract.wp_seq (fun trade s => trade.slice = ⟨0, p.key,
              (PaperExecutor.closeSlice p fraction).sellTokens,
              (PaperExecutor.closeSlice p fraction).sellBnbIn⟩ ∧ sized p.key p s) ?_ ?_
          · apply Contract.wp_ends (PaperExecutor.priceClose_ends p _ reason triggerSellTx)
            have now : sized p.key p s := ⟨now, held⟩
            exact fixed_wp (fixed_of_asks (PaperExecutor.priceClose_asks ..))
              (fun _ _ sized_ row => ⟨row, sized_⟩) now
          · rintro trade s ⟨row, now⟩
            obtain ⟨-, key, -, bnb⟩ := Slice.mk.inj row
            have part : trade.bnbInWei.toNat ≤ p.bnbIn.toNat := by
              rw [bnb, ← sellBnbIn_add p fraction]
              exact Nat.le_add_left _ _
            refine Contract.wp_seq _ (creditSlice_wp budgeted key part now) fun _ s now => ?_
            rw [bnb] at now
            refine Contract.wp_seq (fun _ => credited p.key p _)
              (fixed_wp (all_call.2 (show fixed (.appendTrade trade) from trivial))
                (fun _ _ credited_ => credited_) now) fun _ s now => ?_
            refine Contract.wp_seq _ (updateBook_wp fraction now) fun tokenStillHeld s now => ?_
            refine fixed_wp ?_ (fun _ _ settled_ => settled_) now
            split
            · exact (all_call.2 trivial).bind fun _ => (all_call.2 trivial).bind fun _ => trivial
            · exact (all_call.2 trivial).bind fun _ => trivial

theorem closeAll_wp {limits : KolBudgetBook} (budgeted : x.kolBudgets = some limits)
    (reason : CloseReason) (triggerSellTx : Option B256) (fraction : ℚ) (keys : List PositionKey)
    {s : x.Recorded} (now : settled s) :
    (contract x).wp 0 (x.closeAll reason triggerSellTx fraction keys) (fun _ => settled) s := by
  induction keys generalizing s with
  | nil => exact now
  | cons key rest ih =>
      apply Contract.wp_seq _ (closeOne_wp budgeted key reason triggerSellTx fraction now)
      exact fun _ _ settled_ => ih settled_

/-- Every call keeps every reservation backed. -/
theorem call_wp {limits : KolBudgetBook} (budgeted : x.kolBudgets = some limits) (k : PaperCall)
    {s : x.Recorded} (now : settled s) : (contract x).wp 0 (x.call k) (fun _ => settled) s := by
  have fixed_ : ∀ {α β : Type} {p : Paper α} {f : α → Paper β} {s : x.Recorded}, p.All fixed →
      (∀ value s, settled s → (contract x).wp 0 (f value) (fun _ => settled) s) → settled s →
      (contract x).wp 0 (p >>= f) (fun _ => settled) s := by
    intro α β p f s all rest now
    refine Contract.wp_seq (fun _ => settled) ?_ rest
    exact fixed_wp all (fun _ _ settled_ => settled_) now
  cases k with
  | enter kolName token calldata bnbAmount kolTx =>
      apply Contract.wp_seq _ (handleEnter_wp budgeted kolName token calldata bnbAmount kolTx now)
      exact fun _ _ settled_ => settled_
  | exit kolName token sellTx kolBlock kolAddr =>
      refine fixed_ (all_call.2 (by trivial)) (fun keys s now => ?_) now
      dsimp only
      split
      · exact now
      · refine fixed_ (fixed_of_asks (PaperExecutor.kolSellFraction_asks ..))
          (fun fraction s now => ?_) now
        exact closeAll_wp budgeted _ _ _ keys now
  | sweep holdTimeoutNs =>
      refine fixed_ (fixed_of_asks (PaperExecutor.ask_asks _)) (fun nowNs s now => ?_) now
      refine fixed_ (all_call.2 (by trivial)) (fun keys s now => ?_) now
      exact closeAll_wp budgeted _ _ _ keys now

end CommittedBudget

/-- With budgets on and every reservation backed at the start, in every serial run of calls whose
steps keep reservations backed, what is committed of every KOL's budget is the cost basis of the
KOL's open positions after each completed call. -/
theorem committed_backed {x : PaperExecutor} {limits : KolBudgetBook}
    (budgeted : x.kolBudgets = some limits) (start : PaperWorld)
    (matched : ∀ kolName, committedWei start.budgets kolName = start.book.costBasis kolName)
    (bounded : ∀ kolName, committedWei start.budgets kolName ≤ U128_MAX) (s : x.Recorded)
    (serial : x.machine.recording.Serial (fun _ o a s => booksReservation o a s) 0 x.call
      (start, []) s) :
    ∀ kolName, committedWei s.1.budgets kolName = s.1.book.costBasis kolName := by
  have settled_ : CommittedBudget.settled s := by
    refine serial.invariant (I := CommittedBudget.settled) ?_ ⟨matched, bounded⟩
    intro k s value s' now completes
    exact (Contract.completes_of_wp (CommittedBudget.call_wp budgeted k now) trivial completes).2
  exact settled_.matched

/-- Budgets of a tenth of a million wei for each entry. -/
def budgetScenario : PaperExecutor := paperScenario (some ⟨1000000, 1000, 1⟩)

/-- An entry of the KOL "D". -/
def enterCall : PaperCall := .enter "D" 0x4444#160 [] 1000 1

theorem committed_backed_entered :
    ∃ s, budgetScenario.machine.recording.Serial (fun _ o a s => booksReservation o a s) 0
        budgetScenario.call ({}, []) s ∧
      committedWei s.1.budgets "D" = 190000 ∧ s.1.book.costBasis "D" = 190000 := by
  let r : PaperReplies := { quote := v2Quote 1000 }
  obtain ⟨s, serial, committed⟩ : ∃ s,
      budgetScenario.machine.recording.Serial (fun _ o a s => booksReservation o a s) 0
        budgetScenario.call ({}, []) s ∧ committedWei s.1.budgets "D" = 190000 :=
    Machine.exists_serial_of_evaluateAll [(enterCall, r.ans), (enterCall, r.ans)]
      (by decide +kernel)
  have backed := committed_backed rfl {} (fun _ => rfl) (fun _ => Nat.zero_le _) s serial "D"
  exact ⟨s, serial, committed, backed.symm.trans committed⟩

/-- An entry reserves 100000 wei and finds neither a pool nor a price: the reservation stays, with
no position to back it. -/
theorem committed_leaks :
    ∃ s, budgetScenario.machine.recording.Serial budgetScenario.machine.recording.anyStep 0
        budgetScenario.call ({}, []) s ∧
      committedWei s.1.budgets "D" = 100000 ∧ s.1.book.costBasis "D" = 0 := by
  let r : PaperReplies := {}
  exact Machine.exists_serial_of_evaluateAll [(enterCall, r.ans)] (by decide +kernel)

end BscMempool.Trader
