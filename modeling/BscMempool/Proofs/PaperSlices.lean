/-
Module: BscMempool.Proofs.PaperSlices
Layer: Proofs
Purpose: The accounts of the paper trader: what was bought, closed, credited and is open under each
  key. Most of what its tasks do leaves the accounts alone, and a close sells a slice that adds up
  with what it leaves.
Trusted boundary: none
Main exports: total, mine, PaperOp.calm, priceClose_asks, priceClose_ends, closeSlice_amounts
-/
import BscMempool.Trader.Paper
import Mathlib.Algebra.Order.Group.Nat
import Mathlib.Algebra.Order.Monoid.Prod
import Mathlib.Algebra.BigOperators.Group.List.Basic

namespace BscMempool.Trader

open Concurrent (Tid Proc)
open Concurrent.Proc

/-! ### Totals under a key -/

/-- Tokens and cost basis. -/
def Slice.amounts (s : Slice) : Nat × Nat := (s.tokens.toNat, s.bnb.toNat)

/-- The row of a close, as the slice it closed. -/
def ClosedTrade.slice (t : ClosedTrade) : Slice := ⟨0, t.key, t.tokensTraded, t.bnbInWei⟩

def OpenPosition.amounts (p : OpenPosition) : Nat × Nat := (p.tokensHeld.toNat, p.bnbIn.toNat)

/-- What is open under a key. -/
def PositionBook.amounts (b : PositionBook) (key : PositionKey) : Nat × Nat :=
  ((b.get key).map OpenPosition.amounts).getD 0

/-- The sums over the slices under a key. -/
def total (slices : List Slice) (key : PositionKey) : Nat × Nat :=
  (slices.map fun s => if s.key = key then s.amounts else 0).sum

/-- The slices of one task. -/
def mine (i : Tid) (slices : List Slice) : List Slice := slices.filter fun s => decide (s.owner = i)

@[simp] theorem total_nil (key : PositionKey) : total [] key = 0 := rfl

@[simp] theorem total_append (l r : List Slice) (key : PositionKey) :
    total (l ++ r) key = total l key + total r key := by
  simp [total]

@[simp] theorem total_singleton (s : Slice) (key : PositionKey) :
    total [s] key = if s.key = key then s.amounts else 0 := by
  simp [total]

/-- The slices of the others and those of one task are all slices. -/
theorem total_others (slices : List Slice) (i : Tid) (key : PositionKey) :
    total (slices.filter fun s => decide (s.owner ≠ i)) key + total (mine i slices) key =
      total slices key := by
  induction slices with
  | nil => rfl
  | cons s rest ih =>
      have split : total (s :: rest) key = total [s] key + total rest key :=
        total_append [s] rest key
      rw [split, ← ih]
      by_cases own : s.owner = i
      · have there : mine i (s :: rest) = [s] ++ mine i rest := by simp [mine, own]
        rw [there, List.filter_cons_of_neg (by simp [own]), total_append]
        exact add_left_comm _ _ _
      · have there : (s :: rest).filter (fun s => decide (s.owner ≠ i)) =
            [s] ++ rest.filter fun s => decide (s.owner ≠ i) := by simp [own]
        have none_ : mine i (s :: rest) = mine i rest := by simp [mine, own]
        rw [there, none_, total_append, add_assoc]

theorem mine_add_self {i : Tid} {l : List Slice} {key : PositionKey} {tokens bnb : U256}
    (none_ : mine i l = []) : mine i (l ++ [⟨i, key, tokens, bnb⟩]) = [⟨i, key, tokens, bnb⟩] := by
  rw [mine, List.filter_append, ← mine, none_]
  simp

theorem mine_add_other {i j : Tid} {l : List Slice} (ne : j ≠ i) {key : PositionKey}
    {tokens bnb : U256} :
    mine j (l ++ [⟨i, key, tokens, bnb⟩]) = mine j l := by
  simp [mine, Ne.symm ne]

/-- Dropping the slices of one task leaves it none. -/
theorem mine_drop_self (i : Tid) (l : List Slice) :
    mine i (l.filter fun s => decide (s.owner ≠ i)) = [] := by
  simp [mine]

/-- Dropping the slices of one task leaves the others theirs. -/
theorem mine_drop_other {i j : Tid} (ne : j ≠ i) (l : List Slice) :
    mine j (l.filter fun s => decide (s.owner ≠ i)) = mine j l := by
  rw [mine, List.filter_filter]
  refine List.filter_congr fun s _ => ?_
  by_cases own : s.owner = j
  · simp [own, ne]
  · simp [own]

/-! ### What is open, after each operation of the book -/

namespace PositionBook

variable {b : PositionBook} {key other : PositionKey}

theorem amounts_of_get {p : OpenPosition} (held : b.get key = some p) :
    b.amounts key = p.amounts := by
  rw [amounts, held]
  rfl

theorem amounts_put {p : OpenPosition} (own : p.key = key) :
    (b.put p).amounts other = if other = key then p.amounts else b.amounts other := by
  rw [amounts, get_put, own]
  split <;> rfl

theorem amounts_setEntryMcaps {dMcap ourMcap : ℚ} :
    (b.setEntryMcaps key dMcap ourMcap).amounts other = b.amounts other := by
  rw [amounts, get_setEntryMcaps]
  split
  · rename_i same
    rw [same, amounts]
    cases b.get key <;> rfl
  · rfl

theorem amounts_remove : (b.remove key).amounts other = if other = key then 0
    else b.amounts other := by
  rw [amounts, get_remove]
  split <;> rfl

theorem amounts_shrink {p : OpenPosition} {tokens bnb : U256} (held : b.get key = some p) :
    (b.shrink key tokens bnb).amounts other =
      if other = key then (tokens.toNat, bnb.toNat) else b.amounts other := by
  rw [amounts, get_shrink, held]
  split <;> rfl

theorem mem_openedBefore {cutoff : Nat} :
    key ∈ b.openedBefore cutoff ↔ ∃ p, b.get key = some p ∧ p.openedAtUnixNs ≤ cutoff := by
  simp only [openedBefore, List.mem_map, List.mem_filter, decide_eq_true_eq]
  constructor
  · rintro ⟨⟨found, p⟩, ⟨there, old⟩, rfl⟩
    exact ⟨p, AList.mem_lookup_iff.2 there, old⟩
  · rintro ⟨p, held, old⟩
    exact ⟨⟨key, p⟩, ⟨AList.mem_lookup_iff.1 held, old⟩, rfl⟩

theorem nodup_openedBefore (b : PositionBook) (cutoff : Nat) : (b.openedBefore cutoff).Nodup := by
  have keys : b.byKey.keys.Nodup := b.byKey.keys_nodup
  exact keys.sublist (List.filter_sublist.map Sigma.fst)

/-- A buy that does not saturate adds its amounts to what is open under its key. -/
theorem amounts_openOrAdd {mode : PortfolioMode} {kolName : String} {token : Address}
    {symbol : String} {decimals block nowNs : Nat} {bnbIn tokensIn : U256} {tx : B256}
    (fits : (b.amounts ⟨mode, kolName, token⟩).1 + tokensIn.toNat < 2 ^ 256 ∧
      (b.amounts ⟨mode, kolName, token⟩).2 + bnbIn.toNat < 2 ^ 256) :
    (b.openOrAdd mode kolName token symbol decimals bnbIn tokensIn block tx nowNs).amounts other =
      b.amounts other + if ⟨mode, kolName, token⟩ = other then (tokensIn.toNat, bnbIn.toNat)
        else 0 := by
  unfold openOrAdd
  cases held : b.get ⟨mode, kolName, token⟩ with
  | none =>
      rw [amounts_put rfl]
      change (if other = ⟨mode, kolName, token⟩ then _ else _) = _
      by_cases same : other = ⟨mode, kolName, token⟩
      · subst same
        simp [OpenPosition.amounts, amounts, held]
      · rw [if_neg same, if_neg (Ne.symm same), add_zero]
  | some p =>
      have own : p.key = ⟨mode, kolName, token⟩ := key_of_get held
      rw [amounts_of_get held] at fits
      dsimp only
      rw [amounts_put rfl]
      change (if other = p.key then _ else _) = _
      rw [own]
      by_cases same : other = ⟨mode, kolName, token⟩
      · rw [if_pos same, if_pos same.symm, same, amounts_of_get held]
        exact Prod.ext (saturatingAddU256_toNat fits.1) (saturatingAddU256_toNat fits.2)
      · rw [if_neg same, if_neg (Ne.symm same), add_zero]

end PositionBook

/-! ### Slices add up -/

namespace PaperExecutor

variable {x : PaperExecutor}

/-- What a close sells and what it leaves add up to the position. -/
theorem closeSlice_amounts (p : OpenPosition) (fraction : ℚ) :
    ((closeSlice p fraction).remainingTokens.toNat, (closeSlice p fraction).remainingBnbIn.toNat) +
      ((closeSlice p fraction).sellTokens.toNat, (closeSlice p fraction).sellBnbIn.toNat) =
        p.amounts := by
  unfold closeSlice
  dsimp only
  split
  · simp [OpenPosition.amounts]
  · exact Prod.ext (saturatingSubU256_add (scaleU256ByFraction_le _ _))
      (saturatingSubU256_add (scaleU256ByFraction_le _ _))

/-- A close of at least 0.99 is a close of the whole position. -/
theorem closeSlice_most (p : OpenPosition) {fraction : ℚ} (most : 99 / 100 ≤ fraction) :
    closeSlice p fraction = ⟨true, p.tokensHeld, p.bnbIn, 0, 0⟩ := by
  have above : clamp01 fraction ≥ 99 / 100 := le_max_of_le_right (le_min most (by norm_num))
  exact if_pos above

theorem closeSlice_full {p : OpenPosition} {fraction : ℚ}
    (full : (closeSlice p fraction).isFullClose = true) :
    (closeSlice p fraction).remainingTokens = 0 ∧ (closeSlice p fraction).remainingBnbIn = 0 := by
  unfold closeSlice at full ⊢
  dsimp only at full ⊢
  split at full
  · rename_i above
    rw [if_pos above]
    exact ⟨rfl, rfl⟩
  · cases full

end PaperExecutor

/-! ### Operations that leave the accounts alone -/

/-- The book and the slices that were bought, closed and credited. -/
structure Accounts where
  book : PositionBook
  added : List Slice
  closedTrades : List ClosedTrade
  credits : List Slice
  credited : List Slice
  settling : List Slice

def PaperWorld.accounts (w : PaperWorld) : Accounts :=
  ⟨w.book, w.added, w.closedTrades, w.credits, w.credited, w.settling⟩

/-- Questions. -/
def PaperOp.asks : PaperOp → Prop
  | .ask _ => True
  | _ => False

/-- The operations that leave the accounts alone. -/
def PaperOp.calm : PaperOp → Prop
  | .openAll _ | .remove .. | .shrink .. | .creditClose .. | .appendTrade _ => False
  | _ => True

/-- The operations that change the book. -/
def PaperOp.setsBook : PaperOp → Prop
  | .openAll _ | .remove .. | .shrink .. => True
  | _ => False

/-- The operations that change the budgets. -/
def PaperOp.setsBudgets : PaperOp → Prop
  | .tryReserve .. | .creditClose .. => True
  | _ => False

/-- The operations that write a row. -/
def PaperOp.setsLedger : PaperOp → Prop
  | .appendTrade _ => True
  | _ => False

/-- The operations that change the held set. -/
def PaperOp.setsHeld : PaperOp → Prop
  | .heldInsert .. | .heldRemove _ => True
  | _ => False

/-- What an operation does not change. -/
structure PaperOp.Frame (o : PaperOp) (w w' : PaperWorld) : Prop where
  accounts : o.calm → w'.accounts = w.accounts
  book : ¬ o.setsBook → w'.book = w.book
  budgets : ¬ o.setsBudgets → w'.budgets = w.budgets
  closedTrades : ¬ o.setsLedger → w'.closedTrades = w.closedTrades
  held : ¬ o.setsHeld → w'.held = w.held

theorem PaperOp.Frame.same {o : PaperOp} {w : PaperWorld} : o.Frame w w :=
  ⟨fun _ => rfl, fun _ => rfl, fun _ => rfl, fun _ => rfl, fun _ => rfl⟩

/-- Every operation keeps to its frame, and none starts a task. -/
theorem PaperOp.exec_frame {o : PaperOp} {i : Tid} {a : o.Ans} {w : PaperWorld}
    {out : Concurrent.Outcome PaperWorld PaperTask o.Res} (did : o.exec i a w = some out) :
    o.Frame w out.shared ∧ out.spawned = [] := by
  cases o with
  | openAll | remove | shrink =>
      cases did
      exact ⟨⟨fun calm => calm.elim, fun still => absurd trivial still, fun _ => rfl, fun _ =>
        rfl, fun _ => rfl⟩, rfl⟩
  | tryReserve =>
      cases did
      exact ⟨⟨fun _ => rfl, fun _ => rfl, fun still => absurd trivial still, fun _ => rfl, fun _ =>
        rfl⟩, rfl⟩
  | creditClose =>
      cases did
      exact ⟨⟨fun calm => calm.elim, fun _ => rfl, fun still => absurd trivial still, fun _ =>
        rfl, fun _ => rfl⟩, rfl⟩
  | appendTrade =>
      cases did
      dsimp only
      split
      · exact ⟨⟨fun calm => calm.elim, fun _ => rfl, fun _ => rfl, fun still =>
          absurd trivial still, fun _ => rfl⟩, rfl⟩
      · exact ⟨.same, rfl⟩
  | heldInsert | heldRemove =>
      cases did
      exact ⟨⟨fun _ => rfl, fun _ => rfl, fun _ => rfl, fun _ => rfl, fun still =>
        absurd trivial still⟩, rfl⟩
  | saveBook | writeBudgets =>
      cases did
      dsimp only
      split <;> exact ⟨⟨fun _ => rfl, fun _ => rfl, fun _ => rfl, fun _ => rfl, fun _ => rfl⟩, rfl⟩
  | renameBudgets =>
      simp only [PaperOp.exec] at did
      split at did
      · cases did
        dsimp only
        split <;> exact ⟨⟨fun _ => rfl, fun _ => rfl, fun _ => rfl, fun _ => rfl, fun _ => rfl⟩,
          rfl⟩
      · cases did
        exact ⟨.same, rfl⟩
  | keysForKolToken | openedBefore =>
      simp only [PaperOp.exec] at did
      split at did <;> cases did
      exact ⟨.same, rfl⟩
  | ask | get | snapshotBudgets =>
      cases did
      exact ⟨.same, rfl⟩

theorem PaperOp.calm_accounts {o : PaperOp} (calm : o.calm) {i : Tid} {a : o.Ans} {w : PaperWorld}
    {out : Concurrent.Outcome PaperWorld PaperTask o.Res} (did : o.exec i a w = some out) :
    out.shared.accounts = w.accounts ∧ out.spawned = [] :=
  ⟨(PaperOp.exec_frame did).1.accounts calm, (PaperOp.exec_frame did).2⟩

theorem PaperOp.asks.calm {o : PaperOp} (asks : o.asks) : o.calm := by
  cases o <;> trivial

/-- Questions leave the accounts alone. -/
theorem PaperOp.calm_of_asks {α : Type} {p : Paper α} (all : p.All PaperOp.asks) :
    p.All PaperOp.calm := all.mono fun _ => PaperOp.asks.calm

namespace PaperExecutor

variable {x : PaperExecutor}

theorem ask_asks (q : PaperQuery) : (askPaper q).All PaperOp.asks := all_call.2 trivial

/-- Saving the budgets takes a snapshot, writes it and renames the file. -/
theorem saveBudgets_all {A : PaperOp → Prop} (snapshot : A .snapshotBudgets)
    (write : ∀ rows, A (.writeBudgets rows)) (rename : A .renameBudgets) : saveBudgets.All A := by
  refine Proc.All.bind (all_call.2 snapshot) fun rows =>
    Proc.All.bind (all_call.2 (write rows)) fun written => ?_
  split
  · exact Proc.All.bind (all_call.2 rename) fun _ => trivial
  · trivial

theorem saveBudgets_calm : saveBudgets.All PaperOp.calm :=
  saveBudgets_all trivial (fun _ => trivial) trivial

theorem reserveAmount_calm (kolName : String) (bnbAmount : U256) :
    (x.reserveAmount kolName bnbAmount).All PaperOp.calm := by
  unfold reserveAmount
  split
  · trivial
  · apply Proc.All.bind (all_call.2 trivial)
    intro reserved
    split
    · trivial
    · exact saveBudgets_calm.bind fun _ => trivial

theorem rawQuote_asks (bnbAmount : U256) (token : Address) (decimals : Nat) (kolTx : B256) :
    (rawQuote bnbAmount token decimals kolTx).All PaperOp.asks := by
  apply (ask_asks _).bind
  intro quoted
  split
  · trivial
  · trivial
  · apply (ask_asks _).bind
    intro price
    split
    · split <;> trivial
    · trivial

theorem entryQuote_asks (raw : QuoteResult) (bnbAmount : U256) (token : Address) (decimals : Nat)
    (kolTx : B256) : (x.entryQuote raw bnbAmount token decimals kolTx).All PaperOp.asks := by
  unfold entryQuote
  split
  · apply (ask_asks _).bind
    intro price
    split
    · split <;> trivial
    · trivial
  · apply (ask_asks _).bind
    intro measured
    split <;> trivial

theorem entryMcaps_asks (quote : QuoteResult) (bnbAmount : U256) (token : Address) (decimals : Nat)
    (kolTx : B256) (bnbUsd : ℚ) :
    (entryMcaps quote bnbAmount token decimals kolTx bnbUsd).All PaperOp.asks := by
  unfold entryMcaps
  dsimp only
  split
  · apply (ask_asks _).bind
    intro supply
    split
    · exact (ask_asks _).bind fun _ => trivial
    · trivial
  · apply (ask_asks _).bind
    intro spot
    split <;> trivial

theorem exitQuote_asks (sellTokens : U256) (token : Address) (triggerSellTx : Option B256) :
    (exitQuote sellTokens token triggerSellTx).All PaperOp.asks := by
  unfold exitQuote
  split
  · exact (ask_asks _).bind fun _ => trivial
  · apply (ask_asks _).bind
    intro measured
    split
    · trivial
    · exact (ask_asks _).bind fun _ => trivial

theorem bondingPrice_asks (p : OpenPosition) (triggerSellTx : Option B256) :
    (bondingPrice p triggerSellTx).All PaperOp.asks := by
  unfold bondingPrice
  split
  · trivial
  · apply (ask_asks _).bind
    intro observed
    split
    · trivial
    · exact (ask_asks _).bind fun _ => trivial

theorem exitFill_asks (p : OpenPosition) (slice : CloseSlice) (reason : CloseReason)
    (triggerSellTx : Option B256) (quote : Option QuoteResult) (measured : Bool) (gasWei : U256) :
    (x.exitFill p slice reason triggerSellTx quote measured gasWei).All PaperOp.asks := by
  unfold exitFill
  split
  · trivial
  · apply (bondingPrice_asks _ _).bind
    intro priced
    dsimp only
    split <;> trivial

theorem exitMcaps_asks (p : OpenPosition) (sellTokens bnbOut : U256) (triggerSellTx : Option B256)
    (bnbUsd : ℚ) : (exitMcaps p sellTokens bnbOut triggerSellTx bnbUsd).All PaperOp.asks := by
  unfold exitMcaps
  split
  · trivial
  · apply (ask_asks _).bind
    intro supply
    dsimp only
    split
    · exact (ask_asks _).bind fun _ => trivial
    · trivial

/-- Pricing a close only asks. -/
theorem priceClose_asks (p : OpenPosition) (slice : CloseSlice) (reason : CloseReason)
    (triggerSellTx : Option B256) :
    (x.priceClose p slice reason triggerSellTx).All PaperOp.asks := by
  refine (ask_asks _).bind fun _ => (exitQuote_asks _ _ _).bind fun _ =>
    (ask_asks _).bind fun _ => ?_
  exact (exitFill_asks ..).bind fun _ => (ask_asks _).bind fun _ =>
    (exitMcaps_asks ..).bind fun _ => trivial

/-- Whatever a close is priced at, its row is for the slice of the position. -/
theorem priceClose_ends (p : OpenPosition) (slice : CloseSlice) (reason : CloseReason)
    (triggerSellTx : Option B256) : (x.priceClose p slice reason triggerSellTx).Ends fun trade =>
      trade.slice = ⟨0, p.key, slice.sellTokens, slice.sellBnbIn⟩ := by
  refine (Ends.any _).bind fun _ _ => (Ends.any _).bind fun _ _ => (Ends.any _).bind fun _ _ => ?_
  refine (Ends.any _).bind fun _ _ => (Ends.any _).bind fun _ _ => (Ends.any _).bind fun _ _ => ?_
  exact rfl

theorem balanceOfAt_asks (who token : Address) (block : Nat) :
    (x.balanceOfAt who token block).All PaperOp.asks := by
  apply (ask_asks _).bind
  intro near
  split
  · trivial
  · split
    · exact ask_asks _
    · trivial

theorem kolSellFraction_asks (kolAddr token : Address) (kolBlock : Nat) :
    (x.kolSellFraction kolAddr token kolBlock).All PaperOp.asks := by
  unfold kolSellFraction
  split
  · trivial
  · apply (balanceOfAt_asks ..).bind
    intro pre
    split
    · trivial
    · apply (balanceOfAt_asks ..).bind
      intro post
      split
      · trivial
      · split <;> trivial

end PaperExecutor

end BscMempool.Trader
