/-
Module: BscMempool.Proofs.PaperGas
Layer: Proofs
Purpose: The gas that the paper trader takes off its proceeds. Every close is charged the gas of a
  whole round trip, and an entry nothing, so over a sequence of entries and closes the gas of each
  transaction is charged once exactly where there are as many closes as entries. What a close is
  charged is read off against the same close at no gas, with the same answers from outside.
Trusted boundary: none
Main exports: PaperExecutor.gasFree, PaperExecutor.gasTaken, PaperExecutor.gasCharged, TradeCall,
  PaperExecutor.tradeGasWei, paper_gas_once_iff
-/
import BscMempool.Proofs.PartialCloses

namespace BscMempool.Trader

open Concurrent (Tid Machine Proc Protocol)
open Concurrent.Proc

/-- A question and what was answered. -/
abbrev PaperAnswer := (q : PaperQuery) × q.Reply

/-- Give a process these answers: what it returns, if it asks these questions, in this order, and
does nothing else. -/
def replay {α : Type} : Paper α → List PaperAnswer → Option α
  | .ret value, _ => some value
  | .op (.ask q) next, ⟨asked, reply⟩ :: rest =>
      if same : asked = q then replay (next (same ▸ reply)) rest else none
  | .op _ _, _ => none

/-- What a close knows when it writes its row: the position that it read, and the
answers it got since. -/
structure Pricing where
  sized : Option OpenPosition := none
  answers : List PaperAnswer := []

/-- Some more answers. -/
def Pricing.hear (q : Pricing) (more : List PaperAnswer) : Pricing :=
  { q with answers := q.answers ++ more }

/-- A task reads a position and asks questions. -/
def Pricing.next (q : Pricing) : (o : PaperOp) → o.Res → Pricing
  | .get _, held => { sized := held }
  | .ask query, reply => q.hear [⟨query, reply⟩]
  | _, _ => q

namespace PaperExecutor

variable (x : PaperExecutor)

/-- The same trader at no gas. -/
def gasFree : PaperExecutor := { x with costs := { x.costs with gasPerTradeUsd := 0 } }

/-- The gas a close was charged: what it would have brought at no gas, with the same answers, less
what it brought. -/
def gasTaken (q : Pricing) (row : ClosedTrade) : Option Nat := do
  let p ← q.sized
  let free ← replay
    (x.gasFree.priceClose p ⟨true, row.tokensTraded, row.bnbInWei, 0, 0⟩ .kolSell row.triggerSellTx)
      q.answers
  return free.bnbOutWei.toNat - row.bnbOutWei.toNat

/-- The gas of one trade in wei: half of a round trip. -/
def tradeGasWei (bnbUsd : ℚ) : ℚ := (x.roundTripGas bnbUsd).toNat / 2

end PaperExecutor

/-- The two rows of a close of a slice, with and without gas. -/
structure Charged (x : PaperExecutor) (p : OpenPosition) (slice : PaperExecutor.CloseSlice)
    (triggerSellTx : Option B256) (row free : ClosedTrade) : Prop where
  key : row.key = p.key
  tokens : row.tokensTraded = slice.sellTokens
  bnb : row.bnbInWei = slice.sellBnbIn
  trigger : row.triggerSellTx = triggerSellTx
  charged : row.closeReason ≠ .priceUnavailable →
    row.bnbOutWei.toNat = free.bnbOutWei.toNat - (x.roundTripGas row.bnbUsdAtClose).toNat

namespace PaperExecutor

variable {x : PaperExecutor}

/-! ### The same close at no gas -/

theorem roundTripGas_gasFree (bnbUsd : ℚ) : x.gasFree.roundTripGas bnbUsd = 0 := by
  unfold roundTripGas
  split
  · have none_ : x.gasFree.costs.gasPerTradeUsd * 2 / bnbUsd * 10 ^ 18 = 0 := by simp [gasFree]
    rw [none_, max_self]
    rfl
  · rfl

/-- The proceeds with and without gas. -/
theorem exitFill_lockstep (p : OpenPosition) {slice slice' : CloseSlice}
    (tokens : slice'.sellTokens = slice.sellTokens)
    (reason reason' : CloseReason) (triggerSellTx : Option B256) (quote : Option QuoteResult)
    (measured : Bool) (gasWei : U256) :
    Lockstep (fun fill free => fill.2 ≠ .priceUnavailable →
      fill.1.toNat = free.1.toNat - gasWei.toNat)
      (x.exitFill p slice reason triggerSellTx quote measured gasWei)
      (x.gasFree.exitFill p slice' reason' triggerSellTx quote measured 0) := by
  have charged : ∀ gross : U256, (saturatingSubU256 gross gasWei).toNat =
      (saturatingSubU256 gross 0).toNat - gasWei.toNat := by
    intro gross
    rw [saturatingSubU256_toNat, saturatingSubU256_toNat]
    rfl
  unfold exitFill
  cases quote.filter fun q => decide (q.amountOut ≠ 0) with
  | some q => exact .ret fun _ => charged _
  | none =>
      apply Lockstep.after
      rintro ⟨priced, observed⟩
      dsimp only
      cases priced.filter fun price => decide (price > 0) with
      | some price =>
          rw [tokens]
          exact .ret fun _ => charged _
      | none => exact .ret fun known => absurd rfl known

theorem exitMcaps_lockstep (p : OpenPosition) (sellTokens bnbOut bnbOut' : U256)
    (triggerSellTx : Option B256)
    (bnbUsd : ℚ) : Lockstep (fun _ _ => True) (exitMcaps p sellTokens bnbOut triggerSellTx bnbUsd)
      (exitMcaps p sellTokens bnbOut' triggerSellTx bnbUsd) := by
  unfold exitMcaps
  cases triggerSellTx with
  | none => exact .ret trivial
  | some stx =>
      apply Lockstep.after
      intro supply
      dsimp only
      split
      · exact Lockstep.after _ fun _ => .ret trivial
      · exact .ret trivial

theorem priceClose_lockstep (p : OpenPosition) {slice slice' : CloseSlice}
    (tokens : slice'.sellTokens = slice.sellTokens) (reason reason' : CloseReason)
    (triggerSellTx : Option B256) :
    Lockstep (Charged x p slice triggerSellTx) (x.priceClose p slice reason triggerSellTx)
      (x.gasFree.priceClose p slice' reason' triggerSellTx) := by
  unfold priceClose
  apply Lockstep.after
  intro nowBlock
  rw [tokens]
  apply Lockstep.after
  rintro ⟨quote, measured⟩
  apply Lockstep.after
  intro bnbUsd
  dsimp only
  rw [roundTripGas_gasFree]
  apply (exitFill_lockstep p tokens reason reason' triggerSellTx quote measured _).bind
  rintro ⟨bnbOut, closeReason⟩ ⟨free, freeReason⟩ charged
  apply Lockstep.after
  intro closedAtNs
  apply (exitMcaps_lockstep ..).bind
  intro mcaps mcaps' _
  exact .ret ⟨rfl, rfl, rfl, rfl, charged⟩

/-! ### What a call hears -/

/-- Every row is written by a close whose answers tell what it was charged: the gas of a round trip,
    if it had a price and brought more than that. -/
def pricing (x : PaperExecutor) : Protocol PaperSig Pricing where
  allows q
    | .appendTrade row => ∃ gas, x.gasTaken q row = some gas ∧
        (row.closeReason ≠ .priceUnavailable → row.bnbOutWei ≠ 0 →
          gas = (x.roundTripGas row.bnbUsdAtClose).toNat)
    | _ => True
  next := Pricing.next

/-- A process that only asks hears answers that lead every process in lockstep to its end. -/
theorem hears {α β : Type} {R : α → β → Prop} {p : Paper α} {p' : Paper β}
    (lockstep : Lockstep R p p') (all : p.All PaperOp.asks) (q : Pricing) :
    p.Obeys x.pricing (fun q' value => ∃ more, q' = q.hear more ∧
      ∃ value', replay p' more = some value' ∧ R value value')
      q := by
  induction lockstep generalizing q with
  | @ret value value' related => exact ⟨[], by simp [Pricing.hear], value', rfl, related⟩
  | @op o next next' _ ih =>
      cases o with
      | ask query =>
          constructor
          · trivial
          · intro reply
            apply (ih reply (all.2 reply) (q.hear [⟨query, reply⟩])).mono
            rintro q' value ⟨more, rfl, value', replays, related⟩
            refine ⟨⟨query, reply⟩ :: more, by simp [Pricing.hear], value', ?_, related⟩
            rw [replay, dif_pos rfl]
            exact replays
      | _ => exact all.1.elim

/-- The operations that neither ask, nor read a position, nor write a row. -/
def keepsPricing : PaperOp → Prop
  | .ask _ | .get _ | .appendTrade _ => False
  | _ => True

theorem keepsPricing_creditSlice (trade : ClosedTrade) :
    (x.creditSlice trade).All keepsPricing := by
  unfold creditSlice
  split
  · trivial
  · apply Proc.All.bind (all_call.2 trivial)
    intro _
    exact saveBudgets_all trivial (fun _ => trivial) trivial

theorem obeys_of_keepsPricing {α : Type} {p : Paper α} (all : p.All keepsPricing) (q : Pricing) :
    p.Obeys x.pricing (fun q' _ => q' = q) q := by
  apply (Obeys.of_all (R := fun _ => True) _ _ all (Ends.any p)).mono
  · exact fun q' _ same => same.1
  · intro o keeps
    cases o <;> first | exact keeps.elim | trivial
  · intro o keeps result
    cases o <;> first | rfl | exact keeps.elim

/-- What writes no row may be done at any time. -/
theorem obeys_of_noRow {α : Type} {p : Paper α} (all : p.All fun o : PaperOp => ¬ o.setsLedger)
    (q : Pricing) :
    p.Obeys x.pricing (fun _ _ => True) q := by
  refine Obeys.of_allowed (fun q o still => ?_) all
  cases o with
  | appendTrade row => exact absurd trivial still
  | _ => trivial

theorem noRow_of_calm {α : Type} {p : Paper α} (all : p.All PaperOp.calm) :
    p.All fun o : PaperOp => ¬ o.setsLedger := by
  apply all.mono
  intro o calm
  cases o <;> first | exact calm.elim | exact id

theorem noRow_of_asks {α : Type} {p : Paper α} (all : p.All PaperOp.asks) :
    p.All fun o : PaperOp => ¬ o.setsLedger :=
  noRow_of_calm (PaperOp.calm_of_asks all)

theorem noRow_call {o : PaperOp} (noRow : ¬ o.setsLedger) : (onPaper o).All fun o :
    PaperOp => ¬ o.setsLedger :=
  all_call.2 noRow

/-! ### Calls -/

theorem bookEntry_noRow (fill : Fill) : (bookEntry fill).All fun o : PaperOp => ¬ o.setsLedger := by
  apply (noRow_call (o := .openAll fill) id).bind
  intro _
  apply (noRow_of_asks (ask_asks _)).bind
  intro enteredUnixNs
  apply (noRow_call id).bind
  intro _
  exact (noRow_call id).bind fun _ => trivial

theorem priceEntry_noRow (kolName : String) (token : Address) (bnbAmount : U256) (kolTx : B256) :
    (x.priceEntry kolName token bnbAmount kolTx).All fun o : PaperOp => ¬ o.setsLedger := by
  apply (noRow_of_asks (ask_asks _)).bind
  intro info
  cases info with
  | none => trivial
  | some info =>
      apply (noRow_of_asks (rawQuote_asks ..)).bind
      intro raw
      match raw with
      | .error _ => trivial
      | .ok none => trivial
      | .ok (some raw) =>
          apply (noRow_of_asks (entryQuote_asks ..)).bind
          intro quote
          apply (noRow_of_asks (ask_asks _)).bind
          intro bnbUsd
          apply (noRow_of_asks (entryMcaps_asks ..)).bind
          intro mcaps
          apply (noRow_of_asks (ask_asks _)).bind
          intro block
          exact (bookEntry_noRow _).bind fun _ => trivial

theorem handleEnter_noRow (kolName : String) (token : Address) (calldata : List UInt8)
    (bnbAmount : U256)
    (kolTx : B256) : (x.handleEnter kolName token calldata bnbAmount kolTx).All fun o :
    PaperOp => ¬ o.setsLedger := by
  unfold handleEnter
  split
  · trivial
  · split
    · trivial
    · apply (noRow_of_calm (reserveAmount_calm ..)).bind
      intro reserved
      cases reserved with
      | none => trivial
      | some amount => exact priceEntry_noRow ..

/-- The row of a close, by what the close has heard. -/
theorem gasTaken_of_charged {p : OpenPosition} {slice : CloseSlice} {triggerSellTx : Option B256}
    {row free : ClosedTrade} (charged : Charged x p slice triggerSellTx row free)
    {answers : List PaperAnswer}
    (replays : replay (x.gasFree.priceClose p ⟨true, slice.sellTokens, slice.sellBnbIn, 0, 0⟩
      .kolSell triggerSellTx)
      answers = some free) : x.pricing.allows ⟨some p, answers⟩ (.appendTrade row) := by
  refine ⟨free.bnbOutWei.toNat - row.bnbOutWei.toNat, ?_, ?_⟩
  · unfold gasTaken
    rw [charged.tokens, charged.bnb, charged.trigger]
    simp only [Option.bind_eq_bind, Option.bind_some, replays]
    rfl
  · intro priced some_
    have net := charged.charged priced
    have pos : row.bnbOutWei.toNat ≠ 0 := fun none_ => some_ (BitVec.eq_of_toNat_eq none_)
    omega

/-- What follows the row. -/
theorem settle_noRow (key : PositionKey) (p : OpenPosition) (slice : CloseSlice) :
    (do
      let tokenStillHeld ← updateBook key p slice
      if tokenStillHeld = false then onPaper (.heldRemove key.token)
      let _ ← onPaper .saveBook
      return () : Paper Unit).All fun o : PaperOp => ¬ o.setsLedger := by
  have updates : (updateBook key p slice).All fun o : PaperOp => ¬ o.setsLedger := by
    unfold updateBook
    split
    · exact noRow_call id
    · exact noRow_call id
  have saves : (do let _ ← onPaper .saveBook; return () : Paper Unit).All fun o : PaperOp =>
      ¬ o.setsLedger :=
    (noRow_call id).bind fun _ => trivial
  apply updates.bind
  intro tokenStillHeld
  cases tokenStillHeld with
  | true => exact saves
  | false => exact (noRow_call id).bind fun _ => saves

theorem closeOne_obeys (key : PositionKey) (reason : CloseReason) (triggerSellTx : Option B256)
    (fraction : ℚ) (q : Pricing) :
    (x.closeOne key reason triggerSellTx fraction).Obeys x.pricing (fun _ _ => True) q := by
  apply Obeys.call trivial
  intro held
  cases held with
  | none => trivial
  | some p =>
      dsimp only
      split
      · trivial
      · apply (hears (priceClose_lockstep p rfl reason .kolSell triggerSellTx)
          (priceClose_asks ..) _).bind
        rintro _ row ⟨answers, rfl, free, replays, charged⟩
        apply (obeys_of_keepsPricing (keepsPricing_creditSlice row) _).bind
        rintro _ _ rfl
        apply Obeys.call
        · exact gasTaken_of_charged charged replays
        · intro _
          exact obeys_of_noRow (settle_noRow key p _) _

/-! ### What is charged in all -/

/-- What the calls have heard. -/
def pricingAt (i : Tid) (h : List x.machine.Event) : Pricing := x.pricing.phase i {} h

/-- The gas charged for the closes under a key. -/
def gasCharged (key : PositionKey) : List x.machine.Event → Nat
  | [] => 0
  | ⟨i, .appendTrade row, _, _⟩ :: older =>
      (if row.key = key then (x.gasTaken (pricingAt i older) row).getD 0 else 0) +
        gasCharged key older
  | _ :: older => gasCharged key older

/-- The closes under a key: the rows that were handed to the ledger. -/
def closes (key : PositionKey) (h : List x.machine.Event) : Nat :=
  (handed h).countP fun row => decide (row.key = key)

/-- The entries under a key. -/
def entries (key : PositionKey) (h : List x.machine.Event) : Nat :=
  h.countP fun e => match e.op with
    | .openAll fill =>
        decide (key ∈ PortfolioMode.ALL.map fun mode => ⟨mode, fill.kolName, fill.token⟩)
    | _ => false

end PaperExecutor

/-- An entry, or a close of some part of a position. -/
inductive TradeCall where
  | enter (kolName : String) (token : Address) (calldata : List UInt8) (bnbAmount : U256)
    (kolTx : B256)
  | close (key : PositionKey) (k : CloseCall)

namespace PaperExecutor

def tradeCall (x : PaperExecutor) : TradeCall → Paper Unit
  | .enter kolName token calldata bnbAmount kolTx =>
      x.call (.enter kolName token calldata bnbAmount kolTx)
  | .close key k => x.closeUnder key k

variable {x : PaperExecutor}

theorem tradeCall_obeys (call : TradeCall) (q : Pricing) :
    (x.tradeCall call).Obeys x.pricing (fun _ _ => True) q := by
  cases call with
  | enter kolName token calldata bnbAmount kolTx =>
      have noRow : (x.tradeCall (.enter kolName token calldata bnbAmount kolTx)).All fun o :
          PaperOp => ¬ o.setsLedger :=
        Proc.All.bind (f := fun _ => .ret ()) (handleEnter_noRow ..) fun _ => trivial
      exact obeys_of_noRow noRow q
  | close key k => exact closeOne_obeys key k.reason k.triggerSellTx k.fraction q

/-- Every close under the key had a price, brought more than the gas, and was priced at `bnbUsd`. -/
def ClosedAt (key : PositionKey) (bnbUsd : ℚ) (h : List x.machine.Event) : Prop :=
  ∀ row ∈ handed h, row.key = key → row.closeReason ≠ .priceUnavailable ∧ row.bnbOutWei ≠ 0 ∧
    row.bnbUsdAtClose = bnbUsd

instance (key : PositionKey) (bnbUsd : ℚ) (h : List x.machine.Event) :
    Decidable (ClosedAt key bnbUsd h) :=
  inferInstanceAs (Decidable (∀ row ∈ handed h, row.key = key →
    row.closeReason ≠ .priceUnavailable ∧ row.bnbOutWei ≠ 0 ∧ row.bnbUsdAtClose = bnbUsd))

/-- Each close was charged a round trip. -/
def ChargedAll (key : PositionKey) (bnbUsd : ℚ) (s : x.Recorded) : Prop :=
  ClosedAt key bnbUsd s.2 → gasCharged key s.2 = closes key s.2 * (x.roundTripGas bnbUsd).toNat

theorem chargedAll_step {key : PositionKey} {bnbUsd : ℚ} {i : Tid} {s : x.Recorded} {o : PaperOp}
    {a : o.Ans} {shared : PaperWorld} {res : o.Res} (charged : ChargedAll key bnbUsd s)
    (allowed : x.pricing.allows (pricingAt i s.2) o) :
    ChargedAll key bnbUsd (shared, (⟨i, o, a, res⟩ : x.machine.Event) :: s.2) := by
  cases o with
  | appendTrade row =>
      intro closed
      obtain ⟨gas, taken, roundTrip⟩ := allowed
      have before : ClosedAt key bnbUsd s.2 :=
        fun old member => closed old (List.mem_append_left _ member)
      have count : closes key ((⟨i, .appendTrade row, a, res⟩ : x.machine.Event) :: s.2) =
          closes key s.2 + if row.key = key then 1 else 0 := by
        simp [closes, handed, List.countP_append, List.countP_cons]
      change (if row.key = key then (x.gasTaken (pricingAt i s.2) row).getD 0 else 0) +
          gasCharged key s.2 = _
      rw [count, charged before]
      by_cases own : row.key = key
      · obtain ⟨priced, some_, at_⟩ :=
          closed row (List.mem_append_right _ (List.mem_singleton_self row)) own
        rw [if_pos own, if_pos own, taken, Option.getD_some, roundTrip priced some_, at_]
        ring
      · rw [if_neg own, if_neg own]
        ring
  | _ => exact charged

/-- An amount of wei that fits is truncated. -/
theorem ofU128_f64AsU128 {amount : ℚ} (nonneg : 0 ≤ amount) (fits : amount < 2 ^ 128) :
    ((U256.ofU128 (f64AsU128 amount)).toNat : ℚ) = (⌊amount⌋ : ℤ) := by
  have small : ⌊amount⌋ < 2 ^ 128 := by
    apply Int.floor_lt.mpr
    push_cast
    exact fits
  have low : 0 ≤ ⌊amount⌋ := Int.floor_nonneg.mpr nonneg
  have kept : min ⌊amount⌋.toNat (2 ^ 128 - 1) = ⌊amount⌋.toNat := min_eq_left (by omega)
  rw [toNat_ofU128_f64AsU128, kept, ← Int.cast_natCast, Int.toNat_of_nonneg low]

/-- Half a round trip is the gas of a trade up to half a wei. -/
theorem tradeGasWei_near {bnbUsd : ℚ} (pos : 0 < bnbUsd) (gas : 0 ≤ x.costs.gasPerTradeUsd)
    (fits : x.costs.gasPerTradeUsd * 2 / bnbUsd * 10 ^ 18 < 2 ^ 128) :
    x.tradeGasWei bnbUsd ≤ x.costs.gasPerTradeUsd / bnbUsd * 10 ^ 18 ∧
      x.costs.gasPerTradeUsd / bnbUsd * 10 ^ 18 < x.tradeGasWei bnbUsd + 1 / 2 := by
  have twice : x.costs.gasPerTradeUsd * 2 / bnbUsd * 10 ^ 18 = 2 *
      (x.costs.gasPerTradeUsd / bnbUsd * 10 ^ 18) := by ring
  have nonneg : 0 ≤ x.costs.gasPerTradeUsd / bnbUsd * 10 ^ 18 := by positivity
  rw [twice] at fits
  unfold tradeGasWei roundTripGas
  rw [if_pos pos, twice]
  generalize x.costs.gasPerTradeUsd / bnbUsd * 10 ^ 18 = gas at fits nonneg
  rw [max_eq_left (by linarith), ofU128_f64AsU128 (by linarith) fits]
  have low := Int.floor_le (2 * gas)
  have high := Int.lt_floor_add_one (2 * gas)
  constructor
  · linarith
  · linarith

end PaperExecutor

/-- A trader whose trades cost a dollar of gas each. -/
def dollarGas : PaperExecutor := { costs := ⟨0, 0, 1⟩, archiveRpc := false, kolBudgets := none }

/-- Every quote is `amountOut`, and BNB is at 500 dollars. -/
def atFiveHundred (amountOut : U256) : (o : PaperOp) → o.Ans
  | .ask .bnbPrice => some 500
  | o => ({ quote := v2Quote amountOut } : PaperReplies).ans o

/-- The BUY of 1000 wei that the KOL "D" is copied with. -/
def dollarBuy : TradeCall := .enter "D" 0x4444#160 [] 1000 1

end BscMempool.Trader
