/-
Module: BscMempool.Proofs.ArchiveRate
Layer: Proofs
Purpose: When the requests to the archive node stay under their cap and keep their distance. A
  request that the two counters admit does, as long as the tasks go through the limiter one at a
  time; a request that nothing admits does not: the second attempt of a balance question, and every
  request of an archive quote after its first.
Trusted boundary: none
Main exports: GatePhase, archiveGate, oneAtATime, archive_rate_held, archive_rate_broken
-/
import BscMempool.Concurrent.Protocol
import BscMempool.Proofs.PaperScenario
import BscMempool.Trader.ArchiveLimit

namespace BscMempool.Trader

open Concurrent (Tid Machine Outcome Proc Protocol Config)
open Concurrent.Proc
open Numeric (satSubU64 toNat_satSubU64)

/-- How far a task is in the limiter: outside, past the check of the calls, past the reading of the
clock, past the check of the gap, past the store of the time, and past the count. -/
inductive GatePhase where
  | outside
  | counted
  | clocked (now : UInt64)
  | spaced (now : UInt64)
  | stamped (now : UInt64)
  | admitted (now : UInt64)
deriving DecidableEq, Repr

/-- The limiter is gone through in order, and everything else is done outside. -/
def archiveGate : Protocol ArchiveSig GatePhase where
  allows q
    | .unixNs => q = .counted
    | .loadLastNs => ∃ now, q = .clocked now
    | .storeLastNs now => q = .spaced now
    | .fetchAddCalls => ∃ now, q = .stamped now
    | .post (some now) _ => q = .admitted now
    | _ => q = .outside
  next
    | _, .loadCalls, calls => if calls ≥ ARCHIVE_DAILY_CAP then .outside else .counted
    | _, .unixNs, now => .clocked now
    | .clocked now, .loadLastNs, last =>
        if satSubU64 now last < ARCHIVE_MIN_GAP_NS then .outside else .spaced now
    | .spaced now, .storeLastNs _, _ => .stamped now
    | .stamped now, .fetchAddCalls, _ => .admitted now
    | _, .post (some _) _, _ => .outside
    | q, _, _ => q

/-! ### The tasks go through the limiter in order -/

/-- A part of a task that starts and ends outside the limiter. -/
def Outside {α : Type} (p : Archive α) : Prop :=
  p.Obeys archiveGate (fun q _ => q = .outside) .outside

theorem Outside.ret {α : Type} (value : α) : Outside (.ret value) := rfl

theorem Outside.bind {α β : Type} {p : Archive α} {f : α → Archive β} (first : Outside p)
    (rest : ∀ value, Outside (f value)) : Outside (p >>= f) := by
  apply Obeys.bind first
  rintro _ value rfl
  exact rest value

theorem outside_askNode (q : NodeQuery) : Outside (askNode q) := ⟨rfl, fun _ => rfl⟩

theorem outside_post (r : ArchiveRequest) : Outside (post none r) := ⟨rfl, fun _ => rfl⟩

theorem outside_paper (side : PaperSide) (o : PaperOp) : Outside (onArchive (.paper side o)) :=
  ⟨rfl, fun _ => rfl⟩

namespace PaperExecutor

theorem archiveBudget_obeys : archiveBudget.Obeys archiveGate
    (fun q now => match now with
      | none => q = .outside
      | some now => q = .admitted now) .outside := by
  apply Obeys.call rfl
  intro calls
  change UInt64 at calls
  dsimp only [archiveGate]
  split
  · exact rfl
  · apply Obeys.call rfl
    intro now
    change UInt64 at now
    have reads : archiveGate.allows (.clocked now) .loadLastNs := ⟨now, rfl⟩
    apply Obeys.call reads
    intro last
    change UInt64 at last
    dsimp only [archiveGate]
    split
    · exact rfl
    · apply Obeys.call rfl
      intro _
      have counts : archiveGate.allows (.stamped now) .fetchAddCalls := ⟨now, rfl⟩
      apply Obeys.call counts
      intro _
      exact rfl

/-- A part that starts admitted, by a request, and ends outside. -/
def Spends {α : Type} (now : UInt64) (p : Archive α) : Prop :=
  p.Obeys archiveGate (fun q _ => q = .outside) (.admitted now)

theorem spends_post {α : Type} {now : UInt64} {r : ArchiveRequest} {f : r.Reply → Archive α}
    (rest : ∀ reply, Outside (f reply)) : Spends now (post (some now) r >>= f) :=
  Obeys.call rfl rest

/-- What the limiter guards. -/
theorem outside_budget {α : Type} {otherwise : α} {f : UInt64 → Archive α}
    (rest : ∀ now, Spends now (f now)) :
    Outside (do
      match ← archiveBudget with
      | none => return otherwise
      | some now => f now) := by
  apply archiveBudget_obeys.bind
  intro q admitted ends
  cases admitted with
  | none => exact ends
  | some now =>
      subst ends
      exact rest now

variable {x : PaperExecutor}

theorem archiveBalance_outside (who : Address) (block : Nat) :
    Outside (x.archiveBalance who block) := by
  unfold archiveBalance
  split
  · exact .ret none
  · exact outside_budget fun now => spends_post fun reply => .ret reply

theorem awaitReceipt_outside (tx : B256) (attempts : Nat) : Outside (awaitReceipt tx attempts) := by
  induction attempts with
  | zero => exact .ret none
  | succ attempts ih =>
      apply (outside_askNode _).bind
      intro receipt
      cases receipt with
      | none => exact ih
      | some receipt => exact .ret _

theorem balanceAt_outside (who : Address) (block : Nat) : Outside (x.balanceAt who block) := by
  apply (outside_askNode _).bind
  intro balance
  cases balance with
  | none => exact archiveBalance_outside who block
  | some balance => exact .ret _

theorem nativeProceeds_outside (tx : B256) (receipt : TxReceipt) :
    Outside (x.nativeProceeds tx receipt) := by
  unfold nativeProceeds
  cases receipt.blockNumber with
  | none => exact .ret none
  | some blk =>
      apply (outside_askNode _).bind
      intro seller
      cases seller with
      | none => exact .ret none
      | some seller =>
          apply (balanceAt_outside seller blk).bind
          intro after
          cases after with
          | none => exact .ret none
          | some after =>
              dsimp only
              split
              · exact .ret none
              · apply (balanceAt_outside seller (blk - 1)).bind
                intro before
                cases before with
                | none => exact .ret none
                | some before => exact .ret _

theorem bnbLeg_outside (tx : B256) (receipt : TxReceipt) (wbnbAmt : ℚ) (isBuy : Bool) :
    Outside (x.bnbLeg tx receipt wbnbAmt isBuy) := by
  unfold bnbLeg
  split
  · exact (outside_askNode _).bind fun value => .ret _
  · split
    · exact .ret _
    · exact nativeProceeds_outside tx receipt

theorem kolExecPrice_outside (tx : B256) (token : Address) (decimals : Nat) (isBuy : Bool) :
    Outside (x.kolExecPrice tx token decimals isBuy) := by
  apply (awaitReceipt_outside tx 8).bind
  intro receipt
  cases receipt with
  | none => exact .ret none
  | some receipt =>
      dsimp only
      cases receipt.transfers with
      | none => exact .ret none
      | some transfers =>
          dsimp only
          split
          · exact .ret none
          · apply (bnbLeg_outside tx receipt _ isBuy).bind
            intro bnb
            cases bnb with
            | none => exact .ret none
            | some bnb => exact .ret _

theorem kolBlockOf_outside (tx : B256) (attempts : Nat) : Outside (kolBlockOf tx attempts) := by
  induction attempts with
  | zero => exact .ret none
  | succ attempts ih =>
      apply (outside_askNode _).bind
      intro receipt
      cases receipt with
      | none => exact ih
      | some receipt =>
          dsimp only
          split
          · exact .ret none
          · cases receipt.blockNumber with
            | none => exact ih
            | some block => exact .ret _

theorem awaitHead_outside (target attempts : Nat) : Outside (awaitHead target attempts) := by
  induction attempts with
  | zero => exact .ret ()
  | succ attempts ih =>
      apply (outside_askNode _).bind
      intro head
      dsimp only
      split
      · exact .ret ()
      · exact ih

theorem tradePrices_outside (token : Address) (decimals : Nat) (isBuy : Bool) (txs : List B256) :
    Outside (x.tradePrices token decimals isBuy txs) := by
  induction txs with
  | nil => exact .ret []
  | cons tx rest ih =>
      apply (kolExecPrice_outside tx token decimals isBuy).bind
      intro price
      exact ih.bind fun prices => .ret _

theorem measuredChainSwapPriceAtKolPlus1_outside (isBuy : Bool) (token : Address) (decimals : Nat)
    (kolTx : B256) :
    Outside (x.measuredChainSwapPriceAtKolPlus1 isBuy token decimals kolTx) := by
  unfold measuredChainSwapPriceAtKolPlus1
  split
  · exact .ret none
  · apply (kolBlockOf_outside kolTx 10).bind
    intro kolBlock
    cases kolBlock with
    | none => exact .ret none
    | some kolBlock =>
        apply (awaitHead_outside (kolBlock + 1) 10).bind
        intro _
        apply outside_budget
        intro now
        apply spends_post
        intro hashes
        cases hashes with
        | none => exact .ret none
        | some hashes =>
            exact (tradePrices_outside token decimals isBuy _).bind fun prices => .ret _

theorem quoteBestTier_outside (isBuy : Bool) (amountIn : U256) (token : Address) (block : Nat)
    (tiers : List UInt32) (best : Option QuoteResult) :
    Outside (quoteBestTier isBuy amountIn token block tiers best) := by
  induction tiers generalizing best with
  | nil => exact .ret best
  | cons feeTier rest ih =>
      apply (outside_post _).bind
      intro amountOut
      split
      · split
        · exact ih _
        · exact ih best
      · exact ih best

theorem archiveQuote_spends (now : UInt64) (isBuy : Bool) (amountIn : U256) (token : Address)
    (block : Nat) :
    Spends now (archiveQuote now isBuy amountIn token block) := by
  apply spends_post
  intro amountOut
  split
  · exact .ret _
  · exact quoteBestTier_outside isBuy amountIn token block _ none

theorem measuredV2V3FillAtKolPlus1_outside (isBuy : Bool) (amountIn : U256) (token : Address)
    (kolTx : B256) :
    Outside (x.measuredV2V3FillAtKolPlus1 isBuy amountIn token kolTx) := by
  apply (kolBlockOf_outside kolTx 10).bind
  intro kolBlock
  cases kolBlock with
  | none => exact .ret none
  | some kolBlock =>
      apply (awaitHead_outside (kolBlock + 1) 10).bind
      intro _
      apply (outside_askNode _).bind
      intro quote
      split
      · exact .ret _
      · split
        · exact .ret none
        · apply outside_budget
          intro now
          apply Obeys.bind (archiveQuote_spends now isBuy amountIn token _)
          rintro _ quote rfl
          exact Outside.ret _

theorem spell_outside (side : PaperSide) (o : PaperOp) : Outside (x.spell side o) := by
  unfold spell
  split
  · exact measuredV2V3FillAtKolPlus1_outside ..
  · exact measuredChainSwapPriceAtKolPlus1_outside ..
  · exact kolExecPrice_outside ..
  · exact outside_post _
  · exact outside_paper side _

end PaperExecutor

/-- Every task starts and ends outside the limiter and goes through it in order. -/
theorem body_outside (x : PaperSide → PaperExecutor) (t : PaperSide × PaperTask) :
    ((paperTraders x).body t).Obeys archiveGate (fun q _ => q = .outside) .outside :=
  Obeys.interpret (PaperExecutor.spell_outside t.1) _

/-! ### What the counters say -/

/-- Each of the requests, the latest first, came at least the gap after those before it. -/
def Apart (sent : List UInt64) : Prop :=
  sent.Pairwise fun later earlier => earlier.toNat + ARCHIVE_MIN_GAP_NS.toNat ≤ later.toNat

/-- Nobody is in the limiter: the calls are the requests, and the time is not before
the latest of them. -/
structure Settled (w : ArchiveWorld) : Prop where
  count : w.calls.toNat = w.sent.length
  cap : w.sent.length ≤ ARCHIVE_DAILY_CAP.toNat
  apart : Apart w.sent
  latest : ∀ t ∈ w.sent, t.toNat ≤ w.lastNs.toNat

/-- A request at `now` keeps its distance from those before it. -/
structure Ahead (now : UInt64) (w : ArchiveWorld) : Prop where
  last : w.lastNs = now
  apart : Apart w.sent
  clear : ∀ t ∈ w.sent, t.toNat + ARCHIVE_MIN_GAP_NS.toNat ≤ now.toNat

/-- What holds while one task is in the limiter, by how far it is. -/
def Good : GatePhase → ArchiveWorld → Prop
  | .outside, w => Settled w
  | .counted, w | .clocked _, w => Settled w ∧ w.calls.toNat < ARCHIVE_DAILY_CAP.toNat
  | .spaced now, w => Settled w ∧ w.calls.toNat < ARCHIVE_DAILY_CAP.toNat ∧
      w.lastNs.toNat + ARCHIVE_MIN_GAP_NS.toNat ≤ now.toNat
  | .stamped now, w =>
      Ahead now w ∧ w.calls.toNat = w.sent.length ∧ w.calls.toNat < ARCHIVE_DAILY_CAP.toNat
  | .admitted now, w =>
      Ahead now w ∧ w.calls.toNat = w.sent.length + 1 ∧ w.calls.toNat ≤ ARCHIVE_DAILY_CAP.toNat

theorem Good.congr {q : GatePhase} {w w' : ArchiveWorld} (good : Good q w)
    (calls : w'.calls = w.calls)
    (lastNs : w'.lastNs = w.lastNs) (sent : w'.sent = w.sent) : Good q w' := by
  have settled : Settled w → Settled w' := by
    rintro ⟨count, cap, apart, latest⟩
    constructor
    · rw [calls, sent, count]
    · rw [sent]
      exact cap
    · rw [sent]
      exact apart
    · rw [sent, lastNs]
      exact latest
  have ahead : ∀ {now}, Ahead now w → Ahead now w' := by
    rintro now ⟨last, apart, clear⟩
    constructor
    · rw [lastNs, last]
    · rw [sent]
      exact apart
    · rw [sent]
      exact clear
  cases q with
  | outside => exact settled good
  | counted | clocked =>
      obtain ⟨before, below⟩ := good
      exact ⟨settled before, calls ▸ below⟩
  | spaced now =>
      obtain ⟨before, below, gap⟩ := good
      exact ⟨settled before, calls ▸ below, lastNs ▸ gap⟩
  | stamped now | admitted now =>
      obtain ⟨before, count, below⟩ := good
      exact ⟨ahead before, by rw [calls, sent, count], calls ▸ below⟩

/-- The requests are within the cap and keep their distance, whoever is in the limiter. -/
theorem Good.bounds {q : GatePhase} {w : ArchiveWorld} (good : Good q w) :
    w.sent.length ≤ ARCHIVE_DAILY_CAP.toNat ∧ Apart w.sent := by
  cases q with
  | outside => exact ⟨good.cap, good.apart⟩
  | counted | clocked => exact ⟨good.1.cap, good.1.apart⟩
  | spaced now => exact ⟨good.1.cap, good.1.apart⟩
  | stamped now =>
      obtain ⟨ahead, count, below⟩ := good
      exact ⟨by omega, ahead.apart⟩
  | admitted now =>
      obtain ⟨ahead, count, below⟩ := good
      exact ⟨by omega, ahead.apart⟩

/-- What the check of the gap lets through is the gap ahead of the last request. -/
theorem gap_of_not_lt {now last : UInt64} (far : ¬ satSubU64 now last < ARCHIVE_MIN_GAP_NS) :
    last.toNat + ARCHIVE_MIN_GAP_NS.toNat ≤ now.toNat := by
  have apart : ARCHIVE_MIN_GAP_NS.toNat ≤ now.toNat - last.toNat := by
    rw [← toNat_satSubU64]
    exact UInt64.le_iff_toNat_le.mp (UInt64.not_lt.mp far)
  have positive : 0 < ARCHIVE_MIN_GAP_NS.toNat := by decide
  omega

/-- A step of the task in the limiter, or of any task while nobody is. -/
theorem Good.step {q : GatePhase} {i : Tid} {o : ArchiveOp} {a : o.Ans} {w : ArchiveWorld}
    {out : Outcome ArchiveWorld (PaperSide × PaperTask) o.Res} (good : Good q w)
    (allowed : archiveGate.allows q o)
    (metered : ∀ r, o ≠ .post none r) (did : o.exec i a w = some out) :
    Good (archiveGate.next q o out.res) out.shared := by
  cases o with
  | paper side o =>
      cases allowed
      obtain ⟨inner, -, rfl⟩ := Option.map_eq_some_iff.mp did
      exact Good.congr (q := .outside) good rfl rfl rfl
  | node query =>
      cases allowed
      cases did
      exact good
  | loadCalls =>
      cases allowed
      cases did
      change Good (if w.calls ≥ ARCHIVE_DAILY_CAP then .outside else .counted) w
      split
      · exact good
      · rename_i below
        exact ⟨good, Nat.lt_of_not_le fun le => below (UInt64.le_iff_toNat_le.mpr le)⟩
  | unixNs =>
      cases allowed
      cases did
      exact good
  | loadLastNs =>
      obtain ⟨now, rfl⟩ := allowed
      cases did
      change Good (if satSubU64 now w.lastNs < ARCHIVE_MIN_GAP_NS then .outside else .spaced now) w
      split
      · exact good.1
      · rename_i far
        exact ⟨good.1, good.2, gap_of_not_lt far⟩
  | storeLastNs now =>
      cases allowed
      cases did
      obtain ⟨settled, below, gap⟩ := good
      refine ⟨⟨rfl, settled.apart, ?_⟩, settled.count, below⟩
      intro t member
      exact (Nat.add_le_add_right (settled.latest t member) _).trans gap
  | fetchAddCalls =>
      obtain ⟨now, rfl⟩ := allowed
      cases did
      obtain ⟨ahead, count, below⟩ := good
      have cap : ARCHIVE_DAILY_CAP.toNat = 800 := rfl
      have more : (w.calls + 1).toNat = w.calls.toNat + 1 := by
        rw [UInt64.toNat_add]
        exact Nat.mod_eq_of_lt (by rw [UInt64.toNat_one]; omega)
      refine ⟨⟨ahead.last, ahead.apart, ahead.clear⟩, ?_, ?_⟩
      · change (w.calls + 1).toNat = w.sent.length + 1
        omega
      · change (w.calls + 1).toNat ≤ _
        omega
  | post admitted r =>
      cases admitted with
      | none => exact absurd rfl (metered r)
      | some now =>
          cases allowed
          cases did
          obtain ⟨⟨last, apart, clear⟩, count, cap⟩ := good
          constructor
          · exact count
          · change w.sent.length + 1 ≤ _
            omega
          · exact List.Pairwise.cons clear apart
          · intro t member
            change t.toNat ≤ w.lastNs.toNat
            rw [last]
            rcases List.mem_cons.mp member with rfl | earlier
            · exact Nat.le_refl _
            · exact (Nat.le_add_right _ _).trans (clear t earlier)

/-! ### Runs -/

variable {x : PaperSide → PaperExecutor}

/-- How far the task at `i` is in the limiter. -/
def gateAt (i : Tid) (h : List (paperTraders x).Event) : GatePhase := archiveGate.phase i .outside h

/-- The steps with which every request is admitted and the tasks go through the limiter
one at a time: no request is posted unmetered, and a task loads the calls only while no
other is in the limiter. -/
def oneAtATime (_ : Tid) (o : ArchiveOp) (_ : o.Ans)
    (s : ArchiveWorld × List (paperTraders x).Event) : Bool :=
  match o with
  | .post none _ => false
  | .loadCalls => s.2.all fun e => decide (gateAt e.tid s.2 = .outside)
  | _ => true

instance (i : Tid) (o : ArchiveOp) (a : (paperTraders x).recording.Ans o)
    (s : ArchiveWorld × List (paperTraders x).Event) : Decidable (oneAtATime i o a s = true) :=
  decEq (oneAtATime i o a s) true

/-- At most one task is in the limiter, and the counters are good for how far it is. -/
def Limited (s : ArchiveWorld × List (paperTraders x).Event) : Prop :=
  ∃ j, (∀ k, k ≠ j → gateAt k s.2 = .outside) ∧ Good (gateAt j s.2) s.1

section Step

variable {i : Tid} {o : ArchiveOp} {a : o.Ans} {res : o.Res} {h : List (paperTraders x).Event}

theorem gateAt_own : gateAt i ((⟨i, o, a, res⟩ : (paperTraders x).Event) :: h) =
    archiveGate.next (gateAt i h) o res :=
  Protocol.phase_own rfl

theorem gateAt_other {k : Tid} (ne : k ≠ i) :
    gateAt k ((⟨i, o, a, res⟩ : (paperTraders x).Event) :: h) = gateAt k h :=
  Protocol.phase_other (Ne.symm ne)

/-- The task that may be in the limiter makes a step. -/
theorem Limited.own {w : ArchiveWorld} {out : Outcome ArchiveWorld (PaperSide × PaperTask) o.Res}
    (others : ∀ k, k ≠ i → gateAt k h = .outside) (good : Good (gateAt i h) w)
    (allowed : archiveGate.allows (gateAt i h) o) (metered : ∀ r, o ≠ .post none r)
    (did : o.exec i a w = some out) :
    Limited (x := x) (out.shared, ⟨i, o, a, out.res⟩ :: h) := by
  refine ⟨i, ?_, ?_⟩
  · intro k ne
    rw [gateAt_other ne]
    exact others k ne
  · rw [gateAt_own]
    exact good.step allowed metered did

/-- A step that leaves the phases and the counters alone. -/
theorem Limited.aside {w : ArchiveWorld} {out : Outcome ArchiveWorld (PaperSide × PaperTask) o.Res}
    {j : Tid} (others : ∀ k, k ≠ j → gateAt k h = .outside) (good : Good (gateAt j h) w)
    (same : ∀ q : GatePhase, archiveGate.next q o out.res = q) (calls : out.shared.calls = w.calls)
    (lastNs : out.shared.lastNs = w.lastNs) (sent : out.shared.sent = w.sent) :
    Limited (x := x) (out.shared, ⟨i, o, a, out.res⟩ :: h) := by
  have kept : ∀ k, gateAt k ((⟨i, o, a, out.res⟩ : (paperTraders x).Event) :: h) = gateAt k h := by
    intro k
    by_cases mine : k = i
    · subst mine
      rw [gateAt_own, same]
    · exact gateAt_other mine
  refine ⟨j, fun k ne => (kept k).trans (others k ne), ?_⟩
  change Good (gateAt j _) out.shared
  rw [kept]
  exact good.congr calls lastNs sent

theorem limited_step {w : ArchiveWorld} {out : Outcome ArchiveWorld (PaperSide × PaperTask) o.Res}
    (limited : Limited (x := x) (w, h)) (allowed : archiveGate.allows (gateAt i h) o)
    (meets : oneAtATime (x := x) i o a (w, h) = true) (did : o.exec i a w = some out) :
    Limited (x := x) (out.shared, ⟨i, o, a, out.res⟩ :: h) := by
  obtain ⟨j, others, good⟩ := limited
  have metered : ∀ r, o ≠ .post none r := by
    rintro r rfl
    cases meets
  by_cases own : i = j
  · subst own
    exact .own others good allowed metered did
  · have outside : gateAt i h = .outside := others i own
    rw [outside] at allowed
    -- outside the limiter a task makes steps that leave the counters alone, or enters while nobody
    -- else is in it
    cases o with
    | paper side o =>
        obtain ⟨inner, -, rfl⟩ := Option.map_eq_some_iff.mp did
        exact .aside others good (fun q => by cases q <;> rfl) rfl rfl rfl
    | node query =>
        cases did
        exact .aside others good (fun q => by cases q <;> rfl) rfl rfl rfl
    | loadCalls =>
        have acted : ∀ e ∈ h, archiveGate.phase e.tid .outside h = .outside :=
          fun e member => of_decide_eq_true (List.all_eq_true.mp meets e member)
        have all : ∀ k, gateAt k h = .outside :=
          Protocol.forall_phase (R := fun _ q => q = GatePhase.outside) acted fun _ => rfl
        have settled : Good (gateAt i h) w := by
          rw [all j] at good
          rw [outside]
          exact good
        rw [← outside] at allowed
        exact .own (fun k _ => all k) settled allowed metered did
    | unixNs => cases allowed
    | loadLastNs =>
        obtain ⟨now, no⟩ := allowed
        cases no
    | storeLastNs now => cases allowed
    | fetchAddCalls =>
        obtain ⟨now, no⟩ := allowed
        cases no
    | post admitted r =>
        cases admitted with
        | none => exact absurd rfl (metered r)
        | some now => cases allowed

end Step

/-- In every run of the paper traders in which every request is admitted and the tasks go through
    the limiter one at a time: the requests to the archive are at most the cap, and each is at least
    the gap after those before it. -/
theorem archive_rate_held (x : PaperSide → PaperExecutor) (traders : PaperSide → PaperWorld)
    (tasks : List (PaperSide × PaperTask))
    (c : Config ArchiveSig (ArchiveWorld × List (paperTraders x).Event)
      (PaperSide × PaperTask) Unit)
    (run : (paperTraders x).recording.Run (fun i o a s => oneAtATime i o a s = true)
      ((paperTraders x).recording.start ({ traders := traders }, []) tasks) c) :
    c.shared.1.sent.length ≤ ARCHIVE_DAILY_CAP.toNat ∧
      c.shared.1.sent.Pairwise fun later earlier =>
        earlier.toNat + ARCHIVE_MIN_GAP_NS.toNat ≤ later.toNat := by
  have limited : Limited c.shared := by
    apply Machine.invariant_of_obeyed (I := Limited) (body_outside x) _ run
    · exact ⟨0, fun _ _ => rfl, rfl, Nat.zero_le _, List.Pairwise.nil, by simp⟩
    · intro i fresh t o a s out limited _ allowed meets did
      exact limited_step limited allowed meets did
  obtain ⟨j, -, good⟩ := limited
  exact good.bounds

/-! ### Runs on fixed inputs -/

/-- Two paper traders with an archive node. -/
def archived (_ : PaperSide) : PaperExecutor :=
  { costs := ⟨0, 0, 0⟩, archiveRpc := true, kolBudgets := none }

/-- What the nodes answer while a schedule entry lasts: the KOL's transactions are in block 6, the
local node has no state of the past, and the time is `nowNs`. -/
structure ArchiveReplies where
  paper : PaperReplies := { quote := v2Quote 1000, order := [paperKey] }
  nowNs : UInt64

def ArchiveReplies.ans (r : ArchiveReplies) : (o : ArchiveOp) → o.Ans
  | .paper _ o => r.paper.ans o
  | .node (.receipt _) => some ⟨true, some 6, none, 0, 0⟩
  | .node .headBlock => some 7
  | .node (.txValue _) => none
  | .node (.txFrom _) => none
  | .node (.balance ..) => none
  | .node (.simulate ..) => none
  | .loadCalls => ()
  | .unixNs => r.nowNs
  | .loadLastNs => ()
  | .storeLastNs _ => ()
  | .fetchAddCalls => ()
  | .post _ (.getBalance ..) => (r.nowNs, none)
  | .post _ (.getLogs ..) => (r.nowNs, none)
  | .post _ (.quoteV2 ..) => (r.nowNs, some 900)
  | .post _ (.quoteV3 ..) => (r.nowNs, none)
  | .post _ (.balanceOf ..) => (r.nowNs, some 5)

/-- Two BUYs are priced from the archive, half a second apart. -/
theorem archive_rate_held_twice :
    ∃ c, (paperTraders archived).recording.Run (fun i o a s => oneAtATime i o a s = true)
        ((paperTraders archived).recording.start ({ traders := fun _ => {} }, [])
          [(.public_, .consumer [paperBuy, paperBuy])]) c ∧
      c.shared.1.sent = [1500000000, 1000000000] ∧
      c.shared.1.sent.length ≤ ARCHIVE_DAILY_CAP.toNat ∧
      c.shared.1.sent.Pairwise fun later earlier =>
        earlier.toNat + ARCHIVE_MIN_GAP_NS.toNat ≤ later.toNat := by
  obtain ⟨c, run, sent⟩ : ∃ c, (paperTraders archived).recording.Run
      (fun i o a s => oneAtATime i o a s = true)
        ((paperTraders archived).recording.start ({ traders := fun _ => {} }, [])
          [(.public_, .consumer [paperBuy, paperBuy])]) c ∧
      c.shared.1.sent = [1500000000, 1000000000] :=
    Machine.exists_run_of_follow
      [(0, 12, ({ nowNs := 1000000000 } : ArchiveReplies).ans),
        (0, 19, ({ nowNs := 1500000000 } : ArchiveReplies).ans)]
      (by decide +kernel)
  exact ⟨c, run, sent, archive_rate_held archived _ _ c run⟩

/-- The position that the BUY of the KOL "D" left. -/
def copied : OpenPosition :=
  { portfolio := .fastTip, kolName := "D", tokenAddress := 0x4444#160, tokenSymbol := "T",
    tokenDecimals := 18, bnbIn := 1000, tokensHeld := 1000, openedAtBlock := 7, openedAtUnixNs := 0,
    lastAddedBlock := 7, buyTxHashes := [1] }

/-- The KOL sells in block 1000; where the local node has no state of it, both balances
come from the archive. -/
theorem archive_rate_broken :
    ∃ c, (paperTraders archived).recording.Run (paperTraders archived).recording.anyStep
        ((paperTraders archived).recording.start
          ({ traders := fun _ => { book := PositionBook.empty.put copied } }, [])
          [(.public_, .consumer [(.exit "D" 0x4444#160 1000 2 9, [])]), (.public_, .sweeper 0 0)])
            c ∧
      c.shared.1.sent = [1000000001, 1000000000] ∧
      ¬ c.shared.1.sent.Pairwise fun later earlier =>
        earlier.toNat + ARCHIVE_MIN_GAP_NS.toNat ≤ later.toNat :=
  Machine.exists_run_of_follow (C := (paperTraders archived).recording.anyStep)
    [(0, 4, ({ nowNs := 1000000000 } : ArchiveReplies).ans),
      (0, 2, ({ nowNs := 1000000001 } : ArchiveReplies).ans)]
    (by decide +kernel)

end BscMempool.Trader
