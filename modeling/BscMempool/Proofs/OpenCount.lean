/-
Module: BscMempool.Proofs.OpenCount
Layer: Proofs
Purpose: When the open-position counter counts the open positions: as long as no BUY fires for a
  token that is held and every SELL that fires closes its holding.
Trusted boundary: none
Main exports: Holdings, holdings, fullExit, counted, countExact, open_count_exact,
  partial_exit_uncounts
-/
import BscMempool.Proofs.Scenario
import BscMempool.Proofs.TaskOps
import Mathlib.Data.Finset.Card

namespace BscMempool.Trader

open Concurrent (Tid Machine Contract Outcome Config Proc)
open Concurrent.Proc
open LiveExecutor

variable {w : TrailWatcher}

/-! ### What a history says about the holdings -/

/-- The fraction the KOL sold, computed from the two balances that were read of him; all of it where
they say nothing. -/
def soldFraction (fractions : Fractions) : List (Option U256) → ℚ
  | [some pre, some post] => if pre = 0 ∨ post ≥ pre then 1 else fractions.ofPart (pre - post) pre
  | _ => 1

/-- An exit on these balances sells everything. -/
def fullExit (fractions : Fractions) (asked : List (Option U256)) : Bool :=
  decide (soldFraction fractions asked ≥ fractions.fullAt)

/-- The tokens whose BUY has fired and whose holding was not fully closed since, and the balances of
the KOL that were read under the latest exit lock. -/
structure Holdings where
  held : Finset Address := ∅
  asked : List (Option U256) := []

namespace Holdings

/-- A trade fires. -/
def fire (fractions : Fractions) (k : Holdings) (tx : TransactionRequest) : Holdings :=
  match tx.input.bought, tx.input.sold with
  | some token, _ => { k with held := insert token k.held }
  | none, some (token, _) =>
      if fullExit fractions k.asked then { k with held := k.held.erase token } else k
  | none, none => k

/-- A trade moves the counter the way it moves the holdings: a BUY is of a token that is not held,
and a SELL closes a token that is held, or nothing is held. -/
def fits (fractions : Fractions) (k : Holdings) (tx : TransactionRequest) : Bool :=
  match tx.input.bought, tx.input.sold with
  | some token, _ => decide (token ∉ k.held)
  | none, some (token, _) =>
      decide (k.held = ∅) || fullExit fractions k.asked && decide (token ∈ k.held)
  | none, none => true

def note (fractions : Fractions) (k : Holdings) : (o : Op) → o.Ans → Holdings
  | .trade (.lockExit _), _ => { k with asked := [] }
  | .ask (.balanceOfAt ..), reply => { k with asked := k.asked ++ [reply] }
  | .submit tx _ _, sent => if sent.ok then k.fire fractions tx else k
  | .shadow tx, _ => k.fire fractions tx
  | _, _ => k

end Holdings

def holdings : List w.machine.Event → Holdings
  | [] => {}
  | e :: older => (holdings older).note w.exec.fractions e.op e.ans

/-- Every trade that fires fits. -/
def counted : (o : Op) → o.Ans → List w.machine.Event → Bool
  | .submit tx _ _, (sent : Submitted), h => !sent.ok || (holdings h).fits w.exec.fractions tx
  | .shadow tx, _, h => (holdings h).fits w.exec.fractions tx
  | _, _, _ => true

instance (o : Op) (a : w.machine.recording.Ans o) (s : LiveRecorded w) :
    Decidable (counted o a s.2 = true) := decEq (counted o a s.2) true

/-- With these holdings the counter reads as the number of tokens held, a BUY is tried with fewer
than `most` of them, and an exit is full or partial as the balances say. -/
def Holdings.agree (fractions : Fractions) (most : Nat) (k : Holdings) : (o : Op) → o.Res → Bool
  | .env .openCount, (n : Nat) => decide (n = k.held.card)
  | .submit _ _ .buy, _ => decide (k.held.card < most)
  | .submit _ _ (.sell memo), _ => memo.full == fullExit fractions k.asked
  | .shadow tx, _ => tx.input.bought.isNone || decide (k.held.card < most)
  | _, _ => true

/-- Whatever was done agreed with the holdings of its time. -/
def countExact (most : Nat) : List w.machine.Event → Bool
  | [] => true
  | e :: older => (holdings older).agree w.exec.fractions most e.op e.res && countExact most older

theorem countExact_cons {most : Nat} {e : w.machine.Event} {older : List w.machine.Event}
    (now : (holdings older).agree w.exec.fractions most e.op e.res = true)
    (past : countExact most older = true) :
    countExact most (e :: older) = true := by
  rw [countExact, now, past]
  rfl

/-- Tasks in the background of the one that trades. -/
def Task.background : Task → Bool
  | .finalizePosition .. | .persistNonce _ | .reserve | .resync => true
  | _ => false

namespace OpenCount

/-! ### The counter and the holdings -/

/-- The counter, the holdings, and whether the counter was exact so far. -/
structure View where
  openCount : Nat
  holdings : Holdings
  exact_ : Bool

def view (most : Nat) (s : LiveRecorded w) : View :=
  ⟨s.1.env.openCount, holdings s.2, countExact most s.2⟩

/-- The counter is up to date. -/
def Idle (v : View) : Prop := v.openCount = v.holdings.held.card

/-- A trade that fired is not counted yet. -/
def Opening (v : View) : Prop := v.openCount + 1 = v.holdings.held.card

def Closing (v : View) : Prop := v.openCount - 1 = v.holdings.held.card

/-- Trades come from the one consumer only. -/
def Starts : Task → Tid → View → Prop
  | .consumer .., i, v => i = 0 ∧ Idle v
  | t, _, _ => t.background = true

def contract (w : TrailWatcher) (most : Nat) : Contract w.machine.recording :=
  .owned (fun _ o a s => counted o a s.2 = true) 0 (view most) (fun v => v.exact_ = true) Starts

/-! ### Operations beside the trades -/

/-- Operations that leave the counter and the holdings alone. -/
def aside : Op → Prop
  | .env .openCount | .env .recordOpened | .env .recordClosed => False
  | .trade (.lockExit _) => False
  | .ask (.balanceOfAt ..) => False
  | .submit _ _ .buy | .submit _ _ (.sell _) => False
  | .submit tx _ _ | .shadow tx => tx.input.bought = none ∧ tx.input.sold = none
  | .spawn t => t.background = true
  | _ => True

theorem aside_of_basic {o : Op} (basic : o.basic) : aside o := by
  rcases basic with mild | signs
  · cases o with
    | ask q =>
        have present : q.past = false := mild
        cases q <;> trivial
    | env o => cases o <;> trivial
    | _ => exact mild.elim
  · cases o with
    | nonce | sign => trivial
    | spawn task => cases task <;> first | rfl | exact signs.elim
    | _ => exact signs.elim

theorem aside_of_readies {broadcast : Bool} {o : Op} (readies : o.readies broadcast) : aside o := by
  unfold Op.readies at readies
  split at readies
  · trivial
  · exact readies
  · exact readies.2
  · exact aside_of_basic readies

theorem aside_of_finalizes {broadcast : Bool} {o : Op} (finalizes : o.finalizes broadcast) :
    aside o := by
  unfold Op.finalizes at finalizes
  split at finalizes
  case h_5 => exact finalizes.2
  case h_6 => exact aside_of_basic finalizes
  all_goals trivial

theorem aside_of_may {broadcast : Bool} {t : Task} {o : Op} (background : t.background = true)
    (may : t.may broadcast o) : aside o := by
  cases t with
  | finalizePosition => exact aside_of_finalizes may
  | persistNonce | reserve | resync => exact aside_of_basic may
  | _ => cases background

variable {most : Nat}

theorem aside_openCount {o : Op} (kind : aside o) {i fresh : Tid} {a : o.Ans} {s : World}
    {out : Outcome World Task o.Res} (did : o.exec i fresh a s = some out) :
    out.shared.env.openCount = s.env.openCount := by
  cases o with
  | env o =>
      obtain ⟨⟨res, v⟩, ran, rfl⟩ := Option.map_eq_some_iff.1 did
      apply (EnvOp.exec_frame ran).openCount
      · rintro rfl
        exact kind
      · rintro rfl
        exact kind
  | _ => exact congrArg Env.openCount (exec_env did fun e same => by cases same)

/-- A transaction that neither buys nor sells moves no holding. -/
theorem fire_plain (fractions : Fractions) (k : Holdings) {tx : TransactionRequest}
    (bought : tx.input.bought = none) (sold : tx.input.sold = none) : k.fire fractions tx = k := by
  simp [Holdings.fire, bought, sold]

theorem aside_holdings {o : Op} (kind : aside o) {i : Tid} {a : o.Ans} {r : o.Res}
    {h : List w.machine.Event} : @holdings w (⟨i, o, a, r⟩ :: h) = holdings h := by
  cases o with
  | ask q => cases q <;> first | rfl | exact kind.elim
  | trade o => cases o <;> first | rfl | exact kind.elim
  | submit tx hash site =>
      have plain : tx.input.bought = none ∧ tx.input.sold = none := by
        cases site <;> first | exact kind | exact kind.elim
      simp [holdings, Holdings.note, fire_plain _ _ plain.1 plain.2]
  | shadow tx => simp [holdings, Holdings.note, fire_plain _ _ kind.1 kind.2]
  | _ => rfl

theorem aside_exact {o : Op} (kind : aside o) {i : Tid} {a : o.Ans} {r : o.Res}
    {h : List w.machine.Event} :
    @countExact w most (⟨i, o, a, r⟩ :: h) = countExact most h := by
  have agrees : (holdings h).agree w.exec.fractions most o r = true := by
    cases o with
    | env o => cases o <;> first | rfl | exact kind.elim
    | submit tx hash site => cases site <;> first | rfl | exact kind.elim
    | shadow tx =>
        have bought : tx.input.bought = none := kind.1
        simp [Holdings.agree, bought]
    | _ => rfl
  rw [countExact, agrees, Bool.true_and]

theorem aside_still {o : Op} (kind : aside o) : (contract w most).Still (view most) o := by
  intro i fresh a s out did
  obtain ⟨ran, past⟩ := Machine.exec_of_recording did
  constructor
  · have count : out.shared.1.env.openCount = s.1.env.openCount := aside_openCount kind ran
    have held : holdings out.shared.2 = holdings s.2 :=
      (congrArg holdings past).trans (aside_holdings kind)
    have kept : countExact most out.shared.2 = countExact most s.2 :=
      (congrArg (countExact most) past).trans (aside_exact kind)
    unfold view
    rw [count, held, kept]
  · intro j t started _
    rcases exec_started ran started with rfl | ⟨token, route, bnbIn, txHash, e, rfl, rfl⟩
    · have background : t.background = true := kind
      cases t <;> first | exact background | cases background
    · rfl

/-- Operations beside the trades keep what the consumer knows. -/
theorem aside_wp {P : View → Prop} {α : Type} {p : Live α} (all : p.All aside)
    {Q : α → LiveRecorded w → Prop} (done : ∀ value s, P (view most s) → Q value s)
    {s : LiveRecorded w} (now : P (view most s)) : (contract w most).wp 0 p Q s :=
  Contract.wp_still Contract.owned_about Contract.owned_stable (all.mono fun _ => aside_still)
    done now

theorem mild_wp {P : View → Prop} {α : Type} {p : Live α} (mild : p.All Op.mild)
    {Q : α → LiveRecorded w → Prop} (done : ∀ value s, P (view most s) → Q value s)
    {s : LiveRecorded w} (now : P (view most s)) : (contract w most).wp 0 p Q s :=
  aside_wp (mild.mono fun _ mild => aside_of_basic (.inl mild)) done now

/-! ### Operations of the trades -/

/-- The rule for an operation of the consumer that starts nothing. -/
theorem triple {o : Op} {P : View → Prop} {Q : o.Res → View → Prop}
    (does : ∀ (s : LiveRecorded w) (a : o.Ans), (view most s).exact_ = true → P (view most s) →
      counted o a s.2 = true → ∀ fresh (out : Outcome World Task o.Res),
        o.exec 0 fresh a s.1 = some out → out.spawned = [] ∧
          (view most (out.shared, ⟨0, o, a, out.res⟩ :: s.2)).exact_ = true ∧
          Q out.res (view most (out.shared, ⟨0, o, a, out.res⟩ :: s.2))) :
    (contract w most).Triple 0 (fun s => P (view most s)) o fun r s => Q r (view most s) :=
  Contract.recorded_triple does

theorem fire_bought {fractions : Fractions} {k : Holdings} {tx : TransactionRequest}
    {token : Address} (bought : tx.input.bought = some token) :
    k.fire fractions tx = { k with held := insert token k.held } := by
  simp [Holdings.fire, bought]

/-- A BUY that fits opens one more position. -/
theorem card_bought {fractions : Fractions} {k : Holdings} {tx : TransactionRequest}
    {token : Address} (bought : tx.input.bought = some token) (fits : k.fits fractions tx = true) :
    (k.fire fractions tx).held.card = k.held.card + 1 := by
  have fresh : token ∉ k.held := by simpa [Holdings.fits, bought] using fits
  rw [fire_bought bought]
  exact Finset.card_insert_of_notMem fresh

/-- A SELL that fits closes a position, where there is one. -/
theorem card_sold {fractions : Fractions} {k : Holdings} {tx : TransactionRequest}
    {sale : Address × U256} (bought : tx.input.bought = none) (sold : tx.input.sold = some sale)
    (fits : k.fits fractions tx = true) :
    k.held.card - 1 = (k.fire fractions tx).held.card := by
  have fits : k.held = ∅ ∨ fullExit fractions k.asked = true ∧ sale.1 ∈ k.held := by
    simpa [Holdings.fits, bought, sold] using fits
  have fires : k.fire fractions tx = if fullExit fractions k.asked then
      { k with held := k.held.erase sale.1 } else k := by
    simp [Holdings.fire, bought, sold]
  rw [fires]
  rcases fits with none_ | ⟨full, held⟩
  · split <;> simp [none_]
  · rw [if_pos full]
    exact (Finset.card_erase_of_mem held).symm

/-- The consumer has read the counter. -/
def Told (openPositions : Nat) (v : View) : Prop := Idle v ∧ openPositions = v.holdings.held.card

/-- The rule for reading the counter. -/
theorem openCount_triple :
    (contract w most).Triple 0 (fun s => Idle (view most s)) (.env .openCount)
      fun (n : Nat) s => Told n (view most s) := by
  refine triple (o := .env .openCount) (P := Idle) (Q := Told) ?_
  intro s a exact_ idle _ fresh out did
  cases did
  have same : s.1.env.openCount = (holdings s.2).held.card := idle
  exact ⟨rfl, countExact_cons (decide_eq_true same) exact_, idle, same⟩

/-- The consumer holds fewer tokens than it may. -/
def Below (most : Nat) (v : View) : Prop := Idle v ∧ v.holdings.held.card < most

theorem checkLimits_triple (trade : TradeCheck) {openPositions : Nat}
    (asked : trade.currentOpenPositions = openPositions) :
    (contract w most).Triple 0 (fun s => Told openPositions (view most s))
      (.env (.checkLimits w.exec.config trade)) fun (failed : Option LimitFail) s =>
        Idle (view most s) ∧
          (failed = none → (view most s).holdings.held.card <
            w.exec.config.limits.maxOpenPositions) := by
  refine triple (o := .env (.checkLimits w.exec.config trade))
    (P := Told openPositions)
    (Q := fun (failed : Option LimitFail) v => Idle v ∧
      (failed = none → v.holdings.held.card < w.exec.config.limits.maxOpenPositions)) ?_
  rintro s nowMs exact_ ⟨idle, open_⟩ - fresh out did
  cases did
  refine ⟨rfl, exact_, idle, fun passes => ?_⟩
  have few := (LimitsConfig.admits_of_gates passes).openPositions
  rw [asked] at few
  exact open_ ▸ few

theorem submitBuy_triple (tx : TransactionRequest) (hash : B256) {token : Address}
    (bought : tx.input.bought = some token) :
    (contract w most).Triple 0 (fun s => Below most (view most s)) (.submit tx hash .buy)
      fun (ok : Bool) s => if ok then Opening (view most s) else Idle (view most s) := by
  refine triple (o := .submit tx hash .buy) (P := Below most)
    (Q := fun (ok : Bool) v => if ok then Opening v else Idle v) ?_
  rintro s ⟨accepted, ok⟩ exact_ ⟨idle, below⟩ fits fresh out did
  cases did
  cases ok with
  | false => exact ⟨rfl, countExact_cons (decide_eq_true below) exact_, idle⟩
  | true =>
      have fits : (holdings s.2).fits w.exec.fractions tx = true := by simpa [counted] using fits
      have idle : s.1.env.openCount = (holdings s.2).held.card := idle
      have opening :
          s.1.env.openCount + 1 = ((holdings s.2).fire w.exec.fractions tx).held.card := by
        rw [idle, card_bought bought fits]
      exact ⟨rfl, countExact_cons (decide_eq_true below) exact_, opening⟩

theorem shadowBuy_triple (tx : TransactionRequest) {token : Address}
    (bought : tx.input.bought = some token) :
    (contract w most).Triple 0 (fun s => Below most (view most s)) (.shadow tx)
      fun _ s => Opening (view most s) := by
  refine triple (o := .shadow tx) (P := Below most) (Q := fun _ => Opening) ?_
  rintro s a exact_ ⟨idle, below⟩ fits fresh out did
  cases did
  have idle : s.1.env.openCount = (holdings s.2).held.card := idle
  have opening : s.1.env.openCount + 1 = ((holdings s.2).fire w.exec.fractions tx).held.card := by
    rw [idle, card_bought bought fits]
  have agrees : (holdings s.2).agree w.exec.fractions most (.shadow tx) () = true := by
    have below : (holdings s.2).held.card < most := below
    simp [Holdings.agree, below]
  exact ⟨rfl, countExact_cons agrees exact_, opening⟩

/-- The position that was opened is counted. -/
theorem recordOpened_triple :
    (contract w most).Triple 0 (fun s => Opening (view most s)) (.env .recordOpened)
      fun _ s => Idle (view most s) := by
  refine triple (o := .env .recordOpened) (P := Opening) (Q := fun _ => Idle) ?_
  intro s a exact_ opening _ fresh out did
  cases did
  exact ⟨rfl, exact_, opening⟩

/-- Up to date, and `asked` are the balances that were read of the KOL. -/
def Asked (asked : List (Option U256)) (v : View) : Prop := Idle v ∧ v.holdings.asked = asked

theorem lockExit_triple (token : Address) :
    (contract w most).Triple 0 (fun s => Idle (view most s)) (.trade (.lockExit token))
      fun _ s => Asked [] (view most s) := by
  refine triple (o := .trade (.lockExit token)) (P := Idle) (Q := fun _ => Asked []) ?_
  intro s a exact_ idle _ fresh out did
  obtain ⟨mid, ran, rfl⟩ := Option.map_eq_some_iff.1 did
  dsimp only [TradeOp.exec] at ran
  split at ran
  · cases ran
    exact ⟨rfl, exact_, idle, rfl⟩
  · cases ran

theorem balanceOfAt_triple (who token : Address) (block : Nat) (asked : List (Option U256)) :
    (contract w most).Triple 0 (fun s => Asked asked (view most s))
      (.ask (.balanceOfAt who token block))
      fun (reply : Option U256) s => Asked (asked ++ [reply]) (view most s) := by
  refine triple (o := .ask (.balanceOfAt who token block)) (P := Asked asked)
    (Q := fun (reply : Option U256) v => Asked (asked ++ [reply]) v) ?_
  rintro s a exact_ ⟨idle, past⟩ - fresh out did
  cases did
  have past : (holdings s.2).asked = asked := past
  have more : (holdings s.2).asked ++ [a] = asked ++ [a] := by rw [past]
  exact ⟨rfl, exact_, idle, more⟩

/-- The exit sells everything, or not, as the balances say. -/
def Sized (fractions : Fractions) (full : Bool) (v : View) : Prop :=
  Idle v ∧ fullExit fractions v.holdings.asked = full

theorem submitSell_triple (tx : TransactionRequest) (hash : B256) (memo : ExitMemo)
    {sale : Address × U256} (bought : tx.input.bought = none) (sold : tx.input.sold = some sale) :
    (contract w most).Triple 0 (fun s => Sized w.exec.fractions memo.full (view most s))
      (.submit tx hash (.sell memo))
      fun (ok : Bool) s => if ok then Closing (view most s) else Idle (view most s) := by
  refine triple (o := .submit tx hash (.sell memo)) (P := Sized w.exec.fractions memo.full)
    (Q := fun (ok : Bool) v => if ok then Closing v else Idle v) ?_
  rintro s ⟨accepted, ok⟩ exact_ ⟨idle, full⟩ fits fresh out did
  cases did
  have agrees : (holdings s.2).agree w.exec.fractions most (.submit tx hash (.sell memo)) ok =
      true := beq_iff_eq.2 full.symm
  cases ok with
  | false => exact ⟨rfl, countExact_cons agrees exact_, idle⟩
  | true =>
      have fits : (holdings s.2).fits w.exec.fractions tx = true := by simpa [counted] using fits
      have idle : s.1.env.openCount = (holdings s.2).held.card := idle
      have closing :
          s.1.env.openCount - 1 = ((holdings s.2).fire w.exec.fractions tx).held.card := by
        rw [idle, card_sold bought sold fits]
      exact ⟨rfl, countExact_cons agrees exact_, closing⟩

theorem shadowSell_triple (tx : TransactionRequest) {sale : Address × U256}
    (bought : tx.input.bought = none) (sold : tx.input.sold = some sale) :
    (contract w most).Triple 0 (fun s => Idle (view most s)) (.shadow tx)
      fun _ s => Closing (view most s) := by
  refine triple (o := .shadow tx) (P := Idle) (Q := fun _ => Closing) ?_
  rintro s a exact_ idle fits fresh out did
  cases did
  have idle : s.1.env.openCount = (holdings s.2).held.card := idle
  have closing : s.1.env.openCount - 1 = ((holdings s.2).fire w.exec.fractions tx).held.card := by
    rw [idle, card_sold bought sold fits]
  have agrees : (holdings s.2).agree w.exec.fractions most (.shadow tx) () = true := by
    simp [Holdings.agree, bought]
  exact ⟨rfl, countExact_cons agrees exact_, closing⟩

/-- The position that was closed is counted no longer. -/
theorem recordClosed_triple :
    (contract w most).Triple 0 (fun s => Closing (view most s)) (.env .recordClosed)
      fun _ s => Idle (view most s) := by
  refine triple (o := .env .recordClosed) (P := Closing) (Q := fun _ => Idle) ?_
  intro s a exact_ closing _ fresh out did
  cases did
  exact ⟨rfl, exact_, closing⟩

/-! ### The entries -/

theorem append_aside (row : LiveEntry) : (onEnv (.ledgerAppend row)).All aside := all_call.2 trivial

theorem basic_aside {α : Type} {p : Live α} (basic : p.All Op.basic) : p.All aside :=
  basic.mono fun _ => aside_of_basic

theorem mild_aside {α : Type} {p : Live α} (mild : p.All Op.mild) : p.All aside :=
  basic_aside (basic_of_mild mild)

/-- The tokens the executor may hold at once. -/
abbrev limit (w : TrailWatcher) : Nat := w.exec.config.limits.maxOpenPositions

/-- What the gates of an entry leave the consumer with. -/
def Gated (gated : Except String Entry) (v : View) : Prop :=
  Idle v ∧ ∀ e, gated = .ok e → v.holdings.held.card < limit w

theorem entryGates_wp (kolName visibility : String) (token : Address) (bnbAmount : U256)
    (openPositions : Nat) {s : LiveRecorded w}
    (now : Told openPositions (view (limit w) s)) :
    (contract w (limit w)).wp 0 (w.exec.entryGates kolName visibility token bnbAmount openPositions)
      (fun gated s => Gated (w := w) gated (view (limit w) s)) s := by
  have skips : ∀ row (reason : String) {s : LiveRecorded w}, Idle (view (limit w) s) →
      (contract w (limit w)).wp 0 (onEnv (.ledgerAppend row) >>= fun _ => .ret (.error reason))
        (fun (gated : Except String Entry) s => Gated (w := w) gated (view (limit w) s)) s := by
    intro row reason s idle
    apply Contract.wp_seq _ (aside_wp (P := Idle) (append_aside row) (fun _ _ idle => idle) idle)
    intro _ s idle
    exact ⟨idle, nofun⟩
  unfold entryGates
  split
  · exact skips _ _ now.1
  · apply Contract.wp_seq _
      (mild_wp (P := Told openPositions) (ask_mild _ (by rfl)) (fun _ _ now => now) now)
    intro walletBnb s now
    apply Contract.wp_seq _
      (mild_wp (P := Told openPositions) (gasWeiAtLeast_mild _) (fun _ _ now => now) now)
    intro gasWei s now
    refine Contract.wp_call_seq _ Contract.owned_stable (checkLimits_triple _ rfl)
      (fun (failed : Option LimitFail) s checked => ?_) now
    cases failed with
    | some why => exact skips _ _ checked.1
    | none =>
        have below : Below (limit w) (view (limit w) s) := ⟨checked.1, checked.2 rfl⟩
        apply Contract.wp_seq _ (mild_wp (P := Below (limit w)) (pickRoute_mild _ _ _)
          (fun _ _ below => below) below)
        intro route s below
        cases route with
        | none => exact skips _ _ below.1
        | some route =>
            apply Contract.wp_seq _ (mild_wp (P := Below (limit w)) (w.exec.taxTooHigh_mild _ _ _)
              (fun _ _ below => below) below)
            intro tax s below
            cases tax with
            | some tax => exact skips _ _ below.1
            | none => exact ⟨below.1, fun _ _ => below.2⟩

/-- The rows and counters of an entry that fired. -/
theorem recordEntry_wp (kolName visibility : String) (token : Address) (e : Entry) (nonce : UInt64)
    (txHash : B256) (broadcast : Bool) {s : LiveRecorded w} (now : Opening (view most s)) :
    (contract w most).wp 0 (w.exec.recordEntry kolName visibility token e nonce txHash broadcast)
      (fun _ s => Idle (view most s)) s := by
  apply Contract.wp_seq _
    (aside_wp (P := Opening) (append_aside _) (fun _ _ opening => opening) now)
  intro _ s opening
  apply Contract.wp_call_seq _ Contract.owned_stable recordOpened_triple _ opening
  intro _ s idle
  have counts : (onEnv .recordTradeFired).All aside := all_call.2 trivial
  exact aside_wp (P := Idle) counts (fun _ _ idle => idle) idle

theorem resync_wp {α : Type} (outcome : α) {s : LiveRecorded w} (now : Idle (view most s)) :
    (contract w most).wp 0 (NonceManager.resync >>= fun _ => .ret outcome)
      (fun _ s => Idle (view most s)) s :=
  Contract.wp_seq _ (aside_wp (P := Idle) (basic_aside resync_basic) (fun _ _ idle => idle) now)
    fun _ _ idle => idle

theorem broadcastEntry_wp (kolName visibility : String) (token : Address) (e : Entry)
    {s : LiveRecorded w} (now : Below most (view most s)) :
    (contract w most).wp 0 (w.exec.broadcastEntry kolName visibility token e)
      (fun _ s => Idle (view most s)) s := by
  have keeps : ∀ {α : Type} {p : Live α}, p.All aside → ∀
      {s : LiveRecorded w}, Below most (view most s) →
      (contract w most).wp 0 p (fun _ s => Below most (view most s)) s :=
    fun all _ below => aside_wp (P := Below most) all (fun _ _ below => below) below
  unfold broadcastEntry
  apply Contract.wp_seq (fun call s => (call.2.2.bought = some token ∧ call.2.2.sold = none) ∧
    Below most (view most s)) (Contract.wp_ends (w.exec.buyCall_buys _ _ _)
      (aside_wp (P := Below most) (mild_aside (w.exec.buyCall_mild _ _ _))
        (fun _ _ below buys => ⟨buys, below⟩) now))
  rintro call s ⟨buys, below⟩
  apply Contract.wp_seq _ (keeps (basic_aside reserveNonce_basic) below)
  intro nonce s below
  have signs : ∀ tx, (sign tx).All aside := fun tx => all_call.2 trivial
  apply Contract.wp_seq _ (keeps (signs _) below)
  intro signed s below
  cases signed with
  | none => exact resync_wp _ below.1
  | some txHash =>
      dsimp only
      split
      · refine Contract.wp_call_seq _ Contract.owned_stable (submitBuy_triple _ _ buys.1)
          (fun (ok : Bool) s sent => ?_) below
        cases ok with
        | false => exact resync_wp _ sent
        | true =>
            apply Contract.wp_seq _
              (mild_wp (P := Opening) (ask_mild _ (by rfl)) (fun _ _ opening => opening) sent)
            intro _ s opening
            apply Contract.wp_seq _ (recordEntry_wp _ _ _ _ _ _ _ opening)
            intro _ s idle
            have opens : (onTrade (.openPosition token e.route e.bnbAmount txHash)).All aside :=
              all_call.2 trivial
            apply Contract.wp_seq _ (aside_wp (P := Idle) opens (fun _ _ idle => idle) idle)
            exact fun _ _ idle => idle
      · apply Contract.wp_call_seq _ Contract.owned_stable (shadowBuy_triple _ buys.1) _ below
        intro _ s opening
        apply Contract.wp_seq _ (recordEntry_wp _ _ _ _ _ _ _ opening)
        exact fun _ _ idle => idle

theorem execute_wp (kolName : String) (token : Address) (bnbAmount kolBnbInput : U256)
    (kolBlock : Nat) (kolTx : B256) (visibility : String) (openPositions : Nat) {s : LiveRecorded w}
    (now : Told openPositions (view (limit w) s)) :
    (contract w (limit w)).wp 0
      (w.exec.execute (.enter kolName token bnbAmount kolBnbInput kolBlock kolTx)
      visibility openPositions) (fun _ s => Idle (view (limit w) s)) s := by
  have guard : (dupGuard token).All aside := dupGuard_all trivial trivial
  apply Contract.wp_seq _ (aside_wp (P := Told openPositions) guard (fun _ _ now => now) now)
  intro duplicate s now
  split
  · exact now.1
  · apply Contract.wp_seq _
      (mild_wp (P := Told openPositions) (w.exec.sizeByUsd_mild _ _) (fun _ _ now => now) now)
    intro size s now
    cases size with
    | none => exact now.1
    | some sized =>
        apply Contract.wp_seq _ (entryGates_wp kolName visibility token sized openPositions now)
        intro gated s now
        cases gated with
        | error reason => exact now.1
        | ok e => exact broadcastEntry_wp _ _ _ _ ⟨now.1, now.2 e rfl⟩

/-! ### The exits -/

/-- The fraction an exit uses is the one the balances say. -/
theorem kolSellFraction_wp (kolAddr token : Address) (kolBlock : Nat) {s : LiveRecorded w}
    (now : Asked [] (view most s)) :
    (contract w most).wp 0 (w.exec.kolSellFraction kolAddr token kolBlock)
      (fun fraction s => Sized w.exec.fractions (decide (fraction.getD 1 ≥ w.exec.fractions.fullAt))
        (view most s)) s := by
  have sizes : ∀ (asked : List (Option U256)) (fraction : Option ℚ) {s : LiveRecorded w},
      soldFraction w.exec.fractions asked = fraction.getD 1 → Asked asked (view most s) →
      Sized w.exec.fractions (decide (fraction.getD 1 ≥ w.exec.fractions.fullAt))
        (view most s) := by
    rintro asked fraction s same ⟨idle, rfl⟩
    refine ⟨idle, ?_⟩
    rw [fullExit, same]
  unfold kolSellFraction
  split
  · exact sizes _ none rfl now
  · apply Contract.wp_call_seq _ Contract.owned_stable (balanceOfAt_triple _ _ _ _) _ now
    intro (pre : Option U256) s now
    apply Contract.wp_call_seq _ Contract.owned_stable (balanceOfAt_triple _ _ _ _) _ now
    intro (post : Option U256) s now
    cases pre with
    | none => exact sizes _ none rfl now
    | some pre =>
        cases post with
        | none => exact sizes _ none rfl now
        | some post =>
            dsimp only
            by_cases unknown : pre = 0 ∨ post ≥ pre
            · rw [if_pos unknown]
              exact sizes [some pre, some post] none (if_pos unknown) now
            · rw [if_neg unknown]
              exact sizes [some pre, some post] (some _) (if_neg unknown) now

/-- The row and the counter of an exit that fired. -/
theorem recordExit_wp (kolName : String) (token : Address) (gasGwei : Nat) (nonce : UInt64)
    (txHash : B256) (walletBnb : ℚ) (broadcast : Bool) {s : LiveRecorded w}
    (now : Closing (view most s)) :
    (contract w most).wp 0
      (w.exec.recordExit kolName token gasGwei nonce txHash walletBnb broadcast)
      (fun _ s => Idle (view most s)) s := by
  apply Contract.wp_seq _
    (aside_wp (P := Closing) (append_aside _) (fun _ _ closing => closing) now)
  intro _ s closing
  exact Contract.wp_call Contract.owned_stable recordClosed_triple closing

theorem broadcastExit_wp (kolName : String) (token : Address) (holding : Holding) (balance : U256)
    (full : Bool) (route : BuyRoute) (allowance : Option (Address × U256)) {s : LiveRecorded w}
    (now : Sized w.exec.fractions full (view most s)) :
    (contract w most).wp 0 (w.exec.broadcastExit kolName token holding balance full route allowance)
      (fun _ s => Idle (view most s)) s := by
  have keeps : ∀ {α : Type} {p : Live α}, p.All aside → ∀
      {s : LiveRecorded w}, Sized w.exec.fractions full (view most s) →
      (contract w most).wp 0 p (fun _ s => Sized w.exec.fractions full (view most s)) s :=
    fun all _ sized => aside_wp (P := Sized w.exec.fractions full) all
      (fun _ _ sized => sized) sized
  unfold broadcastExit
  apply Contract.wp_seq
    (fun call s => (call.1 = route.spender ∧ call.2.2.sold = some (token, balance) ∧
    call.2.2.bought = none) ∧ Sized w.exec.fractions full (view most s))
      (Contract.wp_ends (w.exec.sellCall_sells _ _ _)
      (aside_wp (P := Sized w.exec.fractions full) (mild_aside (w.exec.sellCall_mild _ _ _))
        (fun _ _ sized sells => ⟨sells, sized⟩) now))
  rintro call s ⟨⟨_, sold, bought⟩, sized⟩
  apply Contract.wp_seq _ (keeps (basic_aside reserveNonce_basic) sized)
  intro nonce s sized
  apply Contract.wp_seq _ (keeps (mild_aside (gasWeiAtLeast_mild _)) sized)
  intro gas s sized
  have signs : ∀ tx, (sign tx).All aside := fun tx => all_call.2 trivial
  apply Contract.wp_seq _ (keeps (signs _) sized)
  intro signed s sized
  cases signed with
  | none => exact resync_wp _ sized.1
  | some txHash =>
      apply Contract.wp_seq _ (keeps (mild_aside (ask_mild _ (by rfl))) sized)
      intro walletBnb s sized
      split
      · refine Contract.wp_call_seq _ Contract.owned_stable
          (submitSell_triple _ txHash ⟨full, holding.sized, holding.route, allowance⟩ bought sold)
          (fun (ok : Bool) s sent => ?_) sized
        cases ok with
        | false => exact resync_wp _ sent
        | true =>
            have writes : ∀ tokens, (onTrade (.writeBack token tokens holding.sized)).All aside :=
              fun tokens => all_call.2 trivial
            apply Contract.wp_seq _
              (aside_wp (P := Closing) (writes _) (fun _ _ closing => closing) sent)
            intro _ s closing
            apply Contract.wp_seq _ (recordExit_wp _ _ _ _ _ _ _ closing)
            exact fun _ _ idle => idle
      · apply Contract.wp_call_seq _ Contract.owned_stable (shadowSell_triple _ bought sold)
          _ sized.1
        intro _ s closing
        apply Contract.wp_seq _ (recordExit_wp _ _ _ _ _ _ _ closing)
        exact fun _ _ idle => idle

theorem exitLocked_wp (token : Address) (kolName : String) (kolBlock : Nat) (kolAddr : Address)
    {s : LiveRecorded w} (now : Asked [] (view most s)) :
    (contract w most).wp 0 (w.exec.exitLocked token kolName kolBlock kolAddr)
      (fun _ s => Idle (view most s)) s := by
  apply Contract.wp_seq _ (kolSellFraction_wp kolAddr token kolBlock now)
  intro fraction s sized
  have readies : ∀ {α : Type} {p : Live α}, p.All (Op.readies w.exec.broadcastEnabled) →
      p.All aside :=
    fun all => all.mono fun _ => aside_of_readies
  let full := decide (fraction.getD 1 ≥ w.exec.fractions.fullAt)
  apply Contract.wp_seq _
    (aside_wp (P := Sized w.exec.fractions full) (readies (exitHolding_readies token))
    (fun _ _ sized => sized) sized)
  intro held s sized
  cases held with
  | error outcome => exact sized.1
  | ok holding =>
      dsimp only
      by_cases rounds : full = false ∧ (if full then holding.ourBalance
          else w.exec.fractions.scale holding.ourBalance (fraction.getD 1)) = 0
      · rw [if_pos rounds]
        exact sized.1
      · rw [if_neg rounds]
        apply Contract.wp_seq _
          (aside_wp (P := Sized w.exec.fractions full) (readies (exitApproval_readies _ _ _))
          (fun _ _ sized => sized) sized)
        intro allowance s sized
        cases allowance with
        | none => exact sized.1
        | some allowance =>
            apply Contract.wp_seq _
              (mild_wp (P := Sized w.exec.fractions full) (pickRoute_mild _ _ _)
              (fun _ _ sized => sized) sized)
            intro route s sized
            exact broadcastExit_wp _ _ _ _ _ _ _ sized

theorem executeExit_wp (token : Address) (kolName : String) (kolBlock : Nat) (kolAddr : Address)
    {s : LiveRecorded w} (now : Idle (view most s)) :
    (contract w most).wp 0 (w.exec.executeExit token kolName kolBlock kolAddr)
      (fun _ s => Idle (view most s)) s := by
  unfold executeExit
  split
  · exact now
  · apply Contract.wp_call_seq _ Contract.owned_stable (lockExit_triple token) _ now
    intro _ s asked
    apply Contract.wp_seq _ (exitLocked_wp token kolName kolBlock kolAddr asked)
    intro outcome s idle
    have unlocks : (onTrade (.unlockExit token)).All aside := all_call.2 trivial
    apply Contract.wp_seq _ (aside_wp (P := Idle) unlocks (fun _ _ idle => idle) idle)
    exact fun _ _ idle => idle

theorem consume_wp (trailActive : Bool) (decisions : List (Decision × String)) {s : LiveRecorded w}
    (now : Idle (view (limit w) s)) :
    (contract w (limit w)).wp 0 (w.consume trailActive decisions) (fun _ _ => True) s := by
  induction decisions generalizing s with
  | nil => trivial
  | cons decided rest ih =>
      obtain ⟨decision, visibility⟩ := decided
      cases decision with
      | skip reason => exact ih now
      | enter kolName token bnbAmount kolBnbInput kolBlock kolTx =>
          apply Contract.wp_call_seq _ Contract.owned_stable openCount_triple _ now
          intro openPositions s told
          apply Contract.wp_seq _ (execute_wp _ _ _ _ _ _ _ openPositions told)
          exact fun _ _ idle => ih idle
      | exit kolName token kolBlock kolTx kolAddr =>
          cases trailActive with
          | true => exact ih now
          | false =>
              apply Contract.wp_seq _ (executeExit_wp token kolName kolBlock kolAddr now)
              exact fun _ _ idle => ih idle

theorem bodies (t : Task) (i : Tid) (s : LiveRecorded w) (starts : Starts t i (view (limit w) s)) :
    (contract w (limit w)).wp i (w.body t) (fun _ _ => True) s := by
  have others : t.background = true → (contract w (limit w)).wp i (w.body t) (fun _ _ => True) s :=
    fun background => Contract.wp_still (P := fun _ => True) Contract.owned_about .true
      ((body_may t).mono fun _ may => aside_still (aside_of_may background may))
      (fun _ _ _ => trivial) trivial
  cases t with
  | consumer trailActive decisions =>
      obtain ⟨rfl, idle⟩ := starts
      exact Contract.wp_seq _ (consume_wp trailActive decisions idle) fun _ _ _ => trivial
  | _ => exact others starts

end OpenCount

/-- In every run of the consumer beside background tasks in which every trade that fires fits, the
counter is the number of tokens held whenever an entry is to be checked, and no BUY is tried while
as many tokens are held as may be. -/
theorem open_count_exact {trailActive : Bool} {decisions : List (Decision × String)}
    {others : List Task} (background : ∀ t ∈ others, t.background = true) {start : World}
    (new : start.env.openCount = 0) {c : Config LiveSig (LiveRecorded w) Task Done}
    (run : w.machine.recording.Run (fun _ o a s => counted o a s.2 = true)
      (w.machine.recording.start (start, []) (.consumer trailActive decisions :: others)) c) :
    countExact w.exec.config.limits.maxOpenPositions c.shared.2 = true := by
  have sound := Contract.sound (K := OpenCount.contract w (OpenCount.limit w))
    (fun t i s _ starts => OpenCount.bodies t i s starts) (s := ((start, []) : LiveRecorded w))
    rfl (fun i t found => ?_) run
  · exact sound.inv
  · cases i with
    | zero =>
        cases found
        exact ⟨rfl, new⟩
    | succ i =>
        have quiet := background t (List.mem_of_getElem? found)
        cases t with
        | consumer => cases quiet
        | _ => exact quiet

/-- The trader of the scenarios, but it may hold one token only. -/
def oneSlot : TrailWatcher :=
  let w := scenario false
  { w with exec := { w.exec with config := { w.exec.config with
      limits := { w.exec.config.limits with maxOpenPositions := 1 } } } }

/-- An entry, an exit of it, and an entry of another token. -/
def nextEntry : List (Decision × String) :=
  [(.enter "D" scenarioToken 1000 1000 7 1, "public"), (.exit "D" scenarioToken 9 2 0xD, "public"),
    (.enter "D" 0x5555 1000 1000 11 3, "public")]

/-- The exit is full where the balances of the KOL cannot be read: the slot is free again. -/
theorem open_count_exact_reused :
    ∃ c, oneSlot.machine.recording.Run (fun _ o a s => counted o a s.2 = true)
        (oneSlot.machine.recording.start (World.boot 7 none, []) [.consumer false nextEntry]) c ∧
      c.shared.1.trade.wire.map (·.tx.input.bought) = [some scenarioToken, none, some 0x5555] ∧
      countExact 1 c.shared.2 = true := by
  let r : Replies := { balance := some 1000, allowance := some 1000 }
  obtain ⟨c, run, wire⟩ : ∃ c, oneSlot.machine.recording.Run (fun _ o a s => counted o a s.2 = true)
        (oneSlot.machine.recording.start (World.boot 7 none, []) [.consumer false nextEntry]) c ∧
      c.shared.1.trade.wire.map (·.tx.input.bought) = [some scenarioToken, none, some 0x5555] :=
    Machine.exists_run_of_follow [(0, 57, r.ans)] (by decide +kernel)
  exact ⟨c, run, wire, open_count_exact (w := oneSlot) (by simp) rfl run⟩

/-- A partial exit frees the slot as well: the KOL keeps 600 of 1000, and the next entry is made
beside the holding that is left. -/
theorem partial_exit_uncounts :
    ∃ c, oneSlot.machine.recording.Run (fun _ _ _ _ => True)
        (oneSlot.machine.recording.start (World.boot 7 none, []) [.consumer false nextEntry]) c ∧
      c.shared.1.trade.wire.map (·.tx.input.bought) = [some scenarioToken, none, some 0x5555] ∧
      (holdings c.shared.2).held.card = 2 ∧ countExact 1 c.shared.2 = false := by
  let r : Replies := {
    balance := some 1000
    balanceAt := fun block => if block = 8 then some 1000 else some 600
    allowance := some 1000 }
  exact Machine.exists_run_of_follow (C := oneSlot.machine.recording.anyStep) [(0, 57, r.ans)]
    (by decide +kernel)

end BscMempool.Trader
