/-
Module: BscMempool.Proofs.ExitOutline
Layer: Proofs
Purpose: A proof outline for execute_exit. An outline gives one assertion for every point of the
  call at which another task may run, and one obligation for every operation that is not calm;
  filling it in proves the call against a contract.
Trusted boundary: none
Main exports: Sale, ExitOutline, ExitOutline.executeExit_wp, TradeExit, TradeExit.executeExit_wp
-/
import BscMempool.Proofs.TradeSpec

namespace BscMempool.Trader

open Concurrent (Tid Machine Contract Proc)
open LiveExecutor

/-- What an exit sells of the balance it is sized against: all of it, or a proper part. -/
structure Sale where
  holding : Holding
  amount : U256
  full : Bool
  held : holding.ourBalance ≠ 0
  whole : full = true → amount = holding.ourBalance
  part : full = false → amount ≠ 0 ∧ amount.toNat < holding.ourBalance.toNat

namespace Sale

variable (sale : Sale)

/-- What the cache update stores. -/
def rest : U256 :=
  if sale.full then 0 else saturatingSubU256 sale.holding.ourBalance sale.amount

/-- What the call tells the wire about the sale. -/
def memo (allowance : Option (Address × U256)) : ExitMemo :=
  ⟨sale.full, sale.holding.sized, sale.holding.route, allowance⟩

variable {sale}

theorem rest_add_amount : sale.rest.toNat + sale.amount.toNat = sale.holding.ourBalance.toNat := by
  unfold rest
  cases full : sale.full with
  | true => simp [sale.whole full]
  | false => exact saturatingSubU256_add (Nat.le_of_lt (sale.part full).2)

theorem amount_le : sale.amount.toNat ≤ sale.holding.ourBalance.toNat := by
  have := sale.rest_add_amount
  omega

theorem rest_eq_zero_iff : sale.rest = 0 ↔ sale.full = true := by
  constructor
  · intro none_
    cases full : sale.full with
    | true => rfl
    | false =>
        have added := sale.rest_add_amount
        have below := (sale.part full).2
        rw [none_] at added
        simp at added
        omega
  · intro full
    simp [rest, full]

/-- The sale of a slice of a holding. -/
def ofFraction (fractions : Fractions) (holding : Holding) (fraction : ℚ)
    (held : holding.ourBalance ≠ 0) (some_ : ¬ (decide (fraction ≥ fractions.fullAt) = false ∧
      (if decide (fraction ≥ fractions.fullAt) then holding.ourBalance
        else fractions.scale holding.ourBalance fraction) = 0)) : Sale where
  holding := holding
  amount := if decide (fraction ≥ fractions.fullAt) then holding.ourBalance
    else fractions.scale holding.ourBalance fraction
  full := decide (fraction ≥ fractions.fullAt)
  held := held
  whole full := if_pos full
  part small := by
    have below : fraction < fractions.fullAt := not_le.mp (of_decide_eq_false small)
    rw [if_neg (by simp [small])]
    refine ⟨fun none_ => some_ ⟨small, ?_⟩, fractions.scale_lt below held⟩
    rw [if_neg (by simp [small])]
    exact none_

end Sale

/-! ### The outline -/

variable {w : TrailWatcher} {V : Type}

/-- The state of the lookup sends the exit to the chain for its balance. -/
def Slow (r : Option (EntryId × PositionEntry)) : Prop :=
  ∀ e p, r = some (e, p) → p.exited = false ∧ ¬ (p.tokensBought ≠ 0 ∧ p.approved = true)

/-- Assertions for the points of a call of `execute_exit` on `token` by the task at `i`, with what
every operation owes.  The names of the assertions follow the call: before the lock, under the lock,
after the cache lookup, sized, with a nonce for the approve, ready to sell, with a nonce for the
sale, after the broadcast, and after the outcome is decided. -/
structure ExitOutline (K : Contract w.machine) (view : World → V) (i : Tid) (token : Address) where
  idle : K.Assertion view i
  locked : K.Assertion view i
  looked : Option (EntryId × PositionEntry) → K.Assertion view i
  sized : Holding → K.Assertion view i
  asked : Sale → UInt64 → K.Assertion view i
  ready : Sale → Option (Address × U256) → K.Assertion view i
  priced : Sale → Option (Address × U256) → UInt64 → K.Assertion view i
  sent : Sale → K.Assertion view i
  done : ExitOutcome → K.Assertion view i
  post : ExitOutcome → V → Prop
  refused : ∀ s, idle.on s → post .blacklisted (view s)
  lock : K.Triple i idle.on (.trade (.lockExit token)) fun _ s => locked.on s
  get : K.Triple i locked.on (.trade (.positionsGet token)) fun r s => (looked r).on s
  exited : ∀ e p s, p.exited = true → (looked (some (e, p))).on s → (done .alreadyExited).on s
  fast : ∀ e p s, p.tokensBought ≠ 0 → p.approved = true → (looked (some (e, p))).on s →
    (sized ⟨p.tokensBought, p.route, true, some e⟩).on s
  balance : ∀ r, Slow r → K.Triple i (looked r).on (.ask (.balanceOf token)) fun bal s =>
    if Option.getD bal 0 = 0 then (done .zeroBalance).on s
    else ∀ route, (∀ e p, r = some (e, p) → route = p.route) →
      (sized ⟨Option.getD bal 0, route, false, r.map Prod.fst⟩).on s
  unsold : ∀ h s, (sized h).on s → (done .noRoute).on s ∧ (done .roundsToZero).on s
  armed : ∀ sale s, sale.holding.usedFastPath = true → (sized sale.holding).on s →
    (ready sale none).on s
  allowed : ∀ sale allowance s, sale.holding.usedFastPath = false → sale.amount ≤ allowance →
    (sized sale.holding).on s → (ready sale (some (sale.holding.route.spender, allowance))).on s
  askNonce : ∀ sale s, sale.holding.usedFastPath = false → (sized sale.holding).on s →
    K.wp i w.exec.reserveNonce (fun n s => (asked sale n).on s) s
  signApprove : ∀ sale n gas, K.Triple i (asked sale n).on
    (.sign (w.exec.request token 0 (.approve sale.holding.route.spender (BitVec.allOnes 256)) 60000
      gas n))
    fun hash s => if Option.isSome hash then (asked sale n).on s else (done .approveFailed).on s
  sendApprove : ∀ sale n gas hash, w.exec.broadcastEnabled = true → K.Triple i (asked sale n).on
    (.submit (w.exec.request token 0 (.approve sale.holding.route.spender (BitVec.allOnes 256))
      60000
      gas n) hash .exitApprove)
    fun ok s => if ok = true then
        ∀ allowance, (ready sale (some (sale.holding.route.spender, allowance))).on s
      else (done .approveFailed).on s
  shadowApprove : ∀ sale n gas, w.exec.broadcastEnabled = false → K.Triple i (asked sale n).on
    (.shadow (w.exec.request token 0 (.approve sale.holding.route.spender (BitVec.allOnes 256))
      60000
      gas n))
    fun _ s => ∀ allowance, (ready sale (some (sale.holding.route.spender, allowance))).on s
  sellNonce : ∀ sale allowance s, (ready sale allowance).on s →
    K.wp i w.exec.reserveNonce (fun n s => (priced sale allowance n).on s) s
  signSale : ∀ sale allowance n target calldata gasLimit gas,
    K.Triple i (priced sale allowance n).on
      (.sign (w.exec.request target 0 calldata gasLimit gas n))
      fun hash s => if Option.isSome hash then (priced sale allowance n).on s
        else (done .signFailed).on s
  sendSale : ∀ sale allowance n (route : BuyRoute) calldata gasLimit gas hash,
    w.exec.broadcastEnabled = true → Calldata.sold calldata = some (token, sale.amount) →
    Calldata.bought calldata = none → K.Triple i (priced sale allowance n).on
      (.submit (w.exec.request route.spender 0 calldata gasLimit gas n) hash
        (.sell (sale.memo allowance)))
      fun ok s => if ok = true then (sent sale).on s else (done .broadcastFailed).on s
  shadowSale : ∀ sale allowance n target calldata gasLimit gas, w.exec.broadcastEnabled = false →
    K.Triple i (priced sale allowance n).on
      (.shadow (w.exec.request target 0 calldata gasLimit gas n)) fun _ s => (done .shadowed).on s
  update : ∀ sale, K.Triple i (sent sale).on
    (.trade (.writeBack token sale.rest sale.holding.sized))
    fun _ s => (done (.sold sale.amount sale.full)).on s
  resync : ∀ outcome s, (done outcome).on s →
    K.wp i NonceManager.resync (fun _ s => (done outcome).on s) s
  unlock : ∀ outcome, K.Triple i (done outcome).on (.trade (.unlockExit token))
    fun _ s => post outcome (view s)

namespace ExitOutline

variable {K : Contract w.machine} {view : World → V} {i : Tid} {token : Address}
variable (O : ExitOutline K view i token)

/-- What sizing an exit leads to. -/
def Sizing (r : Except ExitOutcome Holding) (s : World) : Prop :=
  match r with
  | .error outcome => (O.done outcome).on s
  | .ok holding => holding.ourBalance ≠ 0 ∧ (O.sized holding).on s

theorem exitHolding_wp (focused : Focused K view) {s : World} (now : O.locked.on s) :
    K.wp i (exitHolding token) O.Sizing s := by
  refine Contract.wp_call_seq _ O.locked.stable O.get (fun r s looked => ?_) now
  cases r with
  | none =>
      have slow : Slow none := fun e p same => by cases same
      refine Contract.wp_call_seq _ (O.looked none).stable (O.balance none slow)
        (fun bal s read => ?_) looked
      dsimp only
      split at read
      · rename_i zero
        rw [if_pos zero]
        exact read
      · rename_i some_
        rw [if_neg some_]
        -- the route is still to be picked, so every route has to do
        let any : K.Assertion view i :=
          .all fun route => O.sized ⟨Option.getD bal 0, route, false, none⟩
        have all : any.on s := fun route => read route fun e p same => by cases same
        refine Contract.wp_seq (fun _ s => any.on s) ?_ (fun route s all => ?_)
        · exact focused.mild_wp any (pickRoute_mild _ _ _) (fun _ _ all => all) all
        · cases route with
          | some route => exact ⟨some_, all route⟩
          | none => exact (O.unsold _ s (all .fourMeme)).1
  | some held =>
      obtain ⟨e, p⟩ := held
      dsimp only
      split
      · rename_i gone
        exact O.exited e p s gone looked
      · rename_i held
        split
        · rename_i armed
          exact ⟨armed.1, O.fast e p s armed.1 armed.2 looked⟩
        · rename_i unarmed
          have slow : Slow (some (e, p)) := by
            rintro _ _ ⟨⟩
            exact ⟨by simpa using held, unarmed⟩
          refine Contract.wp_call_seq _ (O.looked _).stable (O.balance _ slow)
            (fun bal s read => ?_) looked
          split at read
          · rename_i zero
            rw [if_pos zero]
            exact read
          · rename_i some_
            rw [if_neg some_]
            exact ⟨some_, read p.route fun _ _ same => by cases same; rfl⟩

theorem resync_then {outcome : ExitOutcome} {α : Type} {value : α} {Q : α → World → Prop}
    {s : World} (implies : ∀ s, (O.done outcome).on s → Q value s) (now : (O.done outcome).on s) :
    K.wp i (NonceManager.resync >>= fun _ => .ret value) Q s :=
  Contract.wp_seq _ (O.resync outcome s now) fun _ s done => implies s done

theorem submitApprove_wp (focused : Focused K view) (sale : Sale) {s : World}
    (slow : sale.holding.usedFastPath = false) (now : (O.sized sale.holding).on s) :
    K.wp i (w.exec.submitApprove token sale.holding.route.spender) (fun sent s =>
      if sent then ∀ allowance, (O.ready sale (some (sale.holding.route.spender, allowance))).on s
      else (O.done .approveFailed).on s) s := by
  refine Contract.wp_seq _ (O.askNonce sale s slow now) fun n s asked => ?_
  refine Contract.wp_seq (fun _ => (O.asked sale n).on)
    (focused.mild_wp _ (gasWeiAtLeast_mild _) (fun _ _ asked => asked) asked)
    fun gas s asked => ?_
  refine Contract.wp_call_seq _ (O.asked sale n).stable (O.signApprove sale n gas)
    (fun hash s signed => ?_) asked
  cases hash with
  | none => exact signed
  | some hash =>
      dsimp only
      split
      · rename_i live
        exact Contract.wp_call (O.asked sale n).stable (O.sendApprove sale n gas hash live) signed
      · rename_i shadowed
        refine Contract.wp_call_seq _ (O.asked sale n).stable
          (O.shadowApprove sale n gas (by simpa using shadowed)) (fun _ s ready => ?_) signed
        exact ready

theorem exitApproval_wp (focused : Focused K view) (sale : Sale) {s : World}
    (now : (O.sized sale.holding).on s) :
    K.wp i (w.exec.exitApproval token sale.holding sale.amount) (fun r s => match r with
      | none => (O.done .approveFailed).on s
      | some allowance => (O.ready sale allowance).on s) s := by
  unfold exitApproval
  split
  · rename_i fast
    exact O.armed sale s fast now
  · rename_i slow
    have slow : sale.holding.usedFastPath = false := by simpa using slow
    refine Contract.wp_seq (fun _ => (O.sized sale.holding).on)
      (focused.calm_wp _ (ask_calm _) (fun _ _ sized => sized) now) fun allowance s sized => ?_
    dsimp only
    split
    · refine Contract.wp_seq _ (O.submitApprove_wp focused sale slow sized) fun sent s after => ?_
      cases sent with
      | true => exact after _
      | false => exact O.resync_then (fun _ failed => failed) after
    · rename_i enough
      exact O.allowed sale _ s slow (BitVec.not_lt.1 enough) sized

theorem broadcastExit_wp (focused : Focused K view) (sale : Sale)
    (allowance : Option (Address × U256)) (kolName : String) (route : BuyRoute)
    {s : World} (now : (O.ready sale allowance).on s) :
    K.wp i (w.exec.broadcastExit kolName token sale.holding sale.amount sale.full route allowance)
      (fun outcome s => (O.done outcome).on s) s := by
  refine Contract.wp_seq (fun call s => call.1 = route.spender ∧
    call.2.2.sold = some (token, sale.amount) ∧ call.2.2.bought = none ∧
    (O.ready sale allowance).on s)
    ?_ ?_
  · refine Contract.wp_ends (w.exec.sellCall_sells route token sale.amount) ?_
    exact focused.mild_wp _ (w.exec.sellCall_mild _ _ _)
      (fun _ _ ready call => ⟨call.1, call.2.1, call.2.2, ready⟩) now
  rintro ⟨target, gasLimit, calldata⟩ s ⟨addressed, sold, bought, ready⟩
  dsimp only at addressed sold bought
  subst addressed
  refine Contract.wp_seq _ (O.sellNonce sale allowance s ready) fun n s priced => ?_
  refine Contract.wp_seq (fun _ => (O.priced sale allowance n).on)
    (focused.mild_wp _ (gasWeiAtLeast_mild _) (fun _ _ priced => priced) priced)
    fun gas s priced => ?_
  refine Contract.wp_call_seq _ (O.priced sale allowance n).stable
    (O.signSale sale allowance n _ calldata gasLimit gas) (fun hash s signed => ?_) priced
  cases hash with
  | none => exact O.resync_then (fun _ failed => failed) signed
  | some hash =>
      refine Contract.wp_seq (fun _ => (O.priced sale allowance n).on)
        (focused.calm_wp _ (ask_calm _) (fun _ _ priced => priced) signed)
        fun walletBnb s priced => ?_
      split
      · rename_i live
        refine Contract.wp_call_seq _ (O.priced sale allowance n).stable
          (O.sendSale sale allowance n route calldata gasLimit gas hash live sold bought)
          (fun ok s after => ?_) priced
        cases ok with
        | false => exact O.resync_then (fun _ failed => failed) after
        | true =>
            refine Contract.wp_call_seq _ (O.sent sale).stable (O.update sale)
              (fun _ s done => ?_) after
            exact Contract.wp_seq (fun _ => (O.done (.sold sale.amount sale.full)).on)
              (focused.calm_wp _ (w.exec.recordExit_calm ..) (fun _ _ done => done) done)
              fun _ _ done => done
      · rename_i shadowed
        refine Contract.wp_call_seq _ (O.priced sale allowance n).stable
          (O.shadowSale sale allowance n _ calldata gasLimit gas (by simpa using shadowed))
          (fun _ s done => ?_) priced
        exact Contract.wp_seq (fun _ => (O.done .shadowed).on)
          (focused.calm_wp _ (w.exec.recordExit_calm ..) (fun _ _ done => done) done)
          fun _ _ done => done

theorem exitLocked_wp (focused : Focused K view) (kolName : String) (kolBlock : Nat)
    (kolAddr : Address) {s : World} (now : O.locked.on s) :
    K.wp i (w.exec.exitLocked token kolName kolBlock kolAddr)
      (fun outcome s => (O.done outcome).on s) s := by
  refine Contract.wp_seq (fun _ => O.locked.on)
    (focused.calm_wp _ (kolSellFraction_calm _ _ _) (fun _ _ locked => locked) now)
    fun fraction s locked => ?_
  refine Contract.wp_seq _ (O.exitHolding_wp focused locked) fun r s sizing => ?_
  cases r with
  | error outcome => exact sizing
  | ok holding =>
      obtain ⟨held, sized⟩ := sizing
      by_cases none_ : decide (fraction.getD 1 ≥ w.exec.fractions.fullAt) = false ∧
          (if decide (fraction.getD 1 ≥ w.exec.fractions.fullAt) then holding.ourBalance
            else w.exec.fractions.scale holding.ourBalance (fraction.getD 1)) = 0
      · dsimp only
        rw [if_pos none_]
        exact (O.unsold holding s sized).2
      · dsimp only
        rw [if_neg none_]
        let sale := Sale.ofFraction w.exec.fractions holding (fraction.getD 1) held none_
        refine Contract.wp_seq _ (O.exitApproval_wp focused sale sized) fun r s after => ?_
        cases r with
        | none => exact after
        | some allowance =>
            refine Contract.wp_seq (fun _ => (O.ready sale allowance).on)
              (focused.mild_wp _ (pickRoute_mild _ _ _) (fun _ _ ready => ready) after)
              fun route s ready => ?_
            exact O.broadcastExit_wp focused sale allowance kolName _ ready

/-- A call of `execute_exit` meets its outline. -/
theorem executeExit_wp (focused : Focused K view) (kolName : String) (kolBlock : Nat)
    (kolAddr : Address) {s : World} (now : O.idle.on s) :
    K.wp i (w.exec.executeExit token kolName kolBlock kolAddr)
      (fun outcome s => O.post outcome (view s)) s := by
  unfold executeExit
  split
  · exact O.refused s now
  · refine Contract.wp_call_seq _ O.idle.stable O.lock (fun _ s locked => ?_) now
    refine Contract.wp_seq _ (O.exitLocked_wp focused kolName kolBlock kolAddr locked)
      fun outcome s done => ?_
    exact Contract.wp_call_seq _ (O.done outcome).stable (O.unlock outcome)
      (fun _ _ post => post) done

end ExitOutline

/-! ### Outlines that do not look at nonces -/

/-- An outline for a contract about the trade alone: drawing, returning and losing nonces is none of
its business, so what is left are the accesses to the cache, the lock and the wire. -/
structure TradeExit (S : TradeSpec) (w : TrailWatcher) (i : Tid) (token : Address) where
  idle : (S.contract w).Assertion World.trade i
  locked : (S.contract w).Assertion World.trade i
  looked : Option (EntryId × PositionEntry) → (S.contract w).Assertion World.trade i
  sized : Holding → (S.contract w).Assertion World.trade i
  ready : Sale → (S.contract w).Assertion World.trade i
  sent : Sale → (S.contract w).Assertion World.trade i
  done : ExitOutcome → (S.contract w).Assertion World.trade i
  post : ExitOutcome → Trade → Prop
  refused : ∀ t, idle.holds t → post .blacklisted t
  lock : ∀ t, S.inv t → idle.holds t → t.exitLocks token = none →
    let t' := { t with exitLocks := Function.update t.exitLocks token (some i) }
    S.Moves i t t' ∧ locked.holds t'
  get : ∀ t, S.inv t → locked.holds t → S.cond i (.trade (.positionsGet token)) () t →
    (looked (t.cached token)).holds t
  exited : ∀ e p t, p.exited = true → (looked (some (e, p))).holds t → (done .alreadyExited).holds t
  fast : ∀ e p t, p.tokensBought ≠ 0 → p.approved = true → (looked (some (e, p))).holds t →
    (sized ⟨p.tokensBought, p.route, true, some e⟩).holds t
  balance : ∀ r (bal : Option U256) t, Slow r → S.inv t → (looked r).holds t →
    S.cond i (.ask (.balanceOf token)) bal t →
    if bal.getD 0 = 0 then (done .zeroBalance).holds t
    else ∀ route, (∀ e p, r = some (e, p) → route = p.route) →
      (sized ⟨bal.getD 0, route, false, r.map Prod.fst⟩).holds t
  givenUp : ∀ h t, (sized h).holds t → (done .noRoute).holds t ∧ (done .roundsToZero).holds t ∧
    (done .approveFailed).holds t
  approved : ∀ sale t, (sized sale.holding).holds t → (ready sale).holds t
  sendApprove : ∀ sale (r : WireTx) t, sale.holding.usedFastPath = false → r.sender = i →
    r.site = .exitApprove → r.tx.to_ = token → r.tx.input.sold = none → r.tx.input.bought = none →
    S.inv t →
    (sized sale.holding).holds t → S.cond i (.submit r.tx r.hash r.site)
      (⟨r.accepted, r.ok⟩ : Submitted) t →
    S.Moves i t (t.transmit r) ∧ (r.ok = true → (ready sale).holds (t.transmit r)) ∧
      (r.ok = false → (done .approveFailed).holds (t.transmit r))
  failed : ∀ sale t, (ready sale).holds t → (done .signFailed).holds t ∧ (done .shadowed).holds t
  sendSale : ∀ sale allowance (r : WireTx) t, r.sender = i → r.site = .sell (sale.memo allowance) →
    r.tx.input.sold = some (token, sale.amount) → r.tx.input.bought = none → S.inv t →
    (ready sale).holds t → S.cond i (.submit r.tx r.hash r.site)
      (⟨r.accepted, r.ok⟩ : Submitted) t →
    S.Moves i t (t.transmit r) ∧ (r.ok = true → (sent sale).holds (t.transmit r)) ∧
      (r.ok = false → (done .broadcastFailed).holds (t.transmit r))
  update : ∀ sale t, S.inv t → (sent sale).holds t →
    S.cond i (.trade (.writeBack token sale.rest sale.holding.sized)) () t →
    let t' := { t with
      book := t.book.writeBack token sale.rest
      unsettled := Function.update t.unsettled token 0 }
    S.Moves i t t' ∧ (done (.sold sale.amount sale.full)).holds t'
  unlock : ∀ outcome t, S.inv t → (done outcome).holds t →
    let t' := { t with exitLocks := Function.update t.exitLocks token none }
    S.Moves i t t' ∧ post outcome t'

namespace TradeExit

variable {S : TradeSpec} {i : Tid} {token : Address} (T : TradeExit S w i token)

/-- The operations that only concern nonces keep the assertions. -/
def outline : ExitOutline (S.contract w) World.trade i token where
  idle := T.idle
  locked := T.locked
  looked := T.looked
  sized := T.sized
  asked sale _ := (T.sized sale.holding).given (sale.holding.usedFastPath = false)
  ready sale _ := T.ready sale
  priced sale _ _ := T.ready sale
  sent := T.sent
  done := T.done
  post := T.post
  refused s := T.refused s.trade
  lock := TradeSpec.lock token T.lock
  get := TradeSpec.get token T.get
  exited e p s := T.exited e p s.trade
  fast e p s := T.fast e p s.trade
  balance r slow := TradeSpec.ask (.balanceOf token) (T.looked r).holds
    (fun bal t =>
      if Option.getD bal 0 = 0 then (T.done .zeroBalance).holds t
      else ∀ route, (∀ e p, r = some (e, p) → route = p.route) →
        (T.sized ⟨Option.getD bal 0, route, false, r.map Prod.fst⟩).holds t)
    fun t bal => T.balance r bal t slow
  unsold h s sized := ⟨(T.givenUp h s.trade sized).1, (T.givenUp h s.trade sized).2.1⟩
  armed sale s _ sized := T.approved sale s.trade sized
  allowed sale _ s _ _ sized := T.approved sale s.trade sized
  askNonce sale s slow sized :=
    TradeSpec.leaves (T.sized sale.holding) (reserve_leavesTrade _) (fun _ _ sized => ⟨slow, sized⟩)
      sized
  signApprove sale n gas :=
    sign_trade TradeSpec.about TradeSpec.persists _ _ fun hash s asked => by
      cases hash with
      | none => exact (T.givenUp _ s.trade asked.2).2.2
      | some hash => exact asked
  sendApprove sale n gas hash _ := by
    refine (TradeSpec.submit _ hash .exitApprove
      ((T.sized sale.holding).given (sale.holding.usedFastPath = false)).holds
      (fun ok t => if ok = true then (T.ready sale).holds t else (T.done .approveFailed).holds t)
      ?_).weaken fun ok s after => ?_
    · rintro t r sender tx _ site inv ⟨slow, sized⟩ meets
      obtain ⟨moves, ready, failed⟩ := T.sendApprove sale r t slow sender site (by rw [tx]; rfl)
        (by rw [tx]; rfl) (by rw [tx]; rfl) inv sized meets
      exact ⟨moves, TradeSpec.after_submit ready failed⟩
    · split at after
      · rename_i ok
        rw [if_pos ok]
        exact fun _ => after
      · rename_i failed
        rw [if_neg failed]
        exact after
  shadowApprove sale n gas _ :=
    shadow_trade TradeSpec.about TradeSpec.persists _ _ fun s asked _ =>
      T.approved sale s.trade asked.2
  sellNonce sale allowance s ready :=
    TradeSpec.leaves (T.ready sale) (reserve_leavesTrade _) (fun _ _ ready => ready) ready
  signSale sale allowance n target calldata gasLimit gas :=
    sign_trade TradeSpec.about TradeSpec.persists (T.ready sale) _ fun hash s ready => by
      cases hash with
      | none => exact (T.failed sale s.trade ready).1
      | some hash => exact ready
  sendSale sale allowance n route calldata gasLimit gas hash _ sold bought :=
    TradeSpec.submit _ hash _ (T.ready sale).holds
      (fun ok t => if ok = true then (T.sent sale).holds t else (T.done .broadcastFailed).holds t)
      fun t r sender tx _ site inv ready meets => by
      obtain ⟨moves, sent, failed⟩ :=
        T.sendSale sale allowance r t sender site (by rw [tx]; exact sold)
        (by rw [tx]; exact bought) inv ready meets
      exact ⟨moves, TradeSpec.after_submit sent failed⟩
  shadowSale sale allowance n target calldata gasLimit gas _ :=
    shadow_trade TradeSpec.about TradeSpec.persists (T.ready sale) _ fun s ready =>
      (T.failed sale s.trade ready).2
  update sale := TradeSpec.writeBack token _ _ (T.update sale)
  resync outcome s done :=
    TradeSpec.leaves (T.done outcome) resync_leavesTrade (fun _ _ done => done) done
  unlock outcome := TradeSpec.unlock token (T.unlock outcome)

/-- A call of `execute_exit` meets an outline about the trade alone. -/
theorem executeExit_wp (kolName : String) (kolBlock : Nat) (kolAddr : Address) {s : World}
    (now : T.idle.on s) :
    (S.contract w).wp i (w.exec.executeExit token kolName kolBlock kolAddr)
      (fun outcome s => T.post outcome s.trade) s :=
  T.outline.executeExit_wp ⟨TradeSpec.about, fun _ _ => rfl⟩ kolName kolBlock kolAddr now

end TradeExit

end BscMempool.Trader
