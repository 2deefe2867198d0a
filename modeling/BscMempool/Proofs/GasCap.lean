/-
Module: BscMempool.Proofs.GasCap
Layer: Proofs
Purpose: When a transaction of the live trader keeps to the configured gas price. A BUY passes the
  limits with its price in whole gwei; a SELL and the approves pass no limits at all, so their price
  is the observed one, or the largest there is if the node did not answer.
Trusted boundary: none
Main exports: Site.fee, Site.observedWithin, GasSubmission, gasSubmissions, gas_capped_iff,
  gas_cap_exceeded
-/
import BscMempool.Concurrent.Protocol
import BscMempool.Proofs.Scenario
import BscMempool.Proofs.TaskOrder

namespace BscMempool.Trader

open Concurrent (Tid Machine Outcome Config Protocol Proc)
open Concurrent.Proc
open LiveExecutor

/-- What a transaction at the site offers for gas, after the price `observed`; `none` is a node that
did not answer. -/
def Site.fee (site : Site) (observed : Option U128) : U128 :=
  match site with
  | .buy => maxWei (observed.getD (BitVec.allOnes 128)) 10000000000
  | .sell _ | .exitApprove => maxWei (observed.getD (BitVec.allOnes 128)) 3000000000
  | .bgApprove => maxWei (observed.getD 3000000000) 3000000000

/-- The observed price is within `capGwei`, and so is the floor of the transactions
that pass no limits. -/
def Site.observedWithin (site : Site) (capGwei : Nat) (observed : Option U128) : Prop :=
  match site with
  | .buy => (observed.getD (BitVec.allOnes 128)).toNat ≤ capGwei * 10 ^ 9
  | .sell _ | .exitApprove =>
      3 ≤ capGwei ∧ (observed.getD (BitVec.allOnes 128)).toNat ≤ capGwei * 10 ^ 9
  | .bgApprove => 3 ≤ capGwei ∧ (observed.getD 3000000000).toNat ≤ capGwei * 10 ^ 9

/-- What a task knows of the gas price: the price it observed last, and the whole gwei that passed
its last limits check. -/
structure GasPhase where
  observed : Option (Option U128) := none
  passed : Option Nat := none

/-- A BUY goes out at the fee that passed the limits, and every transaction at
the fee of its site. -/
def gasOrder (x : LiveExecutor) : Protocol LiveSig GasPhase where
  allows
    | q, .submit tx _ site =>
        (∃ observed, q.observed = some observed ∧ tx.maxFeePerGas = site.fee observed) ∧
          (site = .buy → q.passed = some (weiToGwei tx.maxFeePerGas))
    | _, .env (.checkLimits config _) => config = x.config
    | _, _ => True
  next
    | q, .env .gasCached, some wei => { q with observed := some (some wei) }
    | q, .ask .gasPrice, reply => { q with observed := some reply }
    | q, .env (.checkLimits _ trade), none => { q with passed := some trade.currentGasGwei }
    | q, _, _ => q

variable {w : TrailWatcher}

/-- What the past of the task at `i` says of the gas price. -/
def gasPhaseAt (i : Tid) (h : List w.machine.Event) : GasPhase := (gasOrder w.exec).phase i {} h

/-- A transaction handed to its endpoint: where, at which fee, and the price that its
task had observed last. -/
structure GasSubmission where
  site : Site
  fee : U128
  observed : Option (Option U128)
deriving DecidableEq, Repr

/-- The transactions that were handed to an endpoint, latest first. -/
def gasSubmissions : List w.machine.Event → List GasSubmission
  | [] => []
  | ⟨i, .submit tx _ site, _, _⟩ :: older =>
      ⟨site, tx.maxFeePerGas, (gasPhaseAt i older).observed⟩ :: gasSubmissions older
  | _ :: older => gasSubmissions older

namespace GasCap

/-! ### Fees -/

theorem toNat_maxWei (a b : U128) : (maxWei a b).toNat = max a.toNat b.toNat := by
  unfold maxWei
  split
  · rename_i le
    exact (max_eq_right (BitVec.le_def.1 le)).symm
  · rename_i lt
    rw [BitVec.le_def, not_le] at lt
    exact (max_eq_left lt.le).symm

/-- A fee with a floor is within the cap if both the price and the floor are. -/
theorem maxWei_le_iff (a b : U128) (capGwei : Nat) :
    (maxWei a b).toNat ≤ capGwei * 10 ^ 9 ↔ a.toNat ≤ capGwei * 10 ^ 9 ∧
    b.toNat ≤ capGwei * 10 ^ 9 := by
  rw [toNat_maxWei, max_le_iff]

/-- The floor of 10 gwei is within a cap that its BUY passed. -/
theorem floor_le_of_passed {capGwei : Nat} {observed : U128}
    (within : observed.toNat ≤ capGwei * 10 ^ 9)
    (passed : weiToGwei (maxWei observed 10000000000) ≤ capGwei) :
    10000000000 ≤ capGwei * 10 ^ 9 := by
  by_contra above
  -- the price is below the floor, so the check was on ten gwei
  have price : (maxWei observed 10000000000).toNat = 10000000000 := by
    rw [toNat_maxWei]
    apply max_eq_right
    change observed.toNat ≤ 10000000000
    omega
  rw [weiToGwei, price] at passed
  omega

theorem fee_le_iff {site : Site} {capGwei : Nat} {observed : Option U128}
    (passed : site = .buy → weiToGwei (site.fee observed) ≤ capGwei) :
    (site.fee observed).toNat ≤ capGwei * 10 ^ 9 ↔ site.observedWithin capGwei observed := by
  cases site with
  | buy =>
      simp only [Site.fee, Site.observedWithin] at passed ⊢
      rw [maxWei_le_iff]
      exact ⟨And.left, fun within => ⟨within, floor_le_of_passed within (passed trivial)⟩⟩
  | sell | exitApprove | bgApprove =>
      simp only [Site.fee, Site.observedWithin]
      rw [maxWei_le_iff, and_comm]
      have floor : (3000000000 : U128).toNat ≤ capGwei * 10 ^ 9 ↔ 3 ≤ capGwei := by
        change 3000000000 ≤ capGwei * 10 ^ 9 ↔ 3 ≤ capGwei
        omega
      rw [floor]

/-! ### Kinds of operations -/

section Kinds

variable {x : LiveExecutor} {o : Op}

theorem free_of_mild (mild : o.mild) : (gasOrder x).Free o := by
  cases o with
  | submit => exact mild.elim
  | env o => cases o <;> first | exact mild.elim | exact fun _ => trivial
  | _ => exact fun _ => trivial

theorem still_of_probes (probes : o.probes) : (gasOrder x).Still o := by
  cases o with
  | submit => exact probes.elim
  | env o => cases o <;> first | exact probes.elim | exact ⟨fun _ => trivial, fun _ _ => rfl⟩
  | ask q =>
      cases q with
      | balanceOf | balanceOfAt | gasPrice => cases probes
      | _ => exact ⟨fun _ => trivial, fun _ _ => rfl⟩
  | _ => exact ⟨fun _ => trivial, fun _ _ => rfl⟩

theorem still_of_signs (signs : o.signs) : (gasOrder x).Still o := by
  cases o with
  | submit | env | ask => exact signs.elim
  | _ => exact ⟨fun _ => trivial, fun _ _ => rfl⟩

theorem free_of_basic (basic : o.basic) : (gasOrder x).Free o := by
  rcases basic with mild | signs
  · exact free_of_mild mild
  · exact (still_of_signs signs).1

theorem free_of_roams (roams : o.roams) : (gasOrder x).Free o := by
  unfold Op.roams at roams
  split at roams <;> first | exact free_of_basic (Op.light.basic roams) | exact fun _ => trivial

theorem gasOrder_roams : Roams (gasOrder x) fun _ => True := .of_free fun _ => free_of_roams

theorem resync_free : NonceManager.resync.All (gasOrder x).Free :=
  resync_basic.mono fun _ => free_of_basic

end Kinds

/-! ### Observing the price -/

section Functions

variable {x : LiveExecutor} {q : GasPhase}

/-- The price a task works with is the one it has just observed. -/
theorem gasWei_obeys :
    gasWei.Obeys (gasOrder x) (fun q' observed => q'.observed = some observed) q := by
  apply Obeys.call trivial
  intro cached
  cases cached with
  | some wei => exact rfl
  | none =>
      apply Obeys.call trivial
      intro reply
      cases reply with
      | none => exact rfl
      | some wei => exact Obeys.call (f := fun _ => .ret (some wei)) trivial fun _ => rfl

theorem gasWeiAtLeast_obeys (floor : U128) :
    (gasWeiAtLeast floor).Obeys (gasOrder x) (fun q' gasWei =>
      ∃ observed, q'.observed = some observed ∧
      gasWei = maxWei (observed.getD (BitVec.allOnes 128)) floor) q := by
  apply gasWei_obeys.bind
  exact fun q' observed now => ⟨observed, now, rfl⟩

/-! ### Entries -/

/-- The entry has the fee of a BUY at the observed price, and it is this fee
that passed the limits. -/
def Priced (q : GasPhase) (entry : Entry) : Prop :=
  (∃ observed, q.observed = some observed ∧ entry.gasWei = Site.fee .buy observed) ∧
    q.passed = some (weiToGwei entry.gasWei)

theorem entryGates_obeys (kolName visibility : String) (token : Address) (bnbAmount : U256)
    (openPositions : Nat) :
    (x.entryGates kolName visibility token bnbAmount openPositions).Obeys (gasOrder x)
      (fun q' gated => ∀ entry, gated = .ok entry → Priced q' entry) q := by
  have skips : ∀ q' row reason,
      (onEnv (.ledgerAppend row) >>= fun _ =>
        .ret (.error reason) : Live (Except String Entry)).Obeys (gasOrder x)
        (fun q' gated => ∀ entry, gated = .ok entry → Priced q' entry) q' := by
    intro q' row reason
    apply Obeys.call trivial
    intro _ entry same
    cases same
  unfold entryGates
  split
  · exact skips _ _ _
  · apply Obeys.call trivial
    intro walletBnb
    apply (gasWeiAtLeast_obeys 10000000000).bind
    rintro q' gasWei ⟨observed, now, price⟩
    apply Obeys.call rfl
    intro failed
    cases failed with
    | some why => exact skips _ _ _
    | none =>
        apply (gasOrder x).kinds.then_still ((pickRoute_probes _ _ _).mono fun _ => still_of_probes)
        intro route
        cases route with
        | none => exact skips _ _ _
        | some route =>
            apply (gasOrder x).kinds.then_still
              ((x.taxTooHigh_probes _ _ _).mono fun _ => still_of_probes)
            intro tax
            cases tax with
            | some tax => exact skips _ _ _
            | none =>
                intro entry same
                cases same
                exact ⟨⟨observed, now, price⟩, rfl⟩

theorem broadcastEntry_obeys (kolName visibility : String) (token : Address) (entry : Entry)
    (priced : Priced q entry) :
    (x.broadcastEntry kolName visibility token entry).Obeys (gasOrder x) (fun _ _ => True) q := by
  have quotes : (x.buyCall entry.route token entry.bnbAmount).Obeys (gasOrder x)
      (fun q _ => Priced q entry) q := by
    apply ((gasOrder x).kinds.obeys_still ((x.buyCall_probes _ _ _).mono fun _ => still_of_probes)
      (Ends.any _)).mono
    rintro _ _ ⟨rfl, -⟩
    exact priced
  have reserves : x.reserveNonce.All (gasOrder x).Still :=
    reserveNonce_signs.mono fun _ => still_of_signs
  have records : ∀ nonce txHash broadcast,
      (x.recordEntry kolName visibility token entry nonce txHash broadcast).All (gasOrder x).Free :=
    fun _ _ _ => Proc.All.bind (all_call.2 fun _ => trivial) fun _ =>
      Proc.All.bind (all_call.2 fun _ => trivial) fun _ => all_call.2 fun _ => trivial
  apply broadcastEntry_obeys_of quotes reserves (fun _ _ _ _ _ _ => trivial) _ resync_free
    (fun _ => trivial) records
    (fun _ _ => trivial) fun _ _ => trivial
  intro q target gasLimit calldata nonce signed txHash priced
  exact ⟨priced.1, fun _ => priced.2⟩

theorem execute_obeys (decision : Decision) (visibility : String) (openPositions : Nat) :
    (x.execute decision visibility openPositions).Obeys (gasOrder x) (fun _ _ => True) q := by
  apply execute_obeys_of (fun _ _ => trivial) (fun _ _ => trivial) (fun _ => free_of_mild)
    (R := fun q _ entry => Priced q entry)
  · exact fun kolName visibility token bnbAmount openPositions q =>
      entryGates_obeys kolName visibility token bnbAmount openPositions
  · exact fun kolName visibility token entry q priced =>
      broadcastEntry_obeys kolName visibility token entry priced

/-! ### Exits -/

/-- Without limits a transaction goes out at the fee of its site all the same. -/
theorem submit_allowed {tx : TransactionRequest} {txHash : B256} {site : Site} (other : site ≠ .buy)
    (priced : ∃ observed, q.observed = some observed ∧ tx.maxFeePerGas = site.fee observed) :
    (gasOrder x).allows q (.submit tx txHash site) :=
  ⟨priced, fun buy => absurd buy other⟩

theorem submitApprove_obeys (token spender : Address) :
    (x.submitApprove token spender).Obeys (gasOrder x) (fun _ _ => True) q := by
  unfold submitApprove
  apply (gasOrder x).kinds.then_free (reserveNonce_basic.mono fun _ => free_of_basic)
  intro q' nonce
  apply (gasWeiAtLeast_obeys 3000000000).bind
  rintro q' gasWei ⟨observed, now, price⟩
  apply Obeys.call trivial
  intro signed
  cases signed with
  | none => trivial
  | some txHash =>
      dsimp only
      split
      · have approve : (gasOrder x).allows q' (.submit
            (x.request token 0 (.approve spender (BitVec.allOnes 256)) 60000 gasWei nonce) txHash
              .exitApprove) :=
          submit_allowed nofun ⟨observed, now, price⟩
        exact Obeys.call (f := .ret) approve fun _ => trivial
      · exact Obeys.call (f := fun _ => .ret true) trivial fun _ => trivial

theorem exitApproval_obeys (token : Address) (holding : Holding) (balance : U256) :
    (x.exitApproval token holding balance).Obeys (gasOrder x) (fun _ _ => True) q := by
  unfold exitApproval
  split
  · trivial
  · apply Obeys.call trivial
    intro allowance
    dsimp only
    split
    · apply (submitApprove_obeys _ _).bind
      intro q' approved _
      cases approved with
      | true => trivial
      | false => exact (gasOrder x).kinds.then_free resync_free fun _ _ => trivial
    · trivial

theorem broadcastExit_obeys (kolName : String) (token : Address) (holding : Holding)
    (balance : U256) (isFullClose : Bool) (route : BuyRoute) (allowance : Option (Address × U256)) :
    (x.broadcastExit kolName token holding balance isFullClose route allowance).Obeys (gasOrder x)
      (fun _ _ => True) q := by
  have records : ∀ gasGwei nonce txHash walletBnb broadcast,
      (x.recordExit kolName token gasGwei nonce txHash walletBnb broadcast).All (gasOrder x).Free :=
    fun _ _ _ _ _ => Proc.All.bind (all_call.2 fun _ => trivial) fun _ =>
      all_call.2 fun _ => trivial
  unfold broadcastExit
  apply (gasOrder x).kinds.then_free ((sellCall_mild _ _ _ _).mono fun _ => free_of_mild)
  rintro q' ⟨target, gasLimit, calldata⟩
  apply (gasOrder x).kinds.then_free (reserveNonce_basic.mono fun _ => free_of_basic)
  intro q' nonce
  apply (gasWeiAtLeast_obeys 3000000000).bind
  rintro q' gasWei ⟨observed, now, price⟩
  apply Obeys.call trivial
  intro signed
  cases signed with
  | none => exact (gasOrder x).kinds.then_free resync_free fun _ _ => trivial
  | some txHash =>
      apply Obeys.call trivial
      intro walletBnb
      split
      · have sell : (gasOrder x).allows q'
            (.submit (x.request target 0 calldata gasLimit gasWei nonce) txHash
            (.sell ⟨isFullClose, holding.sized, holding.route, allowance⟩)) :=
          submit_allowed nofun ⟨observed, now, price⟩
        apply Obeys.call sell
        intro sent
        cases sent with
        | false => exact (gasOrder x).kinds.then_free resync_free fun _ _ => trivial
        | true =>
            apply Obeys.call trivial
            intro _
            exact (gasOrder x).kinds.then_free (records _ _ _ _ _) fun _ _ => trivial
      · apply Obeys.call trivial
        intro _
        exact (gasOrder x).kinds.then_free (records _ _ _ _ _) fun _ _ => trivial

theorem executeExit_obeys (token : Address) (kolName : String) (kolBlock : Nat)
    (kolAddr : Address) :
    (x.executeExit token kolName kolBlock kolAddr).Obeys (gasOrder x) (fun _ _ => True) q := by
  unfold executeExit
  split
  · trivial
  · apply Obeys.call trivial
    intro _
    have inside : ∀ q', (x.exitLocked token kolName kolBlock kolAddr).Obeys (gasOrder x)
        (fun _ _ => True) q' := by
      intro q'
      apply gasOrder_roams.exitLocked_obeys token kolName _ _ kolBlock kolAddr trivial
      · exact fun holding balance q' _ => exitApproval_obeys token holding balance
      · exact fun holding balance isFullClose route allowance q' _ =>
          broadcastExit_obeys kolName token holding balance isFullClose route allowance
    apply (inside _).bind
    intro q' outcome _
    exact Obeys.call (f := fun _ => .ret outcome) trivial fun _ => trivial

/-! ### The background approve -/

theorem submitApproveBg_obeys (token : Address) :
    (x.submitApproveBg token).Obeys (gasOrder x) (fun _ _ => True) q := by
  unfold submitApproveBg
  split
  · apply (gasOrder x).kinds.then_free (reserveNonce_basic.mono fun _ => free_of_basic)
    intro q' nonce
    apply Obeys.call trivial
    intro reply
    apply Obeys.call trivial
    intro signed
    cases signed with
    | none => trivial
    | some txHash =>
        have approve : (gasOrder x).allows { q' with observed := some reply } (.submit
            (x.request token 0 (.approve FOURMEME (BitVec.allOnes 256)) 60000
              (maxWei (reply.getD 3000000000) 3000000000) nonce) txHash .bgApprove) :=
          submit_allowed nofun ⟨reply, rfl, rfl⟩
        apply Obeys.call approve
        intro sent
        cases sent <;> trivial
  · trivial

theorem finalizeApprove_obeys (token : Address) (route : BuyRoute) (entry : EntryId) (bal : U256) :
    (x.finalizeApprove token route entry bal).Obeys (gasOrder x) (fun _ _ => True) q := by
  unfold finalizeApprove
  split
  · apply (submitApproveBg_obeys token).bind
    intro q' approved _
    split
    · apply Obeys.call trivial
      intro budget
      apply (gasOrder x).kinds.then_free ((pollReceipt_mild _ _).mono fun _ => free_of_mild)
      intro q' seen
      cases seen with
      | false => trivial
      | true => exact Obeys.call (f := fun _ => .ret true) trivial fun _ => trivial
    · trivial
  · trivial

theorem finalizeBody_obeys (token : Address) (buyTxHash : B256) (route : BuyRoute)
    (entry : EntryId) :
    (x.finalizeBody token buyTxHash route entry).Obeys (gasOrder x) (fun _ _ => True) q := by
  apply Obeys.call trivial
  intro budget
  apply (gasOrder x).kinds.then_free ((pollReceipt_mild _ _).mono fun _ => free_of_mild)
  intro q' seen
  cases seen with
  | false => trivial
  | true =>
      apply Obeys.call trivial
      intro bal
      dsimp only
      split
      · exact (finalizeApprove_obeys _ _ _ _).bind fun _ _ _ => trivial
      · apply Obeys.call trivial
        intro _
        exact (finalizeApprove_obeys _ _ _ _).bind fun _ _ _ => trivial

theorem finalizePosition_obeys (token : Address) (buyTxHash : B256) (route : BuyRoute)
    (entry : EntryId) :
    (x.finalizePosition token buyTxHash route entry).Obeys (gasOrder x) (fun _ _ => True) q := by
  apply Obeys.call trivial
  intro _
  apply (finalizeBody_obeys _ _ _ _).bind
  intro q' report _
  exact Obeys.call (f := fun _ => .ret report) trivial fun _ => trivial

end Functions

theorem body_obeys (t : Task) :
    (w.machine.body t).Obeys (gasOrder w.exec) (fun _ _ => True) {} := by
  apply gasOrder_roams.body_obeys _ _ _ _ t trivial
  · exact fun token kolName kolBlock kolAddr q _ => executeExit_obeys token kolName kolBlock kolAddr
  · exact fun decision visibility openPositions q _ =>
      execute_obeys decision visibility openPositions
  · exact fun token buyTxHash route entry q _ => finalizePosition_obeys token buyTxHash route entry
  · exact fun _ _ _ _ => trivial

/-! ### Runs -/

/-- What passed the limits is within the cap, and every transaction was handed over at the fee of
its site, a BUY at one that passed. -/
structure Capped (s : LiveRecorded w) : Prop where
  passed : ∀ i gwei, (gasPhaseAt i s.2).passed = some gwei →
    gwei ≤ w.exec.config.limits.maxGasPriceGwei
  priced : ∀ sub ∈ gasSubmissions s.2, ∃ observed, sub.observed = some observed ∧
    sub.fee = sub.site.fee observed ∧
    (sub.site = .buy → weiToGwei sub.fee ≤ w.exec.config.limits.maxGasPriceGwei)

variable {i fresh : Tid} {o : Op} {a : w.machine.Ans o} {s : LiveRecorded w}
  {out : Outcome World Task o.Res}

/-- The price that an operation leaves passed was passed before, or passes the limits now. -/
theorem passed_next {q : GasPhase} (allowed : (gasOrder w.exec).allows q o)
    (did : w.machine.exec i fresh o a s.1 = some out)
    (before : ∀ gwei, q.passed = some gwei → gwei ≤ w.exec.config.limits.maxGasPriceGwei) :
    ∀ gwei, ((gasOrder w.exec).next q o out.res).passed = some gwei →
      gwei ≤ w.exec.config.limits.maxGasPriceGwei := by
  cases o with
  | env o =>
      cases o with
      | checkLimits config trade =>
          have same : config = w.exec.config := allowed
          subst same
          cases did
          intro gwei passed
          change ((gasOrder w.exec).next q (.env (.checkLimits w.exec.config trade))
            (w.exec.config.gates _ a trade)).passed = some gwei at passed
          cases failed : w.exec.config.gates (maybeResetDay s.1.env.daily a) a trade with
          | none =>
              rw [failed] at passed
              cases passed
              exact LimitsConfig.gas_of_gates failed
          | some why =>
              rw [failed] at passed
              exact before gwei passed
      | gasCached =>
          intro gwei passed
          apply before
          rw [← passed]
          cases out.res <;> rfl
      | _ => exact before
  | ask question => cases question <;> exact before
  | _ => exact before

theorem gasPhaseAt_own (r : o.Res) (older : List w.machine.Event) :
    gasPhaseAt i (⟨i, o, a, r⟩ :: older) = (gasOrder w.exec).next (gasPhaseAt i older) o r :=
  Protocol.phase_own rfl

theorem gasPhaseAt_other {j : Tid} (other : i ≠ j) (r : o.Res) (older : List w.machine.Event) :
    gasPhaseAt j (⟨i, o, a, r⟩ :: older) = gasPhaseAt j older :=
  Protocol.phase_other other

theorem capped_step (capped : Capped s) (allowed : (gasOrder w.exec).allows (gasPhaseAt i s.2) o)
    (did : w.machine.exec i fresh o a s.1 = some out) :
    Capped (w := w) (out.shared, ⟨i, o, a, out.res⟩ :: s.2) := by
  constructor
  · intro j gwei passed
    by_cases own : i = j
    · subst own
      rw [gasPhaseAt_own] at passed
      exact passed_next allowed did (capped.passed i) gwei passed
    · rw [gasPhaseAt_other own] at passed
      exact capped.passed j gwei passed
  · cases o with
    | submit tx txHash site =>
        intro sub member
        rcases List.mem_cons.1 member with rfl | before
        · obtain ⟨⟨observed, now, fee⟩, limited⟩ := allowed
          exact ⟨observed, now, fee, fun buy => capped.passed i _ (limited buy)⟩
        · exact capped.priced sub before
    | _ => exact capped.priced

end GasCap

open GasCap in
/-- In every run of the trader, whatever the node answers and whatever is cached: a transaction that
is handed to its endpoint keeps to the configured gas price exactly if the price that its task
observed last did, and, for those that pass no limits, if their floor of three gwei does too. -/
theorem gas_capped_iff (s : World) (tasks : List Task)
    (c : Config LiveSig (LiveRecorded w) Task Done)
    (run : w.machine.recording.Run w.machine.recording.anyStep
      (w.machine.recording.start (s, []) tasks) c) :
    ∀ sub ∈ gasSubmissions c.shared.2,
      sub.fee.toNat ≤ w.exec.config.limits.maxGasPriceGwei * 10 ^ 9 ↔
        ∃ observed, sub.observed = some observed ∧
          sub.site.observedWithin w.exec.config.limits.maxGasPriceGwei observed := by
  have bodies : ∀ t, (w.machine.body t).Obeys (gasOrder w.exec) (fun _ _ => True) {} := body_obeys
  have capped : Capped c.shared := by
    apply Machine.invariant_of_obeyed (I := Capped) bodies _ run
    · constructor
      · intro i gwei passed
        cases passed
      · intro sub member
        cases member
    · intro i fresh t o a s out capped _ allowed _ did
      exact capped_step capped allowed did
  intro sub member
  obtain ⟨observed, now, fee, passed⟩ := capped.priced sub member
  have limited : sub.site = .buy → weiToGwei (sub.site.fee observed) ≤
      w.exec.config.limits.maxGasPriceGwei := by
    rw [← fee]
    exact passed
  rw [fee, fee_le_iff limited]
  constructor
  · exact fun within => ⟨observed, now, within⟩
  · rintro ⟨observed', now', within⟩
    rw [now] at now'
    cases now'
    exact within

/-- A BUY at one gwei goes out at its floor of ten. -/
theorem gas_capped_iff_floor :
    ∃ c, (scenario false).machine.recording.Run (scenario false).machine.recording.anyStep
        ((scenario false).machine.recording.start (World.boot 5 none, []) [buyTask]) c ∧
      gasSubmissions c.shared.2 = [⟨.buy, 10000000000, some (some 1000000000)⟩] ∧
      ∀ sub ∈ gasSubmissions c.shared.2,
        sub.fee.toNat ≤ (scenario false).exec.config.limits.maxGasPriceGwei * 10 ^ 9 ↔
          ∃ observed, sub.observed = some observed ∧
            sub.site.observedWithin (scenario false).exec.config.limits.maxGasPriceGwei
              observed := by
  let r : Replies := {}
  obtain ⟨c, run, sent⟩ : ∃ c, (scenario false).machine.recording.Run
      (scenario false).machine.recording.anyStep
      ((scenario false).machine.recording.start (World.boot 5 none, []) [buyTask]) c ∧
      gasSubmissions c.shared.2 = [⟨.buy, 10000000000, some (some 1000000000)⟩] :=
    Machine.exists_run_of_follow (C := (scenario false).machine.recording.anyStep) [(0, 18, r.ans)]
      (by decide +kernel)
  exact ⟨c, run, sent, gas_capped_iff (World.boot 5 none) [buyTask] c run⟩

/-- Under a cap of 100 gwei: a BUY at 100.9 gwei passes the limits with 100, an exit approves and
sells while the node does not answer, and the background approve pays what the node asks. All four
are above the cap. -/
theorem gas_cap_exceeded :
    ∃ c, (scenario false).machine.recording.Run (scenario false).machine.recording.anyStep
        ((scenario false).machine.recording.start (World.boot 5 none, []) [buyTask, exitTask]) c ∧
      c.Quiet ∧ (scenario false).exec.config.limits.maxGasPriceGwei = 100 ∧
      (gasSubmissions c.shared.2).map GasSubmission.fee =
        [200000000000, BitVec.allOnes 128, BitVec.allOnes 128, 100900000000] ∧
      ∀ sub ∈ gasSubmissions c.shared.2,
        ¬ sub.fee.toNat ≤ (scenario false).exec.config.limits.maxGasPriceGwei * 10 ^ 9 := by
  let dear : Replies := { gasPrice := some 100900000000, balance := some 1000 }
  let silent : Replies := { dear with gasPrice := none }
  let dearer : Replies := { dear with gasPrice := some 200000000000 }
  exact Machine.exists_run_of_follow (C := (scenario false).machine.recording.anyStep)
    [(0, 18, dear.ans), (1, 23, silent.ans), (2, 13, dearer.ans)] (by decide +kernel)

end BscMempool.Trader
