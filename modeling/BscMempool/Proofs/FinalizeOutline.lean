/-
Module: BscMempool.Proofs.FinalizeOutline
Layer: Proofs
Purpose: A proof outline for finalize_position, in the form of the one for execute_exit: the balance
  read, its store, the approve and the store of the approval flag, with every other operation calm.
Trusted boundary: none
Main exports: FinalizeOutline, FinalizeOutline.finalizePosition_wp, TradeFinalize,
  TradeFinalize.finalizePosition_wp
-/
import BscMempool.Proofs.TradeSpec

namespace BscMempool.Trader

open Concurrent (Tid Machine Contract Proc)
open LiveExecutor

variable {w : TrailWatcher} {V : Type}

/-- Assertions for the points of the finalize task of `entry`, with what every operation owes:
before its balance read, after it, after the store of the balance (or none, if it was zero), with a
nonce for the approve, after its broadcast, and at the end. -/
structure FinalizeOutline (K : Contract w.machine) (view : World → V) (i : Tid) (token : Address)
    (route : BuyRoute) (entry : EntryId) where
  pending : K.Assertion view i
  read : U256 → K.Assertion view i
  stored : U256 → K.Assertion view i
  asked : U256 → UInt64 → K.Assertion view i
  approving : U256 → K.Assertion view i
  done : FinalizeReport → K.Assertion view i
  unseen : ∀ s, pending.on s → (done ⟨false, 0, false⟩).on s
  balance : K.Triple i pending.on (.ask (.balanceOf token)) fun bal s =>
    (read (Option.getD bal 0)).on s
  empty : ∀ s, (read 0).on s → (stored 0).on s
  store : ∀ bal, bal ≠ 0 → K.Triple i (read bal).on (.trade (.storeTokensBought entry bal))
    fun _ s => (stored bal).on s
  unarmed : ∀ bal s, (stored bal).on s → (done ⟨true, bal, false⟩).on s
  reserve : ∀ bal s, w.exec.broadcastEnabled = true → route = .fourMeme → (stored bal).on s →
    K.wp i w.exec.reserveNonce (fun n s => (asked bal n).on s) s
  signApprove : ∀ bal n gas, K.Triple i (asked bal n).on
    (.sign (w.exec.request token 0 (.approve FOURMEME (BitVec.allOnes 256)) 60000 gas n))
    fun hash s => if Option.isSome hash then (asked bal n).on s else (done ⟨true, bal, false⟩).on s
  sendApprove : ∀ bal n gas hash, w.exec.broadcastEnabled = true → K.Triple i (asked bal n).on
    (.submit (w.exec.request token 0 (.approve FOURMEME (BitVec.allOnes 256)) 60000 gas n) hash
      .bgApprove)
    fun ok s => if ok = true then (approving bal).on s else (done ⟨true, bal, false⟩).on s
  unconfirmed : ∀ bal s, (approving bal).on s → (done ⟨true, bal, false⟩).on s
  confirm : ∀ bal, K.Triple i (approving bal).on (.trade (.storeApproved entry bal))
    fun _ s => (done ⟨true, bal, true⟩).on s

namespace FinalizeOutline

variable {K : Contract w.machine} {view : World → V} {i : Tid} {token : Address} {route : BuyRoute}
variable {entry : EntryId} (O : FinalizeOutline K view i token route entry)

theorem submitApproveBg_wp (focused : Focused K view) (bal : U256) (curve : route = .fourMeme)
    {s : World} (now : (O.stored bal).on s) :
    K.wp i (w.exec.submitApproveBg token) (fun sent s => match sent with
      | some (some _) => (O.approving bal).on s
      | _ => (O.done ⟨true, bal, false⟩).on s) s := by
  unfold submitApproveBg
  split
  · rename_i live
    refine Contract.wp_seq _ (O.reserve bal s live curve now) fun n s asked => ?_
    refine Contract.wp_seq (fun _ => (O.asked bal n).on)
      (focused.calm_wp _ (ask_calm _) (fun _ _ asked => asked) asked) fun gas s asked => ?_
    refine Contract.wp_call_seq _ (O.asked bal n).stable (O.signApprove bal n _)
      (fun hash s signed => ?_) asked
    cases hash with
    | none => exact signed
    | some hash =>
        refine Contract.wp_call_seq _ (O.asked bal n).stable (O.sendApprove bal n _ hash live)
          (fun ok s after => ?_) signed
        cases ok <;> exact after
  · exact O.unarmed bal s now

theorem finalizeApprove_wp (focused : Focused K view) (bal : U256) {s : World}
    (now : (O.stored bal).on s) :
    K.wp i (w.exec.finalizeApprove token route entry bal)
      (fun confirmed s => (O.done ⟨true, bal, confirmed⟩).on s) s := by
  unfold finalizeApprove
  split
  · rename_i curve
    refine Contract.wp_seq _ (O.submitApproveBg_wp focused bal curve.1 now) fun sent s after => ?_
    match sent, after with
    | none, done => exact done
    | some none, done => exact done
    | some (some hash), approving =>
        refine Contract.wp_seq (fun _ => (O.approving bal).on)
          (focused.calm_wp _ (ask_calm _) (fun _ _ approving => approving) approving)
          fun budget s approving => ?_
        refine Contract.wp_seq (fun _ => (O.approving bal).on)
          (focused.mild_wp _ (pollReceipt_mild hash budget) (fun _ _ approving => approving)
            approving)
          fun seen s approving => ?_
        cases seen with
        | true =>
            exact Contract.wp_call_seq (fun _ s => (O.done ⟨true, bal, true⟩).on s)
              (O.approving bal).stable (O.confirm bal) (fun _ _ done => done) approving
        | false => exact O.unconfirmed bal s approving
  · exact O.unarmed bal s now

theorem finalizeBody_wp (focused : Focused K view) (buyTxHash : B256) {s : World}
    (now : O.pending.on s) :
    K.wp i (w.exec.finalizeBody token buyTxHash route entry)
      (fun report s => (O.done report).on s) s := by
  refine Contract.wp_seq (fun _ => O.pending.on)
    (focused.calm_wp _ (ask_calm _) (fun _ _ pending => pending) now) fun budget s pending => ?_
  refine Contract.wp_seq (fun _ => O.pending.on)
    (focused.mild_wp _ (pollReceipt_mild buyTxHash budget) (fun _ _ pending => pending) pending)
    fun seen s pending => ?_
  cases seen with
  | false => exact O.unseen s pending
  | true =>
      refine Contract.wp_call_seq _ O.pending.stable O.balance (fun bal s read => ?_) pending
      dsimp only
      split
      · rename_i zero
        rw [zero] at read ⊢
        exact Contract.wp_seq _ (O.finalizeApprove_wp focused 0 (O.empty s read)) fun _ _
          done => done
      · rename_i some_
        refine Contract.wp_call_seq _ (O.read _).stable (O.store _ some_)
          (fun _ s stored => ?_) read
        exact Contract.wp_seq _ (O.finalizeApprove_wp focused _ stored) fun _ _ done => done

/-- The finalize task meets its outline. -/
theorem finalizePosition_wp (focused : Focused K view) (buyTxHash : B256) {s : World}
    (now : O.pending.on s) :
    K.wp i (w.exec.finalizePosition token buyTxHash route entry)
      (fun report s => (O.done report).on s) s := by
  refine Contract.wp_seq (fun _ => O.pending.on)
    (focused.calm_wp _ (onEnv_calm _) (fun _ _ pending => pending) now) fun _ s pending => ?_
  refine Contract.wp_seq _ (O.finalizeBody_wp focused buyTxHash pending) fun report s done => ?_
  exact Contract.wp_seq (fun _ => (O.done report).on)
    (focused.calm_wp _ (onEnv_calm _) (fun _ _ done => done) done) fun _ _ done => done

end FinalizeOutline

/-! ### Outlines that do not look at nonces -/

/-- An outline of the finalize task for a contract about the trade alone. -/
structure TradeFinalize (S : TradeSpec) (w : TrailWatcher) (i : Tid) (token : Address)
    (route : BuyRoute) (entry : EntryId) where
  pending : (S.contract w).Assertion World.trade i
  read : U256 → (S.contract w).Assertion World.trade i
  stored : U256 → (S.contract w).Assertion World.trade i
  approving : U256 → (S.contract w).Assertion World.trade i
  done : FinalizeReport → (S.contract w).Assertion World.trade i
  unseen : ∀ t, pending.holds t → (done ⟨false, 0, false⟩).holds t
  balance : ∀ (bal : Option U256) t, S.inv t → pending.holds t →
    S.cond i (.ask (.balanceOf token)) bal t → (read (bal.getD 0)).holds t
  empty : ∀ t, (read 0).holds t → (stored 0).holds t
  store : ∀ bal t, bal ≠ 0 → S.inv t → (read bal).holds t →
    S.cond i (.trade (.storeTokensBought entry bal)) () t →
    let t' := { t with book := t.book.setTokens entry bal }
    S.Moves i t t' ∧ (stored bal).holds t'
  unarmed : ∀ bal t, (stored bal).holds t → (done ⟨true, bal, false⟩).holds t
  sendApprove : ∀ bal (r : WireTx) t, r.sender = i → r.site = .bgApprove → r.tx.input.sold = none →
    r.tx.input.bought = none → route = .fourMeme → S.inv t → (stored bal).holds t →
    S.cond i (.submit r.tx r.hash r.site) (⟨r.accepted, r.ok⟩ : Submitted) t →
    S.Moves i t (t.transmit r) ∧ (r.ok = true → (approving bal).holds (t.transmit r)) ∧
      (r.ok = false → (done ⟨true, bal, false⟩).holds (t.transmit r))
  unconfirmed : ∀ bal t, (approving bal).holds t → (done ⟨true, bal, false⟩).holds t
  confirm : ∀ bal t, S.inv t → (approving bal).holds t →
    S.cond i (.trade (.storeApproved entry bal)) () t →
    let t' := { t with book := t.book.setApproved entry }
    S.Moves i t t' ∧ (done ⟨true, bal, true⟩).holds t'

namespace TradeFinalize

variable {S : TradeSpec} {i : Tid} {token : Address} {route : BuyRoute} {entry : EntryId}
variable (T : TradeFinalize S w i token route entry)

/-- The operations that only concern nonces keep the assertions. -/
def outline : FinalizeOutline (S.contract w) World.trade i token route entry where
  pending := T.pending
  read := T.read
  stored := T.stored
  asked bal _ := (T.stored bal).given (route = .fourMeme)
  approving := T.approving
  done := T.done
  unseen s := T.unseen s.trade
  balance := TradeSpec.ask (.balanceOf token) T.pending.holds
    (fun bal t => (T.read (Option.getD bal 0)).holds t) fun t bal => T.balance bal t
  empty s := T.empty s.trade
  store bal some_ := TradeSpec.storeTokensBought entry bal fun t => T.store bal t some_
  unarmed bal s := T.unarmed bal s.trade
  reserve bal _ _ curve stored :=
    TradeSpec.leaves (T.stored bal) (reserve_leavesTrade _)
      (fun _ _ stored => ⟨curve, stored⟩) stored
  signApprove bal n gas :=
    sign_trade TradeSpec.about TradeSpec.persists _ _ fun hash s asked => by
      cases hash with
      | none => exact T.unarmed bal s.trade asked.2
      | some hash => exact asked
  sendApprove bal n gas hash _ :=
    TradeSpec.submit _ hash .bgApprove ((T.stored bal).given (route = .fourMeme)).holds
      (fun ok t => if ok = true then (T.approving bal).holds t
        else (T.done ⟨true, bal, false⟩).holds t)
      fun t r sender tx _ site inv ⟨curve, stored⟩ meets => by
      obtain ⟨moves, sent, failed⟩ := T.sendApprove bal r t sender site (by rw [tx]; rfl)
        (by rw [tx]; rfl) curve inv stored meets
      exact ⟨moves, TradeSpec.after_submit sent failed⟩
  unconfirmed bal s := T.unconfirmed bal s.trade
  confirm bal := TradeSpec.storeApproved entry bal (T.confirm bal)

/-- The finalize task meets an outline about the trade alone. -/
theorem finalizePosition_wp (buyTxHash : B256) {s : World} (now : T.pending.on s) :
    (S.contract w).wp i (w.exec.finalizePosition token buyTxHash route entry)
      (fun report s => (T.done report).on s) s :=
  T.outline.finalizePosition_wp ⟨TradeSpec.about, fun _ _ => rfl⟩ buyTxHash now

end TradeFinalize

end BscMempool.Trader
