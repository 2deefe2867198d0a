/-
Module: BscMempool.Proofs.EntryOutline
Layer: Proofs
Purpose: A proof outline for execute, in the form of the one for execute_exit: the duplicate guard,
  the BUY and the insertion of its entry, with every other operation calm.
Trusted boundary: none
Main exports: EntryOutline, EntryOutline.execute_wp, TradeEntry, TradeEntry.execute_wp
-/
import BscMempool.Proofs.TradeSpec

namespace BscMempool.Trader

open Concurrent (Tid Machine Contract Proc)
open LiveExecutor

variable {w : TrailWatcher} {V : Type}

/-- Assertions for the points of a call of `execute` by the task at `i` that enters `token`, with
what every operation owes: before the duplicate guard, after its lookup, behind it, with a nonce for
the BUY, after its broadcast, and at the end. -/
structure EntryOutline (K : Contract w.machine) (view : World → V) (i : Tid) (token : Address) where
  idle : K.Assertion view i
  looked : Option (EntryId × PositionEntry) → K.Assertion view i
  cleared : K.Assertion view i
  priced : UInt64 → K.Assertion view i
  bought : K.Assertion view i
  done : K.Assertion view i
  get : K.Triple i idle.on (.trade (.positionsGet token)) fun r s => (looked r).on s
  duplicate : ∀ e p s, p.exited = false → (looked (some (e, p))).on s → done.on s
  absent : ∀ s, (looked none).on s → cleared.on s
  clear : ∀ e p, p.exited = true → K.Triple i (looked (some (e, p))).on
    (.trade (.positionsRemove token)) fun _ s => cleared.on s
  skipped : ∀ s, cleared.on s → done.on s
  reserve : ∀ s, cleared.on s → K.wp i w.exec.reserveNonce (fun n s => (priced n).on s) s
  signBuy : ∀ n target value calldata gasLimit gas, K.Triple i (priced n).on
    (.sign (w.exec.request target value calldata gasLimit gas n))
    fun hash s => if Option.isSome hash then (priced n).on s else done.on s
  sendBuy : ∀ n target value calldata gasLimit gas hash, w.exec.broadcastEnabled = true →
    Calldata.bought calldata = some token → Calldata.sold calldata = none →
    K.Triple i (priced n).on
      (.submit (w.exec.request target value calldata gasLimit gas n) hash .buy)
      fun ok s => if ok = true then bought.on s else done.on s
  shadowBuy : ∀ n target value calldata gasLimit gas, w.exec.broadcastEnabled = false →
    K.Triple i (priced n).on
      (.shadow (w.exec.request target value calldata gasLimit gas n)) fun _ s => done.on s
  openEntry : ∀ route bnbIn hash, K.Triple i bought.on
    (.trade (.openPosition token route bnbIn hash)) fun _ s => done.on s
  resync : ∀ s, done.on s → K.wp i NonceManager.resync (fun _ s => done.on s) s

namespace EntryOutline

variable {K : Contract w.machine} {view : World → V} {i : Tid} {token : Address}
variable (O : EntryOutline K view i token)

theorem dupGuard_wp {s : World} (now : O.idle.on s) :
    K.wp i (dupGuard token) (fun skip s => if skip = true then O.done.on s
      else O.cleared.on s) s := by
  refine Contract.wp_call_seq _ O.idle.stable O.get (fun r s looked => ?_) now
  cases r with
  | none => exact O.absent s looked
  | some held =>
      obtain ⟨e, p⟩ := held
      dsimp only
      split
      · rename_i gone
        exact Contract.wp_call_seq (fun _ s => O.cleared.on s) (O.looked _).stable
          (O.clear e p gone) (fun _ _ cleared => cleared) looked
      · rename_i held
        exact O.duplicate e p s (by simpa using held) looked

theorem resync_then {α : Type} {value : α} {s : World} (now : O.done.on s) :
    K.wp i (NonceManager.resync >>= fun _ => .ret value) (fun _ s => O.done.on s) s :=
  Contract.wp_seq _ (O.resync s now) fun _ _ done => done

theorem broadcastEntry_wp (focused : Focused K view) (kolName visibility : String) (entry : Entry)
    {s : World} (now : O.cleared.on s) :
    K.wp i (w.exec.broadcastEntry kolName visibility token entry) (fun _ s => O.done.on s) s := by
  refine Contract.wp_seq (fun call s => call.2.2.bought = some token ∧ call.2.2.sold = none ∧
    O.cleared.on s) ?_ ?_
  · refine Contract.wp_ends (w.exec.buyCall_buys entry.route token entry.bnbAmount) ?_
    exact focused.mild_wp _ (w.exec.buyCall_mild _ _ _)
      (fun _ _ cleared call => ⟨call.1, call.2, cleared⟩) now
  rintro ⟨target, gasLimit, calldata⟩ s ⟨bought, sold, cleared⟩
  dsimp only at bought sold
  refine Contract.wp_seq _ (O.reserve s cleared) fun n s priced => ?_
  refine Contract.wp_call_seq _ (O.priced n).stable
    (O.signBuy n target entry.bnbAmount calldata gasLimit entry.gasWei)
      (fun hash s signed => ?_) priced
  cases hash with
  | none => exact O.resync_then signed
  | some hash =>
      dsimp only
      split
      · rename_i live
        refine Contract.wp_call_seq _ (O.priced n).stable
          (O.sendBuy n target entry.bnbAmount calldata gasLimit entry.gasWei hash live bought sold)
          (fun ok s after => ?_) signed
        cases ok with
        | false => exact O.resync_then after
        | true =>
            refine Contract.wp_seq (fun _ => O.bought.on)
              (focused.calm_wp _ (ask_calm _) (fun _ _ bought => bought) after) fun _ s bought => ?_
            refine Contract.wp_seq (fun _ => O.bought.on)
              (focused.calm_wp _ (w.exec.recordEntry_calm ..) (fun _ _ bought => bought) bought)
              fun _ s bought => ?_
            exact Contract.wp_call_seq (fun _ s => O.done.on s) O.bought.stable
              (O.openEntry entry.route entry.bnbAmount hash) (fun _ _ done => done) bought
      · rename_i shadowed
        refine Contract.wp_call_seq _ (O.priced n).stable
          (O.shadowBuy n target entry.bnbAmount calldata gasLimit entry.gasWei
            (by simpa using shadowed))
          (fun _ s done => ?_) signed
        exact Contract.wp_seq (fun _ => O.done.on)
          (focused.calm_wp _ (w.exec.recordEntry_calm ..) (fun _ _ done => done) done)
          fun _ _ done => done

/-- A call of `execute` that enters meets its outline. -/
theorem execute_wp (focused : Focused K view) (kolName : String) (bnbAmount kolBnbInput : U256)
    (kolBlock : Nat) (kolTxHash : B256) (visibility : String) (openPositions : Nat) {s : World}
    (now : O.idle.on s) :
    K.wp i (w.exec.execute (.enter kolName token bnbAmount kolBnbInput kolBlock kolTxHash)
      visibility
      openPositions) (fun _ s => O.done.on s) s := by
  refine Contract.wp_seq _ (O.dupGuard_wp now) fun skip s guarded => ?_
  cases skip with
  | true => exact guarded
  | false =>
      refine Contract.wp_seq (fun _ => O.cleared.on)
        (focused.mild_wp _ (w.exec.sizeByUsd_mild _ _) (fun _ _ cleared => cleared) guarded)
        fun size s cleared => ?_
      cases size with
      | none => exact O.skipped s cleared
      | some bnbAmount =>
          refine Contract.wp_seq (fun _ => O.cleared.on)
            (focused.calm_wp _ ((w.exec.entryGates_gates ..).mono fun _ => Op.gates.calm)
              (fun _ _ cleared => cleared) cleared)
            fun gate s cleared => ?_
          cases gate with
          | error reason => exact O.skipped s cleared
          | ok entry => exact O.broadcastEntry_wp focused kolName visibility entry cleared

end EntryOutline

/-! ### Outlines that do not look at nonces -/

/-- An outline of `execute` for a contract about the trade alone. -/
structure TradeEntry (S : TradeSpec) (w : TrailWatcher) (i : Tid) (token : Address) where
  idle : (S.contract w).Assertion World.trade i
  looked : Option (EntryId × PositionEntry) → (S.contract w).Assertion World.trade i
  cleared : (S.contract w).Assertion World.trade i
  bought : (S.contract w).Assertion World.trade i
  done : (S.contract w).Assertion World.trade i
  get : ∀ t, S.inv t → idle.holds t → (looked (t.cached token)).holds t
  duplicate : ∀ e p t, p.exited = false → (looked (some (e, p))).holds t → done.holds t
  absent : ∀ t, (looked none).holds t → cleared.holds t
  clear : ∀ e p t, p.exited = true → S.inv t → (looked (some (e, p))).holds t →
    S.cond i (.trade (.positionsRemove token)) () t →
    let t' := { t with book := t.book.remove token }
    S.Moves i t t' ∧ cleared.holds t'
  skipped : ∀ t, cleared.holds t → done.holds t
  sendBuy : ∀ (r : WireTx) t, r.sender = i → r.site = .buy → r.tx.input.bought = some token →
    r.tx.input.sold = none → S.inv t → cleared.holds t →
    S.cond i (.submit r.tx r.hash r.site) (⟨r.accepted, r.ok⟩ : Submitted) t →
    S.Moves i t (t.transmit r) ∧ (r.ok = true → bought.holds (t.transmit r)) ∧
      (r.ok = false → done.holds (t.transmit r))
  openEntry : ∀ route bnbIn hash t fresh, i < fresh → S.inv t → bought.holds t →
    S.cond i (.trade (.openPosition token route bnbIn hash)) () t →
    let t' := { t with book := t.book.insert (t.freshEntry token route bnbIn fresh) }
    S.Moves i t t' ∧ S.pre (.finalizePosition token hash route t.book.entries.length) fresh t' ∧
      done.holds t'

namespace TradeEntry

variable {S : TradeSpec} {i : Tid} {token : Address} (T : TradeEntry S w i token)

/-- The operations that only concern nonces keep the assertions. -/
def outline : EntryOutline (S.contract w) World.trade i token where
  idle := T.idle
  looked := T.looked
  cleared := T.cleared
  priced _ := T.cleared
  bought := T.bought
  done := T.done
  get := TradeSpec.get token fun t inv idle _ => T.get t inv idle
  duplicate e p s := T.duplicate e p s.trade
  absent s := T.absent s.trade
  clear e p gone := TradeSpec.remove token fun t => T.clear e p t gone
  skipped s := T.skipped s.trade
  reserve _ cleared :=
    TradeSpec.leaves T.cleared (reserve_leavesTrade _) (fun _ _ cleared => cleared) cleared
  signBuy n target value calldata gasLimit gas :=
    sign_trade TradeSpec.about TradeSpec.persists T.cleared _ fun hash s cleared => by
      cases hash with
      | none => exact T.skipped s.trade cleared
      | some hash => exact cleared
  sendBuy n target value calldata gasLimit gas hash _ bought sold :=
    TradeSpec.submit _ hash .buy T.cleared.holds
      (fun ok t => if ok = true then T.bought.holds t else T.done.holds t)
      fun t r sender tx _ site inv cleared meets => by
      obtain ⟨moves, sent, failed⟩ := T.sendBuy r t sender site (by rw [tx]; exact bought)
        (by rw [tx]; exact sold) inv cleared meets
      exact ⟨moves, TradeSpec.after_submit sent failed⟩
  shadowBuy n target value calldata gasLimit gas _ :=
    shadow_trade TradeSpec.about TradeSpec.persists T.cleared _ fun s cleared =>
      T.skipped s.trade cleared
  openEntry route bnbIn hash :=
    TradeSpec.openPosition token route bnbIn hash (T.openEntry route bnbIn hash)
  resync _ done := TradeSpec.leaves T.done resync_leavesTrade (fun _ _ done => done) done

/-- A call of `execute` that enters meets an outline about the trade alone. -/
theorem execute_wp (kolName : String) (bnbAmount kolBnbInput : U256) (kolBlock : Nat)
    (kolTxHash : B256) (visibility : String) (openPositions : Nat) {s : World} (now : T.idle.on s) :
    (S.contract w).wp i
      (w.exec.execute (.enter kolName token bnbAmount kolBnbInput kolBlock kolTxHash)
      visibility openPositions) (fun _ s => T.done.on s) s :=
  T.outline.execute_wp ⟨TradeSpec.about, fun _ _ => rfl⟩ kolName bnbAmount kolBnbInput kolBlock
    kolTxHash visibility openPositions now

end TradeEntry

end BscMempool.Trader
