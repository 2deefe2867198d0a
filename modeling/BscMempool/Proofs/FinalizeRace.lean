/-
Module: BscMempool.Proofs.FinalizeRace
Layer: Proofs
Purpose: The finalize task of a BUY beside exits of its position: when the cached amount stays
  within what the BUY received less what was sold.
Trusted boundary: none
Main exports: FinalizedBuy, FinalizedBuy.freshReads, FinalizedBuy.storing, FinalizedBuy.inOrder,
  FinalizedBuy.run_of_inOrder, finalize_never_resurrects, finalize_resurrects
-/
import BscMempool.Concurrent.Trace
import BscMempool.Proofs.FinalizeOutline
import BscMempool.Proofs.ExitOutline
import BscMempool.Proofs.Scenario
import BscMempool.Proofs.TaskOps

namespace BscMempool.Trader

open Concurrent (Tid Machine Contract Config Proc Protocol Outcome)
open Concurrent.Proc
open LiveExecutor

/-- A position whose BUY was broadcast: its token and entry, the amount the BUY received, and how
much of the wire is older than it. -/
structure FinalizedBuy where
  token : Address
  entry : EntryId
  received : Nat
  start : Nat

namespace FinalizedBuy

variable (b : FinalizedBuy)

/-- Sum of the amounts of the token broadcast since the BUY. -/
def sold (t : Trade) : Nat := soldTotal (t.wire.drop b.start) b.token

/-- The steps that work with a balance that is not stale: an exit reads one that does not count what
was sold already, and the finalize task stores one that does not. -/
def freshReads (i : Tid) : (o : Op) → o.Ans → Trade → Bool
  | .ask (.balanceOf token), bal, t =>
      decide (token ≠ b.token) || decide (t.exitLocks token ≠ some i) ||
        decide ((Option.getD bal 0).toNat + b.sold t ≤ b.received)
  | .trade (.storeTokensBought entry bal), _, t =>
      decide (entry ≠ b.entry) || decide (bal.toNat + b.sold t ≤ b.received)
  | _, _, _ => true

/-- A SELL of the token that goes out finds no amount in the cache. -/
def sellsUncached : (o : Op) → o.Ans → Trade → Bool
  | .submit tx _ _, (sent : Submitted), t =>
      decide (tx.input.sold.map Prod.fst ≠ some b.token) || !sent.ok ||
        (t.cached b.token).all fun held => decide (held.2.tokensBought = 0)
  | _, _, _ => true

/-- By how much the cached amount may be ahead: by a SELL whose cache update is still to come,
unless SELLs go out only where there is no amount in the cache. -/
def ahead (uncached : Bool) (t : Trade) : Nat := if uncached then 0 else t.unsettled b.token

/-- The cached amount and what was sold are within what was received, but for a SELL whose cache
update is still to come; there is none such while no exit holds the lock. -/
structure Inv (uncached : Bool) (t : Trade) : Prop where
  start : b.start ≤ t.wire.length
  within : ∃ q, t.cached b.token = some (b.entry, q) ∧
    q.tokensBought.toNat + b.sold t ≤ b.received + b.ahead uncached t
  settled : t.exitLocks b.token = none → t.unsettled b.token = 0

/-- What a step of the task at `i` may do: take and give back the lock for itself, and sell only
under the lock. -/
structure Guar (i : Tid) (t t' : Trade) : Prop where
  lock : ∀ j, j ≠ i → (t'.exitLocks b.token = some j ↔ t.exitLocks b.token = some j)
  kept : t.exitLocks b.token ≠ some i → b.sold t' = b.sold t ∧
    t'.unsettled b.token = t.unsettled b.token

/-- Exits on any tokens, the finalize task of the BUY, and the saves of the nonce they start. -/
def Admits : Task → Prop
  | .executeExit .. => True
  | .finalizePosition token _ _ e => token = b.token ∧ e = b.entry
  | .persistNonce _ => True
  | _ => False

/-- The contract of these tasks. -/
def spec (uncached : Bool) : TradeSpec where
  cond i o a t := b.freshReads i o a t = true ∧ (uncached = true → b.sellsUncached o a t = true)
  inv := b.Inv uncached
  guar := b.Guar
  pre task _ _ := b.Admits task
  post _ _ _ _ := True
  idle _ _ _ := ⟨fun _ _ => Iff.rfl, fun _ => ⟨rfl, rfl⟩⟩
  persist _ _ _ := trivial

variable {b} {uncached : Bool} {w : TrailWatcher} {i : Tid} {t : Trade}

/-! ### What one operation does -/

theorem ahead_eq {t' : Trade} (same : t'.unsettled b.token = t.unsettled b.token) :
    b.ahead uncached t' = b.ahead uncached t := by
  rw [ahead, ahead, same]

theorem ahead_false : b.ahead false t = t.unsettled b.token := rfl

theorem ahead_settled (settled : t.unsettled b.token = 0) : b.ahead uncached t = 0 := by
  rw [ahead, settled, ite_self]

theorem sold_transmit {r : WireTx} (start : b.start ≤ t.wire.length) :
    b.sold (t.transmit r) = b.sold t + r.soldAmount b.token := by
  rw [sold, Trade.transmit_wire, List.drop_append_of_le_length start, soldTotal_append]
  rfl

/-- A transaction that is no SELL of the token. -/
theorem transmit_other {r : WireTx} (inv : b.Inv uncached t) (other : r.sells b.token = false) :
    (b.spec uncached).Moves i t (t.transmit r) ∧ b.sold (t.transmit r) = b.sold t ∧
      (t.transmit r).unsettled b.token = t.unsettled b.token := by
  have sold : b.sold (t.transmit r) = b.sold t := by
    rw [sold_transmit inv.start, WireTx.soldAmount_eq_zero other, Nat.add_zero]
  have unsettled := Trade.unsettled_transmit_other t other
  refine ⟨⟨⟨inv.start.trans (by simp), ?_, fun free => ?_⟩, fun _ _ => Iff.rfl,
    fun _ => ⟨sold, unsettled⟩⟩, sold, unsettled⟩
  · rw [sold, ahead_eq unsettled]
    exact inv.within
  · rw [unsettled]
    exact inv.settled free

/-- Taking or giving back a lock, with nothing left to settle where it is the token's. -/
theorem move_lock {token : Address} {holder : Option Tid} (inv : b.Inv uncached t)
    (mine : token = b.token → t.unsettled b.token = 0 ∧
      ∀ j, j ≠ i → (holder = some j ↔ t.exitLocks b.token = some j)) :
    (b.spec uncached).Moves i t
      { t with exitLocks := Function.update t.exitLocks token holder } := by
  by_cases same : token = b.token
  · obtain ⟨settled, other⟩ := mine same
    subst same
    exact ⟨⟨inv.start, inv.within, fun _ => settled⟩, by simpa using other, fun _ => ⟨rfl, rfl⟩⟩
  · refine ⟨⟨inv.start, inv.within, fun free => inv.settled ?_⟩, fun j _ => ?_, fun _ => ⟨rfl, rfl⟩⟩
    · simpa [Function.update_of_ne (Ne.symm same)] using free
    · simp [Function.update_of_ne (Ne.symm same)]

/-! ### The outlines -/

def anything (b : FinalizedBuy) (uncached : Bool) (w : TrailWatcher) (i : Tid) :
    ((b.spec uncached).contract w).Assertion World.trade i :=
  ⟨fun _ => True, .true⟩

/-- An assertion of the holder of the lock about what was sold and what is left to settle. -/
def owned (b : FinalizedBuy) (uncached : Bool) (w : TrailWatcher) (i : Tid) (R : Nat → Nat → Prop) :
    ((b.spec uncached).contract w).Assertion World.trade i :=
  (b.spec uncached).assertion w i
    (fun t => t.exitLocks b.token = some i ∧ R (b.sold t) (t.unsettled b.token)) (by
      rintro j t t' ne _ _ _ guar ⟨locked, holds⟩
      have other : t.exitLocks b.token ≠ some j := by
        rw [locked]
        exact fun same => ne (Option.some.inj same).symm
      obtain ⟨sold, unsettled⟩ := guar.kept other
      refine ⟨(guar.lock i ne.symm).2 locked, ?_⟩
      rw [sold, unsettled]
      exact holds)

/-- An exit on another token. -/
def otherExit (b : FinalizedBuy) (uncached : Bool) (w : TrailWatcher) (i : Tid) (token : Address)
    (ne : token ≠ b.token) :
    TradeExit (b.spec uncached) w i token where
  idle := b.anything uncached w i
  locked := b.anything uncached w i
  looked _ := b.anything uncached w i
  sized _ := b.anything uncached w i
  ready _ := b.anything uncached w i
  sent _ := b.anything uncached w i
  done _ := b.anything uncached w i
  post _ _ := True
  refused _ _ := trivial
  lock _ inv _ _ := ⟨move_lock inv fun same => absurd same ne, trivial⟩
  get _ _ _ _ := trivial
  exited _ _ _ _ _ := trivial
  fast _ _ _ _ _ _ := trivial
  balance r bal t _ _ _ _ := by
    by_cases zero : bal.getD 0 = 0
    · rw [if_pos zero]
      trivial
    · rw [if_neg zero]
      exact fun _ _ => trivial
  givenUp _ _ _ := ⟨trivial, trivial, trivial⟩
  approved _ _ _ := trivial
  sendApprove _ r _ _ _ _ _ sold _ inv _ _ :=
    ⟨(transmit_other inv (WireTx.sells_of_none sold)).1, fun _ => trivial, fun _ => trivial⟩
  failed _ _ _ := ⟨trivial, trivial⟩
  sendSale _ _ r _ _ _ sold _ inv _ _ :=
    ⟨(transmit_other inv (by rw [WireTx.sells_of_sold sold]; simp [ne])).1, fun _ => trivial,
      fun _ => trivial⟩
  update sale t inv _ _ := by
    have kept : (t.book.writeBack token sale.rest).cached b.token = t.book.cached b.token :=
      Book.cached_writeBack_other (Ne.symm ne)
    have unsettled : Function.update t.unsettled token 0 b.token = t.unsettled b.token :=
      Function.update_of_ne (Ne.symm ne) _ _
    refine ⟨⟨⟨inv.start, ?_, fun free => unsettled.trans (inv.settled free)⟩, fun _ _ => Iff.rfl,
      fun _ => ⟨rfl, unsettled⟩⟩, trivial⟩
    obtain ⟨q, held, within⟩ := inv.within
    refine ⟨q, kept.trans held, ?_⟩
    have ahead : b.ahead uncached { t with
        book := t.book.writeBack token sale.rest
        unsettled := Function.update t.unsettled token 0 } = b.ahead uncached t :=
          ahead_eq unsettled
    rw [ahead]
    exact within
  unlock _ _ inv _ := ⟨move_lock inv fun same => absurd same ne, trivial⟩

/-- An exit on the token itself, with balances that are not stale. -/
def ownExit (b : FinalizedBuy) (uncached : Bool) (w : TrailWatcher) (i : Tid) :
    TradeExit (b.spec uncached) w i b.token where
  idle := b.anything uncached w i
  locked := b.owned uncached w i fun _ unsettled => unsettled = 0
  looked r := b.owned uncached w i fun sold unsettled => unsettled = 0 ∧
    ∀ d q, r = some (d, q) → q.tokensBought.toNat + sold ≤ b.received
  sized h := b.owned uncached w i fun sold unsettled => unsettled = 0 ∧
    h.ourBalance.toNat + sold ≤ b.received
  ready sale := b.owned uncached w i fun sold unsettled => unsettled = 0 ∧
    sale.holding.ourBalance.toNat + sold ≤ b.received
  sent sale := b.owned uncached w i fun sold _ => sale.rest.toNat + sold ≤ b.received
  done _ := b.owned uncached w i fun _ unsettled => unsettled = 0
  post _ _ := True
  refused _ _ := trivial
  lock t inv _ free := by
    have settled := inv.settled free
    refine ⟨move_lock inv fun _ => ⟨settled, fun j ne => ?_⟩, by simp, settled⟩
    simp [free, Ne.symm ne]
  get t inv locked _ := by
    refine ⟨locked.1, locked.2, fun d q held => ?_⟩
    obtain ⟨q', held', within⟩ := inv.within
    rw [held'] at held
    cases held
    rw [ahead_settled locked.2, Nat.add_zero] at within
    exact within
  exited _ _ _ _ looked := ⟨looked.1, looked.2.1⟩
  fast e p t _ _ looked := ⟨looked.1, looked.2.1, looked.2.2 e p rfl⟩
  balance r bal t _ _ looked meets := by
    by_cases zero : bal.getD 0 = 0
    · rw [if_pos zero]
      exact ⟨looked.1, looked.2.1⟩
    · rw [if_neg zero]
      have fresh : (bal.getD 0).toNat + b.sold t ≤ b.received := by
        have := meets.1
        simpa [freshReads, looked.1] using this
      exact fun _ _ => ⟨looked.1, looked.2.1, fresh⟩
  givenUp _ _ sized := ⟨⟨sized.1, sized.2.1⟩, ⟨sized.1, sized.2.1⟩, sized.1, sized.2.1⟩
  approved _ _ sized := sized
  sendApprove sale r t _ _ _ _ sold _ inv sized _ := by
    obtain ⟨locked, settled, within⟩ := sized
    obtain ⟨moves, same, unsettled⟩ := transmit_other inv (WireTx.sells_of_none sold)
    refine ⟨moves, fun _ => ⟨locked, unsettled.trans settled, ?_⟩, fun _ =>
      ⟨locked, unsettled.trans settled⟩⟩
    rw [same]
    exact within
  failed _ _ ready := ⟨⟨ready.1, ready.2.1⟩, ready.1, ready.2.1⟩
  sendSale sale allowance r t _ site sold _ inv ready meets := by
    obtain ⟨locked, settled, within⟩ := ready
    by_cases ok : r.ok = true
    · have amount : r.soldAmount b.token = sale.amount.toNat := by
        rw [WireTx.soldAmount_of_sold sold]
        simp [ok]
      have unsettled : (t.transmit r).unsettled b.token = sale.amount.toNat := by
        rw [Trade.unsettled_transmit_sell t site sold ok, amount]
      have total := sold_transmit (r := r) inv.start
      have added := sale.rest_add_amount
      refine ⟨⟨⟨inv.start.trans (by simp), ?_, fun free => ?_⟩, fun _ _ => Iff.rfl,
        fun other => absurd locked other⟩, fun _ => ⟨locked, ?_⟩, fun failed =>
          absurd ok (by simp [failed])⟩
      · obtain ⟨q, held, before⟩ := inv.within
        refine ⟨q, held, ?_⟩
        rw [ahead_settled settled] at before
        rw [total, amount, ahead, unsettled]
        split
        · rename_i only
          have empty : q.tokensBought = 0 := by
            have found := meets.2 only
            simpa [sellsUncached, sold, ok, held] using found
          have zero : (0 : U256).toNat = 0 := rfl
          rw [empty, zero]
          omega
        · omega
      · rw [Trade.transmit_exitLocks, locked] at free
        cases free
      · rw [total, amount]
        omega
    · have failed : r.ok = false := by simpa using ok
      obtain ⟨moves, same, unsettled⟩ :=
        transmit_other inv (i := i) (show r.sells b.token = false by simp [WireTx.sells, failed])
      exact ⟨moves, fun sent => absurd sent ok, fun _ => ⟨locked, unsettled.trans settled⟩⟩
  update sale t inv sent _ := by
    obtain ⟨locked, within⟩ := sent
    have zero : Function.update t.unsettled b.token 0 b.token = 0 := Function.update_self _ _ _
    refine ⟨⟨⟨inv.start, ?_, fun _ => zero⟩, fun _ _ => Iff.rfl, fun other => absurd locked other⟩,
      locked, zero⟩
    obtain ⟨q, held, _⟩ := inv.within
    have held : t.book.cached b.token = some (b.entry, q) := held
    refine ⟨{ q with tokensBought := sale.rest }, ?_, ?_⟩
    · change (t.book.writeBack b.token sale.rest).cached b.token = _
      rw [Book.cached_writeBack_self, held]
      rfl
    · exact within.trans (Nat.le_add_right _ _)
  unlock _ t inv done := by
    refine ⟨move_lock inv fun _ => ⟨done.2, fun j ne => ?_⟩, trivial⟩
    simp [done.1, Ne.symm ne]

/-- The finalize task changes what the cache holds, and nothing that was sold. -/
def finalize (b : FinalizedBuy) (uncached : Bool) (w : TrailWatcher) (i : Tid) (route : BuyRoute) :
    TradeFinalize (b.spec uncached) w i b.token route b.entry where
  pending := b.anything uncached w i
  read _ := b.anything uncached w i
  stored _ := b.anything uncached w i
  approving _ := b.anything uncached w i
  done _ := b.anything uncached w i
  unseen _ _ := trivial
  balance _ _ _ _ _ := trivial
  empty _ _ := trivial
  store bal t _ inv _ meets := by
    have fresh : bal.toNat + b.sold t ≤ b.received := by
      have := meets.1
      simpa [freshReads] using this
    obtain ⟨q, held, _⟩ := inv.within
    have held : t.book.cached b.token = some (b.entry, q) := held
    refine ⟨⟨⟨inv.start, ⟨{ q with tokensBought := bal }, ?_, ?_⟩, inv.settled⟩, fun _ _ => Iff.rfl,
      fun _ => ⟨rfl, rfl⟩⟩, trivial⟩
    · change (t.book.setTokens b.entry bal).cached b.token = _
      rw [Book.cached_setTokens, held]
      simp
    · exact fresh.trans (Nat.le_add_right _ _)
  unarmed _ _ _ := trivial
  sendApprove _ r _ _ _ sold _ _ inv _ _ :=
    ⟨(transmit_other inv (WireTx.sells_of_none sold)).1, fun _ => trivial, fun _ => trivial⟩
  unconfirmed _ _ _ := trivial
  confirm _ t inv _ _ := by
    obtain ⟨q, held, within⟩ := inv.within
    have held : t.book.cached b.token = some (b.entry, q) := held
    refine ⟨⟨⟨inv.start, ⟨{ q with approved := true }, ?_, within⟩, inv.settled⟩, fun _ _ =>
      Iff.rfl,
      fun _ => ⟨rfl, rfl⟩⟩, trivial⟩
    change (t.book.setApproved b.entry).cached b.token = _
    rw [Book.cached_setApproved, held]
    simp

theorem bodies (w : TrailWatcher) (t : Task) (i : Tid) (s : World)
    (pre : ((b.spec uncached).contract w).pre t i s) :
    ((b.spec uncached).contract w).wp i (w.body t) (((b.spec uncached).contract w).post t i) s := by
  cases t with
  | executeExit token kolName kolBlock kolAddr =>
      by_cases same : token = b.token
      · subst same
        exact Contract.wp_seq _
          ((b.ownExit uncached w i).executeExit_wp kolName kolBlock kolAddr trivial)
          fun _ _ _ => trivial
      · exact Contract.wp_seq _
          ((b.otherExit uncached w i token same).executeExit_wp kolName kolBlock kolAddr trivial)
          fun _ _ _ => trivial
  | finalizePosition token buyTxHash route e =>
      obtain ⟨rfl, rfl⟩ := pre
      exact Contract.wp_seq _
        ((b.finalize uncached w i route).finalizePosition_wp buyTxHash trivial)
        fun _ _ _ => trivial
  | persistNonce n => exact TradeSpec.persistNonce_wp n fun _ => trivial
  | _ => exact pre.elim

/-! ### What a finalize task stores -/

/-- A finalize task stores the balance of its token that it read last. -/
def storing (token : Address) : Protocol LiveSig (Option U256) where
  allows q o := match o with
    | .trade (.storeTokensBought _ bal) => q = some bal
    | _ => True
  next q o result := match o, result with
    | .ask (.balanceOf asked), (bal : Option U256) => if asked = token then some (bal.getD 0) else q
    | _, _ => q

/-- The protocol of a task. -/
def protocol : Task → Protocol LiveSig (Option U256)
  | .finalizePosition token .. => storing token
  | _ => { allows := fun _ _ => True, next := fun q _ _ => q }

theorem storing_arms {token : Address} {broadcast : Bool} {q : Option U256} {o : Op}
    (arms : o.arms broadcast) :
    (storing token).allows q o := by
  unfold storing
  dsimp only
  split
  · exact (arms.elim False.elim False.elim : False).elim
  · trivial

theorem finalizePosition_obeys {x : LiveExecutor} (token : Address) (buyTxHash : B256)
    (route : BuyRoute) (entry : EntryId) :
    (x.finalizePosition token buyTxHash route entry).Obeys (storing token) (fun _ _ => True)
      none := by
  have free : ∀ {α : Type} {p : Live α} {q}, p.All (Op.arms x.broadcastEnabled) →
      p.Obeys (storing token) (fun _ _ => True) q :=
        fun all => .of_allowed (fun _ _ => storing_arms) all
  have mild : ∀ {α : Type} {p : Live α} {q}, p.All Op.mild →
      p.Obeys (storing token) (fun _ _ => True) q :=
    fun all => free (all.mono fun _ mild => Op.basic.arms (.inl mild))
  have body : ∀ q, (x.finalizeBody token buyTxHash route entry).Obeys (storing token)
      (fun _ _ => True) q := by
    intro q
    apply (mild (ask_mild _ (by rfl))).bind
    intro q budget _
    apply (mild (pollReceipt_mild _ _)).bind
    intro q seen _
    cases seen with
    | false => trivial
    | true =>
        apply Obeys.call trivial
        intro bal
        have read : (storing token).next q (.ask (.balanceOf token)) bal =
            some (Option.getD bal 0) := if_pos rfl
        rw [read]
        dsimp only
        by_cases zero : Option.getD bal 0 = 0
        · rw [if_pos zero]
          exact (free (finalizeApprove_arms _ _ _ _)).bind fun _ _ _ => trivial
        · rw [if_neg zero]
          apply Obeys.call rfl
          exact fun _ => (free (finalizeApprove_arms _ _ _ _)).bind fun _ _ _ => trivial
  apply Obeys.call trivial
  intro _
  apply (body _).bind
  exact fun _ _ _ => Obeys.call trivial fun _ => trivial

theorem body_obeys (w : TrailWatcher) (t : Task) :
    (w.body t).Obeys (protocol t) (fun _ _ => True) none := by
  cases t with
  | finalizePosition token buyTxHash route entry =>
      exact (finalizePosition_obeys token buyTxHash route entry).bind fun _ _ _ => trivial
  | _ => exact Obeys.of_allowed (K := fun _ => True) (fun _ _ _ => trivial) (.any _)

/-! ### Steps in order -/

section Order

variable {h : List w.machine.Event}

/-- Amount of the token that went out in an operation. -/
def soldBy (token : Address) : w.machine.Event → Nat
  | ⟨i, .submit tx hash site, (sent : Submitted), _⟩ =>
      (⟨tx, hash, site, i, sent.accepted, sent.ok⟩ : WireTx).soldAmount token
  | _ => 0

/-- The task at `i` asks for the balance of the token. -/
def readsOf (token : Address) (i : Tid) (e : w.machine.Event) : Bool :=
  decide (e.tid = i) && match e.op with
    | .ask (.balanceOf asked) => decide (asked = token)
    | _ => false

/-- Amount of the token that went out since the task at `i` read its balance. -/
def soldSince (token : Address) (i : Tid) : List w.machine.Event → Nat
  | [] => 0
  | e :: older => if readsOf token i e then 0 else soldBy token e + soldSince token i older

/-- The steps in order: a balance of the token that is read counts every SELL that has gone out,
none goes out between the finalize task's reading and its store, and, with `uncached`, SELLs go out
only where there is no amount in the cache. -/
def inOrder (uncached : Bool) (i : Tid) (o : Op) (a : o.Ans) (s : LiveRecorded w) : Bool :=
  match o, a with
  | .ask (.balanceOf token), bal =>
      decide (token ≠ b.token) || decide ((Option.getD bal 0).toNat + b.sold s.1.trade ≤ b.received)
  | .trade (.storeTokensBought entry _), _ =>
      decide (entry ≠ b.entry) || decide (soldSince b.token i s.2 = 0)
  | o, a => !uncached || b.sellsUncached o a s.1.trade

instance (uncached : Bool) (i : Tid) (o : Op) (a : w.machine.recording.Ans o) (s : LiveRecorded w) :
    Decidable (b.inOrder uncached i o a s = true) := decEq (b.inOrder uncached i o a s) true

/-- What an operation sends out is added to what was sold. -/
theorem sold_exec {fresh : Tid} {o : Op} {a : o.Ans} {s : World} {out : Outcome World Task o.Res}
    (start : b.start ≤ s.trade.wire.length) (did : o.exec i fresh a s = some out) :
    b.sold out.shared.trade = b.sold s.trade + soldBy b.token
      (⟨i, o, a, out.res⟩ : w.machine.Event) ∧
      b.start ≤ out.shared.trade.wire.length := by
  cases o with
  | submit tx hash site =>
      cases did
      exact ⟨sold_transmit start, start.trans (by simp)⟩
  | _ =>
      have same := wire_of_silent (by trivial) did
      refine ⟨?_, same ▸ start⟩
      rw [sold, same]
      rfl

theorem readsOf_eq {token : Address} {e : w.machine.Event} (read : readsOf token i e = true) :
    e.tid = i ∧ e.op = .ask (.balanceOf token) := by
  obtain ⟨j, o, a, r⟩ := e
  unfold readsOf at read
  dsimp only at read
  split at read
  · rename_i asked
    have both : j = i ∧ asked = token := by simpa using read
    exact ⟨both.1, both.2 ▸ rfl⟩
  · simp at read

/-- Only the readings of the token's balance change what the finalize task would store. -/
theorem phase_unread {token : Address} {e : w.machine.Event} (unread : readsOf token i e = false) :
    (storing token).phase i none (e :: h) = (storing token).phase i none h := by
  obtain ⟨j, o, a, r⟩ := e
  by_cases own : j = i
  · rw [Protocol.phase_own own]
    unfold storing
    dsimp only
    split
    · rename_i asked bal
      have other : asked ≠ token := by simpa [readsOf, own] using unread
      exact if_neg other
    · rfl
  · exact Protocol.phase_other own

/-- What each task read last of the token's balance counts the SELLs that had gone out by then. -/
structure Counted (b : FinalizedBuy) (s : LiveRecorded w) : Prop where
  start : b.start ≤ s.1.trade.wire.length
  within : ∀ i bal, (storing b.token).phase i none s.2 = some bal →
    bal.toNat + b.sold s.1.trade ≤ b.received + soldSince b.token i s.2

theorem Counted.step {s : LiveRecorded w} (counted : b.Counted s) {fresh : Tid} {o : Op} {a : o.Ans}
    (ordered : b.inOrder uncached i o a s = true) {out : Outcome World Task o.Res}
    (did : o.exec i fresh a s.1 = some out) :
    b.Counted (w := w) (out.shared, ⟨i, o, a, out.res⟩ :: s.2) := by
  obtain ⟨added, start⟩ := sold_exec counted.start did
  refine ⟨start, fun j bal found => ?_⟩
  dsimp only at found ⊢
  rw [added]
  by_cases read : readsOf b.token j (⟨i, o, a, out.res⟩ : w.machine.Event) = true
  · obtain ⟨rfl, rfl⟩ := readsOf_eq read
    cases did
    have fresh : (Option.getD a 0).toNat + b.sold s.1.trade ≤ b.received := by
      simpa [inOrder] using ordered
    have last : (storing b.token).phase i none
        ((⟨i, .ask (.balanceOf b.token), a, a⟩ : w.machine.Event) :: s.2) =
          some (Option.getD a 0) :=
      (Protocol.phase_own rfl).trans (if_pos rfl)
    cases last.symm.trans found
    exact fresh.trans (Nat.le_add_right _ _)
  · have unread : readsOf b.token j (⟨i, o, a, out.res⟩ : w.machine.Event) = false := by
      simpa using read
    have before := counted.within j bal (phase_unread unread ▸ found)
    rw [soldSince, if_neg read]
    omega

/-- These tasks open no position and start no visit. -/
theorem Admits.quiet {t : Task} {o : Op} {broadcast : Bool} (admits : b.Admits t)
    (may : t.may broadcast o) :
    (∀ token route bnbIn txHash, o ≠ .trade (.openPosition token route bnbIn txHash)) ∧
      ∀ token entry blockN, o ≠ .spawn (.processOnePosition token entry blockN) := by
  cases t with
  | executeExit | finalizePosition | persistNonce =>
      constructor
      · rintro _ _ _ _ rfl
        exact (may : False ∨ False).elim id id
      · rintro _ _ _ rfl
        exact (may : False ∨ False).elim id id
  | _ => exact admits.elim

/-- What such a task stores is the balance of the token that it read last. -/
theorem Admits.stored {t : Task} {broadcast : Bool} {entry : EntryId} {bal : U256}
    (admits : b.Admits t) (may : t.may broadcast (.trade (.storeTokensBought entry bal)))
    (allowed : (protocol t).allows ((protocol t).phase i none h)
      (.trade (.storeTokensBought entry bal))) :
    (storing b.token).phase i none h = some bal := by
  cases t with
  | finalizePosition =>
      obtain ⟨rfl, -⟩ := admits
      exact allowed
  | executeExit | persistNonce => exact (may : False ∨ False).elim False.elim False.elim
  | _ => exact admits.elim

/-- In a run whose steps are in order no task works with a balance that is stale. -/
theorem run_of_inOrder {tasks : List Task} (admits : ∀ t ∈ tasks, b.Admits t)
    {c : Config LiveSig (LiveRecorded w) Task Done} {s : World}
    (counted : b.Counted (w := w) (s, []))
    (run : w.machine.recording.Run (fun i o a s => b.inOrder uncached i o a s = true)
      (w.machine.recording.start (s, []) tasks) c) :
    w.machine.Run (fun i o a s => (b.spec uncached).cond i o a s.trade) (w.machine.start s tasks)
      c.forget := by
  refine Machine.run_of_recording (fun i d t o next a reached running ordered => ?_) run
  have counted : b.Counted d.shared :=
    Machine.invariant_of_exec (fun _ _ _ _ _ _ counted ordered did => counted.step ordered did)
      reached counted
  have steps : ∀ t i fresh o (a : o.Ans) (s : World) out (j : Nat) u, b.Admits t →
      t.may w.exec.broadcastEnabled o → o.exec i fresh a s = some out → out.spawned[j]? = some u →
      b.Admits u := by
    intro t i fresh o a s out j u admits may did started
    rcases exec_started did started with rfl | ⟨token, route, bnbIn, txHash, e, rfl, rfl⟩
    · rcases may.starts with ⟨n, rfl⟩ | ⟨token, entry, blockN, rfl⟩
      · trivial
      · exact absurd rfl ((admits.quiet may).2 token entry blockN)
    · exact absurd rfl ((admits.quiet may).1 token route bnbIn txHash)
  obtain ⟨admitted, may⟩ := Machine.task_of_closed (body_may (w := w)) steps admits reached running
  have obeyed := Machine.obeyed_of_run (body_obeys w) reached
  cases o with
  | ask q =>
      refine ⟨?_, fun _ => rfl⟩
      cases q with
      | balanceOf token =>
          simp only [inOrder, Bool.or_eq_true, decide_eq_true_eq] at ordered
          simp only [freshReads, Bool.or_eq_true, decide_eq_true_eq]
          exact ordered.imp_left .inl
      | _ => rfl
  | trade o =>
      refine ⟨?_, fun _ => rfl⟩
      cases o with
      | storeTokensBought entry bal =>
          by_cases same : entry = b.entry
          · have since : soldSince b.token i d.shared.2 = 0 := by
              simpa [inOrder, same] using ordered
            have last := counted.within i bal (admitted.stored may.1 (obeyed.allows running))
            rw [since, Nat.add_zero] at last
            simp [freshReads, last]
          · simp [freshReads, same]
      | _ => rfl
  | submit tx hash site => exact ⟨rfl, fun only => by simpa [inOrder, only] using ordered⟩
  | _ => exact ⟨rfl, fun _ => rfl⟩

end Order

end FinalizedBuy

/-- A BUY whose entry is in the cache, its finalize task, and any number of exits on this token and
on others.  In every interleaving whose steps are in order the cached amount stays within what the
BUY received less the SELLs that were broadcast: in every state where SELLs go out only while the
cache holds no amount, and otherwise whenever no exit holds the token's lock. -/
theorem finalize_never_resurrects {w : TrailWatcher} (uncached : Bool) (s : World) (token : Address)
    (e : EntryId) (p : PositionEntry) (received : Nat) (held : s.trade.cached token = some (e, p))
    (empty : p.tokensBought = 0) (settled : s.trade.unsettled token = 0) (buyTxHash : B256)
    (route : BuyRoute) (exits : List Task) (calls : ∀ t ∈ exits, ∃ token kolName kolBlock kolAddr,
      t = .executeExit token kolName kolBlock kolAddr)
    (c : Config LiveSig (LiveRecorded w) Task Done)
    (run : w.machine.recording.Run
      (fun i o a s' =>
        (⟨token, e, received, s.trade.wire.length⟩ : FinalizedBuy).inOrder uncached i o a s' = true)
      (w.machine.recording.start (s, []) (.finalizePosition token buyTxHash route e :: exits)) c) :
    let t := c.shared.1.trade
    ∃ q, t.cached token = some (e, q) ∧ (uncached = true ∨ t.exitLocks token = none →
      q.tokensBought.toNat + soldTotal (t.wire.drop s.trade.wire.length) token ≤ received) := by
  let b : FinalizedBuy := ⟨token, e, received, s.trade.wire.length⟩
  have admits : ∀ t ∈ .finalizePosition token buyTxHash route e :: exits, b.Admits t := by
    intro t member
    rcases List.mem_cons.1 member with rfl | exit
    · exact ⟨rfl, rfl⟩
    · obtain ⟨_, _, _, _, rfl⟩ := calls t exit
      trivial
  have plain :=
    FinalizedBuy.run_of_inOrder admits ⟨le_refl _, fun i bal found => by cases found⟩ run
  have sound : ((b.spec uncached).contract w).Sound c.forget := by
    refine ((b.spec uncached).contract w).sound (fun t i s _ pre => FinalizedBuy.bodies w t i s pre)
      ?_ ?_ plain
    · refine ⟨le_refl _, ⟨p, held, ?_⟩, fun _ => settled⟩
      simp [empty, FinalizedBuy.sold, b]
    · exact fun i t found => admits t (List.mem_of_getElem? found)
  obtain ⟨q, held, within⟩ := sound.inv.within
  refine ⟨q, held, fun covered => ?_⟩
  have settled : b.ahead uncached c.shared.1.trade = 0 := by
    rcases covered with rfl | free
    · rfl
    · exact FinalizedBuy.ahead_settled (sound.inv.settled free)
  rw [show b.ahead uncached c.forget.shared.trade = 0 from settled, Nat.add_zero] at within
  exact within

/-- A world whose cache holds the entry of a BUY that is still to be finalized. -/
def boughtWorld : World where
  trade := {
    book := Book.empty.insert {
      token := scenarioToken
      route := .fourMeme
      tokensBought := 0
      bnbIn := 1000
      approved := false
      openedAt := 0
      finalizer := 0 } }
  nonce := NonceManager.new 5 none

theorem finalize_never_resurrects_half :
    ∃ c, (scenario false).machine.recording.Run
        (fun i o a s => (⟨scenarioToken, 0, 1000, 0⟩ : FinalizedBuy).inOrder true i o a s = true)
        ((scenario false).machine.recording.start (boughtWorld, [])
          [.finalizePosition scenarioToken 1 .fourMeme 0, .executeExit scenarioToken "D" 1 1]) c ∧
      c.Quiet ∧ soldTotal c.shared.1.trade.wire scenarioToken = 500 ∧
      ∃ q, c.shared.1.trade.cached scenarioToken = some (0, q) ∧ q.tokensBought = 500 ∧
        q.tokensBought.toNat + soldTotal c.shared.1.trade.wire scenarioToken ≤ 1000 := by
  let before : Replies := {
    balance := some 1000
    allowance := some 1000
    balanceAt := fun block => if block = 0 then some 100 else some 50 }
  let after : Replies := { balance := some 500 }
  obtain ⟨c, run, quiet, sold, kept⟩ : ∃ c, (scenario false).machine.recording.Run
      (fun i o a s => (⟨scenarioToken, 0, 1000, 0⟩ : FinalizedBuy).inOrder true i o a s = true)
      ((scenario false).machine.recording.start (boughtWorld, [])
        [.finalizePosition scenarioToken 1 .fourMeme 0, .executeExit scenarioToken "D" 1 1]) c ∧
      c.Quiet ∧ soldTotal c.shared.1.trade.wire scenarioToken = 500 ∧
      (c.shared.1.trade.cached scenarioToken).any
        (fun held => decide (held.2.tokensBought = 500)) = true :=
    Machine.exists_run_of_follow [(1, 21, before.ans), (0, 13, after.ans)] (by decide +kernel)
  obtain ⟨q, held, within⟩ := finalize_never_resurrects true boughtWorld scenarioToken 0
    ⟨scenarioToken, .fourMeme, 0, 1000, false, 0, 0⟩ 1000 rfl rfl rfl 1 .fourMeme
    [.executeExit scenarioToken "D" 1 1] (by simp) c run
  rw [held] at kept
  exact ⟨c, run, quiet, sold, q, held, by simpa using kept, within (.inl rfl)⟩

/-- The finalize task reads the balance, an exit reads the same and sells all of it, and
then the finalize task stores what it had read: 1000 tokens were received, 1000 were sold
and 1000 are in the cache. -/
theorem finalize_resurrects :
    ∃ c, (scenario false).machine.Run (scenario false).machine.anyStep
        ((scenario false).machine.start boughtWorld
          [.finalizePosition scenarioToken 1 .fourMeme 0, exitTask]) c ∧
      c.Quiet ∧ c.shared.trade.exitLocks scenarioToken = none ∧
      soldTotal c.shared.trade.wire scenarioToken = 1000 ∧
      (c.shared.trade.cached scenarioToken).any
        (fun held => decide (held.2.tokensBought = 1000 ∧ held.2.approved = true)) = true := by
  let r : Replies := { balance := some 1000, allowance := some 1000 }
  exact Machine.exists_run_of_follow [(0, 4, r.ans), (1, 19, r.ans), (0, 9, r.ans)]
    (by decide +kernel)

end BscMempool.Trader
