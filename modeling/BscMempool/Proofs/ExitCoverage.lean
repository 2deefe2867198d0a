/-
Module: BscMempool.Proofs.ExitCoverage
Layer: Proofs
Purpose: Which held positions the adaptive trail ever sells: the visit of an overdue position comes
  to fire_exit exactly on the route whose entries are approved.
Trusted boundary: none
Main exports: Covered, dropsExited, exit_coverage_iff, exit_uncovered
-/
import BscMempool.Proofs.Workers
import BscMempool.Proofs.Scenario

namespace BscMempool.Trader

open Concurrent (Tid Machine Contract Proc)
open Concurrent.Proc

/-! ### One visit -/

/-- Results that the operations of a visit may get when the position is overdue at `blockN`: the
entry is `p`, a trail state that is known is past the hold-time cap, and so is one that starts from
the BUY, whose row and receipt are found. -/
def overdue (w : TrailWatcher) (token : Address) (p : PositionEntry) (blockN : Nat) :
    (o : Op) → o.Res → Prop
  | .trade (.loadEntry _), q => q = p
  | .env (.trailGet _), known => ∀ state, known = some state →
      blockN - state.openedBlock ≥ w.cfg.maxHoldBlocks
  | .env .ledgerRows, ledger => (latestBuyRow ledger token).isSome
  | .ask (.buyReceipt _), receipt => ∃ r, receipt = some r ∧ r.tokensReceived ≠ 0 ∧
      blockN - r.blockNumber.getD blockN ≥ w.cfg.maxHoldBlocks
  | _, _ => True

/-- The first operation of `fire_exit` for the token. -/
def fires (token : Address) (blockN : Nat) (o : Op) : Prop :=
  ∃ reason state, o = .env (.trailExit token reason state blockN)

/-- A tick that finds the position overdue visits it, and the visit comes to `fire_exit`. -/
def Covered (w : TrailWatcher) (t : Trade) (token : Address) (e : EntryId) (p : PositionEntry)
    (blockN : Nat) : Prop :=
  (token, e) ∈ t.book.positions.entries.map (fun held => (held.1, held.2)) ∧
    (w.processOnePosition token e blockN).Reaches (overdue w token p blockN) (fires token blockN)

section Visit

variable {w : TrailWatcher} {token : Address} {p : PositionEntry} {blockN : Nat}

theorem fireExit_reaches (reason : String) (state : TrailState) :
    (w.fireExit token reason state blockN).Reaches (overdue w token p blockN)
      (fires token blockN) :=
  .here ⟨reason, state, rfl⟩

/-- Past the hold-time cap every price ends in an exit, and so does no price. -/
theorem observePosition_reaches {state : TrailState}
    (late : blockN - state.openedBlock ≥ w.cfg.maxHoldBlocks) :
    (w.observePosition token state blockN).Reaches (overdue w token p blockN)
      (fires token blockN) := by
  refine Reaches.bind_right _ fun price => ?_
  cases price with
  | none =>
      dsimp only
      rw [if_pos late]
      exact fireExit_reaches "timeout" state
  | some currentPrice =>
      refine Reaches.bind_right _ fun voted => ?_
      cases voted with
      | true => exact fireExit_reaches _ _
      | false =>
          have some_ := step_isSome_of_timeout state w.cfg currentPrice blockN late
          obtain ⟨reason, fired⟩ := Option.isSome_iff_exists.1 some_
          have split : step state w.cfg currentPrice blockN =
              (some reason, (step state w.cfg currentPrice blockN).2) := Prod.ext fired rfl
          simp only [Bool.false_eq_true, if_false]
          rw [split]
          exact fireExit_reaches _ _

/-- The state that a position starts with is past the cap too. -/
theorem initStateFromLedger_reaches {f : Option TrailState → Live Unit}
    (next : ∀ state, blockN - state.openedBlock ≥ w.cfg.maxHoldBlocks →
      (f (some state)).Reaches (overdue w token p blockN) (fires token blockN)) :
    (TrailWatcher.initStateFromLedger token blockN >>= f).Reaches (overdue w token p blockN)
      (fires token blockN) := by
  unfold TrailWatcher.initStateFromLedger
  rw [bind_assoc]
  refine Reaches.call fun ledger rows => ?_
  obtain ⟨row, latest⟩ := Option.isSome_iff_exists.1 rows
  rw [latest]
  dsimp only
  rw [bind_assoc]
  refine Reaches.call fun receipt found => ?_
  obtain ⟨r, rfl, received, late⟩ := found
  dsimp only
  rw [if_neg received]
  exact next (TrailState.ofBuy row r blockN) late

/-- The visit of an armed, overdue position comes to `fire_exit`. -/
theorem processOnePosition_reaches {e : EntryId} (holds : p.tokensBought ≠ 0)
    (approved : p.approved = true) :
    (w.processOnePosition token e blockN).Reaches (overdue w token p blockN)
      (fires token blockN) := by
  refine Reaches.call fun q loaded => ?_
  obtain rfl : q = p := loaded
  rw [if_neg (not_or.2 ⟨holds, by simp [approved]⟩)]
  refine Reaches.call fun known late => ?_
  cases known with
  | some state => exact observePosition_reaches (late state rfl)
  | none =>
      refine initStateFromLedger_reaches fun state late => ?_
      exact Reaches.call fun _ _ => observePosition_reaches late

/-- The visit of a position that is not approved does nothing. -/
theorem not_reaches_unapproved {e : EntryId} (unarmed : p.approved = false) :
    ¬ (w.processOnePosition token e blockN).Reaches (overdue w token p blockN)
      (fires token blockN) := by
  intro reach
  rcases reaches_call.1 reach with ⟨_, _, same⟩ | next
  · cases same
  · have visit := next p rfl
    rw [if_pos (Or.inr unarmed)] at visit
    exact visit

end Visit

/-! ### What the cache holds -/

/-- The duplicate guard drops only an entry that is still exited when it does. -/
def dropsExited : Op → Trade → Bool
  | .trade (.positionsRemove token), t => (t.cached token).all fun held => held.2.exited
  | _, _ => true

namespace ExitCoverage

/-- The entry the task at `i` finalizes, before it is approved. -/
def Finalizes (i : Tid) (token : Address) (route : BuyRoute) (e : EntryId) (t : Trade) : Prop :=
  ∃ p, t.book.entries[e]? = some p ∧ p.token = token ∧ p.route = route ∧ p.finalizer = i ∧
    p.approved = false

/-- The entry is the one of the token on the route, and approved if its task says so. -/
def Finalized (token : Address) (route : BuyRoute) (e : EntryId) (confirmed : Bool) (t : Trade) :
    Prop :=
  ∃ p, t.book.entries[e]? = some p ∧ p.token = token ∧ p.route = route ∧
    (confirmed = true → p.approved = true)

/-- Only the bonding curve's entries are approved, and an entry leaves the cache
only when it is exited. -/
structure EntryOk (t : Trade) (e : EntryId) (p : PositionEntry) : Prop where
  route : p.approved = true → p.route = .fourMeme
  cached : p.tokensBought ≠ 0 ∨ p.approved = false → t.book.positions.lookup p.token = some e

/-- What a step of the task at `i` may do: only the consumer changes what is in the cache, and only
an entry's finalizer approves it. -/
structure Guar (i : Tid) (t t' : Trade) : Prop where
  positions : i ≠ 0 → t'.book.positions = t.book.positions
  approved : ∀ (e : EntryId) (p p' : PositionEntry), t.book.entries[e]? = some p →
    t'.book.entries[e]? = some p' → p.finalizer ≠ i → p'.approved = p.approved

theorem Guar.of_same {i : Tid} {t t' : Trade} (same : t'.book = t.book) : Guar i t t' := by
  refine ⟨fun _ => by rw [same], fun e p p' found found' _ => ?_⟩
  rw [same, found] at found'
  cases found'
  rfl

/-- The consumer with the trail active, the trail watcher, and what they start. -/
def spec : TradeSpec where
  cond _ o _ t := dropsExited o t = true
  inv t := ∀ (e : EntryId) (p : PositionEntry), t.book.entries[e]? = some p → EntryOk t e p
  guar := Guar
  pre task i t :=
    match task with
    | .consumer trailActive _ => i = 0 ∧ trailActive = true
    | .finalizePosition token _ route e => Finalizes i token route e t
    | .trailWatcher _ | .processOnePosition .. | .persistNonce _ => True
    | _ => False
  post task _ v t :=
    match task, v with
    | .finalizePosition token _ route e, .finalized report =>
        Finalized token route e report.approveConfirmed t
    | _, _ => True
  idle _ _ _ := .of_same rfl
  persist _ _ _ := trivial

variable {w : TrailWatcher} {i : Tid} {token : Address} {route : BuyRoute} {e : EntryId} {t : Trade}

/-! ### What one operation does -/

theorem same_moves {t' : Trade} (inv : spec.inv t) (same : t'.book = t.book) :
    spec.Moves i t t' := by
  refine ⟨fun e p found => ?_, .of_same same⟩
  rw [same] at found
  obtain ⟨route, cached⟩ := inv e p found
  exact ⟨route, by rw [same]; exact cached⟩

/-- A step that changes entries one by one and leaves the cache's keys alone. -/
theorem map_moves {t' : Trade} (inv : spec.inv t) (f : EntryId → PositionEntry → PositionEntry)
    (positions : t'.book.positions = t.book.positions)
    (entries : ∀ e : EntryId, t'.book.entries[e]? = t.book.entries[e]?.map (f e))
    (ok : ∀ e p, t.book.entries[e]? = some p → EntryOk t e p → EntryOk t e (f e p))
    (approved : ∀ e p, t.book.entries[e]? = some p → p.finalizer ≠ i →
      (f e p).approved = p.approved) :
    spec.Moves i t t' := by
  refine ⟨fun e p' found' => ?_, fun _ => positions, fun e p p' found found' other => ?_⟩
  · rw [entries] at found'
    obtain ⟨p, found, rfl⟩ := Option.map_eq_some_iff.1 found'
    obtain ⟨route, cached⟩ := ok e p found (inv e p found)
    exact ⟨route, by rw [positions]; exact cached⟩
  · rw [entries, found] at found'
    cases found'
    exact approved e p found other

/-! ### Stable assertions -/

def anything (w : TrailWatcher) (i : Tid) : (spec.contract w).Assertion World.trade i :=
  ⟨fun _ => True, .true⟩

/-- The consumer knows that the token is not in the cache. -/
def missing (w : TrailWatcher) (token : Address) : (spec.contract w).Assertion World.trade 0 :=
  spec.assertion w 0 (fun t => t.book.positions.lookup token = none)
    fun j _ _ ne _ _ _ guar none_ => by rw [guar.positions ne]; exact none_

def finalizing (w : TrailWatcher) (i : Tid) (token : Address) (route : BuyRoute) (e : EntryId) :
    (spec.contract w).Assertion World.trade i :=
  spec.assertion w i (Finalizes i token route e) (by
    rintro j t t' ne _ _ grows guar ⟨p, found, key, venue, mine, unarmed⟩
    obtain ⟨p', found', becomes⟩ := grows.entries e p found
    refine ⟨p', found', becomes.token.trans key, becomes.route.trans venue,
      becomes.finalizer.trans mine, ?_⟩
    rw [guar.approved e p p' found found' (by rw [mine]; exact ne.symm)]
    exact unarmed)

def finalized (w : TrailWatcher) (i : Tid) (token : Address) (route : BuyRoute) (e : EntryId)
    (confirmed : Bool) : (spec.contract w).Assertion World.trade i :=
  spec.assertion w i (Finalized token route e confirmed) (by
    rintro j t t' _ _ _ grows _ ⟨p, found, key, venue, approved⟩
    obtain ⟨p', found', becomes⟩ := grows.entries e p found
    exact ⟨p', found', becomes.token.trans key, becomes.route.trans venue,
      fun yes => becomes.approved (approved yes)⟩)

theorem Finalizes.unconfirmed (finalizes : Finalizes i token route e t) :
    Finalized token route e false t := by
  obtain ⟨p, found, key, venue, _, _⟩ := finalizes
  exact ⟨p, found, key, venue, nofun⟩

/-! ### The outlines -/

/-- An entry of the consumer: the token is not in the cache when its entry is made. -/
def entry (w : TrailWatcher) (token : Address) : TradeEntry spec w 0 token where
  idle := anything w 0
  looked r := (missing w token).when (r = none)
  cleared := missing w token
  bought := missing w token
  done := anything w 0
  get _ _ _ none_ := Book.cached_eq_none.1 none_
  duplicate _ _ _ _ _ := trivial
  absent _ looked := looked rfl
  clear e p t _ inv _ meets := by
    refine ⟨⟨fun d q found => ?_, nofun, fun _ _ _ found found' _ => ?_⟩, AList.lookup_erase _ _⟩
    · obtain ⟨route, cached⟩ := inv d q found
      refine ⟨route, fun live => ?_⟩
      have before := cached live
      have ne : q.token ≠ token := by
        rintro rfl
        have held := Book.cached_eq_some.2 ⟨before, found⟩
        have exited : q.exited = true := by
          have := meets
          simpa [spec, dropsExited, Trade.cached, held] using this
        rcases live with holds | unarmed <;> simp_all [PositionEntry.exited]
      exact (AList.lookup_erase_ne ne).trans before
    · rw [Book.remove_entries, found] at found'
      cases found'
      rfl
  skipped _ _ := trivial
  sendBuy _ _ _ _ _ _ inv cleared _ :=
    ⟨same_moves inv rfl, fun _ => cleared, fun _ => trivial⟩
  openEntry route bnbIn hash t fresh lt inv none_ _ := by
    refine ⟨⟨fun d q found => ?_, nofun, fun d q q' found found' _ => ?_⟩,
      ⟨_, Book.insert_new, rfl, rfl, rfl, rfl⟩, trivial⟩
    · rcases Book.insert_found found with old | ⟨rfl, rfl⟩
      · obtain ⟨route, cached⟩ := inv d q old
        refine ⟨route, fun live => ?_⟩
        have before := cached live
        have ne : q.token ≠ token := by
          rintro rfl
          rw [none_] at before
          cases before
        exact (AList.lookup_insert_ne ne).trans before
      · exact ⟨nofun, fun _ => AList.lookup_insert _⟩
    · rw [Book.insert_old found] at found'
      cases found'
      rfl

/-- No exit takes an entry out of the cache or approves one. -/
def exit (w : TrailWatcher) (i : Tid) (token : Address) : TradeExit spec w i token where
  idle := anything w i
  locked := anything w i
  looked _ := anything w i
  sized _ := anything w i
  ready _ := anything w i
  sent _ := anything w i
  done _ := anything w i
  post _ _ := True
  refused _ _ := trivial
  lock _ inv _ _ := ⟨same_moves inv rfl, trivial⟩
  get _ _ _ _ := trivial
  exited _ _ _ _ _ := trivial
  fast _ _ _ _ _ _ := trivial
  balance r bal t _ _ _ _ := by
    by_cases zero : bal.getD 0 = 0
    · rw [if_pos zero]
      trivial
    · rw [if_neg zero]
      exact fun _ _ => trivial
  givenUp _ _ _ := ⟨trivial, trivial, trivial⟩
  approved _ _ _ := trivial
  sendApprove _ _ _ _ _ _ _ _ _ inv _ _ := ⟨same_moves inv rfl, fun _ => trivial, fun _ => trivial⟩
  failed _ _ _ := ⟨trivial, trivial⟩
  sendSale _ _ _ _ _ _ _ _ inv _ _ := ⟨same_moves inv rfl, fun _ => trivial, fun _ => trivial⟩
  update sale t inv _ _ := by
    refine ⟨map_moves inv _ Book.writeBack_positions (fun d => Book.writeBack_entries)
      (fun d p found ok => ?_) (fun d p found _ => ?_), trivial⟩
    · split
      · rename_i looked
        have key := Book.token_of_cached (Book.cached_eq_some.2 ⟨looked, found⟩)
        exact ⟨ok.route, fun _ => (congrArg t.book.positions.lookup key).trans looked⟩
      · exact ok
    · split <;> rfl
  unlock _ _ inv _ := ⟨same_moves inv rfl, trivial⟩

def finalize (w : TrailWatcher) (i : Tid) (token : Address) (route : BuyRoute) (e : EntryId) :
    TradeFinalize spec w i token route e where
  pending := finalizing w i token route e
  read _ := finalizing w i token route e
  stored _ := finalizing w i token route e
  approving _ := (finalizing w i token route e).given (route = .fourMeme)
  done report := finalized w i token route e report.approveConfirmed
  unseen _ pending := pending.unconfirmed
  balance _ _ _ pending _ := pending
  empty _ read := read
  store bal t _ inv read _ := by
    obtain ⟨p, found, key, venue, mine, unarmed⟩ := read
    refine ⟨map_moves inv _ rfl (fun d => Book.setTokens_entries)
      (fun d q found' ok => ?_) (fun d q _ _ => ?_), ?_⟩
    · split
      · rename_i same
        subst same
        rw [found] at found'
        cases found'
        exact ⟨ok.route, fun _ => ok.cached (.inr unarmed)⟩
      · exact ok
    · split <;> rfl
    · exact ⟨{ p with tokensBought := bal }, by rw [Book.setTokens_entries, found]; simp,
        key, venue,
        mine, unarmed⟩
  unarmed _ _ stored := stored.unconfirmed
  sendApprove _ _ _ _ _ _ _ curve inv stored _ :=
    ⟨same_moves inv rfl, fun _ => ⟨curve, stored⟩, fun _ => stored.unconfirmed⟩
  unconfirmed _ _ approving := approving.2.unconfirmed
  confirm bal t inv approving _ := by
    obtain ⟨curve, p, found, key, venue, mine, unarmed⟩ := approving
    refine ⟨map_moves inv _ rfl (fun d => Book.setApproved_entries)
      (fun d q found' ok => ?_) (fun d q found' other => ?_), ?_⟩
    · split
      · rename_i same
        subst same
        rw [found] at found'
        cases found'
        exact ⟨fun _ => venue.trans curve, fun _ => ok.cached (.inr unarmed)⟩
      · exact ok
    · split
      · rename_i same
        subst same
        rw [found] at found'
        cases found'
        exact absurd mine other
      · rfl
    · exact ⟨{ p with approved := true }, by rw [Book.setApproved_entries, found]; simp, key, venue,
        fun _ => rfl⟩

theorem bodies (w : TrailWatcher) (t : Task) (i : Tid) (s : World)
    (pre : (spec.contract w).pre t i s) :
    (spec.contract w).wp i (w.body t) ((spec.contract w).post t i) s := by
  have focused : Focused (spec.contract w) World.trade := ⟨TradeSpec.about, fun _ _ => rfl⟩
  cases t with
  | consumer trailActive decisions =>
      obtain ⟨rfl, rfl⟩ := pre
      refine Contract.wp_seq (fun _ => (anything w 0).on) ?_ fun _ _ _ => trivial
      exact consume_wp focused (anything w 0) true
        (fun kolName token bnbAmount kolBnbInput kolBlock kolTx visibility openPositions s _ =>
          (entry w token).execute_wp kolName bnbAmount kolBnbInput kolBlock kolTx visibility
            openPositions trivial)
        nofun decisions trivial
  | finalizePosition token buyTxHash route e =>
      exact Contract.wp_seq _ ((finalize w i token route e).finalizePosition_wp buyTxHash pre)
        fun _ _ done => done
  | persistNonce n => exact TradeSpec.persistNonce_wp n fun _ => trivial
  | trailWatcher blocks =>
      refine Contract.wp_seq (fun _ _ => True) ?_ fun _ _ _ => trivial
      exact (anything w i).wp_still focused.about (runLoop_all (fun _ _ _ _ _ => trivial) blocks)
        (fun _ _ _ => trivial) trivial
  | processOnePosition token entry blockN =>
      refine Contract.wp_seq (fun _ => (anything w i).on) ?_ fun _ _ _ => trivial
      exact processOnePosition_wp focused (anything w i)
        (fun token kolName kolBlock kolAddr s _ =>
          (exit w i token).executeExit_wp kolName kolBlock kolAddr trivial)
        token entry blockN trivial
  | _ => exact pre.elim

end ExitCoverage

/-- The adaptive trail and the positions it sells.  In every run of the trader with the trail active
in which the duplicate guard drops only exited entries: once the finalize task of a BUY is done,
with its approve confirmed where the route has one, and while the entry holds tokens, every overdue
tick comes to `fire_exit` for it exactly if the BUY went to the bonding curve. -/
theorem exit_coverage_iff {w : TrailWatcher} (chain : UInt64) (file : Option UInt64)
    (decisions : List (Decision × String)) (blocks : List Nat) (c : LiveConfig)
    (run : w.machine.Run (fun _ o _ s => dropsExited o s.trade)
      (w.machine.start (World.boot chain file) [.consumer true decisions, .trailWatcher blocks]) c)
    (i : Tid) (token : Address) (buyTxHash : B256) (route : BuyRoute) (e : EntryId)
    (report : FinalizeReport) (runs : c.taskAt i = some (.finalizePosition token buyTxHash route e))
    (finalized : c.returned i = some (.finalized report))
    (confirmed : route = .fourMeme → report.approveConfirmed = true) (p : PositionEntry)
    (found : c.shared.trade.book.entries[e]? = some p) (holds : p.tokensBought ≠ 0) (blockN : Nat) :
    Covered w c.shared.trade token e p blockN ↔ route = .fourMeme := by
  have sound : (ExitCoverage.spec.contract w).Sound c := by
    refine (ExitCoverage.spec.contract w).sound (fun t i s _ pre => ExitCoverage.bodies w t i s pre)
      ?_ ?_ run
    · intro e p found
      cases found
    · intro i t found
      match i, found with
      | 0, found =>
          cases found
          exact ⟨rfl, rfl⟩
      | 1, found =>
          cases found
          trivial
  obtain ⟨q, found', rfl, rfl, approved⟩ := sound.post_of_ret
    (ExitCoverage.finalized w i token route e report.approveConfirmed).stable
    (Concurrent.Config.pool_of_returned runs finalized)
  rw [found] at found'
  cases found'
  obtain ⟨curve, cached⟩ := sound.inv e p found
  constructor
  · rintro ⟨_, reach⟩
    by_contra other
    have unarmed : p.approved = false := by
      by_contra armed
      exact other (curve (by simpa using armed))
    exact not_reaches_unapproved unarmed reach
  · intro onCurve
    refine ⟨List.mem_map.2 ⟨⟨p.token, e⟩, ?_, rfl⟩, ?_⟩
    · exact AList.mem_lookup_iff.1 (cached (.inl holds))
    · exact processOnePosition_reaches holds (approved (confirmed onCurve))

/-- The decision to buy the token of the scenarios. -/
def buyDecision : Decision × String := (.enter "D" scenarioToken 1000 1000 7 1, "public")

theorem exit_coverage_iff_curve :
    ∃ c p, (scenario false).machine.Run (fun _ o _ s => dropsExited o s.trade)
        ((scenario false).machine.start (World.boot 5 none)
          [.consumer true [buyDecision], .trailWatcher [10000]]) c ∧
      c.shared.trade.book.entries[0]? = some p ∧
      Covered (scenario false) c.shared.trade scenarioToken 0 p 10000 := by
  let r : Replies := { balance := some 1000 }
  obtain ⟨c, run, runs, finalized, held⟩ : ∃ c, (scenario false).machine.Run
      (fun _ o _ s => dropsExited o s.trade)
      ((scenario false).machine.start (World.boot 5 none)
        [.consumer true [buyDecision], .trailWatcher [10000]]) c ∧
      c.taskAt 2 = some (.finalizePosition scenarioToken 1 .fourMeme 0) ∧
      c.returned 2 = some (.finalized ⟨true, 1000, true⟩) ∧
      c.shared.trade.book.entries[0]?.any
        (fun p : PositionEntry => decide (p.tokensBought ≠ 0)) = true :=
    Machine.exists_run_of_follow [(0, 19, r.ans), (2, 13, r.ans)] (by decide +kernel)
  obtain ⟨p, found, holds⟩ := (Option.any_eq_true _ _).1 held
  exact ⟨c, p, run, found, (exit_coverage_iff 5 none [buyDecision] [10000] c run 2 scenarioToken 1
    .fourMeme 0 ⟨true, 1000, true⟩ runs finalized (fun _ => rfl) p found (of_decide_eq_true holds)
    10000).2 rfl⟩

/-- A position on the V2 route: its finalize task saw the receipt and the balance, a tick long past
the hold-time cap has come and gone, nothing was sold, and no tick ever comes to `fire_exit`. -/
theorem exit_uncovered :
    ∃ c p, (scenario false).machine.Run (scenario false).machine.anyStep
        ((scenario false).machine.start (World.boot 5 none)
          [.consumer true [buyDecision], .trailWatcher [10000]]) c ∧
      c.Quiet ∧ c.taskAt 2 = some (.finalizePosition scenarioToken 1 .pancakeV2 0) ∧
      c.returned 2 = some (.finalized ⟨true, 1000, false⟩) ∧
      (∀ r ∈ c.shared.trade.wire, r.sells scenarioToken = false) ∧
      c.shared.trade.book.entries[0]? = some p ∧ p.tokensBought = 1000 ∧
      ∀ blockN, ¬ Covered (scenario false) c.shared.trade scenarioToken 0 p blockN := by
  let r : Replies := { pair := some 0xBEEF, balance := some 1000 }
  obtain ⟨c, run, quiet, runs, finalized, unsold, held⟩ : ∃ c, (scenario false).machine.Run
      (scenario false).machine.anyStep
      ((scenario false).machine.start (World.boot 5 none)
        [.consumer true [buyDecision], .trailWatcher [10000]]) c ∧
      c.Quiet ∧ c.taskAt 2 = some (.finalizePosition scenarioToken 1 .pancakeV2 0) ∧
      c.returned 2 = some (.finalized ⟨true, 1000, false⟩) ∧
      (∀ r ∈ c.shared.trade.wire, r.sells scenarioToken = false) ∧
      c.shared.trade.book.entries[0]?.any
        (fun p : PositionEntry => decide (p.tokensBought = 1000 ∧ p.approved = false)) = true :=
    Machine.exists_run_of_follow
      [(0, 21, r.ans), (2, 6, r.ans), (1, 2, r.ans), (3, 1, r.ans), (1, 1, r.ans)]
        (by decide +kernel)
  obtain ⟨p, found, holds⟩ := (Option.any_eq_true _ _).1 held
  obtain ⟨tokens, unarmed⟩ := of_decide_eq_true holds
  exact ⟨c, p, run, quiet, runs, finalized, unsold, found, tokens,
    fun _ covered => not_reaches_unapproved unarmed covered.2⟩

end BscMempool.Trader
