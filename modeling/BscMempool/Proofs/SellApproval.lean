/-
Module: BscMempool.Proofs.SellApproval
Layer: Proofs
Purpose: When every SELL goes to a spender that may take the tokens: an allowance for it was read in
  the same call, or an approve for it was submitted before at a lower nonce.
Trusted boundary: none
Main exports: Authorised, keepsSpender, sell_authorised, sell_unauthorised
-/
import BscMempool.Proofs.NonceSpec
import BscMempool.Proofs.Scenario
import BscMempool.Proofs.Workers

namespace BscMempool.Trader

open Concurrent (Tid Machine Contract Outcome)
open Concurrent.Proc
open LiveExecutor

/-- The spender of a SELL of `amount` of `token` may take it: the call read an allowance that is
enough, or an earlier transaction approves the spender at a lower nonce. -/
def Authorised (before : List WireTx) (r : WireTx) (memo : ExitMemo) (token : Address)
    (amount : U256) :
    Prop :=
  (∃ allowance, memo.allowance = some (r.tx.to_, allowance) ∧ amount ≤ allowance) ∨
    ∃ q ∈ before, q.approves token r.tx.to_ = true ∧ q.tx.nonce < r.tx.nonce

instance (before : List WireTx) (r : WireTx) (memo : ExitMemo) (token : Address) (amount : U256) :
    Decidable (Authorised before r memo token amount) :=
  decidable_of_iff
    ((memo.allowance.any fun read => decide (read.1 = r.tx.to_ ∧ amount ≤ read.2)) = true ∨
      ∃ q ∈ before, q.approves token r.tx.to_ = true ∧ q.tx.nonce < r.tx.nonce)
    (or_congr_left (by simp [Option.any_eq_true]))

/-- The steps that keep SELLs authorised: the route found just before the broadcast has the spender
of the route that was checked, and the nonce counter does not move down. -/
def keepsSpender : Op → World → Bool
  | .submit tx _ (.sell memo), _ => decide (tx.to_ = memo.checkedRoute.spender)
  | o, s => safeCounter o s

namespace SellApproval

/-- An approve of the token for the spender was submitted. -/
def ApprovedFor (token spender : Address) (t : Trade) : Prop :=
  ∃ q ∈ t.wire, q.approves token spender = true

/-- The same, below a nonce. -/
def ApprovedBelow (n : UInt64) (token spender : Address) (t : Trade) : Prop :=
  ∃ q ∈ t.wire, q.approves token spender = true ∧ q.tx.nonce < n

structure Inv (v : Core) : Prop where
  nonces : ∀ r ∈ v.1.wire, r.tx.nonce < v.2.current
  approved : ∀ (e : EntryId) (p : PositionEntry), v.1.book.entries[e]? = some p →
    p.approved = true →
    p.route = .fourMeme ∧ ApprovedFor p.token FOURMEME v.1
  sells : ∀ (k : Nat) (r : WireTx) (memo : ExitMemo) (token : Address) (amount : U256),
    v.1.wire[k]? = some r → r.site = .sell memo → r.tx.input.sold = some (token, amount) →
    Authorised (v.1.wire.take k) r memo token amount

/-- The entry a finalize task was started for. -/
def Entered (token : Address) (route : BuyRoute) (e : EntryId) (t : Trade) : Prop :=
  ∃ p, t.book.entries[e]? = some p ∧ p.token = token ∧ p.route = route

def spec : NonceSpec where
  cond o _ s := keepsSpender o s = true
  safe o _ s safe := by
    unfold keepsSpender at safe
    split at safe
    · rfl
    · exact safe
  inv := Inv
  pre task v :=
    match task with
    | .finalizePosition token _ route e => Entered token route e v.1
    | _ => True

variable {w : TrailWatcher} {i : Tid} {token : Address}

theorem ApprovedFor.mono {spender : Address} {t t' : Trade} (approved : ApprovedFor token spender t)
    (grows : Grows t t') : ApprovedFor token spender t' := by
  obtain ⟨q, old, approves⟩ := approved
  exact ⟨q, grows.wire.subset old, approves⟩

theorem ApprovedBelow.mono {n : UInt64} {spender : Address} {t t' : Trade}
    (approved : ApprovedBelow n token spender t) (grows : Grows t t') :
    ApprovedBelow n token spender t' := by
  obtain ⟨q, old, approves⟩ := approved
  exact ⟨q, grows.wire.subset old, approves⟩

theorem Entered.mono {route : BuyRoute} {e : EntryId} {t t' : Trade}
    (entered : Entered token route e t) (grows : Grows t t') : Entered token route e t' := by
  obtain ⟨p, found, key, venue⟩ := entered
  obtain ⟨p', found', becomes⟩ := grows.entries e p found
  exact ⟨p', found', becomes.token.trans key, becomes.route.trans venue⟩

/-! ### What one operation does -/

/-- A step that submits nothing and approves no entry. -/
theorem Inv.quiet {v v' : Core} (inv : Inv v) (later : Later v v') (wire : v'.1.wire = v.1.wire)
    (entries : ∀ (e : EntryId) (p' : PositionEntry), v'.1.book.entries[e]? = some p' →
      p'.approved = true → ∃ p, v.1.book.entries[e]? = some p ∧ p.approved = true) : Inv v' := by
  refine ⟨fun r old => ?_, fun e p' found' approved' => ?_, ?_⟩
  · rw [wire] at old
    exact UInt64.lt_of_lt_of_le (inv.nonces r old) later.counter
  · obtain ⟨p, found, approved⟩ := entries e p' found' approved'
    obtain ⟨q, found'', becomes⟩ := later.trade.entries e p found
    rw [found'] at found''
    cases found''
    obtain ⟨curve, known⟩ := inv.approved e p found approved
    rw [becomes.token]
    exact ⟨becomes.route.trans curve, known.mono later.trade⟩
  · rw [wire]
    exact inv.sells

/-- A step that leaves the entries and the wire alone. -/
theorem Inv.same {v v' : Core} (inv : Inv v) (later : Later v v') (wire : v'.1.wire = v.1.wire)
    (entries : v'.1.book.entries = v.1.book.entries) : Inv v' :=
  inv.quiet later wire fun _ p found approved => ⟨p, by rw [← entries]; exact found, approved⟩

/-- A submission below the counter, authorised if it is a SELL. -/
theorem Inv.transmit {t : Trade} {n : NonceState} (inv : Inv (t, n)) {r : WireTx}
    (below : r.tx.nonce < n.current)
    (sells : ∀ memo token amount, r.site = .sell memo → r.tx.input.sold = some (token, amount) →
      Authorised t.wire r memo token amount) :
    Inv (t.transmit r, n.settle r.tx.nonce) := by
  refine ⟨fun q known => ?_, fun e p found approved => ?_, ?_⟩
  · rcases List.mem_append.1 known with old | new
    · exact inv.nonces q old
    · rw [List.mem_singleton.1 new]
      exact below
  · obtain ⟨curve, known⟩ := inv.approved e p found approved
    exact ⟨curve, known.mono (.transmit t r)⟩
  · have each := forall_prefix_append
      (fun before q => ∀ memo token amount, q.site = .sell memo →
        q.tx.input.sold = some (token, amount) → Authorised before q memo token amount)
      (fun k q found memo token amount => inv.sells k q memo token amount found) sells
    exact fun k q memo token amount found => each k q found memo token amount

/-- The operations that submit nothing, approve no entry and start no finalize task. -/
def plainOp : Op → Prop
  | .submit .. | .trade (.openPosition ..) | .trade (.storeApproved ..)
  | .spawn (.finalizePosition ..) => False
  | _ => True

theorem plain {o : Op} (kind : plainOp o) : spec.Plain w o := by
  intro i fresh a s out inv _ did later
  cases o with
  | submit tx hash site => exact kind.elim
  | spawn task =>
      cases did
      refine ⟨inv.same later rfl rfl, fun j t started => ?_⟩
      cases j with
      | zero =>
          cases started
          cases task <;> first | exact trivial | exact kind.elim
      | succ j => cases started
  | trade o =>
      obtain ⟨mid, ran, rfl⟩ := Option.map_eq_some_iff.1 did
      cases o with
      | openPosition | storeApproved => exact kind.elim
      | positionsGet | positionSnapshot | positionsRemove | unlockExit =>
          cases ran
          exact ⟨inv.same later rfl rfl, fun _ _ started => by cases started⟩
      | loadEntry e =>
          obtain ⟨p, _, rfl⟩ := Option.map_eq_some_iff.1 ran
          exact ⟨inv.same later rfl rfl, fun _ _ started => by cases started⟩
      | lockExit token =>
          simp only [TradeOp.exec] at ran
          split at ran
          · cases ran
            exact ⟨inv.same later rfl rfl, fun _ _ started => by cases started⟩
          · cases ran
      | storeTokensBought e tokens =>
          cases ran
          refine ⟨inv.quiet later rfl fun d p' found approved => ?_, fun _ _ started =>
            by cases started⟩
          obtain ⟨p, before, rfl⟩ :=
            Option.map_eq_some_iff.1 (Book.setTokens_entries.symm.trans found)
          refine ⟨p, before, ?_⟩
          split at approved <;> exact approved
      | writeBack token tokens sized =>
          cases ran
          refine ⟨inv.quiet later rfl fun d p' found approved => ?_, fun _ _ started =>
            by cases started⟩
          obtain ⟨p, before, rfl⟩ :=
            Option.map_eq_some_iff.1 (Book.writeBack_entries.symm.trans found)
          refine ⟨p, before, ?_⟩
          split at approved <;> exact approved
  | env o =>
      obtain ⟨_, _, rfl⟩ := Option.map_eq_some_iff.1 did
      exact ⟨inv.same later rfl rfl, fun _ _ started => by cases started⟩
  | sign tx =>
      cases a <;> cases did <;>
        exact ⟨inv.same later rfl rfl, fun _ _ started => by cases started⟩
  | _ =>
      cases did
      exact ⟨inv.same later rfl rfl, fun _ _ started => by cases started⟩

/-- A plain operation keeps what its task knows. -/
theorem plain_triple {o : Op} (A : (spec.contract w).Assertion World.core i)
    {Q : o.Res → World → Prop} (implies : ∀ result s, A.on s → Q result s) (kind : plainOp o) :
    (spec.contract w).Triple i A.on o Q :=
  (plain kind).triple A implies

theorem leavesTrade_plain {o : Op} (kind : o.leavesTrade) : plainOp o := by
  cases o with
  | spawn task => cases task <;> trivial
  | trade o => exact kind.elim
  | submit => exact kind.elim
  | _ => trivial

theorem resync_plain : NonceManager.resync.All (spec.Plain w) :=
  resync_leavesTrade.mono fun _ kind => plain (leavesTrade_plain kind)

/-! ### What a task knows -/

abbrev anything (w : TrailWatcher) (i : Tid) := spec.anything w i

/-- The nonce was drawn. -/
def drawn (w : TrailWatcher) (i : Tid) (n : UInt64) : (spec.contract w).Assertion World.core i :=
  NonceSpec.assertion w i (fun v => n < v.2.current)
    fun _ _ later below => UInt64.lt_of_lt_of_le below later.counter

/-- Where the condition is met, the entry is the bonding curve's and the curve was approved. -/
def armed (w : TrailWatcher) (i : Tid) (token : Address) (condition : Prop) (route : BuyRoute) :
    (spec.contract w).Assertion World.core i :=
  NonceSpec.assertion w i
    (fun v => condition → route = .fourMeme ∧ ApprovedFor token FOURMEME v.1)
    fun _ _ later known holds => ⟨(known holds).1, (known holds).2.mono later.trade⟩

/-- An exit of a broadcasting trader may sell: it read an allowance, or an approve was submitted,
below the nonce of the sale once it is drawn. -/
def mayTake (w : TrailWatcher) (sale : Sale) (allowance : Option (Address × U256))
    (approved : Prop) :
    Prop :=
  w.exec.broadcastEnabled = true →
    (∃ a, allowance = some (sale.holding.route.spender, a) ∧ sale.amount ≤ a) ∨ approved

def ready (w : TrailWatcher) (i : Tid) (token : Address) (sale : Sale)
    (allowance : Option (Address × U256)) : (spec.contract w).Assertion World.core i :=
  NonceSpec.assertion w i
    (fun v => mayTake w sale allowance (ApprovedFor token sale.holding.route.spender v.1))
    fun _ _ later known live => (known live).imp_right fun approved => approved.mono later.trade

def priced (w : TrailWatcher) (i : Tid) (token : Address) (sale : Sale)
    (allowance : Option (Address × U256)) (n : UInt64) : (spec.contract w).Assertion World.core i :=
  NonceSpec.assertion w i
    (fun v => n < v.2.current ∧
      mayTake w sale allowance (ApprovedBelow n token sale.holding.route.spender v.1))
    fun _ _ later ⟨below, known⟩ => ⟨UInt64.lt_of_lt_of_le below later.counter,
      fun live => (known live).imp_right fun approved => approved.mono later.trade⟩

/-- Where the condition is met, the finalize task's entry is the curve's and the
curve was approved. -/
def entered (w : TrailWatcher) (i : Tid) (token : Address) (route : BuyRoute) (e : EntryId)
    (approved : Prop) : (spec.contract w).Assertion World.core i :=
  NonceSpec.assertion w i
    (fun v => Entered token route e v.1 ∧
      (approved → route = .fourMeme ∧ ApprovedFor token FOURMEME v.1))
    fun _ _ later ⟨entered, known⟩ => ⟨entered.mono later.trade,
      fun holds => ⟨(known holds).1, (known holds).2.mono later.trade⟩⟩

/-- Drawing a nonce, for an assertion that says nothing of it. -/
theorem reserve_drawn {s : World} (A : (spec.contract w).Assertion World.core i) (now : A.on s) :
    (spec.contract w).wp i w.exec.reserveNonce (fun n s => (drawn w i n).on s ∧ A.on s) s := by
  refine NonceSpec.reserve_wp A (fun n => (drawn w i n).and A) (fun s inv holds safe => ?_)
    (fun _ _ _ => trivial) now
  have up := lt_succ_of_safe safe
  have later : Later s.core (s.trade, (NonceOp.exec .fetchAdd () s.nonce).2) :=
    ⟨.refl _, UInt64.le_of_lt up⟩
  have inv' := inv.same later rfl rfl
  exact ⟨inv', up, NonceSpec.stays A inv inv' later holds⟩

/-! ### The outlines -/

def entry (w : TrailWatcher) (i : Tid) (token : Address) :
    EntryOutline (spec.contract w) World.core i token where
  idle := anything w i
  looked _ := anything w i
  cleared := anything w i
  priced n := drawn w i n
  bought := anything w i
  done := anything w i
  get := plain_triple (anything w i) (fun _ _ _ => trivial) trivial
  duplicate _ _ _ _ _ := trivial
  absent _ _ := trivial
  clear _ _ _ := plain_triple (anything w i) (fun _ _ _ => trivial) trivial
  skipped _ _ := trivial
  reserve _ _ := Contract.wp_mono (fun _ _ known => known.1) (reserve_drawn (anything w i) trivial)
  signBuy n _ _ _ _ _ := plain_triple (drawn w i n) (fun hash _ known => by
    cases hash
    · trivial
    · exact known) trivial
  sendBuy n target value calldata gasLimit gas hash _ _ _ :=
    NonceSpec.submit _ hash .buy (drawn w i n).holds (fun ok _ => if ok = true then True else True)
      fun s r _ tx site inv below _ => by
      refine ⟨inv.transmit (by rw [tx]; exact below) ?_, by split <;> trivial⟩
      rintro memo token amount isSell
      rw [site] at isSell
      cases isSell
  shadowBuy n _ _ _ _ _ _ := plain_triple (drawn w i n) (fun _ _ _ => trivial) trivial
  openEntry route bnbIn hash := NonceSpec.triple fun fresh a s out inv _ _ did later => by
    cases did
    refine ⟨inv.quiet later rfl fun e p found approved => ?_, fun j t started => ?_, trivial⟩
    · rcases Book.insert_found found with old | ⟨_, rfl⟩
      · exact ⟨p, old, approved⟩
      · cases approved
    · cases j with
      | zero =>
          cases started
          exact ⟨_, Book.insert_new, rfl, rfl⟩
      | succ j => cases started
  resync _ _ := NonceSpec.plain_wp (anything w i) resync_plain (fun _ _ _ => trivial) trivial

def exit (w : TrailWatcher) (i : Tid) (token : Address) :
    ExitOutline (spec.contract w) World.core i token where
  idle := anything w i
  locked := anything w i
  looked r := .all fun held : EntryId × PositionEntry =>
    armed w i token (r = some held ∧ held.2.approved = true) held.2.route
  sized h := armed w i token (h.usedFastPath = true) h.route
  asked _ n := drawn w i n
  ready := ready w i token
  priced := priced w i token
  sent _ := anything w i
  done _ := anything w i
  post _ _ := True
  refused _ _ := trivial
  lock := plain_triple (anything w i) (fun _ _ _ => trivial) trivial
  get := NonceSpec.triple fun fresh a s out inv _ _ did _ => by
    cases did
    refine ⟨inv, (fun _ _ started => by cases started), ?_⟩
    rintro ⟨e, p⟩ ⟨held, approved⟩
    have found := (Book.cached_eq_some.1 held).2
    rw [← Book.token_of_cached held]
    exact inv.approved e p found approved
  exited _ _ _ _ _ := trivial
  fast e p _ _ approved looked := fun _ => looked (e, p) ⟨rfl, approved⟩
  balance r _ := plain_triple _ (fun bal s _ => by
    split
    · trivial
    · exact fun _ _ fast => by cases fast) trivial
  unsold _ _ _ := ⟨trivial, trivial⟩
  armed sale s fast sized := fun _ => by
    obtain ⟨curve, approved⟩ := sized fast
    rw [curve]
    exact .inr approved
  allowed sale allowance s _ le _ := fun _ => .inl ⟨allowance, rfl, le⟩
  askNonce _ _ _ _ :=
    Contract.wp_mono (fun _ _ known => known.1) (reserve_drawn (anything w i) trivial)
  signApprove _ n _ := plain_triple (drawn w i n) (fun hash _ known => by
    cases hash
    · trivial
    · exact known) trivial
  sendApprove sale n gas hash _ := by
    refine (NonceSpec.submit _ hash .exitApprove (drawn w i n).holds
      (fun ok v => ok = true → ApprovedFor token sale.holding.route.spender v.1) ?_).weaken
      fun ok s after => ?_
    · intro s r _ tx site inv below _
      refine ⟨inv.transmit (by rw [tx]; exact below) ?_, fun ok => ⟨r, ?_, ?_⟩⟩
      · intro memo token amount isSell
        rw [site] at isSell
        cases isSell
      · exact List.mem_append_right _ (List.mem_singleton_self r)
      · simp [WireTx.approves, ok, tx, request]
    · split
      · rename_i sent
        exact fun _ _ => .inr (after sent)
      · trivial
  shadowApprove _ n _ off := plain_triple (drawn w i n) (fun _ _ _ _ live => by
    rw [off] at live
    cases live) trivial
  sellNonce sale allowance s known := by
    refine NonceSpec.reserve_wp (ready w i token sale allowance) (priced w i token sale allowance)
      (fun s inv known safe => ?_) (fun _ _ _ => trivial) known
    have up := lt_succ_of_safe safe
    refine ⟨inv.same ⟨.refl _, UInt64.le_of_lt up⟩ rfl rfl, up, fun live => ?_⟩
    refine (known live).imp_right fun approved => ?_
    -- every nonce on the wire is below the one that is drawn now
    obtain ⟨q, old, approves⟩ := approved
    exact ⟨q, old, approves, inv.nonces q old⟩
  signSale sale allowance n _ _ _ _ := plain_triple (priced w i token sale allowance n)
    (fun hash _ known => by
      cases hash
      · trivial
      · exact known) trivial
  sendSale sale allowance n route calldata gasLimit gas hash live sold _ :=
    NonceSpec.submit _ hash _ (priced w i token sale allowance n).holds
      (fun ok _ => if ok = true then True else True)
      fun s r _ tx site inv known meets => by
      refine ⟨inv.transmit (by rw [tx]; exact known.1) ?_, by split <;> trivial⟩
      intro memo other amount isSell sells
      rw [site] at isSell
      cases isSell
      rw [tx] at sells
      cases sold.symm.trans sells
      have target : r.tx.to_ = sale.holding.route.spender := by
        have := meets
        simpa [spec, keepsSpender, site, Sale.memo] using this
      rcases known.2 live with ⟨a, same, le⟩ | ⟨q, old, approves, lower⟩
      · exact .inl ⟨a, by rw [target]; exact same, le⟩
      · refine .inr ⟨q, old, by rw [target]; exact approves, ?_⟩
        rw [tx]
        exact lower
  shadowSale sale allowance n _ _ _ _ _ :=
    plain_triple (priced w i token sale allowance n) (fun _ _ _ => trivial) trivial
  update _ := plain_triple (anything w i) (fun _ _ _ => trivial) trivial
  resync _ _ _ := NonceSpec.plain_wp (anything w i) resync_plain (fun _ _ _ => trivial) trivial
  unlock _ := plain_triple (anything w i) (fun _ _ _ => trivial) trivial

def finalize (w : TrailWatcher) (i : Tid) (token : Address) (route : BuyRoute) (e : EntryId) :
    FinalizeOutline (spec.contract w) World.core i token route e where
  pending := entered w i token route e False
  read _ := entered w i token route e False
  stored _ := entered w i token route e False
  asked _ n := ((drawn w i n).and (entered w i token route e False)).given (route = .fourMeme)
  approving _ := entered w i token route e True
  done _ := anything w i
  unseen _ _ := trivial
  balance := plain_triple _ (fun _ _ pending => pending) trivial
  empty _ read := read
  store _ _ := plain_triple _ (fun _ _ read => read) trivial
  unarmed _ _ _ := trivial
  reserve _ _ _ curve stored :=
    Contract.wp_mono (fun _ _ known => ⟨curve, known⟩) (reserve_drawn _ stored)
  signApprove _ n _ := plain_triple _ (fun hash _ known => by
    cases hash
    · trivial
    · exact known) trivial
  sendApprove bal n gas hash _ := by
    refine (NonceSpec.submit _ hash .bgApprove
      (((drawn w i n).and (entered w i token route e False)).given (route = .fourMeme)).holds
      (fun ok v => ok = true → (entered w i token route e True).holds v) ?_).weaken
      fun ok s after => ?_
    · rintro s r _ tx site inv ⟨curve, below, known, _⟩ _
      refine ⟨inv.transmit (by rw [tx]; exact below) ?_, fun ok =>
        ⟨known, fun _ => ⟨curve, r, ?_, ?_⟩⟩⟩
      · intro memo token amount isSell
        rw [site] at isSell
        cases isSell
      · exact List.mem_append_right _ (List.mem_singleton_self r)
      · simp [WireTx.approves, ok, tx, request]
    · split
      · rename_i sent
        exact after sent
      · trivial
  unconfirmed _ _ _ := trivial
  confirm bal := NonceSpec.triple fun fresh a s out inv approving _ did _ => by
    cases did
    obtain ⟨⟨p, found, key, venue⟩, known⟩ := approving
    obtain ⟨curve, approved⟩ := known trivial
    refine ⟨⟨inv.nonces, fun d q found' armed => ?_, inv.sells⟩,
      (fun _ _ started => by cases started),
      trivial⟩
    obtain ⟨q', before, rfl⟩ :=
      Option.map_eq_some_iff.1 (Book.setApproved_entries.symm.trans found')
    split at armed
    · rename_i same
      subst same
      rw [show s.trade.book.entries[d]? = some p from found] at before
      cases before
      rw [if_pos rfl]
      exact ⟨venue.trans curve, key ▸ approved⟩
    · rename_i other
      rw [if_neg other]
      exact inv.approved d q' before armed

theorem workers (w : TrailWatcher) : Workers (spec.contract w) World.core :=
  .of_outlines NonceSpec.focused (entry w) (fun _ _ _ => trivial) (exit w) (fun _ _ _ => trivial)
    (finalize w) (fun _ _ _ _ _ _ entered => ⟨entered, False.elim⟩)
    (fun i _ => Contract.wp_mono (fun _ _ _ => trivial) (reserve_drawn (anything w i) trivial))
    (fun i _ => NonceSpec.plain_wp (anything w i) resync_plain (fun _ _ _ => trivial) trivial)
    (fun n i _ _ => NonceSpec.plain_wp (anything w i)
      ((persistNonce_leavesTrade n).mono fun _ kind => plain (leavesTrade_plain kind))
      (fun _ _ _ => trivial) trivial)
    (fun _ _ _ _ _ => trivial) fun _ _ _ _ => trivial

end SellApproval

/-- In every run of the trader whose steps keep the checked spender, every SELL that an exit submits
goes to a spender that may take the amount: the call read an allowance for it that is enough, or an
approve of the token for it was submitted before, at a lower nonce. -/
theorem sell_authorised {w : TrailWatcher} (chain : UInt64) (file : Option UInt64)
    (tasks : List Task) (roots : ∀ t ∈ tasks, t.root = true) (c : LiveConfig)
    (run : w.machine.Run (fun _ o _ s => keepsSpender o s)
      (w.machine.start (World.boot chain file) tasks) c)
    (k : Nat) (r : WireTx) (memo : ExitMemo) (token : Address) (amount : U256)
    (sent : c.shared.trade.wire[k]? = some r) (site : r.site = .sell memo)
    (sold : r.tx.input.sold = some (token, amount)) :
    Authorised (c.shared.trade.wire.take k) r memo token amount := by
  have sound : (SellApproval.spec.contract w).Sound c := by
    refine (SellApproval.spec.contract w).sound
      (fun t i s _ pre => (SellApproval.workers w).bodies t i s pre) ?_ ?_ run
    · refine ⟨fun r old => ?_, fun e p found => ?_, fun k r _ _ _ found => ?_⟩
      · cases old
      · cases found
      · cases found
    · intro i t found
      have root := roots t (List.mem_of_getElem? found)
      cases t <;> trivial
  exact sound.inv.sells k r memo token amount sent site sold

/-- The third transaction is a SELL of 1000 of the token, and whether it is
authorised is `authorised`. -/
def thirdSells (authorised : Bool) (c : LiveConfig) : Bool :=
  c.shared.trade.wire[2]?.any fun r =>
    match r.site with
    | .sell memo => decide (r.ok = true ∧ r.tx.input.sold = some (scenarioToken, 1000) ∧
        decide (Authorised (c.shared.trade.wire.take 2) r memo scenarioToken 1000) = authorised)
    | _ => false

theorem sale_of_thirdSells {authorised : Bool} {c : LiveConfig}
    (third : thirdSells authorised c = true) :
    ∃ r memo, c.shared.trade.wire[2]? = some r ∧ r.site = .sell memo ∧ r.ok = true ∧
      r.tx.input.sold = some (scenarioToken, 1000) ∧
      decide (Authorised (c.shared.trade.wire.take 2) r memo scenarioToken 1000) = authorised := by
  obtain ⟨r, found, sells⟩ := (Option.any_eq_true _ _).1 third
  split at sells
  · rename_i memo site
    obtain ⟨ok, sold, same⟩ := of_decide_eq_true sells
    exact ⟨r, memo, found, site, ok, sold, same⟩
  · cases sells

theorem sell_authorised_sold :
    ∃ c r memo, (scenario false).machine.Run (fun _ o _ s => keepsSpender o s)
        ((scenario false).machine.start (World.boot 5 none) [buyTask, exitTask]) c ∧
      c.shared.trade.wire[2]? = some r ∧ r.site = .sell memo ∧ memo.allowance = none ∧
      Authorised (c.shared.trade.wire.take 2) r memo scenarioToken 1000 := by
  let r : Replies := { balance := some 1000 }
  obtain ⟨c, run, third, fast⟩ : ∃ c, (scenario false).machine.Run (fun _ o _ s => keepsSpender o s)
      ((scenario false).machine.start (World.boot 5 none) [buyTask, exitTask]) c ∧
      thirdSells true c = true ∧ (c.shared.trade.wire[2]?.all fun r => match r.site with
        | .sell memo => memo.allowance.isNone
        | _ => false) = true :=
    Machine.exists_run_of_follow [(0, 18, r.ans), (2, 13, r.ans), (1, 17, r.ans)]
      (by decide +kernel)
  obtain ⟨r, memo, sent, site, _, sold, _⟩ := sale_of_thirdSells third
  rw [sent, Option.all_some, site] at fast
  exact ⟨c, r, memo, run, sent, site, Option.isNone_iff_eq_none.1 fast, sell_authorised 5 none
    [buyTask, exitTask] (by decide) c run 2 r memo scenarioToken 1000 sent site sold⟩

/-- The bonding curve is approved, the token graduates while it is held, and the fast path, which
reads no allowance, finds the V2 pair just before the broadcast: the SELL goes to the router, which
nothing was ever approved for. -/
theorem sell_unauthorised :
    ∃ c r memo, (scenario false).machine.Run (scenario false).machine.anyStep
        ((scenario false).machine.start (World.boot 5 none) [buyTask, exitTask]) c ∧
      c.shared.trade.wire[2]? = some r ∧ r.site = .sell memo ∧ r.ok = true ∧
      r.tx.input.sold = some (scenarioToken, 1000) ∧
      ¬ Authorised (c.shared.trade.wire.take 2) r memo scenarioToken 1000 := by
  let held : Replies := { balance := some 1000 }
  let graduated : Replies := { held with pair := some 0xBEEF }
  obtain ⟨c, run, third⟩ : ∃ c, (scenario false).machine.Run (scenario false).machine.anyStep
      ((scenario false).machine.start (World.boot 5 none) [buyTask, exitTask]) c ∧
      thirdSells false c = true :=
    Machine.exists_run_of_follow [(0, 18, held.ans), (2, 13, held.ans), (1, 18, graduated.ans)]
      (by decide +kernel)
  obtain ⟨r, memo, sent, site, ok, sold, unauthorised⟩ := sale_of_thirdSells third
  exact ⟨c, r, memo, run, sent, site, ok, sold, of_decide_eq_false unauthorised⟩

end BscMempool.Trader
