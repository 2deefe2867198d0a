/-
Module: BscMempool.Proofs.FullClose
Layer: Proofs
Purpose: When a full close is terminal: after the broadcast full-close SELL of a token no exit
  submits anything for it until it is bought again.
Trusted boundary: none
Main exports: WireTx.exits, keepsMarker, full_close_terminal, full_close_repeats
-/
import BscMempool.Proofs.Workers
import BscMempool.Proofs.Scenario

namespace BscMempool.Trader

open Concurrent (Tid Machine Contract)

/-- A transaction that an exit of `token` submits: its SELL or the approve before it. -/
def WireTx.exits (r : WireTx) (token : Address) : Bool :=
  match r.site with
  | .sell _ => r.tx.input.sold.any fun sold => sold.1 == token
  | .exitApprove => r.tx.to_ == token
  | _ => false

/-- The steps of the task at `i` that keep the marker of a closed token: the cache update of a full
close finds an approved entry, an exit that looks a closed token up finds an entry, and a BUY is
entered in the cache while it is still the token's last trade. -/
def keepsMarker (i : Tid) : Op → Trade → Bool
  | .trade (.writeBack token _ _), t =>
      !closed t.wire token || (t.cached token).any fun held => held.2.approved
  | .trade (.positionsGet token), t =>
      decide (t.exitLocks token ≠ some i) || !closed t.wire token || (t.cached token).isSome
  | .trade (.openPosition token ..), t => !closed t.wire token
  | _, _ => true

namespace FullClose

/-- The cache holds nothing but the marker for a token that is closed. -/
def Marked (t : Trade) (token : Address) : Prop :=
  closed t.wire token = true → ∀ e p, t.cached token = some (e, p) → p.exited = true

/-- No exit submitted anything for a token that was closed. -/
def Terminal (wire : List WireTx) : Prop :=
  ∀ k r token, wire[k]? = some r → r.exits token = true → closed (wire.take k) token = false

/-- What a step of the task at `i` may do: take and give back exit locks for itself, close a token
and unmark it only under its lock, and approve only entries it is the finalizer of. -/
structure Guar (i : Tid) (t t' : Trade) : Prop where
  lock : ∀ token j, j ≠ i → (t'.exitLocks token = some j ↔ t.exitLocks token = some j)
  shut : ∀ token, t.exitLocks token ≠ some i → closed t'.wire token = true →
    closed t.wire token = true
  marked : ∀ token, t.exitLocks token ≠ some i → Marked t token → Marked t' token
  approved : ∀ (e : EntryId) (p p' : PositionEntry), t.book.entries[e]? = some p →
    t'.book.entries[e]? = some p' → p.finalizer ≠ i → p'.approved = p.approved

structure Inv (t : Trade) : Prop where
  marked : ∀ token, t.exitLocks token = none → Marked t token
  terminal : Terminal t.wire

/-- The entry the task at `i` finalizes, before it is approved. -/
def Finalizes (i : Tid) (e : EntryId) (t : Trade) : Prop :=
  ∃ p, t.book.entries[e]? = some p ∧ p.finalizer = i ∧ p.approved = false

theorem Guar.of_approved {i : Tid} {t t' : Trade}
    (lock : ∀ token j, j ≠ i → (t'.exitLocks token = some j ↔ t.exitLocks token = some j))
    (wire : t'.wire = t.wire)
    (marked : ∀ token, t.exitLocks token ≠ some i → Marked t token → Marked t' token)
    (approved : ∀ (e : EntryId) (p p' : PositionEntry), t.book.entries[e]? = some p →
      t'.book.entries[e]? = some p' → p.finalizer ≠ i → p'.approved = p.approved) : Guar i t t' :=
  ⟨lock, fun _ _ shut => by rw [← wire]; exact shut, marked, approved⟩

theorem same_approved {t t' : Trade} (entries : t'.book.entries = t.book.entries) {i : Tid}
    (e : EntryId) (p p' : PositionEntry) (found : t.book.entries[e]? = some p)
    (found' : t'.book.entries[e]? = some p') (_ : p.finalizer ≠ i) : p'.approved = p.approved := by
  rw [entries, found] at found'
  cases found'
  rfl

/-- All tasks of the trader, each finalize task with an entry of its own. -/
def spec : TradeSpec where
  cond i o _ t := keepsMarker i o t = true
  inv := Inv
  guar := Guar
  pre task i t :=
    match task with
    | .finalizePosition _ _ _ e => Finalizes i e t
    | _ => True
  post _ _ _ _ := True
  idle _ _ _ :=
    .of_approved (fun _ _ _ => Iff.rfl) rfl (fun _ _ marked => marked) (same_approved rfl)
  persist _ _ _ := trivial

variable {w : TrailWatcher} {i : Tid} {token : Address} {t : Trade}

/-! ### What one operation does -/

theorem lock_moves (inv : Inv t) (free : t.exitLocks token = none) :
    spec.Moves i t { t with exitLocks := Function.update t.exitLocks token (some i) } := by
  refine ⟨⟨fun other unlocked => ?_, inv.terminal⟩, .of_approved (fun other j ne => ?_) rfl
    (fun _ _ marked => marked) (same_approved rfl)⟩
  · by_cases same : other = token
    · subst same
      simp at unlocked
    · exact inv.marked other (by simpa [Function.update_of_ne same] using unlocked)
  · by_cases same : other = token
    · subst same
      simp [free, Ne.symm ne]
    · simp [Function.update_of_ne same]

theorem unlock_moves (inv : Inv t) (locked : t.exitLocks token = some i) (marked : Marked t token) :
    spec.Moves i t { t with exitLocks := Function.update t.exitLocks token none } := by
  refine ⟨⟨fun other unlocked => ?_, inv.terminal⟩, .of_approved (fun other j ne => ?_) rfl
    (fun _ _ marked => marked) (same_approved rfl)⟩
  · by_cases same : other = token
    · subst same
      exact marked
    · exact inv.marked other (by simpa [Function.update_of_ne same] using unlocked)
  · by_cases same : other = token
    · subst same
      simp [locked, Ne.symm ne]
    · simp [Function.update_of_ne same]

theorem Terminal.append {wire : List WireTx} {r : WireTx} (terminal : Terminal wire)
    (last : ∀ token, r.exits token = true → closed wire token = false) :
    Terminal (wire ++ [r]) := by
  have each := forall_prefix_append
    (fun before s => ∀ token, s.exits token = true → closed before token = false)
    (fun k s found token exits => terminal k s token found exits) last
  exact fun k s token found exits => each k s found token exits

/-- A transaction that closes only a token whose lock its sender holds, and that an exit submits
only for a token that is open. -/
theorem transmit_moves (inv : Inv t) (r : WireTx)
    (closes : ∀ token, r.closes token = true → t.exitLocks token = some i)
    (exits : ∀ token, r.exits token = true → closed t.wire token = false) :
    spec.Moves i t (t.transmit r) := by
  have shut : ∀ token, t.exitLocks token ≠ some i → closed (t.transmit r).wire token = true →
      closed t.wire token = true := by
    intro token other now
    rw [Trade.transmit_wire, closed_append] at now
    split at now
    · cases now
    · rcases Bool.or_eq_true_iff.1 now with before | closing
      · exact before
      · exact absurd (closes token closing) other
  have marked : ∀ token, t.exitLocks token ≠ some i → Marked t token →
      Marked (t.transmit r) token :=
    fun token other marked now => marked (shut token other now)
  refine ⟨⟨fun token free => marked token ?_ (inv.marked token free), inv.terminal.append exits⟩,
    ⟨fun _ _ _ => Iff.rfl, shut, marked, same_approved rfl⟩⟩
  rw [show t.exitLocks token = none from free]
  exact nofun

/-- A step that changes what the cache holds and keeps every token marked that its
task has no lock for. -/
theorem book_moves {t' : Trade} (inv : Inv t) (lock : t'.exitLocks = t.exitLocks)
    (wire : t'.wire = t.wire)
    (marked : ∀ token, t.exitLocks token ≠ some i → Marked t token → Marked t' token)
    (approved : ∀ (e : EntryId) (p p' : PositionEntry), t.book.entries[e]? = some p →
      t'.book.entries[e]? = some p' → p.finalizer ≠ i → p'.approved = p.approved) :
    spec.Moves i t t' := by
  refine ⟨⟨fun token free => ?_, wire ▸ inv.terminal⟩,
    .of_approved (by simp [lock]) wire marked approved⟩
  rw [lock] at free
  exact marked token (by rw [free]; exact nofun) (inv.marked token free)

/-! ### Stable assertions -/

def anything (w : TrailWatcher) (i : Tid) : (spec.contract w).Assertion World.trade i :=
  ⟨fun _ => True, .true⟩

/-- The task at `i` holds the token's lock and knows, under the conditions given, that the token is
marked and that it is open. -/
def holding (w : TrailWatcher) (i : Tid) (token : Address) (marked shut : Prop) :
    (spec.contract w).Assertion World.trade i :=
  spec.assertion w i (fun t => t.exitLocks token = some i ∧ (marked → Marked t token) ∧
    (shut → closed t.wire token = false)) (by
      rintro j t t' ne _ _ _ guar ⟨locked, knows, isOpen⟩
      have other : t.exitLocks token ≠ some j := by
        rw [locked]
        exact fun same => ne (Option.some.inj same).symm
      refine ⟨(guar.lock token i ne.symm).2 locked, fun h => guar.marked token other (knows h), ?_⟩
      intro h
      have before := isOpen h
      by_contra now
      have shut := guar.shut token other (by simpa using now)
      rw [before] at shut
      cases shut)

def finalizing (w : TrailWatcher) (i : Tid) (e : EntryId) :
    (spec.contract w).Assertion World.trade i :=
  spec.assertion w i (Finalizes i e) (by
    rintro j t t' ne _ _ grows guar ⟨p, found, mine, unarmed⟩
    obtain ⟨p', found', becomes⟩ := grows.entries e p found
    refine ⟨p', found', becomes.finalizer.trans mine, ?_⟩
    rw [guar.approved e p p' found found' (by rw [mine]; exact ne.symm)]
    exact unarmed)

/-- An open token is marked. -/
theorem marked_of_open (isOpen : closed t.wire token = false) : Marked t token := by
  intro shut
  rw [isOpen] at shut
  cases shut

theorem holding_marked (isOpen : (holding w i token False True).holds t) :
    (holding w i token True False).holds t :=
  ⟨isOpen.1, fun _ => marked_of_open (isOpen.2.2 trivial), nofun⟩

/-! ### The three outlines -/

def entry (w : TrailWatcher) (i : Tid) (token : Address) : TradeEntry spec w i token where
  idle := anything w i
  looked _ := anything w i
  cleared := anything w i
  bought := anything w i
  done := anything w i
  get _ _ _ := trivial
  duplicate _ _ _ _ _ := trivial
  absent _ _ := trivial
  clear _ _ t _ inv _ _ := by
    refine ⟨book_moves inv rfl rfl (fun other _ marked shut e p held => ?_) (same_approved rfl),
      trivial⟩
    by_cases same : other = token
    · subst same
      have none_ : (t.book.remove other).cached other = some (e, p) := held
      rw [Book.cached_remove_self] at none_
      cases none_
    · exact marked shut e p ((Book.cached_remove_other same).symm.trans held)
  skipped _ _ := trivial
  sendBuy r t _ site _ _ inv _ _ :=
    ⟨transmit_moves inv r (by simp [WireTx.closes, site]) (by simp [WireTx.exits, site]),
      fun _ => trivial, fun _ => trivial⟩
  openEntry route bnbIn hash t fresh lt inv _ meets := by
    have isOpen : closed t.wire token = false := by simpa [spec, keepsMarker] using meets
    refine ⟨book_moves inv rfl rfl (fun other _ marked => ?_) (fun e p p' found found' _ => ?_),
      ⟨_, Book.insert_new, rfl, rfl⟩, trivial⟩
    · by_cases same : other = token
      · subst same
        exact marked_of_open isOpen
      · intro shut e p held
        exact marked shut e p ((Book.cached_insert_other same).symm.trans held)
    · rw [Book.insert_old found] at found'
      cases found'
      rfl

def exit (w : TrailWatcher) (i : Tid) (token : Address) : TradeExit spec w i token where
  idle := anything w i
  locked := holding w i token True False
  looked r := holding w i token True (∀ e p, r = some (e, p) → p.exited = false)
  sized _ := holding w i token False True
  ready _ := holding w i token False True
  sent sale := holding w i token False (sale.full = false)
  done _ := holding w i token True False
  post _ _ := True
  refused _ _ := trivial
  lock t inv _ free :=
    ⟨lock_moves inv free, by simp, fun _ => inv.marked token free, nofun⟩
  get t _ locked meets := by
    obtain ⟨locked, marked, _⟩ := locked
    refine ⟨locked, marked, fun held => ?_⟩
    by_contra shut
    have shut : closed t.wire token = true := by simpa using shut
    -- a closed token is still in the cache, and then it is marked
    have cached : (t.cached token).isSome = true := by
      have := meets
      simpa [spec, keepsMarker, locked, shut] using this
    obtain ⟨⟨e, p⟩, found⟩ := Option.isSome_iff_exists.1 cached
    have unmarked := held e p found
    rw [marked trivial shut e p found] at unmarked
    cases unmarked
  exited _ _ _ _ looked := ⟨looked.1, looked.2.1, nofun⟩
  fast e p t some_ _ looked := by
    refine ⟨looked.1, nofun, fun _ => looked.2.2 ?_⟩
    rintro _ _ ⟨⟩
    rw [PositionEntry.exited, decide_eq_false some_, Bool.false_and]
  balance r bal t slow _ looked _ := by
    by_cases zero : bal.getD 0 = 0
    · rw [if_pos zero]
      exact ⟨looked.1, looked.2.1, nofun⟩
    · rw [if_neg zero]
      exact fun _ _ => ⟨looked.1, nofun, fun _ => looked.2.2 fun e p same => (slow e p same).1⟩
  givenUp _ _ sized := ⟨holding_marked sized, holding_marked sized, holding_marked sized⟩
  approved _ _ sized := sized
  sendApprove sale r t _ _ site target _ _ inv sized _ := by
    have isOpen := sized.2.2 trivial
    have moves : spec.Moves i t (t.transmit r) := by
      refine transmit_moves inv r (by simp [WireTx.closes, site]) fun other exits => ?_
      have same : token = other := by simpa [WireTx.exits, site, target] using exits
      rw [← same]
      exact isOpen
    have after : closed (t.transmit r).wire token = false := by
      rw [Trade.transmit_wire, closed_append]
      simp [isOpen, WireTx.closes, site]
    exact ⟨moves, fun _ => ⟨sized.1, nofun, fun _ => after⟩,
      fun _ => ⟨sized.1, fun _ => marked_of_open after, nofun⟩⟩
  failed _ _ ready := ⟨holding_marked ready, holding_marked ready⟩
  sendSale sale allowance r t _ site sold _ inv ready _ := by
    obtain ⟨locked, _, isOpen⟩ := ready
    have isOpen := isOpen trivial
    have sells : ∀ other, r.sells other = true → token = other := by
      intro other sells
      rw [WireTx.sells_of_sold sold] at sells
      simpa using (Bool.and_eq_true_iff.1 sells).2
    have moves : spec.Moves i t (t.transmit r) := by
      refine transmit_moves inv r (fun other closes => ?_) fun other exits => ?_
      · rw [← sells other (Bool.and_eq_true_iff.1 closes).1]
        exact locked
      · have same : token = other := by simpa [WireTx.exits, site, sold] using exits
        rw [← same]
        exact isOpen
    have after : r.ok = false ∨ sale.full = false → closed (t.transmit r).wire token = false := by
      intro partly
      rw [Trade.transmit_wire, closed_append, isOpen]
      rcases partly with failed | part
      · simp [WireTx.closes, WireTx.sells, failed]
      · simp [WireTx.closes, site, Sale.memo, part]
    exact ⟨moves, fun _ => ⟨locked, nofun, fun part => after (.inr part)⟩,
      fun failed => ⟨locked, fun _ => marked_of_open (after (.inl failed)), nofun⟩⟩
  update sale t inv sent meets := by
    obtain ⟨locked, _, part⟩ := sent
    have marked : Marked { t with
        book := t.book.writeBack token sale.rest
        unsettled := Function.update t.unsettled token 0 } token := by
      intro shut e p held
      have shut : closed t.wire token = true := shut
      have full : sale.full = true := by
        by_contra partial_
        rw [part (by simpa using partial_)] at shut
        cases shut
      have approved : (t.cached token).any (fun held => held.2.approved) = true := by
        have := meets
        simpa [spec, keepsMarker, shut] using this
      have held : (t.book.writeBack token sale.rest).cached token = some (e, p) := held
      rw [Book.cached_writeBack_self] at held
      obtain ⟨⟨d, q⟩, found, same⟩ := Option.map_eq_some_iff.1 held
      cases same
      rw [show t.cached token = some (d, q) from found] at approved
      simpa [PositionEntry.exited, Sale.rest_eq_zero_iff.2 full] using approved
    refine ⟨book_moves inv rfl rfl (fun other unlocked marked shut e p held => ?_)
      (fun e p p' found found' _ => ?_), locked, fun _ => marked, nofun⟩
    · have ne : other ≠ token := by
        rintro rfl
        exact unlocked locked
      exact marked shut e p ((Book.cached_writeBack_other ne).symm.trans held)
    · rw [Book.writeBack_entries, found] at found'
      cases found'
      dsimp only
      split <;> rfl
  unlock _ t inv done := ⟨unlock_moves inv done.1 (done.2.1 trivial), trivial⟩

/-- A change of an entry that is not approved yet unmarks no token. -/
theorem finalizer_marked {e : EntryId} {p : PositionEntry} {book : Book}
    (f : PositionEntry → PositionEntry) (found : t.book.entries[e]? = some p)
    (unarmed : p.approved = false)
    (cached : ∀ other, book.cached other = (t.book.cached other).map fun held =>
      (held.1, if held.1 = e then f held.2 else held.2))
    (other : Address) (marked : Marked t other) : Marked { t with book := book } other := by
  intro shut d q held
  have held : book.cached other = some (d, q) := held
  rw [cached] at held
  obtain ⟨⟨d', q'⟩, before, same⟩ := Option.map_eq_some_iff.1 held
  have exited := marked shut d' q' before
  cases same
  split
  · rename_i here
    have found' := (Book.cached_eq_some.1 before).2
    simp only at here
    rw [here, found] at found'
    cases found'
    simp [PositionEntry.exited, unarmed] at exited
  · exact exited

def finalize (w : TrailWatcher) (i : Tid) (token : Address) (route : BuyRoute) (e : EntryId) :
    TradeFinalize spec w i token route e where
  pending := finalizing w i e
  read _ := finalizing w i e
  stored _ := finalizing w i e
  approving _ := finalizing w i e
  done _ := anything w i
  unseen _ _ := trivial
  balance _ _ _ pending _ := pending
  empty _ read := read
  store bal t _ inv read _ := by
    obtain ⟨p, found, mine, unarmed⟩ := read
    refine ⟨book_moves inv rfl rfl (fun other _ =>
      finalizer_marked (fun p => { p with tokensBought := bal })
      found unarmed (fun _ => Book.cached_setTokens) other) (fun d q q' found found' _ => ?_), ?_⟩
    · rw [Book.setTokens_entries, found] at found'
      cases found'
      dsimp only
      split <;> rfl
    · exact ⟨{ p with tokensBought := bal }, by rw [Book.setTokens_entries, found]; simp, mine,
        unarmed⟩
  unarmed _ _ _ := trivial
  sendApprove bal r t _ site _ _ _ inv stored _ :=
    ⟨transmit_moves inv r (by simp [WireTx.closes, site]) (by simp [WireTx.exits, site]),
      fun _ => stored, fun _ => trivial⟩
  unconfirmed _ _ _ := trivial
  confirm bal t inv approving _ := by
    obtain ⟨p, found, mine, unarmed⟩ := approving
    refine ⟨book_moves inv rfl rfl (fun other _ =>
      finalizer_marked (fun p => { p with approved := true })
      found unarmed (fun _ => Book.cached_setApproved) other) (fun d q q' found' found'' ne => ?_),
        trivial⟩
    rw [Book.setApproved_entries, found'] at found''
    cases found''
    dsimp only
    split
    · rename_i same
      subst same
      rw [found] at found'
      cases found'
      exact absurd mine ne
    · rfl

theorem workers (w : TrailWatcher) : Workers (spec.contract w) World.trade :=
  TradeSpec.workers (entry w) (fun _ _ _ => trivial) (exit w) (fun _ _ _ => trivial) (finalize w)
    (fun _ _ _ _ _ _ finalizes => finalizes) (fun _ _ _ _ _ => trivial) fun _ _ _ _ => trivial

end FullClose

/-- In every run of the trader whose steps keep the marker, whatever an exit submits for a token, it
submits while the token is open: between the broadcast of a full-close SELL and the broadcast of the
next BUY of the token, no exit submits anything for it. -/
theorem full_close_terminal {w : TrailWatcher} (chain : UInt64) (file : Option UInt64)
    (tasks : List Task) (roots : ∀ t ∈ tasks, t.root = true) (c : LiveConfig)
    (run : w.machine.Run (fun i o _ s => keepsMarker i o s.trade)
      (w.machine.start (World.boot chain file) tasks) c)
    (token : Address) (k : Nat) (r : WireTx) (sent : c.shared.trade.wire[k]? = some r)
    (exits : r.exits token = true) : closed (c.shared.trade.wire.take k) token = false := by
  have sound : (FullClose.spec.contract w).Sound c := by
    refine (FullClose.spec.contract w).sound
      (fun t i s _ pre => (FullClose.workers w).bodies t i s pre) ?_ ?_ run
    · refine ⟨fun token _ shut => ?_, fun k r token found => ?_⟩
      · cases shut
      · cases found
    · intro i t found
      have root := roots t (List.mem_of_getElem? found)
      cases t <;> trivial
  exact sound.inv.terminal k r token sent exits

theorem full_close_terminal_sold :
    ∃ c r, (scenario false).machine.Run (fun i o _ s => keepsMarker i o s.trade)
        ((scenario false).machine.start (World.boot 5 none) [buyTask, exitTask, exitTask]) c ∧
      c.Quiet ∧ c.shared.trade.wire[2]? = some r ∧ r.exits scenarioToken = true ∧
      closed c.shared.trade.wire scenarioToken = true ∧
      closed (c.shared.trade.wire.take 2) scenarioToken = false := by
  let holding : Replies := { balance := some 1000 }
  obtain ⟨c, run, quiet, last, shut⟩ : ∃ c, (scenario false).machine.Run
      (fun i o _ s => keepsMarker i o s.trade)
      ((scenario false).machine.start (World.boot 5 none) [buyTask, exitTask, exitTask]) c ∧
      c.Quiet ∧ c.shared.trade.wire[2]?.any (fun r => r.exits scenarioToken) = true ∧
      closed c.shared.trade.wire scenarioToken = true :=
    Machine.exists_run_of_follow
      [(0, 18, holding.ans), (3, 13, holding.ans), (1, 17, holding.ans), (2, 3, holding.ans)]
      (by decide +kernel)
  obtain ⟨r, sent, exits⟩ := (Option.any_eq_true _ _).1 last
  exact ⟨c, r, run, quiet, sent, exits, shut,
    full_close_terminal 5 none [buyTask, exitTask, exitTask]
    (by decide) c run scenarioToken 2 r sent exits⟩

/-- A position on the V2 route is never approved, so its full close leaves no marker: while the
chain still shows the old balance, the next exit sells all of it again. -/
theorem full_close_repeats :
    ∃ c, (scenario false).machine.Run (scenario false).machine.anyStep
        ((scenario false).machine.start (World.boot 5 none) [buyTask, exitTask, exitTask]) c ∧
      c.Quiet ∧ closed (c.shared.trade.wire.take 3) scenarioToken = true ∧
      c.shared.trade.wire[3]?.any (fun r => r.exits scenarioToken && r.sells scenarioToken) =
        true := by
  let unmined : Replies := { pair := some 0xBEEF, balance := some 1000 }
  let allowed : Replies := { unmined with allowance := some 1000 }
  exact Machine.exists_run_of_follow
    [(0, 20, unmined.ans), (3, 6, unmined.ans), (1, 24, unmined.ans), (2, 18, allowed.ans)]
    (by decide +kernel)

end BscMempool.Trader
