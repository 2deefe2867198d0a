/-
Module: BscMempool.Proofs.TruthfulMarker
Layer: Proofs
Purpose: When the pair "nothing held, approved", which the exits and the duplicate guard read as
  "fully exited", means that the position was closed.
Trusted boundary: none
Main exports: Accounted, keepsTruth, marker_truthful, marker_lies
-/
import BscMempool.Proofs.Workers
import BscMempool.Proofs.Scenario

namespace BscMempool.Trader

open Concurrent (Tid Machine Contract)

/-- A full-close SELL of the entry's token was broadcast after the entry was made. -/
def ClosedSince (wire : List WireTx) (p : PositionEntry) : Prop :=
  ∃ r ∈ wire.drop p.openedAt, r.closes p.token = true

/-- The entry holds something or was closed. -/
def Accounted (wire : List WireTx) (p : PositionEntry) : Prop :=
  p.tokensBought ≠ 0 ∨ ClosedSince wire p

/-- The steps that keep the marker truthful: an approval flag is set only where the balance was read
or the entry holds something, and a full close empties only the entry it was sized from. -/
def keepsTruth : Op → Trade → Bool
  | .trade (.storeApproved entry balanceRead), t =>
      decide (balanceRead ≠ 0) || t.book.entries[entry]?.any fun p => decide (p.tokensBought ≠ 0)
  | .trade (.writeBack token tokens sized), t =>
      decide (tokens ≠ 0) || decide (t.book.positions.lookup token = none) ||
        decide (t.book.positions.lookup token = sized)
  | _, _ => true

theorem ClosedSince.mono {wire wire' : List WireTx} {p p' : PositionEntry}
    (closed : ClosedSince wire p)
    (grows : wire <+: wire') (token : p'.token = p.token) (openedAt : p'.openedAt = p.openedAt) :
    ClosedSince wire' p' := by
  obtain ⟨r, late, closes⟩ := closed
  obtain ⟨new, rfl⟩ := grows
  refine ⟨r, ?_, by rw [token]; exact closes⟩
  rw [openedAt, List.drop_append]
  exact List.mem_append_left _ late

namespace TruthfulMarker

/-- Approved entries are accounted for, and no step un-accounts for an entry. -/
def spec : TradeSpec where
  cond _ o _ t := keepsTruth o t = true
  inv t := ∀ (e : EntryId) (p : PositionEntry), t.book.entries[e]? = some p →
    p.openedAt ≤ t.wire.length ∧ (p.approved = true → Accounted t.wire p)
  guar _ t t' := ∀ (e : EntryId) (p p' : PositionEntry), t.book.entries[e]? = some p →
    t'.book.entries[e]? = some p' → Accounted t.wire p → Accounted t'.wire p'
  pre task _ t :=
    match task with
    | .finalizePosition _ _ _ e => ∃ p, t.book.entries[e]? = some p
    | _ => True
  post _ _ _ _ := True
  idle _ _ _ _ p p' found found' accounted := by
    rw [found] at found'
    cases found'
    exact accounted
  persist _ _ _ := trivial

variable {w : TrailWatcher} {i : Tid} {token : Address} {t : Trade}

/-! ### What one operation does -/

/-- A step that leaves the entries and the wire alone. -/
theorem moves_same {t' : Trade} (inv : spec.inv t) (wire : t'.wire = t.wire)
    (entries : t'.book.entries = t.book.entries) : spec.Moves i t t' := by
  refine ⟨?_, ?_⟩
  · intro e p found
    rw [entries] at found
    rw [wire]
    exact inv e p found
  · intro e p p' found found' accounted
    rw [entries, found] at found'
    cases found'
    rw [wire]
    exact accounted

/-- A step that changes entries one by one. -/
theorem moves_map {t' : Trade} (inv : spec.inv t) (wire : t'.wire = t.wire)
    (f : EntryId → PositionEntry → PositionEntry)
    (entries : ∀ e : EntryId, t'.book.entries[e]? = t.book.entries[e]?.map (f e))
    (opened : ∀ e p, (f e p).openedAt = p.openedAt)
    (accounted : ∀ e p, t.book.entries[e]? = some p → Accounted t.wire p → Accounted t.wire (f e p))
    (approved : ∀ e p, t.book.entries[e]? = some p → (f e p).approved = true →
      p.approved = true ∨ Accounted t.wire p) : spec.Moves i t t' := by
  refine ⟨?_, ?_⟩
  · intro e p' found'
    rw [entries] at found'
    obtain ⟨p, found, rfl⟩ := Option.map_eq_some_iff.1 found'
    rw [wire, opened]
    refine ⟨(inv e p found).1, fun armed => accounted e p found ?_⟩
    rcases approved e p found armed with before | now
    · exact (inv e p found).2 before
    · exact now
  · intro e p p' found found' held
    rw [entries, found] at found'
    cases found'
    rw [wire]
    exact accounted e p found held

theorem moves_transmit (inv : spec.inv t) (r : WireTx) : spec.Moves i t (t.transmit r) := by
  have grown : ∀ p, Accounted t.wire p → Accounted (t.transmit r).wire p := by
    rintro p (holds | closed)
    · exact .inl holds
    · exact .inr (closed.mono (List.prefix_append _ _) rfl rfl)
  refine ⟨?_, ?_⟩
  · intro e p found
    obtain ⟨opened, approved⟩ := inv e p found
    exact ⟨opened.trans (by simp), fun armed => grown p (approved armed)⟩
  · intro e p p' found found' accounted
    rw [Trade.transmit_book, found] at found'
    cases found'
    exact grown p accounted

/-! ### Stable assertions -/

/-- An entry of the token. -/
def Known (token : Address) (e : EntryId) (t : Trade) : Prop :=
  ∃ p, t.book.entries[e]? = some p ∧ p.token = token

/-- The entry was closed. -/
def Closed (e : EntryId) (t : Trade) : Prop :=
  ∃ p, t.book.entries[e]? = some p ∧ ClosedSince t.wire p

theorem Known.mono {e : EntryId} {t' : Trade} (known : Known token e t) (grows : Grows t t') :
    Known token e t' := by
  obtain ⟨p, found, key⟩ := known
  obtain ⟨p', found', becomes⟩ := grows.entries e p found
  exact ⟨p', found', becomes.token.trans key⟩

theorem Closed.mono {e : EntryId} {t' : Trade} (closed : Closed e t) (grows : Grows t t') :
    Closed e t' := by
  obtain ⟨p, found, since⟩ := closed
  obtain ⟨p', found', becomes⟩ := grows.entries e p found
  exact ⟨p', found', since.mono grows.wire becomes.token becomes.openedAt⟩

def anything (w : TrailWatcher) (i : Tid) : (spec.contract w).Assertion World.trade i :=
  ⟨fun _ => True, .true⟩

/-- The entry an exit was sized from is one of its token. -/
def sizedFrom (w : TrailWatcher) (i : Tid) (token : Address) (sized : Option EntryId) :
    (spec.contract w).Assertion World.trade i :=
  spec.assertion w i (fun t => ∀ e, sized = some e → Known token e t)
    fun _ _ _ _ _ _ grows _ known e same => (known e same).mono grows

/-- The entry is there, and accounted for if the balance that was read says so. -/
def filled (w : TrailWatcher) (i : Tid) (e : EntryId) (bal : U256) :
    (spec.contract w).Assertion World.trade i :=
  spec.assertion w i
    (fun t => ∃ p, t.book.entries[e]? = some p ∧ (bal ≠ 0 → Accounted t.wire p)) (by
      rintro j t t' _ _ _ grows guar ⟨p, found, accounted⟩
      obtain ⟨p', found', _⟩ := grows.entries e p found
      exact ⟨p', found', fun some_ => guar e p p' found found' (accounted some_)⟩)

/-! ### The three outlines -/

def entry (w : TrailWatcher) (i : Tid) (token : Address) : TradeEntry spec w i token where
  idle := anything w i
  looked _ := anything w i
  cleared := anything w i
  bought := anything w i
  done := anything w i
  get _ _ _ := trivial
  duplicate _ _ _ _ _ := trivial
  absent _ _ := trivial
  clear _ _ _ _ inv _ _ := ⟨moves_same inv rfl rfl, trivial⟩
  skipped _ _ := trivial
  sendBuy r _ _ _ _ _ inv _ _ := ⟨moves_transmit inv r, fun _ => trivial, fun _ => trivial⟩
  openEntry route bnbIn hash t fresh _ inv _ _ := by
    refine ⟨⟨?_, ?_⟩, ⟨_, Book.insert_new⟩, trivial⟩
    · intro e p found
      rcases Book.insert_found found with old | ⟨_, rfl⟩
      · exact inv e p old
      · exact ⟨Nat.le_refl _, nofun⟩
    · intro e p p' found found' accounted
      rw [Book.insert_old found] at found'
      cases found'
      exact accounted

def exit (w : TrailWatcher) (i : Tid) (token : Address) : TradeExit spec w i token where
  idle := anything w i
  locked := anything w i
  looked r := sizedFrom w i token (r.map Prod.fst)
  sized h := sizedFrom w i token h.sized
  ready sale := sizedFrom w i token sale.holding.sized
  sent sale := spec.assertion w i
    (fun t => sale.full = true → ∀ e, sale.holding.sized = some e → Closed e t)
    fun _ _ _ _ _ _ grows _ closed full e same => (closed full e same).mono grows
  done _ := anything w i
  post _ _ := True
  refused _ _ := trivial
  lock _ inv _ _ := ⟨moves_same inv rfl rfl, trivial⟩
  get t _ _ _ := by
    intro e same
    obtain ⟨held, found, rfl⟩ := Option.map_eq_some_iff.1 same
    exact ⟨held.2, (Book.cached_eq_some.1 found).2, Book.token_of_cached found⟩
  exited _ _ _ _ _ := trivial
  fast _ _ _ _ _ looked := looked
  balance r bal t _ _ looked _ := by
    by_cases zero : bal.getD 0 = 0
    · rw [if_pos zero]
      trivial
    · rw [if_neg zero]
      exact fun _ _ => looked
  givenUp _ _ _ := ⟨trivial, trivial, trivial⟩
  approved _ _ sized := sized
  sendApprove sale r t _ _ _ _ _ _ inv sized _ :=
    ⟨moves_transmit inv r, fun _ e same => (sized e same).mono (.transmit t r), fun _ => trivial⟩
  failed _ _ _ := ⟨trivial, trivial⟩
  sendSale sale allowance r t _ site sold _ inv ready _ := by
    refine ⟨moves_transmit inv r, fun ok full e same => ?_, fun _ => trivial⟩
    obtain ⟨p, found, key⟩ := ready e same
    have closes : r.closes p.token = true := by
      rw [WireTx.closes, WireTx.sells_of_sold sold, site]
      simp [ok, key, Sale.memo, full]
    refine ⟨p, found, r, ?_, closes⟩
    rw [Trade.transmit_wire, List.drop_append_of_le_length (inv e p found).1]
    exact List.mem_append_right _ (List.mem_singleton_self r)
  update sale t inv sent meets := by
    refine ⟨moves_map inv rfl _ (fun e => Book.writeBack_entries) (fun e p => ?_)
      (fun e p found accounted => ?_) (fun e p found armed => ?_), trivial⟩
    · split <;> rfl
    · split
      · rename_i looked
        by_cases rest : sale.rest = 0
        · -- the entry that is emptied is the one the full close was sized from
          have same : sale.holding.sized = some e := by
            have := meets
            simp [spec, keepsTruth, rest, looked] at this
            exact this.symm
          obtain ⟨q, found', closed⟩ := sent (Sale.rest_eq_zero_iff.1 rest) e same
          rw [found] at found'
          cases found'
          exact .inr closed
        · exact .inl rest
      · exact accounted
    · left
      split at armed <;> exact armed
  unlock _ _ inv _ := ⟨moves_same inv rfl rfl, trivial⟩

def finalize (w : TrailWatcher) (i : Tid) (token : Address) (route : BuyRoute) (e : EntryId) :
    TradeFinalize spec w i token route e where
  pending := filled w i e 0
  read _ := filled w i e 0
  stored bal := filled w i e bal
  approving bal := filled w i e bal
  done _ := anything w i
  unseen _ _ := trivial
  balance _ _ _ pending _ := pending
  empty _ read := read
  store bal t some_ inv read _ := by
    obtain ⟨p, found, _⟩ := read
    refine ⟨moves_map inv rfl _ (fun d => Book.setTokens_entries) (fun d p => ?_)
      (fun d p found accounted => ?_) (fun d p found armed => ?_),
      ⟨_, by rw [Book.setTokens_entries, found]; exact congrArg some (if_pos rfl), fun _ =>
        .inl some_⟩⟩
    · split <;> rfl
    · split
      · exact .inl some_
      · exact accounted
    · left
      split at armed <;> exact armed
  unarmed _ _ _ := trivial
  sendApprove bal r t _ _ _ _ _ inv stored _ := by
    refine ⟨moves_transmit inv r, fun _ => ?_, fun _ => trivial⟩
    obtain ⟨p, found, accounted⟩ := stored
    exact ⟨p, found, fun some_ => (moves_transmit (i := i) inv r).guar e p p found found
      (accounted some_)⟩
  unconfirmed _ _ _ := trivial
  confirm bal t inv approving meets := by
    obtain ⟨p, found, accounted⟩ := approving
    refine ⟨moves_map inv rfl _ (fun d => Book.setApproved_entries) (fun d p => ?_)
      (fun d p found accounted => ?_) (fun d q found' armed => ?_), trivial⟩
    · split <;> rfl
    · split <;> exact accounted
    · split at armed
      · rename_i same
        subst same
        rw [found] at found'
        cases found'
        right
        by_cases zero : bal = 0
        · have := meets
          simp [spec, keepsTruth, zero, found] at this
          exact .inl this
        · exact accounted zero
      · exact .inl armed

theorem workers (w : TrailWatcher) : Workers (spec.contract w) World.trade :=
  TradeSpec.workers (entry w) (fun _ _ _ => trivial) (exit w) (fun _ _ _ => trivial) (finalize w)
    (fun _ _ _ _ _ _ ⟨p, found⟩ => ⟨p, found, fun zero => absurd rfl zero⟩)
      (fun _ _ _ _ _ => trivial)
    fun _ _ _ _ => trivial

end TruthfulMarker

/-- In every run of the trader whose steps keep the marker truthful, an entry that holds nothing and
is approved was closed: a full-close SELL of its token was broadcast after the entry was made. -/
theorem marker_truthful {w : TrailWatcher} (chain : UInt64) (file : Option UInt64)
    (tasks : List Task) (roots : ∀ t ∈ tasks, t.root = true) (c : LiveConfig)
    (run : w.machine.Run (fun _ o _ s => keepsTruth o s.trade)
      (w.machine.start (World.boot chain file) tasks) c)
    (token : Address) (e : EntryId) (p : PositionEntry)
    (held : c.shared.trade.cached token = some (e, p)) (marked : p.exited = true) :
    ∃ r ∈ c.shared.trade.wire.drop p.openedAt, r.closes token = true := by
  have sound : (TruthfulMarker.spec.contract w).Sound c := by
    refine (TruthfulMarker.spec.contract w).sound
      (fun t i s _ pre => (TruthfulMarker.workers w).bodies t i s pre) ?_ ?_ run
    · intro e p found
      cases found
    · intro i t found
      have root := roots t (List.mem_of_getElem? found)
      cases t <;> trivial
  have ⟨empty, approved⟩ : p.tokensBought = 0 ∧ p.approved = true := by
    simpa [PositionEntry.exited] using marked
  rcases (sound.inv e p (Book.cached_eq_some.1 held).2).2 approved with holds | closed
  · exact absurd empty holds
  · rw [← Book.token_of_cached held]
    exact closed

theorem marker_truthful_sold :
    ∃ c, (scenario false).machine.Run (fun _ o _ s => keepsTruth o s.trade)
        ((scenario false).machine.start (World.boot 5 none) [buyTask, exitTask]) c ∧
      c.Quiet ∧ ∃ p, c.shared.trade.cached scenarioToken = some (0, p) ∧ p.exited = true ∧
        ∃ r ∈ c.shared.trade.wire.drop p.openedAt, r.closes scenarioToken = true := by
  let r : Replies := { balance := some 1000 }
  obtain ⟨c, run, quiet, marked⟩ : ∃ c, (scenario false).machine.Run
      (fun _ o _ s => keepsTruth o s.trade)
      ((scenario false).machine.start (World.boot 5 none) [buyTask, exitTask]) c ∧
      c.Quiet ∧ (c.shared.trade.cached scenarioToken).any
        (fun held => held.1 == 0 && held.2.exited) = true :=
    Machine.exists_run_of_follow [(0, 18, r.ans), (2, 13, r.ans), (1, 17, r.ans)]
      (by decide +kernel)
  obtain ⟨⟨e, p⟩, held, both⟩ := (Option.any_eq_true _ _).1 marked
  obtain ⟨rfl, exited⟩ : e = 0 ∧ p.exited = true := by simpa using both
  exact ⟨c, run, quiet, p, held, exited, marker_truthful 5 none [buyTask, exitTask]
    (by decide) c run
    scenarioToken 0 p held exited⟩

/-- The balance read of the finalize task fails and its approve is confirmed: the entry of a
position that was bought and never sold is marked as exited, and an exit on it does nothing. -/
theorem marker_lies :
    ∃ c, (scenario false).machine.Run (scenario false).machine.anyStep
        ((scenario false).machine.start (World.boot 5 none) [buyTask, exitTask]) c ∧
      c.Quiet ∧ (c.shared.trade.cached scenarioToken).any (fun held => held.2.exited) = true ∧
      (∃ r ∈ c.shared.trade.wire, r.accepted = true ∧ r.buys scenarioToken = true) ∧
      (∀ r ∈ c.shared.trade.wire, r.sells scenarioToken = false) ∧
      (c.pool[1]?.any fun run => match run.2 with
        | .ret (.exited .alreadyExited) => true
        | _ => false) = true := by
  let unread : Replies := { balance := none }
  let holding : Replies := { balance := some 1000 }
  exact Machine.exists_run_of_follow [(0, 18, holding.ans), (2, 12, unread.ans),
    (1, 3, holding.ans)]
    (by decide +kernel)

end BscMempool.Trader
