/-
Module: BscMempool.Proofs.ReEntry
Layer: Proofs
Purpose: When the duplicate-entry guard lets a token be bought again once the wallet holds nothing
  of it, and a run in which a position is sold and its token stays locked out.
Trusted boundary: none
Main exports: holdsNothing, admits, keepsReentry, reentry_not_locked_out, sold_position_locked_out
-/
import BscMempool.Proofs.ExitOrder
import BscMempool.Proofs.Scenario
import BscMempool.Proofs.TradeSpec

namespace BscMempool.Trader

open Concurrent (Tid Machine Outcome Proc Protocol Config)
open LiveExecutor (dupGuard)

/-! ### What the wallet holds and what the guard admits -/

/-- A BUY of the token that is mined and succeeds. -/
def WireTx.landsBuy (lands : B256 → Bool) (token : Address) (r : WireTx) : Bool :=
  lands r.hash && r.tx.input.bought == some token

/-- A full-close SELL of the token that is mined and succeeds. -/
def WireTx.landsClose (lands : B256 → Bool) (token : Address) (r : WireTx) : Bool :=
  lands r.hash && (r.tx.input.sold.any fun sold => sold.1 == token) && match r.site with
    | .sell memo => memo.full
    | _ => false

/-- The wallet holds nothing of the token, and nothing is on its way: no BUY of it lands that no
full close follows. -/
def holdsNothing (lands : B256 → Bool) (token : Address) (wire : List WireTx) : Bool :=
  wire.foldl (fun nothing r => if r.landsBuy lands token then false
    else nothing || r.landsClose lands token) true

@[simp] theorem holdsNothing_append {lands : B256 → Bool} {token : Address} {wire : List WireTx}
    {r : WireTx} :
    holdsNothing lands token (wire ++ [r]) =
      if r.landsBuy lands token then false else holdsNothing lands token wire || r.landsClose lands
        token := by
  simp [holdsNothing]

/-- The guard lets a BUY of the token pass. -/
def admits (t : Trade) (token : Address) : Bool :=
  match t.cached token with
  | none => true
  | some (_, p) => p.exited

/-- What the guard returns by what it looks up. -/
theorem dupGuard_looksUp (token : Address) : ∃ next,
    dupGuard token = .op (.trade (.positionsGet token)) next ∧
    ∀ t : Trade, (next (t.cached token)).Ends fun skip => skip = !admits t token := by
  refine ⟨_, rfl, ?_⟩
  intro t
  unfold admits
  cases t.cached token with
  | none => rfl
  | some held =>
      obtain ⟨e, p⟩ := held
      cases exited : p.exited with
      | false => simp [Proc.bind, exited]
      | true =>
          simp only [Proc.bind, exited, if_true]
          exact fun _ => rfl

/-! ### The steps that keep tokens open for re-entry -/

section Conditions

variable {w : TrailWatcher}

/-- How far the task at `i` is, by what it did. -/
def exitAt (i : Tid) (h : List w.machine.Event) : ExitPhase := exitOrder.phase i {} h

/-- The steps that leave no token locked out: the broadcast of a full close that lands is seen to
succeed; while the wallet holds nothing of a token, no cache update of a SELL leaves an amount in
its entry, or an entry that is not approved after its finalize task has returned, no finalize task
stores a balance in its entry, and none returns with its entry in the cache and not approved. -/
def keepsReentry (lands : B256 → Bool) (i : Tid) (o : Op) (a : o.Ans) (s : LiveRecorded w) : Bool :=
  match o, a with
  | .submit tx hash (.sell memo), sent =>
      !(lands hash && memo.full) || sent.ok || tx.input.sold.all fun sold => admits s.1.trade sold.1
  | .trade (.writeBack token tokens _), _ =>
      !holdsNothing lands token s.1.trade.wire || (s.1.trade.cached token).all fun held =>
        decide (tokens = 0) && (held.2.approved || !(exitAt held.2.finalizer s.2).released)
  | .trade (.storeTokensBought entry _), _ =>
      (s.1.trade.book.entries[entry]?).all fun p =>
        !holdsNothing lands p.token s.1.trade.wire ||
          (s.1.trade.cached p.token).all fun held => decide (held.1 ≠ entry)
  | .env .releasePermit, _ =>
      s.1.trade.book.positions.entries.all fun position =>
        !holdsNothing lands position.1 s.1.trade.wire || (s.1.trade.cached position.1).all
          fun held =>
          decide (held.2.finalizer ≠ i) || held.2.approved
  | _, _ => true

instance (lands : B256 → Bool) (i : Tid) (o : Op) (a : w.machine.recording.Ans o)
    (s : LiveRecorded w) :
    Decidable (keepsReentry lands i o a s = true) :=
  decEq (keepsReentry lands i o a s) true

end Conditions

namespace ReEntry

variable {w : TrailWatcher} {lands : B256 → Bool} {i j : Tid} {s s' : World}
  {h : List w.machine.Event} {token other : Address}

theorem exitAt_own {o : Op} {a : o.Ans} {res : o.Res} :
    exitAt i ((⟨i, o, a, res⟩ : w.machine.Event) :: h) = exitOrder.next (exitAt i h) o res :=
  Protocol.phase_own rfl

theorem exitAt_other (ne : j ≠ i) {o : Op} {a : o.Ans} {res : o.Res} :
    exitAt j ((⟨i, o, a, res⟩ : w.machine.Event) :: h) = exitAt j h :=
  Protocol.phase_other (Ne.symm ne)

/-- A finalize task has returned only if it gave its permit back. -/
theorem exitAt_released {o : Op} {a : o.Ans} {res : o.Res} (keeps : o ≠ .env .releasePermit) :
    (exitAt j ((⟨i, o, a, res⟩ : w.machine.Event) :: h)).released = (exitAt j h).released := by
  by_cases own : j = i
  · subst own
    rw [exitAt_own]
    unfold exitOrder
    dsimp only
    split <;> first | rfl | exact absurd rfl keeps
  · rw [exitAt_other own]

/-! ### The invariant -/

/-- While the wallet holds nothing of the token, its entry has no amount, and is approved once its
finalize task has returned. -/
def Settled (lands : B256 → Bool) (t : Trade) (h : List w.machine.Event) (token : Address) : Prop :=
  holdsNothing lands token t.wire = true → ∀ e p, t.cached token = some (e, p) →
    p.tokensBought = 0 ∧ ((exitAt p.finalizer h).released = true → p.approved = true)

/-- Whoever has begun an exit of a token holds its lock, and a token is settled unless a full close
of it is not in the cache yet. -/
structure Kept (lands : B256 → Bool) (s : LiveRecorded w) : Prop where
  locks : ∀ i token, (exitAt i s.2).held = some token → s.1.trade.exitLocks token = some i
  settled : ∀ token, (∀ i, (exitAt i s.2).held = some token → (exitAt i s.2).closing = false) →
    Settled lands s.1.trade s.2 token

theorem admits_of_exited (exited : ∀ e p, s.trade.cached token = some (e, p) → p.exited = true) :
    admits s.trade token = true := by
  unfold admits
  cases cached : s.trade.cached token with
  | none => rfl
  | some held => exact exited held.1 held.2 cached

theorem exited_of_admits (admitted : admits s.trade token = true) {e : EntryId} {p : PositionEntry}
    (cached : s.trade.cached token = some (e, p)) : p.tokensBought = 0 ∧ p.approved = true := by
  rw [admits, cached] at admitted
  exact ⟨of_decide_eq_true (Bool.and_eq_true_iff.1 admitted).1, (Bool.and_eq_true_iff.1 admitted).2⟩

/-- A step that no finalize task returns with keeps settled what the trade keeps settled. -/
theorem Settled.after {o : Op} {a : o.Ans} {res : o.Res} (keeps : o ≠ .env .releasePermit)
    (settled : Settled lands s.trade h token) :
    Settled lands s.trade (⟨i, o, a, res⟩ :: h) token := by
  intro nothing e p cached
  obtain ⟨none_, armed⟩ := settled nothing e p cached
  refine ⟨none_, fun released => armed ?_⟩
  rw [← exitAt_released keeps]
  exact released

/-- A step of a task that neither takes nor gives back a lock and leaves no close to be entered. -/
theorem Kept.aside {o : Op} {a : o.Ans} {res : o.Res} (kept : Kept lands (s, h)) (aside : o.aside)
    (locks : s'.trade.exitLocks = s.trade.exitLocks)
    (settled : ∀ token, Settled lands s.trade h token → Settled lands s'.trade h token) :
    Kept lands (s', (⟨i, o, a, res⟩ : w.machine.Event) :: h) := by
  have same : ∀ j, exitAt j ((⟨i, o, a, res⟩ : w.machine.Event) :: h) = exitAt j h := by
    intro j
    by_cases own : j = i
    · subst own
      rw [exitAt_own, aside_next aside]
    · exact exitAt_other own
  have keeps : o ≠ .env .releasePermit := by
    rintro rfl
    exact aside
  constructor
  · intro j token held
    rw [same] at held
    dsimp only
    rw [locks]
    exact kept.locks j token held
  · intro token closing
    apply Settled.after keeps
    apply settled token
    apply kept.settled token
    intro j held
    rw [← same j] at held ⊢
    exact closing j held

/-- A step that leaves the cache, the locks and the wire alone. -/
theorem Kept.still {o : Op} {a : o.Ans} {res : o.Res} (kept : Kept lands (s, h)) (aside : o.aside)
    (same : s'.trade = s.trade) : Kept lands (s', (⟨i, o, a, res⟩ : w.machine.Event) :: h) := by
  apply kept.aside aside
  · rw [same]
  · intro token settled
    rw [same]
    exact settled

/-! ### Permits -/

/-- A finalize task returns with its entry approved, or dropped, while the wallet holds nothing. -/
theorem Kept.release {a : Unit} (kept : Kept lands (s, h)) (same : s'.trade = s.trade)
    (keeps : keepsReentry lands i (.env .releasePermit) a (s, h) = true) :
    Kept lands (s', (⟨i, .env .releasePermit, a, ()⟩ : w.machine.Event) :: h) := by
  have held : ∀ j, (exitAt j ((⟨i, .env .releasePermit, a, ()⟩ : w.machine.Event) :: h)).held =
      (exitAt j h).held ∧
      (exitAt j ((⟨i, .env .releasePermit, a, ()⟩ : w.machine.Event) :: h)).closing =
        (exitAt j h).closing := by
    intro j
    by_cases own : j = i
    · subst own
      rw [exitAt_own]
      exact ⟨rfl, rfl⟩
    · rw [exitAt_other own]
      exact ⟨rfl, rfl⟩
  constructor
  · intro j token locked
    rw [(held j).1] at locked
    dsimp only
    rw [same]
    exact kept.locks j token locked
  · intro token closing nothing e p cached
    dsimp only at nothing cached ⊢
    rw [same] at nothing cached
    have before : Settled lands s.trade h token := by
      apply kept.settled token
      intro j locked
      rw [← (held j).2]
      exact closing j ((held j).1.trans locked)
    obtain ⟨none_, armed⟩ := before nothing e p cached
    refine ⟨none_, fun released => ?_⟩
    by_cases own : p.finalizer = i
    · -- the condition is about the entries of the task that returns
      have member : ⟨token, e⟩ ∈ s.trade.book.positions.entries :=
        AList.mem_lookup_iff.1 (Book.cached_eq_some.1 cached).1
      have checked := List.all_eq_true.1 keeps ⟨token, e⟩ member
      simpa [nothing, cached, own] using checked
    · apply armed
      rw [exitAt_other own] at released
      exact released

/-! ### The cache -/

theorem settled_remove (dropped : Address) (settled : Settled lands s.trade h token) :
    Settled lands { s.trade with book := s.trade.book.remove dropped } h token := by
  intro nothing e p cached
  by_cases same : token = dropped
  · subst same
    have none_ : (s.trade.book.remove token).cached token = some (e, p) := cached
    rw [Book.cached_remove_self] at none_
    cases none_
  · exact settled nothing e p ((Book.cached_remove_other same).symm.trans cached)

/-- A fresh entry has no amount, and its finalize task has not begun. -/
theorem settled_insert {p : PositionEntry} (fresh : (exitAt p.finalizer h).released = false)
    (none_ : p.tokensBought = 0) (settled : Settled lands s.trade h token) :
    Settled lands { s.trade with book := s.trade.book.insert p } h token := by
  intro nothing e q cached
  by_cases same : token = p.token
  · subst same
    have own : (s.trade.book.insert p).cached p.token = some (e, q) := cached
    rw [Book.cached_insert_self] at own
    cases own
    refine ⟨none_, fun released => ?_⟩
    rw [fresh] at released
    cases released
  · exact settled nothing e q ((Book.cached_insert_other same).symm.trans cached)

/-- A balance is not stored while the wallet holds nothing. -/
theorem settled_setTokens {a : Unit} {entry : EntryId} {tokens : U256}
    (keeps : keepsReentry lands i (.trade (.storeTokensBought entry tokens)) a (s, h) = true)
    (settled : Settled lands s.trade h token) :
    Settled lands { s.trade with book := s.trade.book.setTokens entry tokens } h token := by
  intro nothing e p cached
  have changed : (s.trade.book.setTokens entry tokens).cached token = some (e, p) := cached
  rw [Book.cached_setTokens, Option.map_eq_some_iff] at changed
  obtain ⟨⟨d, q⟩, before, same⟩ := changed
  by_cases own : d = entry
  · subst own
    have found := (Book.cached_eq_some.1 before).2
    have keyed : q.token = token := Book.token_of_cached before
    have cached' : s.trade.cached token = some (d, q) := before
    simp only [keepsReentry, found, Option.all_some, keyed, cached'] at keeps
    have nothing' : holdsNothing lands token s.trade.wire = true := nothing
    simp [nothing'] at keeps
  · simp only [if_neg own] at same
    cases same
    exact settled nothing _ _ before

theorem settled_setApproved {entry : EntryId} (settled : Settled lands s.trade h token) :
    Settled lands { s.trade with book := s.trade.book.setApproved entry } h token := by
  intro nothing e p cached
  have changed : (s.trade.book.setApproved entry).cached token = some (e, p) := cached
  rw [Book.cached_setApproved, Option.map_eq_some_iff] at changed
  obtain ⟨⟨d, q⟩, before, same⟩ := changed
  obtain ⟨none_, armed⟩ := settled nothing d q before
  by_cases own : d = entry
  · simp only [if_pos own] at same
    cases same
    exact ⟨none_, fun _ => rfl⟩
  · simp only [if_neg own] at same
    cases same
    exact ⟨none_, armed⟩

/-- The cache update of a SELL leaves the token settled, and no other token is touched. -/
theorem Kept.write {a : Unit} {tokens : U256} {sized : Option EntryId} {unsettled : Address → Nat}
    (kept : Kept lands (s, h)) (locked : (exitAt i h).held = some token)
    (keeps : keepsReentry lands i (.trade (.writeBack token tokens sized)) a (s, h) = true) :
    Kept lands ({ s with trade := { s.trade with
      book := s.trade.book.writeBack token tokens
      unsettled := unsettled } },
      (⟨i, .trade (.writeBack token tokens sized), a, ()⟩ : w.machine.Event) :: h) := by
  have own : exitAt i
      ((⟨i, .trade (.writeBack token tokens sized), a, ()⟩ : w.machine.Event) :: h) =
      { exitAt i h with closing := false } := exitAt_own
  have held : ∀ j,
      (exitAt j ((⟨i, .trade (.writeBack token tokens sized), a, ()⟩ : w.machine.Event) ::
        h)).held =
      (exitAt j h).held := by
    intro j
    by_cases mine : j = i
    · rw [mine, own]
    · rw [exitAt_other mine]
  constructor
  · intro j other locked
    rw [held] at locked
    exact kept.locks j other locked
  · intro other closing
    apply Settled.after (s := { s with trade := _ }) (by simp)
    by_cases same : other = token
    · subst same
      intro nothing e p cached
      have changed : (s.trade.book.writeBack other tokens).cached other = some (e, p) := cached
      rw [Book.cached_writeBack_self, Option.map_eq_some_iff] at changed
      obtain ⟨⟨d, q⟩, before, same⟩ := changed
      cases same
      have nothing' : holdsNothing lands other s.trade.wire = true := nothing
      have cached' : s.trade.cached other = some (d, q) := before
      simp only [keepsReentry, nothing', cached', Bool.not_true, Bool.false_or, Option.all_some,
        Bool.and_eq_true, decide_eq_true_eq, Bool.or_eq_true, Bool.not_eq_true'] at keeps
      refine ⟨keeps.1, fun released => ?_⟩
      rcases keeps.2 with approved | unreleased
      · exact approved
      · rw [unreleased] at released
        cases released
    · have before : Settled lands s.trade h other := by
        apply kept.settled other
        intro j locked'
        have theirs := closing j ((held j).trans locked')
        by_cases mine : j = i
        · rw [mine, locked] at locked'
          exact absurd (Option.some.inj locked').symm same
        · rw [exitAt_other mine] at theirs
          exact theirs
      intro nothing e p cached
      exact before nothing e p ((Book.cached_writeBack_other same).symm.trans cached)

/-! ### Locks -/

theorem Kept.lock {a : Unit} (kept : Kept lands (s, h)) (free : s.trade.exitLocks token = none)
    (open_ : (exitAt i h).held = none) :
    Kept lands ({ s with trade := { s.trade with
      exitLocks := Function.update s.trade.exitLocks token (some i) } },
      (⟨i, .trade (.lockExit token), a, ()⟩ : w.machine.Event) :: h) := by
  have own : exitAt i ((⟨i, .trade (.lockExit token), a, ()⟩ : w.machine.Event) :: h) =
      { exitAt i h with held := some token } := exitAt_own
  constructor
  · intro j other held
    by_cases mine : j = i
    · subst mine
      rw [own] at held
      obtain rfl : token = other := Option.some.inj held
      exact Function.update_self _ _ _
    · rw [exitAt_other mine] at held
      have before := kept.locks j other held
      have apart : other ≠ token := by
        rintro rfl
        rw [free] at before
        cases before
      exact (Function.update_of_ne apart _ _).trans before
  · intro other closing
    apply Settled.after (s := { s with trade := _ }) (by simp)
    apply kept.settled other
    intro j held
    by_cases mine : j = i
    · rw [mine, open_] at held
      cases held
    · rw [← exitAt_other mine] at held ⊢
      exact closing j held

theorem Kept.unlock {a : Unit} (kept : Kept lands (s, h)) (locked : (exitAt i h).held = some token)
    (entered : (exitAt i h).closing = false) :
    Kept lands ({ s with trade := { s.trade with
      exitLocks := Function.update s.trade.exitLocks token none } },
      (⟨i, .trade (.unlockExit token), a, ()⟩ : w.machine.Event) :: h) := by
  have own : exitAt i ((⟨i, .trade (.unlockExit token), a, ()⟩ : w.machine.Event) :: h) =
      { exitAt i h with held := none } := exitAt_own
  constructor
  · intro j other held
    by_cases mine : j = i
    · subst mine
      rw [own] at held
      cases held
    · rw [exitAt_other mine] at held
      have before := kept.locks j other held
      have apart : other ≠ token := by
        rintro rfl
        have mine' := kept.locks i other locked
        rw [before] at mine'
        exact mine (Option.some.inj mine')
      exact (Function.update_of_ne apart _ _).trans before
  · intro other closing
    apply Settled.after (s := { s with trade := _ }) (by simp)
    apply kept.settled other
    intro j held
    by_cases mine : j = i
    · rw [mine]
      exact entered
    · rw [← exitAt_other mine] at held ⊢
      exact closing j held

/-! ### Transactions -/

/-- A transaction that closes nothing leaves tokens settled. -/
theorem settled_transmit {r : WireTx} (open_ : r.landsClose lands token = false)
    (settled : Settled lands s.trade h token) : Settled lands (s.trade.transmit r) h token := by
  intro nothing e p cached
  rw [Trade.transmit_wire, holdsNothing_append, open_, Bool.or_false] at nothing
  split at nothing
  · cases nothing
  · exact settled nothing e p cached

/-- A SELL that a task submits for the token whose lock it has. -/
theorem Kept.sell {tx : TransactionRequest} {hash : B256} {memo : ExitMemo} {sent : Submitted}
    {nonce : NonceState}
    {amount : U256} (kept : Kept lands (s, h)) (locked : (exitAt i h).held = some token)
    (entered : (exitAt i h).closing = false) (sold : tx.input.sold = some (token, amount))
    (keeps : keepsReentry lands i (.submit tx hash (.sell memo)) sent (s, h) = true) :
    Kept lands ({ s with
      trade := s.trade.transmit ⟨tx, hash, .sell memo, i, sent.accepted, sent.ok⟩
      nonce := nonce }, (⟨i, .submit tx hash (.sell memo), sent, sent.ok⟩ : w.machine.Event) ::
        h) := by
  have own : exitAt i ((⟨i, .submit tx hash (.sell memo), sent, sent.ok⟩ : w.machine.Event) :: h) =
      { exitAt i h with closing := (exitAt i h).closing || (memo.full && sent.ok) } := exitAt_own
  have held : ∀ j,
      (exitAt j ((⟨i, .submit tx hash (.sell memo), sent, sent.ok⟩ : w.machine.Event) :: h)).held =
      (exitAt j h).held := by
    intro j
    by_cases mine : j = i
    · rw [mine, own]
    · rw [exitAt_other mine]
  constructor
  · intro j other held'
    rw [held] at held'
    exact kept.locks j other held'
  · intro other closing
    have before : Settled lands s.trade h other := by
      apply kept.settled other
      intro j held'
      by_cases mine : j = i
      · rw [mine]
        exact entered
      · have theirs := closing j ((held j).trans held')
        rw [exitAt_other mine] at theirs
        exact theirs
    apply Settled.after (s := { s with trade := _, nonce := nonce }) (by simp)
    by_cases lands_ :
      (WireTx.mk tx hash (.sell memo) i sent.accepted sent.ok).landsClose lands other = false
    · exact settled_transmit lands_ before
    · -- a full close of the token that lands, and is not left to be entered
      simp only [WireTx.landsClose, sold, Option.any_some, Bool.not_eq_false, Bool.and_eq_true,
        beq_iff_eq] at lands_
      obtain ⟨⟨mined, rfl⟩, full⟩ := lands_
      have failed : sent.ok = false := by
        have mine := closing i ((held i).trans locked)
        rw [own, entered, full] at mine
        simpa using mine
      have admitted : admits s.trade token = true := by
        simpa [keepsReentry, mined, full, failed, sold] using keeps
      intro _ e p cached
      obtain ⟨none_, approved⟩ := exited_of_admits admitted cached
      exact ⟨none_, fun _ => approved⟩

/-! ### All steps -/

theorem kept_trade {o : TradeOp} {a : Unit} {fresh : Tid} {out : Outcome Trade Task o.Res}
    (kept : Kept lands (s, h)) (known : ∀ e ∈ h, e.tid < fresh)
    (allowed : exitOrder.allows (exitAt i h) (.trade o))
    (keeps : keepsReentry lands i (.trade o) a (s, h) = true)
    (did : o.exec i fresh s.trade = some out) :
    Kept lands ({ s with trade := out.shared },
      (⟨i, .trade o, a, out.res⟩ : w.machine.Event) :: h) := by
  cases o with
  | positionsGet token | positionSnapshot =>
      cases did
      exact kept.still trivial rfl
  | loadEntry entry =>
      obtain ⟨p, -, rfl⟩ := Option.map_eq_some_iff.1 did
      exact kept.still trivial rfl
  | positionsRemove token =>
      cases did
      exact kept.aside trivial rfl fun _ => settled_remove token
  | openPosition token route bnbIn txHash =>
      cases did
      have begun : exitAt fresh h = {} :=
        Protocol.phase_fresh fun e member => Nat.ne_of_lt (known e member)
      have opened : ∀ other, Settled lands s.trade h other → Settled lands { s.trade with
          book := s.trade.book.insert (s.trade.freshEntry token route bnbIn fresh) } h other := by
        intro other
        apply settled_insert
        · change (exitAt fresh h).released = false
          rw [begun]
        · rfl
      exact kept.aside trivial rfl opened
  | storeTokensBought entry tokens =>
      cases did
      exact kept.aside trivial rfl fun _ => settled_setTokens keeps
  | storeApproved entry balanceRead =>
      cases did
      exact kept.aside trivial rfl fun _ => settled_setApproved
  | writeBack token tokens sized =>
      cases did
      exact kept.write allowed keeps
  | lockExit token =>
      simp only [TradeOp.exec] at did
      split at did
      · rename_i free
        cases did
        exact kept.lock free allowed.1
      · cases did
  | unlockExit token =>
      cases did
      exact kept.unlock allowed.1 allowed.2

theorem kept_step {o : Op} {a : o.Ans} {fresh : Tid} {out : Outcome World Task o.Res}
    (kept : Kept lands (s, h)) (known : ∀ e ∈ h, e.tid < fresh)
    (allowed : exitOrder.allows (exitAt i h) o)
    (keeps : keepsReentry lands i o a (s, h) = true) (did : o.exec i fresh a s = some out) :
    Kept lands (out.shared, (⟨i, o, a, out.res⟩ : w.machine.Event) :: h) := by
  cases o with
  | trade o =>
      obtain ⟨mid, ran, rfl⟩ := Option.map_eq_some_iff.1 did
      exact kept_trade kept known allowed keeps ran
  | env o =>
      obtain ⟨mid, ran, rfl⟩ := Option.map_eq_some_iff.1 did
      cases o with
      | releasePermit => exact kept.release rfl keeps
      | _ => exact kept.still trivial rfl
  | sign tx => cases a <;> cases did <;> exact kept.still trivial rfl
  | submit tx hash site =>
      cases did
      cases site with
      | sell memo =>
          obtain ⟨entered, -, token, amount, locked, sold⟩ := allowed
          exact kept.sell locked entered sold keeps
      | buy | exitApprove | bgApprove =>
          exact kept.aside trivial rfl fun _ => settled_transmit (by simp [WireTx.landsClose])
  | ask | nonce | shadow | spawn | join =>
      cases did
      exact kept.still trivial rfl

/-! ### The finalize task of an entry -/

/-- An entry after a step was there before, or was made for the finalize task
that the step starts. -/
theorem entry_of_exec {o : Op} {a : w.machine.Ans o} {fresh : Tid} {out : Outcome World Task o.Res}
    {e : EntryId} {p' : PositionEntry} (did : w.machine.exec i fresh o a s = some out)
    (found : out.shared.trade.book.entries[e]? = some p') :
    (∃ p, s.trade.book.entries[e]? = some p ∧ p.Becomes p') ∨
      ∃ txHash route, out.spawned = [.finalizePosition p'.token txHash route e] ∧
        p'.finalizer = fresh := by
  cases before : s.trade.book.entries[e]? with
  | some p =>
      left
      obtain ⟨q, found', becomes⟩ := (Grows.of_exec did).entries e p before
      rw [found] at found'
      cases found'
      exact ⟨p, rfl, becomes⟩
  | none =>
      right
      have unchanged : out.shared.trade.book.entries ≠ s.trade.book.entries := by
        intro same
        rw [same, before] at found
        cases found
      cases o with
      | trade o =>
          obtain ⟨mid, ran, rfl⟩ := Option.map_eq_some_iff.1 did
          cases o with
          | openPosition token route bnbIn txHash =>
              cases ran
              rcases Book.insert_found found with old | ⟨rfl, rfl⟩
              · rw [before] at old
                cases old
              · exact ⟨txHash, route, rfl, rfl⟩
          | storeTokensBought entry tokens =>
              cases ran
              have found' := Book.setTokens_entries.symm.trans found
              rw [before] at found'
              cases found'
          | storeApproved entry balanceRead =>
              cases ran
              have found' := Book.setApproved_entries.symm.trans found
              rw [before] at found'
              cases found'
          | writeBack token tokens sized =>
              cases ran
              have found' := Book.writeBack_entries.symm.trans found
              rw [before] at found'
              cases found'
          | loadEntry entry =>
              obtain ⟨p, -, rfl⟩ := Option.map_eq_some_iff.1 ran
              exact absurd rfl unchanged
          | lockExit token =>
              simp only [TradeOp.exec] at ran
              split at ran
              · cases ran
                exact absurd rfl unchanged
              · cases ran
          | positionsGet | positionSnapshot | positionsRemove | unlockExit =>
              cases ran
              exact absurd rfl unchanged
      | env o =>
          obtain ⟨mid, ran, rfl⟩ := Option.map_eq_some_iff.1 did
          exact absurd rfl unchanged
      | sign tx => cases a <;> cases did <;> exact absurd rfl unchanged
      | _ =>
          cases did
          exact absurd rfl unchanged

/-- Every entry has the finalize task that was started for it. -/
def Finalized (c : Config LiveSig (LiveRecorded w) Task Done) : Prop :=
  ∀ (e : EntryId) (p : PositionEntry), c.shared.1.trade.book.entries[e]? = some p →
    ∃ txHash route, c.taskAt p.finalizer = some (.finalizePosition p.token txHash route e)

theorem finalized_step {C : w.machine.recording.Cond}
    {c c' : Config LiveSig (LiveRecorded w) Task Done}
    (finalized : Finalized c) (step : w.machine.recording.Step C i c c') : Finalized c' := by
  obtain ⟨t, o, next, a, out, running, -, -, did, shared, pool⟩ := step.inversion
  have keeps : ∀ j u, c.taskAt j = some u → c'.taskAt j = some u := by
    intro j u runs
    obtain ⟨⟨u', q⟩, found, rfl⟩ := Option.map_eq_some_iff.1 runs
    obtain ⟨q', found'⟩ : ∃ q', c'.pool[j]? = some (u', q') := by
      rw [pool]
      exact Machine.pool_keeps running found
    exact congrArg (Option.map Prod.fst) found'
  intro e p' found
  rw [shared] at found
  rcases entry_of_exec did found with ⟨p, before, becomes⟩ | ⟨txHash, route, spawned, fresh⟩
  · obtain ⟨txHash, route, runs⟩ := finalized e p before
    rw [becomes.token, becomes.finalizer]
    exact ⟨txHash, route, keeps _ _ runs⟩
  · refine ⟨txHash, route, ?_⟩
    rw [fresh, Config.taskAt, pool, spawned]
    simp

end ReEntry

/-- In every run whose steps keep tokens open for re-entry, the duplicate-entry guard admits a token
in every state in which the wallet holds nothing of it, no exit has its lock and every finalize task
of it has returned. -/
theorem reentry_not_locked_out {w : TrailWatcher} (lands : B256 → Bool) (chain : UInt64)
    (file : Option UInt64) (tasks : List Task) (c : Config LiveSig (LiveRecorded w) Task Done)
    (run : w.machine.recording.Run (fun i o a s => keepsReentry lands i o a s = true)
      (w.machine.recording.start (World.boot chain file, []) tasks) c)
    (token : Address)
    (finalized : ∀ i txHash route entry, c.taskAt i =
      some (.finalizePosition token txHash route entry) →
      c.finished i = true)
    (unlocked : c.shared.1.trade.exitLocks token = none)
    (nothing : holdsNothing lands token c.shared.1.trade.wire = true) :
    ∃ next, dupGuard token = .op (.trade (.positionsGet token)) next ∧
      (next (c.shared.1.trade.cached token)).Ends fun skip => skip = false := by
  have kept : ReEntry.Kept lands c.shared := by
    apply Machine.invariant_of_obeyed (P := fun _ => exitOrder) ExitOrder.body_obeys ?_ run
    · constructor
      · intro i token held
        cases held
      · intro token _ nothing e p cached
        cases cached
    · intro i fresh t o a s out kept known allowed keeps did
      exact ReEntry.kept_step kept known allowed keeps did
  have started : ReEntry.Finalized c :=
    run.invariant (fun _ _ _ finalized step => ReEntry.finalized_step finalized step) (by
      intro e p found
      cases found)
  have obeyed := Machine.obeyed_of_run (P := fun _ => exitOrder) ExitOrder.body_obeys run
  have settled : ReEntry.Settled lands c.shared.1.trade c.shared.2 token := by
    apply kept.settled token
    intro i held
    have locked := kept.locks i token held
    rw [unlocked] at locked
    cases locked
  have admitted : admits c.shared.1.trade token = true := by
    apply ReEntry.admits_of_exited
    intro e p cached
    obtain ⟨none_, armed⟩ := settled nothing e p cached
    obtain ⟨found, rfl⟩ : c.shared.1.trade.book.entries[e]? = some p ∧ p.token = token :=
      ⟨(Book.cached_eq_some.1 cached).2, Book.token_of_cached cached⟩
    obtain ⟨txHash, route, runs⟩ := started e p found
    have done := finalized p.finalizer txHash route e runs
    have released : (exitAt p.finalizer c.shared.2).released = true := by
      obtain ⟨⟨t, q⟩, pooled, rfl⟩ := Option.map_eq_some_iff.1 runs
      have ended := obeyed.obeys p.finalizer _ q pooled
      unfold Config.finished at done
      rw [pooled] at done
      cases q with
      | ret value => exact ended
      | op o rest => cases done
    simp [PositionEntry.exited, none_, armed released]
  obtain ⟨next, guard, looks⟩ := dupGuard_looksUp token
  refine ⟨next, guard, ?_⟩
  have ends := looks c.shared.1.trade
  rw [admitted] at ends
  exact ends

/-- The wallet holds nothing of the token and admits it again once a position on the
curve is sold in full. -/
theorem reentry_not_locked_out_sold :
    ∃ c, (scenario false).machine.recording.Run
      (fun i o a s => keepsReentry (fun _ => true) i o a s = true)
        ((scenario false).machine.recording.start (World.boot 5 none, []) [buyTask, exitTask]) c ∧
      c.shared.1.trade.wire.length = 3 ∧ holdsNothing (fun _ => true) scenarioToken
        c.shared.1.trade.wire = true ∧
      ∃ next, dupGuard scenarioToken = .op (.trade (.positionsGet scenarioToken)) next ∧
        (next (c.shared.1.trade.cached scenarioToken)).Ends fun skip => skip = false := by
  let holding : Replies := { balance := some 1000 }
  obtain ⟨c, run, sent, nothing, unlocked, quiet⟩ : ∃ c, (scenario false).machine.recording.Run
      (fun i o a s => keepsReentry (fun _ => true) i o a s = true)
      ((scenario false).machine.recording.start (World.boot 5 none, []) [buyTask, exitTask]) c ∧
      c.shared.1.trade.wire.length = 3 ∧ holdsNothing (fun _ => true) scenarioToken
        c.shared.1.trade.wire = true ∧
      c.shared.1.trade.exitLocks scenarioToken = none ∧ c.Quiet :=
    Machine.exists_run_of_follow [(0, 18, holding.ans), (2, 13, holding.ans), (1, 17, holding.ans)]
      (by decide +kernel)
  refine ⟨c, run, sent, nothing, reentry_not_locked_out _ 5 none [buyTask, exitTask] c run
    scenarioToken ?_
    unlocked nothing⟩
  intro i txHash route entry runs
  obtain ⟨pooled, found, -⟩ := Option.map_eq_some_iff.1 runs
  exact quiet i (List.getElem?_eq_some_iff.1 found).1

/-- A position on the V2 route is never approved: once it is sold in full the guard still takes its
entry for a BUY that is being finalized, and skips the next BUY of the token. -/
theorem sold_position_locked_out :
    ∃ c, (scenario false).machine.recording.Run (scenario false).machine.recording.anyStep
        ((scenario false).machine.recording.start (World.boot 5 none, [])
          [buyTask, exitTask, buyTask]) c ∧
      c.Quiet ∧ c.shared.1.trade.exitLocks scenarioToken = none ∧
      holdsNothing (fun _ => true) scenarioToken c.shared.1.trade.wire = true ∧
      admits c.shared.1.trade scenarioToken = false ∧
      c.returned 2 = some (.entered .duplicate) := by
  let unmined : Replies := { pair := some 0xBEEF, balance := some 1000 }
  exact Machine.exists_run_of_follow (C := (scenario false).machine.recording.anyStep)
    [(0, 20, unmined.ans), (3, 6, unmined.ans), (1, 24, unmined.ans), (2, 1, unmined.ans)]
    (by decide +kernel)

end BscMempool.Trader
