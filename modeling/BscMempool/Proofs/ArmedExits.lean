/-
Module: BscMempool.Proofs.ArmedExits
Layer: Proofs
Purpose: Exits of an armed position never sell more than it holds. Any number of exits may run at
  once, on any tokens; while no call holds the token's exit lock, the cached amount is what the
  position started with less what was broadcast.
Trusted boundary: none
Main exports: ArmedEntry, ArmedEntry.spec, armed_exits_conserve
-/
import BscMempool.Proofs.ExitOutline
import BscMempool.Proofs.Scenario

namespace BscMempool.Trader

open Concurrent (Tid Machine Contract)
open LiveExecutor

/-- An armed position: its token and entry, the amount it holds, and how much of the
wire is older than it. -/
structure ArmedEntry where
  token : Address
  entry : EntryId
  amount : U256
  start : Nat

namespace ArmedEntry

variable (a : ArmedEntry)

/-- Sum of the amounts of the token broadcast since the start. -/
def sold (t : Trade) : Nat := soldTotal (t.wire.drop a.start) a.token

/-- The task at `i` has broadcast no SELL of the token since the start. -/
def Unsold (i : Tid) (t : Trade) : Prop :=
  ∀ r ∈ t.wire.drop a.start, r.sender = i → r.sells a.token = false

/-- What the cache holds and what was sold add up to the amount. -/
def Balance (held : Option (EntryId × PositionEntry)) (sold : Nat) : Prop :=
  ∃ q, held = some (a.entry, q) ∧ q.approved = true ∧ q.tokensBought.toNat + sold = a.amount.toNat

/-- What a step of the task at `i` may do: take and give back the lock for itself, change the entry
and sell only under the lock, and change the entry only after a SELL of its own. -/
structure Guar (i : Tid) (t t' : Trade) : Prop where
  lock : ∀ j, j ≠ i → (t'.exitLocks a.token = some j ↔ t.exitLocks a.token = some j)
  kept : t.exitLocks a.token ≠ some i → t'.cached a.token = t.cached a.token ∧ a.sold t' = a.sold t
  wire : ∃ new, t'.wire = t.wire ++ new ∧ ∀ r ∈ new, r.sender = i
  entry : t'.cached a.token = t.cached a.token ∨ ¬ a.Unsold i t'

structure Inv (t : Trade) : Prop where
  start : a.start ≤ t.wire.length
  bounded : a.sold t ≤ a.amount.toNat
  armed : ∃ q, t.cached a.token = some (a.entry, q) ∧ q.approved = true
  balance : t.exitLocks a.token = none → a.Balance (t.cached a.token) (a.sold t)

/-- Exits on any tokens, and the writes of their nonces. -/
def spec : TradeSpec where
  cond _ _ _ _ := True
  inv := a.Inv
  guar := a.Guar
  pre t i trade :=
    match t with
    | .executeExit .. => a.Unsold i trade
    | .persistNonce _ => True
    | _ => False
  post _ i v trade :=
    match v with
    | .exited outcome => (∀ amount full, outcome ≠ .sold amount full) → a.Unsold i trade
    | _ => True
  idle _ _ _ := ⟨fun _ _ => Iff.rfl, fun _ => ⟨rfl, rfl⟩, ⟨[], by simp, by simp⟩, .inl rfl⟩
  persist _ _ _ := trivial

variable {a} {i : Tid}

/-- Steps of other tasks are not SELLs of this one. -/
theorem unsold_iff {j : Tid} {t t' : Trade} (ne : j ≠ i) (inv : a.Inv t) (guar : a.Guar j t t') :
    a.Unsold i t' ↔ a.Unsold i t := by
  obtain ⟨new, grown, ours⟩ := guar.wire
  simp only [Unsold, grown, List.drop_append_of_le_length inv.start, List.mem_append]
  constructor
  · exact fun unsold r old => unsold r (.inl old)
  · rintro unsold r (old | fresh) sender
    · exact unsold r old sender
    · exact absurd ((ours r fresh).symm.trans sender) ne

/-- An assertion that the task at `i` makes without holding the lock. -/
def unsold (a : ArmedEntry) (w : TrailWatcher) (i : Tid) :
    (a.spec.contract w).Assertion World.trade i :=
  a.spec.assertion w i (a.Unsold i) fun _ _ _ ne inv _ _ guar => (unsold_iff ne inv guar).2

/-- An assertion of the holder of the lock about the entry, the amount sold and its own SELLs. -/
def owned (a : ArmedEntry) (w : TrailWatcher) (i : Tid)
    (R : Option (EntryId × PositionEntry) → Nat → Prop → Prop) :
    (a.spec.contract w).Assertion World.trade i :=
  a.spec.assertion w i
    (fun t => t.exitLocks a.token = some i ∧ R (t.cached a.token) (a.sold t) (a.Unsold i t)) (by
      rintro j t t' ne inv inv' _ guar ⟨locked, holds⟩
      have other : t.exitLocks a.token ≠ some j := by
        rw [locked]
        exact fun same => ne (Option.some.inj same).symm
      obtain ⟨entry, sold⟩ := guar.kept other
      refine ⟨(guar.lock i ne.symm).2 locked, ?_⟩
      rw [entry, sold, propext (unsold_iff ne inv guar)]
      exact holds)

/-! ### What one operation does -/

/-- A step that leaves the entry and the wire alone and moves the lock for itself only. -/
theorem guar_lock {t : Trade} {token : Address} {holder : Option Tid}
    (mine : token = a.token → ∀ j, j ≠ i → (holder = some j ↔ t.exitLocks a.token = some j)) :
    a.Guar i t { t with exitLocks := Function.update t.exitLocks token holder } := by
  refine ⟨fun j ne => ?_, fun _ => ⟨rfl, rfl⟩, ⟨[], by simp, by simp⟩, .inl rfl⟩
  by_cases same : token = a.token
  · subst same
    simpa using mine rfl j ne
  · simp [Function.update_of_ne (Ne.symm same)]

theorem drop_transmit {t : Trade} {r : WireTx} (start : a.start ≤ t.wire.length) :
    (t.transmit r).wire.drop a.start = t.wire.drop a.start ++ [r] :=
  List.drop_append_of_le_length start

theorem sold_transmit {t : Trade} {r : WireTx} (start : a.start ≤ t.wire.length) :
    a.sold (t.transmit r) = a.sold t + r.soldAmount a.token := by
  rw [sold, drop_transmit start, soldTotal_append]
  rfl

/-- A transaction that is no SELL of the token. -/
theorem transmit_other {t : Trade} (r : WireTx) (inv : a.Inv t) (sender : r.sender = i)
    (other : r.sells a.token = false) :
    a.spec.Moves i t (t.transmit r) ∧ (a.Unsold i (t.transmit r) ↔ a.Unsold i t) ∧
      a.sold (t.transmit r) = a.sold t := by
  have sold : a.sold (t.transmit r) = a.sold t := by
    rw [sold_transmit inv.start, WireTx.soldAmount_eq_zero other, Nat.add_zero]
  refine ⟨⟨⟨?_, ?_, inv.armed, fun free => ?_⟩, ⟨fun _ _ => Iff.rfl, fun _ => ⟨rfl, sold⟩,
    ⟨[r], rfl, by simp [sender]⟩, .inl rfl⟩⟩, ?_, sold⟩
  · exact inv.start.trans (by simp)
  · rw [sold]
    exact inv.bounded
  · rw [sold]
    exact inv.balance free
  · simp only [Unsold, drop_transmit inv.start, List.mem_append, List.mem_singleton]
    constructor
    · exact fun unsold r old => unsold r (.inl old)
    · rintro unsold r (old | rfl) mine
      · exact unsold r old mine
      · exact other

/-- The holder of the lock broadcasts a SELL of the token, of no more than is left. -/
theorem transmit_own {t : Trade} (r : WireTx) (inv : a.Inv t)
    (locked : t.exitLocks a.token = some i) (sender : r.sender = i) (sells : r.sells a.token = true)
    (left : a.sold t + r.soldAmount a.token ≤ a.amount.toNat) :
    a.spec.Moves i t (t.transmit r) ∧ ¬ a.Unsold i (t.transmit r) := by
  have spent : ¬ a.Unsold i (t.transmit r) := by
    intro unsold
    have here : r ∈ (t.transmit r).wire.drop a.start := by
      rw [drop_transmit inv.start]
      exact List.mem_append_right _ (List.mem_singleton_self r)
    have none_ := unsold r here sender
    rw [sells] at none_
    cases none_
  have bounded : a.sold (t.transmit r) ≤ a.amount.toNat := by
    rw [sold_transmit inv.start]
    exact left
  refine ⟨⟨⟨inv.start.trans (by simp), bounded, inv.armed, fun free => ?_⟩,
    ⟨fun _ _ => Iff.rfl, fun other => absurd locked other, ⟨[r], rfl, by simp [sender]⟩,
      .inl rfl⟩⟩, spent⟩
  rw [Trade.transmit_exitLocks, locked] at free
  cases free

/-! ### The two outlines -/

/-- Taking or giving back another token's lock. -/
theorem move_other_lock {t : Trade} {token : Address} {holder : Option Tid} (inv : a.Inv t)
    (ne : token ≠ a.token) :
    a.spec.Moves i t { t with exitLocks := Function.update t.exitLocks token holder } := by
  refine ⟨⟨inv.start, inv.bounded, inv.armed, fun free => inv.balance ?_⟩, guar_lock fun same =>
    absurd same ne⟩
  simpa [Function.update_of_ne (Ne.symm ne)] using free

/-- An exit on another token never sells this one. -/
def otherExit (a : ArmedEntry) (w : TrailWatcher) (i : Tid) (token : Address)
    (ne : token ≠ a.token) :
    TradeExit a.spec w i token where
  idle := a.unsold w i
  locked := a.unsold w i
  looked _ := a.unsold w i
  sized _ := a.unsold w i
  ready _ := a.unsold w i
  sent _ := a.unsold w i
  done _ := a.unsold w i
  post _ := a.Unsold i
  refused _ unsold := unsold
  lock _ inv unsold _ := ⟨move_other_lock inv ne, unsold⟩
  get _ _ unsold _ := unsold
  exited _ _ _ _ unsold := unsold
  fast _ _ _ _ _ unsold := unsold
  balance r bal t _ _ unsold _ := by
    by_cases zero : bal.getD 0 = 0
    · rw [if_pos zero]
      exact unsold
    · rw [if_neg zero]
      exact fun _ _ => unsold
  givenUp _ _ unsold := ⟨unsold, unsold, unsold⟩
  approved _ _ unsold := unsold
  sendApprove sale r t _ sender _ _ sold _ inv unsold _ := by
    obtain ⟨moves, same, _⟩ := transmit_other r inv sender (WireTx.sells_of_none sold)
    exact ⟨moves, fun _ => same.2 unsold, fun _ => same.2 unsold⟩
  failed _ _ unsold := ⟨unsold, unsold⟩
  sendSale sale allowance r t sender _ sold _ inv unsold _ := by
    obtain ⟨moves, same, _⟩ := transmit_other r inv sender
      (by rw [WireTx.sells_of_sold sold]; simp [ne])
    exact ⟨moves, fun _ => same.2 unsold, fun _ => same.2 unsold⟩
  update sale t inv unsold _ := by
    have kept : (t.book.writeBack token sale.rest).cached a.token = t.cached a.token :=
      Book.cached_writeBack_other (Ne.symm ne)
    refine ⟨⟨⟨inv.start, inv.bounded, ?_, fun free => ?_⟩,
      ⟨fun _ _ => Iff.rfl, fun _ => ⟨kept, rfl⟩, ⟨[], by simp, by simp⟩, .inl kept⟩⟩, unsold⟩
    · rw [Trade.cached, kept]
      exact inv.armed
    · rw [Trade.cached, kept]
      exact inv.balance free
  unlock _ _ inv unsold := ⟨move_other_lock inv ne, unsold⟩

/-- An exit on the token itself keeps the entry and what was sold in balance whenever it
does not hold the lock. -/
def ownExit (a : ArmedEntry) (w : TrailWatcher) (i : Tid) : TradeExit a.spec w i a.token where
  idle := a.unsold w i
  locked := a.owned w i fun held sold unsold => a.Balance held sold ∧ unsold
  looked r := a.owned w i fun held sold unsold => r = held ∧ a.Balance held sold ∧ unsold
  sized h := a.owned w i fun held sold unsold => (a.Balance held sold ∧
    ∃ q, held = some (a.entry, q) ∧ h.ourBalance = q.tokensBought ∧ h.usedFastPath = true) ∧ unsold
  ready sale := a.owned w i fun held sold unsold => (a.Balance held sold ∧
    ∃ q, held = some (a.entry, q) ∧ sale.holding.ourBalance = q.tokensBought) ∧ unsold
  sent sale := a.owned w i fun held sold unsold => (∃ q, held = some (a.entry, q) ∧
    q.approved = true ∧ q.tokensBought = sale.holding.ourBalance ∧
    q.tokensBought.toNat + sold = a.amount.toNat + sale.amount.toNat) ∧ ¬ unsold
  done outcome := a.owned w i fun held sold unsold => a.Balance held sold ∧
    ((∀ amount full, outcome ≠ .sold amount full) → unsold)
  post outcome t := (∀ amount full, outcome ≠ .sold amount full) → a.Unsold i t
  refused _ unsold _ := unsold
  lock t inv unsold free := by
    refine ⟨⟨⟨inv.start, inv.bounded, inv.armed, fun locked => ?_⟩, guar_lock fun _ j ne => ?_⟩, ?_,
      ?_⟩
    · simp at locked
    · simp [free, Ne.symm ne]
    · simp
    · exact ⟨inv.balance free, unsold⟩
  get t _ locked _ := ⟨locked.1, rfl, locked.2⟩
  exited e p t _ looked := ⟨looked.1, looked.2.2.1, fun _ => looked.2.2.2⟩
  fast e p t _ approved looked := by
    obtain ⟨locked, same, balance, unsold⟩ := looked
    refine ⟨locked, ⟨balance, p, ?_, rfl, rfl⟩, unsold⟩
    obtain ⟨q, held, _⟩ := balance
    rw [← same] at held
    cases held
    exact same.symm
  balance r bal t slow _ looked _ := by
    -- an armed entry never sends an exit to the chain for its balance
    obtain ⟨locked, same, ⟨q, held, approved, _⟩, _⟩ := looked
    obtain ⟨held_, unarmed⟩ := slow a.entry q (same.trans held)
    by_cases zero : q.tokensBought = 0
    · simp [PositionEntry.exited, zero, approved] at held_
    · exact absurd ⟨zero, approved⟩ unarmed
  givenUp h t sized := by
    have done : ∀ outcome, (∀ amount full, outcome ≠ ExitOutcome.sold amount full) → _ :=
      fun outcome _ => (⟨sized.1, sized.2.1.1, fun _ => sized.2.2⟩ : t.exitLocks a.token = some i ∧
        a.Balance (t.cached a.token) (a.sold t) ∧
          ((∀ amount full, outcome ≠ ExitOutcome.sold amount full) → a.Unsold i t))
    exact ⟨done _ nofun, done _ nofun, done _ nofun⟩
  approved sale t sized := by
    obtain ⟨locked, ⟨balance, q, held, same, _⟩, unsold⟩ := sized
    exact ⟨locked, ⟨balance, q, held, same⟩, unsold⟩
  sendApprove sale r t slow _ _ _ _ _ _ sized _ := by
    obtain ⟨_, ⟨_, q, _, _, fast⟩, _⟩ := sized
    rw [fast] at slow
    cases slow
  failed sale t ready := by
    obtain ⟨locked, ⟨balance, _⟩, unsold⟩ := ready
    exact ⟨⟨locked, balance, fun _ => unsold⟩, locked, balance, fun _ => unsold⟩
  sendSale sale allowance r t sender _ sold _ inv ready _ := by
    obtain ⟨locked, ⟨⟨q, held, approved, balance⟩, q', held', same⟩, unsold⟩ := ready
    rw [held] at held'
    cases held'
    have sells : r.sells a.token = r.ok := by
      rw [WireTx.sells_of_sold sold]
      simp
    by_cases ok : r.ok = true
    · have amount : r.soldAmount a.token = sale.amount.toNat := by
        rw [WireTx.soldAmount_of_sold sold]
        simp [ok]
      have le := sale.amount_le
      rw [same] at le
      obtain ⟨moves, spent⟩ := transmit_own r inv locked sender (sells.trans ok) (by omega)
      refine ⟨moves, fun _ => ⟨locked, ⟨q, held, approved, same.symm, ?_⟩, spent⟩, fun failed => ?_⟩
      · rw [sold_transmit inv.start, amount, ← balance]
        omega
      · rw [ok] at failed
        cases failed
    · have failed : r.ok = false := by simpa using ok
      obtain ⟨moves, kept, sold_⟩ := transmit_other r inv sender (sells.trans failed)
      refine ⟨moves, fun sent => absurd sent ok, fun _ => ⟨locked, ?_, fun _ => kept.2 unsold⟩⟩
      rw [sold_]
      exact ⟨q, held, approved, balance⟩
  update sale t inv sent _ := by
    obtain ⟨locked, ⟨q, held, approved, same, balance⟩, spent⟩ := sent
    have after : (t.book.writeBack a.token sale.rest).cached a.token =
        some (a.entry, { q with tokensBought := sale.rest }) := by
      have held : t.book.cached a.token = some (a.entry, q) := held
      rw [Book.cached_writeBack_self, held]
      rfl
    have left : sale.rest.toNat + a.sold t = a.amount.toNat := by
      have added := sale.rest_add_amount
      rw [same] at balance
      omega
    refine ⟨⟨⟨inv.start, inv.bounded, ⟨_, after, approved⟩, fun free => ?_⟩, ⟨fun _ _ => Iff.rfl,
      fun other => absurd locked other, ⟨[], by simp, by simp⟩, .inr spent⟩⟩, locked,
      ⟨_, after, approved, left⟩, fun other => absurd rfl (other _ _)⟩
    rw [locked] at free
    cases free
  unlock outcome t inv done := by
    obtain ⟨locked, balance, unsold⟩ := done
    refine ⟨⟨⟨inv.start, inv.bounded, inv.armed, fun _ => balance⟩, guar_lock fun _ j ne => ?_⟩,
      unsold⟩
    simp [locked, Ne.symm ne]

/-! ### Every run -/

/-- Every task of a pool of exits keeps the specification. -/
theorem bodies (w : TrailWatcher) (t : Task) (i : Tid) (s : World)
    (pre : (a.spec.contract w).pre t i s) :
    (a.spec.contract w).wp i (w.body t) ((a.spec.contract w).post t i) s := by
  cases t with
  | executeExit token kolName kolBlock kolAddr =>
      by_cases same : token = a.token
      · subst same
        exact Contract.wp_seq _ ((a.ownExit w i).executeExit_wp kolName kolBlock kolAddr pre)
          fun outcome s unsold => unsold
      · exact Contract.wp_seq _
          ((a.otherExit w i token same).executeExit_wp kolName kolBlock kolAddr pre)
          fun outcome s unsold _ => unsold
  | persistNonce n => exact TradeSpec.persistNonce_wp n fun _ => trivial
  | _ => exact pre.elim

theorem step {w : TrailWatcher} {c c' : LiveConfig} (sound : (a.spec.contract w).Sound c)
    (step : w.machine.Step (a.spec.contract w).cond i c c') :
    a.Guar i c.shared.trade c'.shared.trade ∧ (a.spec.contract w).Sound c' := by
  obtain ⟨guar, sound'⟩ := sound.step (fun t i s _ pre => bodies w t i s pre) step
  exact ⟨guar.2, sound'⟩

/-- Every configuration of every run of exits is sound. -/
theorem sound {w : TrailWatcher} {s : World} {p : PositionEntry} {exits : List Task}
    (a : ArmedEntry) (held : s.trade.cached a.token = some (a.entry, p))
    (approved : p.approved = true)
    (amount : p.tokensBought = a.amount) (start : a.start = s.trade.wire.length)
    (calls : ∀ t ∈ exits, ∃ token kolName kolBlock kolAddr,
      t = .executeExit token kolName kolBlock kolAddr) {c : LiveConfig}
    (run : w.machine.Run w.machine.anyStep (w.machine.start s exits) c) :
    (a.spec.contract w).Sound c := by
  have unsold : s.trade.wire.drop a.start = [] := by simp [start]
  have none_ : a.sold s.trade = 0 := by simp [sold, unsold]
  refine (a.spec.contract w).sound (fun t i s _ pre => bodies w t i s pre) ?_ ?_
    (run.mono fun _ _ _ _ _ => trivial)
  · refine ⟨le_of_eq start, by simp [none_], ⟨p, held, approved⟩, fun _ => ⟨p, held, approved, ?_⟩⟩
    rw [none_, amount, Nat.add_zero]
  · intro i t found
    obtain ⟨_, _, _, _, rfl⟩ := calls t (List.mem_of_getElem? found)
    intro r old
    rw [unsold] at old
    cases old

/-- A run keeps soundness, and what a task has not broadcast by its end it had
not broadcast before. -/
theorem of_run {w : TrailWatcher} {c c' : LiveConfig} (sound : (a.spec.contract w).Sound c)
    (run : w.machine.Run (a.spec.contract w).cond c c') :
    (a.spec.contract w).Sound c' ∧
      (a.Unsold i c'.shared.trade → a.Unsold i c.shared.trade) := by
  induction run with
  | refl => exact ⟨sound, id⟩
  | tail _ last ih =>
      obtain ⟨guar, sound'⟩ := step ih.1 last.choose_spec
      obtain ⟨new, grown, _⟩ := guar.wire
      refine ⟨sound', fun unsold => ih.2 fun r old => unsold r ?_⟩
      rw [grown, List.drop_append_of_le_length ih.1.inv.start]
      exact List.mem_append_left _ old

end ArmedEntry

/-- Exits of an armed position.  In every interleaving of calls of `execute_exit`, on this token and
on others, the SELLs of the token that were broadcast never add up to more than the position held;
while no call holds the token's lock, the entry is armed and holds the rest; and no step of a call
whose signing or broadcast fails changes what the cache holds for the token. -/
theorem armed_exits_conserve {w : TrailWatcher} (s : World) (token : Address) (e : EntryId)
    (p : PositionEntry) (held : s.trade.cached token = some (e, p)) (approved : p.approved = true)
    (exits : List Task)
    (calls : ∀ t ∈ exits, ∃ token kolName kolBlock kolAddr,
      t = .executeExit token kolName kolBlock kolAddr)
    (c : LiveConfig) (run : w.machine.Run w.machine.anyStep (w.machine.start s exits) c) :
    let sold := soldTotal (c.shared.trade.wire.drop s.trade.wire.length) token
    sold ≤ p.tokensBought.toNat ∧
    (c.shared.trade.exitLocks token = none → ∃ q, c.shared.trade.cached token = some (e, q) ∧
      q.approved = true ∧ q.tokensBought.toNat = p.tokensBought.toNat - sold) ∧
    ∀ i c₁ c₂ t outcome, w.machine.Step w.machine.anyStep i c c₁ →
      w.machine.Run w.machine.anyStep c₁ c₂ → c₂.pool[i]? = some (t, .ret (.exited outcome)) →
      outcome = .signFailed ∨ outcome = .broadcastFailed →
      c₁.shared.trade.cached token = c.shared.trade.cached token := by
  let a : ArmedEntry := ⟨token, e, p.tokensBought, s.trade.wire.length⟩
  have sound := a.sound held approved rfl rfl calls run
  refine ⟨sound.inv.bounded, fun unlocked => ?_, ?_⟩
  · obtain ⟨q, held, approved, balance⟩ := sound.inv.balance unlocked
    exact ⟨q, held, approved, Nat.eq_sub_of_add_eq balance⟩
  · intro i c₁ c₂ t outcome step later returned failed
    have step : w.machine.Step (a.spec.contract w).cond i c c₁ := step.mono fun _ _ _ _ _ => trivial
    have later : w.machine.Run (a.spec.contract w).cond c₁ c₂ := later.mono fun _ _ _ _ _ => trivial
    obtain ⟨guar, sound₁⟩ := ArmedEntry.step sound step
    obtain ⟨sound₂, before⟩ := ArmedEntry.of_run sound₁ later
    have stable : (a.spec.contract w).Stable i ((a.spec.contract w).post t i (.exited outcome)) :=
      .forall fun _ => (a.unsold w i).stable
    have unsold : a.Unsold i c₂.shared.trade := by
      refine sound₂.post_of_ret stable returned fun amount full same => ?_
      rcases failed with rfl | rfl <;> cases same
    rcases guar.entry with kept | spent
    · exact kept
    · exact absurd (before unsold) spent

/-- A world whose cache holds one armed entry, with 1000 of the token 0x4444. -/
def armedWorld : World where
  trade := {
    book := ((Book.empty.insert {
      token := 0x4444#160
      route := .fourMeme
      tokensBought := 0
      bnbIn := 1
      approved := false
      openedAt := 0
      finalizer := 0 }).setTokens 0 1000).setApproved 0 }
  nonce := NonceManager.new 5 none

theorem armed_exits_conserve_two :
    ∃ c, (scenario false).machine.Run (scenario false).machine.anyStep
        ((scenario false).machine.start armedWorld
          [.executeExit 0x4444#160 "D" 1 1, .executeExit 0x4444#160 "D" 0 0]) c ∧
      c.Quiet ∧ soldTotal c.shared.trade.wire 0x4444#160 = 500 ∧
      soldTotal c.shared.trade.wire 0x4444#160 ≤ 1000 ∧
      ∃ q, c.shared.trade.cached 0x4444#160 = some (0, q) ∧ q.approved = true ∧
        q.tokensBought.toNat = 1000 - soldTotal c.shared.trade.wire 0x4444#160 := by
  -- the KOL sells half, and the second exit fails to broadcast
  let half : Replies := { balanceAt := fun block => if block = 0 then some 100 else some 50 }
  let failing : Replies := { sent := ⟨false, false⟩, pendingNonce := some 6 }
  obtain ⟨c, run, quiet, sold, free⟩ : ∃ c, (scenario false).machine.Run
      (scenario false).machine.anyStep ((scenario false).machine.start armedWorld
        [.executeExit 0x4444#160 "D" 1 1, .executeExit 0x4444#160 "D" 0 0]) c ∧
      c.Quiet ∧ soldTotal c.shared.trade.wire 0x4444#160 = 500 ∧
      c.shared.trade.exitLocks 0x4444#160 = none :=
    Machine.exists_run_of_follow [(0, 19, half.ans), (1, 17, failing.ans)] (by decide +kernel)
  obtain ⟨le, rest, _⟩ := armed_exits_conserve armedWorld 0x4444#160 0
    ⟨0x4444#160, .fourMeme, 1000, 1, true, 0, 0⟩ rfl rfl
    [.executeExit 0x4444#160 "D" 1 1, .executeExit 0x4444#160 "D" 0 0] (by simp) c run
  exact ⟨c, run, quiet, sold, le, rest free⟩

end BscMempool.Trader
