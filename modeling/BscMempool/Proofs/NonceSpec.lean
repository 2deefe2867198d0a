/-
Module: BscMempool.Proofs.NonceSpec
Layer: Proofs
Purpose: Contracts about the trade and the nonce counter together, for runs in which the counter
  never moves down. What a task learns there stays true, so every assertion survives every step, its
  own too.
Trusted boundary: none
Main exports: Later, NonceSpec, NonceSpec.contract, NonceSpec.triple, NonceSpec.reserve_wp
-/
import BscMempool.Proofs.NonceManager
import BscMempool.Proofs.TradeSpec

namespace BscMempool.Trader

open Concurrent (Tid Machine Contract Outcome)

/-- The trade and the nonce manager of a world. -/
abbrev Core := Trade × NonceState

def World.core (s : World) : Core := (s.trade, s.nonce)

/-- What no safe step takes back. -/
structure Later (v v' : Core) : Prop where
  trade : Grows v.1 v'.1
  counter : v.2.current ≤ v'.2.current

theorem Later.refl (v : Core) : Later v v := ⟨.refl _, UInt64.le_refl _⟩

theorem Later.of_exec {w : TrailWatcher} {i fresh : Tid} {o : Op} {a : w.machine.Ans o} {s : World}
    {out : Outcome World Task o.Res} (safe : safeCounter o s = true)
    (did : w.machine.exec i fresh o a s = some out) : Later s.core out.shared.core := by
  refine ⟨.of_exec did, ?_⟩
  change s.nonce.current ≤ out.shared.nonce.current
  by_cases ours : ∃ p, o = .nonce p
  · obtain ⟨p, rfl⟩ := ours
    cases did
    exact NonceOp.current_le safe
  · rw [(Op.exec_counter (fun p same => ours ⟨p, same⟩) did).1]
    exact UInt64.le_refl _

/-- A contract about the trade and the nonce counter. -/
structure NonceSpec where
  cond : (o : Op) → o.Ans → World → Prop
  safe : ∀ o a s, cond o a s → safeCounter o s = true
  inv : Core → Prop
  pre : Task → Core → Prop

namespace NonceSpec

variable (S : NonceSpec) (w : TrailWatcher)

/-- The specification as a contract of the live trader's machine. -/
def contract : Contract w.machine where
  cond _ o a s := S.cond o a s
  inv s := S.inv s.core
  guar _ s s' := Later s.core s'.core
  pre t _ s := S.pre t s.core
  post _ _ _ _ := True

variable {S w} {i : Tid}

theorem about : (S.contract w).About World.core where
  inv s s' same inv := by
    change S.inv s'.core
    rw [same]
    exact inv
  guar i s s' same _ := by
    change Later s.core s'.core
    rw [same]
    exact .refl _

theorem focused : Focused (S.contract w) World.core := ⟨about, fun _ _ => rfl⟩

/-- Something that stays true once it is. -/
def assertion (w : TrailWatcher) (i : Tid) (P : Core → Prop)
    (stays : ∀ v v', Later v v' → P v → P v') : (S.contract w).Assertion World.core i where
  holds := P
  stable _ _ _ _ _ _ guar holds := stays _ _ guar holds

def anything (S : NonceSpec) (w : TrailWatcher) (i : Tid) :
    (S.contract w).Assertion World.core i :=
  ⟨fun _ => True, .true⟩

/-- No step, of whichever task, ends what an assertion says. -/
theorem stays (A : (S.contract w).Assertion World.core i) {s s' : World} (inv : S.inv s.core)
    (inv' : S.inv s'.core) (later : Later s.core s'.core) (now : A.on s) : A.on s' :=
  A.stable (i + 1) s s' (Nat.succ_ne_self i) inv inv' later now

/-- The rule for an operation: what is left to show after it, given that the world only moved on. -/
theorem triple {o : Op} {P : World → Prop} {Q : o.Res → World → Prop}
    (each : ∀ fresh a s (out : Outcome World Task o.Res), S.inv s.core → P s → S.cond o a s →
      w.machine.exec i fresh o a s = some out → Later s.core out.shared.core →
      S.inv out.shared.core ∧
      (∀ (j : Nat) (t : Task), out.spawned[j]? = some t → S.pre t out.shared.core) ∧
        Q out.res out.shared) : (S.contract w).Triple i P o Q := by
  intro s inv holds fresh _ a meets out did
  have later := Later.of_exec (S.safe o a s meets) did
  obtain ⟨inv', starts, after⟩ := each fresh a s out inv holds meets did later
  exact ⟨⟨inv', later, starts⟩, after⟩

/-- The operation keeps the invariant whatever its task knows. -/
def Plain (S : NonceSpec) (w : TrailWatcher) (o : Op) : Prop :=
  ∀ i fresh a s (out : Outcome World Task o.Res), S.inv s.core → S.cond o a s →
    w.machine.exec i fresh o a s = some out → Later s.core out.shared.core →
    S.inv out.shared.core ∧ ∀ (j : Nat) (t : Task), out.spawned[j]? = some t →
    S.pre t out.shared.core

/-- A plain operation keeps every assertion. -/
theorem Plain.triple {o : Op} (plain : S.Plain w o) (A : (S.contract w).Assertion World.core i)
    {Q : o.Res → World → Prop} (implies : ∀ result s, A.on s → Q result s) :
    (S.contract w).Triple i A.on o Q :=
  NonceSpec.triple fun fresh a s out inv holds meets did later =>
    let ⟨inv', starts⟩ := plain i fresh a s out inv meets did later
    ⟨inv', starts, implies _ _ (stays A inv inv' later holds)⟩

/-- Processes made of plain operations keep every assertion. -/
theorem plain_wp (A : (S.contract w).Assertion World.core i) {α : Type} {p : Live α}
    (all : p.All (S.Plain w)) {Q : α → World → Prop} (done : ∀ value s, A.on s → Q value s)
    {s : World} (now : A.on s) : (S.contract w).wp i p Q s :=
  Contract.wp_of_all A.stable (fun _ plain => plain.triple A fun _ _ holds => holds) all done now

/-- The rule for `reserve`: what is known of the nonce when it is drawn. -/
theorem reserve_wp (A : (S.contract w).Assertion World.core i)
    (B : UInt64 → (S.contract w).Assertion World.core i)
    (draw : ∀ s, S.inv s.core → A.on s → S.cond (.nonce .fetchAdd) () s →
      let s' := { s with nonce := (NonceOp.exec .fetchAdd () s.nonce).2 }
      S.inv s'.core ∧ (B s.nonce.current).on s')
    (persist : ∀ n v, (B n).holds v → S.pre (.persistNonce n) v) {s : World} (now : A.on s) :
    (S.contract w).wp i w.exec.reserveNonce (fun n s => (B n).on s) s := by
  refine Contract.wp_call_seq (fun n s => (B n).on s) A.stable ?_ ?_ now
  · refine triple fun fresh a s out inv holds meets did _ => ?_
    cases did
    obtain ⟨inv', drawn⟩ := draw s inv holds meets
    exact ⟨inv', (fun _ _ started => by cases started), drawn⟩
  · intro n s drawn
    cases w.exec.persist with
    | false => exact drawn
    | true =>
        refine Contract.wp_call_seq (fun _ s => (B n).on s) (B n).stable ?_
          (fun _ _ drawn => drawn) drawn
        refine triple fun fresh a s out inv holds _ did _ => ?_
        cases did
        refine ⟨inv, fun j t started => ?_, holds⟩
        cases j with
        | zero =>
            cases started
            exact persist n _ holds
        | succ j => cases started

/-- The rule for a submission: its record has the nonce and the data of the request. -/
theorem submit (tx : TransactionRequest) (hash : B256) (site : Site) (P : Core → Prop)
    (Q : Bool → Core → Prop)
    (each : ∀ s (r : WireTx), r.sender = i → r.tx = tx → r.site = site → S.inv s.core → P s.core →
      S.cond (.submit r.tx r.hash r.site) (⟨r.accepted, r.ok⟩ : Submitted) s →
      S.inv (s.trade.transmit r, s.nonce.settle r.tx.nonce) ∧
        Q r.ok (s.trade.transmit r, s.nonce.settle r.tx.nonce)) :
    (S.contract w).Triple i (fun s => P s.core) (.submit tx hash site) fun ok s => Q ok s.core := by
  refine triple fun fresh sent s out inv holds meets did _ => ?_
  cases did
  obtain ⟨inv', after⟩ :=
    each s ⟨tx, hash, site, i, sent.accepted, sent.ok⟩ rfl rfl rfl inv holds meets
  exact ⟨inv', (fun _ _ started => by cases started), after⟩

end NonceSpec

end BscMempool.Trader
