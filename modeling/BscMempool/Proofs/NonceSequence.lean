/-
Module: BscMempool.Proofs.NonceSequence
Layer: Proofs
Purpose: When the nonces of accepted transactions form one interval that ends at the counter, over
  runs of the trader and over restarts from the persisted value.
Trusted boundary: none
Main exports: NextUsable, keepsSequence, Served, no_gaps, gap_after_failed_sign
-/
import BscMempool.Proofs.NonceSpec
import BscMempool.Proofs.Scenario
import BscMempool.Proofs.Workers

namespace BscMempool.Trader

open Concurrent (Tid Machine Contract Outcome)
open Concurrent.Proc

/-- The network accepted a transaction with nonce `n`. -/
def acceptedAt (wire : List WireTx) (n : Nat) : Bool :=
  wire.any fun r => r.accepted && r.tx.nonce.toNat == n

/-- `n` is the account's next usable nonce: the first from `base` on without an
accepted transaction. -/
def NextUsable (base : Nat) (wire : List WireTx) (n : Nat) : Prop :=
  base ≤ n ∧ (∀ m < n, base ≤ m → acceptedAt wire m = true) ∧ acceptedAt wire n = false

instance (base : Nat) (wire : List WireTx) (n : Nat) : Decidable (NextUsable base wire n) :=
  inferInstanceAs (Decidable (_ ∧ _ ∧ _))

/-- The node's pending count is the account's next usable nonce. -/
def pendingCounts (base : Nat) : (o : Op) → o.Ans → World → Bool
  | .ask .pendingNonce, reply, s =>
      Option.all (fun chain : UInt64 => decide (NextUsable base s.trade.wire chain.toNat)) reply
  | _, _, _ => true

instance {w : TrailWatcher} {base : Nat} (o : Op) (a : w.machine.Ans o) (s : World) :
    Decidable (pendingCounts base o a s = true) := decEq (pendingCounts base o a s) true

/-- The steps that leave no gap: every transaction is signed, submitted and accepted, and the
counter neither wraps nor moves down. -/
def keepsSequence (base : Nat) (o : Op) (a : o.Ans) (s : World) : Bool :=
  pendingCounts base o a s && match o, a with
    | .sign _, hash => Option.isSome hash
    | .submit .., sent => Submitted.accepted sent
    | .shadow _, _ => false
    | o, _ => safeCounter o s

instance {w : TrailWatcher} {base : Nat} (o : Op) (a : w.machine.Ans o) (s : World) :
    Decidable (keepsSequence base o a s = true) := decEq (keepsSequence base o a s) true

theorem acceptedAt_iff {wire : List WireTx} {n : Nat} :
    acceptedAt wire n = true ↔ ∃ r ∈ wire, r.accepted = true ∧ r.tx.nonce.toNat = n := by
  simp [acceptedAt]

namespace NonceSequence

/-- From `base` on every nonce below the counter is accepted or in flight, and no
other nonce is accepted. -/
structure Inv (base : Nat) (v : Core) : Prop where
  started : base ≤ v.2.current.toNat
  accepted : ∀ r ∈ v.1.wire, r.accepted = true → base ≤ r.tx.nonce.toNat ∧ r.tx.nonce < v.2.current
  filled : ∀ n : UInt64, base ≤ n.toNat → n < v.2.current →
    acceptedAt v.1.wire n.toNat = true ∨ n ∈ v.2.inFlight
  file : ∀ n, v.2.file = some n → n ≤ v.2.current

def spec (base : Nat) : NonceSpec where
  cond o a s := keepsSequence base o a s = true
  safe o a s keeps := by
    have kept := (Bool.and_eq_true_iff.1 keeps).2
    split at kept <;> first | rfl | exact kept
  inv := Inv base
  pre task v :=
    match task with
    | .persistNonce n => n < v.2.current
    | _ => True

variable {base : Nat} {w : TrailWatcher} {i : Tid} {token : Address}

/-! ### What one operation does -/

/-- The operations that neither submit, nor move the counter, nor write its file. -/
def plainOp : Op → Prop
  | .submit .. | .nonce .fetchAdd | .nonce (.store ..) | .nonce (.write _)
  | .spawn (.persistNonce _) =>
      False
  | _ => True

theorem plain {o : Op} (kind : plainOp o) : (spec base).Plain w o := by
  intro i fresh a s out inv keeps did _
  cases o with
  | submit tx hash site => exact kind.elim
  | spawn task =>
      cases did
      refine ⟨inv, fun j t started => ?_⟩
      cases j with
      | zero =>
          cases started
          cases task <;> trivial
      | succ j => cases started
  | trade o =>
      obtain ⟨mid, ran, rfl⟩ := Option.map_eq_some_iff.1 did
      cases o with
      | openPosition token route bnbIn txHash =>
          cases ran
          refine ⟨⟨inv.started, inv.accepted, inv.filled, inv.file⟩, fun j t started => ?_⟩
          cases j with
          | zero =>
              cases started
              trivial
          | succ j => cases started
      | loadEntry e =>
          obtain ⟨p, _, rfl⟩ := Option.map_eq_some_iff.1 ran
          exact ⟨inv, fun _ _ started => by cases started⟩
      | lockExit token =>
          simp only [TradeOp.exec] at ran
          split at ran
          · cases ran
            exact ⟨⟨inv.started, inv.accepted, inv.filled, inv.file⟩, fun _ _ started =>
              by cases started⟩
          · cases ran
      | _ =>
          cases ran
          exact ⟨⟨inv.started, inv.accepted, inv.filled, inv.file⟩, fun _ _ started =>
            by cases started⟩
  | nonce o =>
      cases o with
      | load =>
          cases did
          exact ⟨inv, fun _ _ started => by cases started⟩
      | _ => exact kind.elim
  | env o =>
      obtain ⟨_, _, rfl⟩ := Option.map_eq_some_iff.1 did
      exact ⟨inv, fun _ _ started => by cases started⟩
  | sign tx =>
      cases a with
      | none => cases (Bool.and_eq_true_iff.1 keeps).2
      | some hash =>
          cases did
          exact ⟨inv, fun _ _ started => by cases started⟩
  | shadow tx => cases (Bool.and_eq_true_iff.1 keeps).2
  | _ =>
      cases did
      exact ⟨inv, fun _ _ started => by cases started⟩

theorem plain_triple {o : Op} (A : ((spec base).contract w).Assertion World.core i)
    {Q : o.Res → World → Prop} (implies : ∀ result s, A.on s → Q result s) (kind : plainOp o) :
    ((spec base).contract w).Triple i A.on o Q :=
  (plain kind).triple A implies

/-! ### What a task knows -/

/-- The nonce was drawn in this life of the process. -/
def drawn (base : Nat) (w : TrailWatcher) (i : Tid) (n : UInt64) :
    ((spec base).contract w).Assertion World.core i :=
  NonceSpec.assertion w i (fun v => base ≤ n.toNat ∧ n < v.2.current)
    fun _ _ later known => ⟨known.1, UInt64.lt_of_lt_of_le known.2 later.counter⟩

/-- The counter has come as far as `n`. -/
def reached (base : Nat) (w : TrailWatcher) (i : Tid) (n : UInt64) :
    ((spec base).contract w).Assertion World.core i :=
  NonceSpec.assertion w i (fun v => n ≤ v.2.current)
    fun _ _ later known => UInt64.le_trans known later.counter

abbrev anything (base : Nat) (w : TrailWatcher) (i : Tid) := (spec base).anything w i

theorem reserve_wp {s : World} :
    ((spec base).contract w).wp i w.exec.reserveNonce (fun n s => (drawn base w i n).on s) s := by
  refine NonceSpec.reserve_wp (anything base w i) (drawn base w i) (fun s inv _ keeps => ?_)
    (fun _ _ known => known.2) trivial
  have up := lt_succ_of_safe ((spec base).safe _ _ _ keeps)
  refine ⟨⟨inv.started.trans (UInt64.le_iff_toNat_le.1 (UInt64.le_of_lt up)),
    fun r sent accepted => ?_,
    fun n from_ below => ?_, fun n written => ?_⟩, inv.started, up⟩
  · obtain ⟨from_, below⟩ := inv.accepted r sent accepted
    exact ⟨from_, UInt64.lt_trans below up⟩
  · by_cases old : n < s.nonce.current
    · exact (inv.filled n from_ old).imp_right fun flying => List.mem_append_left _ flying
    · -- the only new nonce below the counter is the one just drawn
      have succ : (s.nonce.current + 1).toNat = s.nonce.current.toNat + 1 := by
        have room := s.nonce.current.toNat_lt
        have moved := UInt64.lt_iff_toNat_lt.1 up
        rw [UInt64.toNat_add, UInt64.toNat_one] at moved ⊢
        omega
      have same : n = s.nonce.current := by
        have lt := UInt64.lt_iff_toNat_lt.1 below
        change n.toNat < (s.nonce.current + 1).toNat at lt
        rw [UInt64.lt_iff_toNat_lt] at old
        exact UInt64.toNat_inj.1 (by omega)
      exact .inr (List.mem_append_right _ (List.mem_singleton.2 same))
  · exact UInt64.le_trans (inv.file n written) (UInt64.le_of_lt up)

/-- Every submission is accepted, and settles a nonce that was drawn. -/
theorem submit_triple {target : Address} {value : U256} {calldata : Calldata} {gasLimit : Nat}
    {gas : U128} {n : UInt64} {hash : B256} {site : Site} {Q : Bool → World → Prop}
    (done : ∀ ok s, Q ok s) :
    ((spec base).contract w).Triple i (drawn base w i n).on
      (.submit (w.exec.request target value calldata gasLimit gas n) hash site) Q := by
  refine (NonceSpec.submit _ hash site (drawn base w i n).holds (fun _ _ => True) ?_).weaken
    fun ok s _ => done ok s
  intro s r _ tx _ inv known keeps
  have nonce : r.tx.nonce = n := by rw [tx]; rfl
  have taken : r.accepted = true := (Bool.and_eq_true_iff.1 keeps).2
  refine ⟨⟨inv.started, fun q sent accepted => ?_, fun m from_ below => ?_, inv.file⟩, trivial⟩
  · rcases List.mem_append.1 sent with old | new
    · exact inv.accepted q old accepted
    · rw [List.mem_singleton.1 new, nonce]
      exact known
  · by_cases same : m = n
    · left
      rw [acceptedAt_iff]
      exact ⟨r, List.mem_append_right _ (List.mem_singleton_self r), taken, by rw [nonce, same]⟩
    · rcases inv.filled m from_ below with accepted | flying
      · left
        obtain ⟨q, old, facts⟩ := acceptedAt_iff.1 accepted
        exact acceptedAt_iff.2 ⟨q, List.mem_append_left _ old, facts⟩
      · right
        exact (List.mem_erase_of_ne (by rw [nonce]; exact same)).2 flying

/-- A node that counts the accepted transactions never runs ahead of the counter. -/
theorem pending_le {v : Core} (inv : Inv base v) {n : Nat} (usable : NextUsable base v.1.wire n) :
    n ≤ v.2.current.toNat := by
  by_contra ahead
  have taken := usable.2.1 v.2.current.toNat (Nat.lt_of_not_le ahead) inv.started
  obtain ⟨r, sent, accepted, same⟩ := acceptedAt_iff.1 taken
  have below := UInt64.lt_iff_toNat_lt.1 (inv.accepted r sent accepted).2
  omega

/-- A resync that does not move the counter down does not move it. -/
theorem resync_wp {s : World} :
    ((spec base).contract w).wp i NonceManager.resync (fun _ _ => True) s := by
  refine Contract.wp_call_seq
    (fun reply s => ∀ chain, reply = some chain → (reached base w i chain).on s) .true ?_ ?_ trivial
  · refine NonceSpec.triple fun fresh a s out inv _ keeps did _ => ?_
    cases did
    refine ⟨inv, (fun _ _ started => by cases started), ?_⟩
    rintro chain rfl
    have usable : NextUsable base s.trade.wire chain.toNat := by
      simpa [pendingCounts] using (Bool.and_eq_true_iff.1 keeps).1
    exact UInt64.le_iff_toNat_le.2 (pending_le inv usable)
  · intro reply s known
    cases reply with
    | none => exact trivial
    | some chain =>
        refine Contract.wp_call_seq
          (fun loaded s => (reached base w i chain).on s ∧ (reached base w i loaded).on s)
          (reached base w i chain).stable ?_ ?_ (known chain rfl)
        · refine NonceSpec.triple fun fresh a s out inv known _ did _ => ?_
          cases did
          exact ⟨inv, (fun _ _ started => by cases started), known, UInt64.le_refl _⟩
        · intro loaded s known
          refine Contract.wp_call_seq (fun _ _ => True)
            ((reached base w i chain).and (reached base w i loaded)).stable ?_
            (fun _ _ _ => trivial) known
          refine NonceSpec.triple fun fresh a s out inv known _ did later => ?_
          cases did
          refine ⟨?_, (fun _ _ started => by cases started), trivial⟩
          -- the store writes back the value the counter has
          have up := UInt64.le_iff_toNat_le.1 later.counter
          have same : max chain loaded = s.nonce.current := by
            refine UInt64.toNat_inj.1 (Nat.le_antisymm ?_ up)
            rw [toNat_max_u64]
            exact Nat.max_le.2 ⟨UInt64.le_iff_toNat_le.1 known.1, UInt64.le_iff_toNat_le.1 known.2⟩
          change Inv base (s.trade, { s.nonce with current := max chain loaded })
          rw [same]
          exact inv

theorem persistNonce_wp {n : UInt64} {s : World} (known : n < s.nonce.current) :
    ((spec base).contract w).wp i (NonceManager.persistNonce n) (fun _ _ => True) s := by
  let below : ((spec base).contract w).Assertion World.core i :=
    NonceSpec.assertion w i (fun v => n < v.2.current)
      fun _ _ later known => UInt64.lt_of_lt_of_le known later.counter
  refine Contract.wp_call below.stable ?_ known
  refine NonceSpec.triple fun fresh completed s out inv known _ did _ => ?_
  cases did
  refine ⟨?_, (fun _ _ started => by cases started), trivial⟩
  cases completed with
  | false => exact inv
  | true =>
      refine ⟨inv.started, inv.accepted, inv.filled, fun m written => ?_⟩
      cases written
      have lt := UInt64.lt_iff_toNat_lt.1 known
      have room := s.nonce.current.toNat_lt
      change n + 1 ≤ s.nonce.current
      change n.toNat < s.nonce.current.toNat at lt
      rw [UInt64.le_iff_toNat_le, UInt64.toNat_add, UInt64.toNat_one]
      omega

/-! ### The outlines -/

def entry (base : Nat) (w : TrailWatcher) (i : Tid) (token : Address) :
    EntryOutline ((spec base).contract w) World.core i token where
  idle := anything base w i
  looked _ := anything base w i
  cleared := anything base w i
  priced n := drawn base w i n
  bought := anything base w i
  done := anything base w i
  get := plain_triple (anything base w i) (fun _ _ _ => trivial) trivial
  duplicate _ _ _ _ _ := trivial
  absent _ _ := trivial
  clear _ _ _ := plain_triple (anything base w i) (fun _ _ _ => trivial) trivial
  skipped _ _ := trivial
  reserve _ _ := reserve_wp
  signBuy n _ _ _ _ _ := plain_triple (drawn base w i n) (fun hash _ known => by
    cases hash
    · trivial
    · exact known) trivial
  sendBuy _ _ _ _ _ _ _ _ _ _ := submit_triple fun ok _ => by cases ok <;> trivial
  shadowBuy n _ _ _ _ _ _ := plain_triple (drawn base w i n) (fun _ _ _ => trivial) trivial
  openEntry _ _ _ := plain_triple (anything base w i) (fun _ _ _ => trivial) trivial
  resync _ _ := resync_wp

def exit (base : Nat) (w : TrailWatcher) (i : Tid) (token : Address) :
    ExitOutline ((spec base).contract w) World.core i token where
  idle := anything base w i
  locked := anything base w i
  looked _ := anything base w i
  sized _ := anything base w i
  asked _ n := drawn base w i n
  ready _ _ := anything base w i
  priced _ _ n := drawn base w i n
  sent _ := anything base w i
  done _ := anything base w i
  post _ _ := True
  refused _ _ := trivial
  lock := plain_triple (anything base w i) (fun _ _ _ => trivial) trivial
  get := plain_triple (anything base w i) (fun _ _ _ => trivial) trivial
  exited _ _ _ _ _ := trivial
  fast _ _ _ _ _ _ := trivial
  balance _ _ := plain_triple (anything base w i) (fun bal _ _ => by
    split
    · trivial
    · exact fun _ _ => trivial) trivial
  unsold _ _ _ := ⟨trivial, trivial⟩
  armed _ _ _ _ := trivial
  allowed _ _ _ _ _ _ := trivial
  askNonce _ _ _ _ := reserve_wp
  signApprove _ n _ := plain_triple (drawn base w i n) (fun hash _ known => by
    cases hash
    · trivial
    · exact known) trivial
  sendApprove _ _ _ _ _ := submit_triple fun ok _ => by
    cases ok
    · trivial
    · exact fun _ => trivial
  shadowApprove _ n _ _ := plain_triple (drawn base w i n) (fun _ _ _ _ => trivial) trivial
  sellNonce _ _ _ _ := reserve_wp
  signSale _ _ n _ _ _ _ := plain_triple (drawn base w i n) (fun hash _ known => by
    cases hash
    · trivial
    · exact known) trivial
  sendSale _ _ _ _ _ _ _ _ _ _ _ := submit_triple fun ok _ => by cases ok <;> trivial
  shadowSale _ _ n _ _ _ _ _ := plain_triple (drawn base w i n) (fun _ _ _ => trivial) trivial
  update _ := plain_triple (anything base w i) (fun _ _ _ => trivial) trivial
  resync _ _ _ := resync_wp
  unlock _ := plain_triple (anything base w i) (fun _ _ _ => trivial) trivial

def finalize (base : Nat) (w : TrailWatcher) (i : Tid) (token : Address) (route : BuyRoute)
    (e : EntryId) : FinalizeOutline ((spec base).contract w) World.core i token route e where
  pending := anything base w i
  read _ := anything base w i
  stored _ := anything base w i
  asked _ n := drawn base w i n
  approving _ := anything base w i
  done _ := anything base w i
  unseen _ _ := trivial
  balance := plain_triple (anything base w i) (fun _ _ _ => trivial) trivial
  empty _ _ := trivial
  store _ _ := plain_triple (anything base w i) (fun _ _ _ => trivial) trivial
  unarmed _ _ _ := trivial
  reserve _ _ _ _ _ := reserve_wp
  signApprove _ n _ := plain_triple (drawn base w i n) (fun hash _ known => by
    cases hash
    · trivial
    · exact known) trivial
  sendApprove _ _ _ _ _ := submit_triple fun ok _ => by cases ok <;> trivial
  unconfirmed _ _ _ := trivial
  confirm _ := plain_triple (anything base w i) (fun _ _ _ => trivial) trivial

theorem workers (base : Nat) (w : TrailWatcher) : Workers ((spec base).contract w) World.core :=
  .of_outlines NonceSpec.focused (entry base w) (fun _ _ _ => trivial) (exit base w)
    (fun _ _ _ => trivial) (finalize base w) (fun _ _ _ _ _ _ _ => trivial)
    (fun _ _ => Contract.wp_mono (fun _ _ _ => trivial) reserve_wp) (fun _ _ => resync_wp)
    (fun _ _ _ below => persistNonce_wp below) (fun _ _ _ _ _ => trivial) fun _ _ _ _ => trivial

/-- The invariant holds in every run of one life of the process. -/
theorem inv_of_run {chain : UInt64} {file : Option UInt64} (behind : ∀ n, file = some n → n ≤ chain)
    {tasks : List Task} (roots : ∀ t ∈ tasks, t.root = true) {c : LiveConfig}
    (run : w.machine.Run (fun _ o a s => keepsSequence chain.toNat o a s)
      (w.machine.start (World.boot chain file) tasks) c) : Inv chain.toNat c.shared.core := by
  refine (((spec chain.toNat).contract w).sound
    (fun t i s _ pre => (workers chain.toNat w).bodies t i s pre) ?_ ?_ run).inv
  · have same : (NonceManager.new chain file).current = chain := by
      cases file with
      | none => exact UInt64.toNat_inj.1 (by rw [NonceManager.new, toNat_max_u64]; simp)
      | some n =>
          refine UInt64.toNat_inj.1 ?_
          rw [NonceManager.new, toNat_max_u64]
          exact Nat.max_eq_left (UInt64.le_iff_toNat_le.1 (behind n rfl))
    refine ⟨?_, fun r old => ?_, fun n from_ below => ?_, fun n written => ?_⟩
    · exact (congrArg UInt64.toNat same).ge
    · cases old
    · have below := UInt64.lt_iff_toNat_lt.1 below
      change n.toNat < (NonceManager.new chain file).current.toNat at below
      rw [same] at below
      omega
    · change n ≤ (NonceManager.new chain file).current
      rw [same]
      exact behind n written
  · intro i t found
    have root := roots t (List.mem_of_getElem? found)
    cases t <;> trivial

/-- With nothing in flight the accepted nonces are those from `base` up to the counter. -/
theorem accepted_iff {v : Core} (inv : Inv base v) (settled : v.2.inFlight = []) (n : Nat) :
    acceptedAt v.1.wire n = true ↔ base ≤ n ∧ n < v.2.current.toNat := by
  constructor
  · intro taken
    obtain ⟨r, sent, accepted, rfl⟩ := acceptedAt_iff.1 taken
    obtain ⟨from_, below⟩ := inv.accepted r sent accepted
    exact ⟨from_, UInt64.lt_iff_toNat_lt.1 below⟩
  · rintro ⟨from_, below⟩
    have room : n < UInt64.size := below.trans v.2.current.toNat_lt
    have same : (UInt64.ofNat n).toNat = n := UInt64.toNat_ofNat_of_lt room
    rcases inv.filled (.ofNat n) (by rw [same]; exact from_)
      (UInt64.lt_iff_toNat_lt.2 (by rw [same]; exact below)) with taken | flying
    · rwa [same] at taken
    · rw [settled] at flying
      cases flying

end NonceSequence

/-! ### Lives of the process -/

/-- A configuration that the trader reaches in some life of its process, with the pending count that
this life started from and the transactions of the lives before it.  Every life keeps the sequence,
and a restart, which reloads the persisted value, finds nothing in flight. -/
inductive Served (origin : Nat) : List WireTx → UInt64 → LiveConfig → Prop where
  | first {w : TrailWatcher} {chain : UInt64} {file : Option UInt64} {tasks : List Task}
    {c : LiveConfig}
      (fresh : chain.toNat = origin) (behind : ∀ n, file = some n → n ≤ chain)
      (roots : ∀ t ∈ tasks, t.root = true)
      (run : w.machine.Run (fun _ o a s => keepsSequence chain.toNat o a s)
        (w.machine.start (World.boot chain file) tasks) c) : Served origin [] chain c
  | restart {past : List WireTx} {base : UInt64} {before : LiveConfig} {w : TrailWatcher}
      {chain : UInt64} {tasks : List Task} {c : LiveConfig}
      (served : Served origin past base before) (settled : before.shared.nonce.inFlight = [])
      (pending : NextUsable base.toNat before.shared.trade.wire chain.toNat)
      (roots : ∀ t ∈ tasks, t.root = true)
      (run : w.machine.Run (fun _ o a s => keepsSequence chain.toNat o a s)
        (w.machine.start (World.boot chain before.shared.nonce.file) tasks) c) :
      Served origin (past ++ before.shared.trade.wire) chain c

theorem NextUsable.unique {base n m : Nat} {wire : List WireTx} (usable : NextUsable base wire n)
    (usable' : NextUsable base wire m) : n = m := by
  rcases Nat.lt_trichotomy n m with lt | same | lt
  · exact absurd (usable'.2.1 n lt usable.1) (by simp [usable.2.2])
  · exact same
  · exact absurd (usable.2.1 m lt usable'.1) (by simp [usable'.2.2])

theorem acceptedAt_append {past wire : List WireTx} {n : Nat} :
    acceptedAt (past ++ wire) n = true ↔ acceptedAt past n = true ∨ acceptedAt wire n = true := by
  simp [acceptedAt]

/-- Every life keeps the invariant, and the lives before it filled the nonces up to its start. -/
theorem Served.inv {origin : Nat} {past : List WireTx} {base : UInt64} {c : LiveConfig}
    (served : Served origin past base c) :
    NonceSequence.Inv base.toNat c.shared.core ∧ origin ≤ base.toNat ∧
      ∀ n, acceptedAt past n = true ↔ origin ≤ n ∧ n < base.toNat := by
  induction served with
  | first fresh behind roots run =>
      refine ⟨NonceSequence.inv_of_run behind roots run, fresh.ge, fun n => ?_⟩
      rw [fresh]
      constructor
      · intro taken
        cases taken
      · omega
  | @restart past base before w chain tasks c served settled pending roots run ih =>
      obtain ⟨inv, started, filled⟩ := ih
      have current : chain = before.shared.nonce.current := by
        have accepted := NonceSequence.accepted_iff inv settled
        refine UInt64.toNat_inj.1 (pending.unique ⟨inv.started, fun m below from_ => ?_, ?_⟩)
        · exact (accepted m).2 ⟨from_, below⟩
        · rw [Bool.eq_false_iff]
          exact fun taken => Nat.lt_irrefl _ ((accepted _).1 taken).2
      refine ⟨NonceSequence.inv_of_run (fun n written => ?_) roots run, started.trans pending.1,
        fun n => ?_⟩
      · rw [current]
        exact inv.file n written
      · have accepted : acceptedAt before.shared.trade.wire n = true ↔
            base.toNat ≤ n ∧ n < chain.toNat := by
          rw [current]
          exact NonceSequence.accepted_iff inv settled n
        have up := pending.1
        rw [acceptedAt_append, filled, accepted]
        omega

/-- Through every run that keeps the sequence and every restart with nothing in flight: whenever
nothing is in flight, the nonce that `reserve` hands out next is the account's next usable one, and
the accepted nonces are those from the first life's start up to it. -/
theorem no_gaps {origin : Nat} {past : List WireTx} {base : UInt64} {c : LiveConfig}
    (served : Served origin past base c) (settled : c.shared.nonce.inFlight = []) :
    NextUsable origin (past ++ c.shared.trade.wire) c.shared.nonce.current.toNat ∧
      ∀ n, acceptedAt (past ++ c.shared.trade.wire) n = true ↔
        origin ≤ n ∧ n < c.shared.nonce.current.toNat := by
  obtain ⟨inv, started, filled⟩ := served.inv
  have up : base.toNat ≤ c.shared.nonce.current.toNat := inv.started
  have accepted : ∀ n, acceptedAt (past ++ c.shared.trade.wire) n = true ↔
      origin ≤ n ∧ n < c.shared.nonce.current.toNat := by
    intro n
    have here : acceptedAt c.shared.trade.wire n = true ↔
        base.toNat ≤ n ∧ n < c.shared.nonce.current.toNat :=
          NonceSequence.accepted_iff inv settled n
    rw [acceptedAt_append, filled, here]
    omega
  refine ⟨⟨started.trans up, fun m below from_ => (accepted m).2 ⟨from_, below⟩, ?_⟩, accepted⟩
  rw [Bool.eq_false_iff]
  exact fun taken => Nat.lt_irrefl _ ((accepted _).1 taken).2

theorem no_gaps_restarted :
    ∃ past base c, Served 5 past base c ∧ c.shared.nonce.current = 9 ∧
      NextUsable 5 (past ++ c.shared.trade.wire) 9 ∧
      ∀ n, acceptedAt (past ++ c.shared.trade.wire) n = true ↔ 5 ≤ n ∧ n < 9 := by
  let r : Replies := { balance := some 1000 }
  obtain ⟨before, first, settled, pending, file⟩ : ∃ c,
      (scenario true).machine.Run (fun _ o a s => keepsSequence 5 o a s)
        ((scenario true).machine.start (World.boot 5 none) [buyTask]) c ∧
      c.shared.nonce.inFlight = [] ∧ NextUsable 5 c.shared.trade.wire 7 ∧
      c.shared.nonce.file = some 7 :=
    Machine.exists_run_of_follow [(0, 19, r.ans), (2, 14, r.ans), (1, 1, r.ans), (3, 1, r.ans)]
      (by decide +kernel)
  obtain ⟨c, second, quiet, current⟩ : ∃ c,
      (scenario true).machine.Run (fun _ o a s => keepsSequence 7 o a s)
        ((scenario true).machine.start (World.boot 7 (some 7)) [buyTask]) c ∧
      c.shared.nonce.inFlight = [] ∧ c.shared.nonce.current = 9 :=
    Machine.exists_run_of_follow [(0, 19, r.ans), (2, 14, r.ans)] (by decide +kernel)
  have alive : Served 5 [] 5 before := .first rfl (fun _ none_ => by cases none_) (by decide) first
  have served : Served 5 ([] ++ before.shared.trade.wire) 7 c :=
    .restart alive settled pending (by decide) (file ▸ second)
  have gapless := no_gaps served quiet
  rw [current] at gapless
  exact ⟨_, 7, c, served, current, gapless⟩

/-- The BUY's signing fails after its nonce was drawn.  The resync reads the pending count 5 and
keeps the counter at 6: no transaction has nonce 5, and every later one waits for it. -/
theorem gap_after_failed_sign :
    ∃ c, (scenario true).machine.Run (fun _ o a s => pendingCounts 5 o a s)
        ((scenario true).machine.start (World.boot 5 none) [buyTask]) c ∧
      c.Quiet ∧ c.shared.nonce.inFlight = [] ∧
      ¬ NextUsable 5 c.shared.trade.wire c.shared.nonce.current.toNat := by
  let r : Replies := { signed := none, pendingNonce := some 5 }
  exact Machine.exists_run_of_follow [(0, 16, r.ans), (1, 1, r.ans)] (by decide +kernel)

end BscMempool.Trader
