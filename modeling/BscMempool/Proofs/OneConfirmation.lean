/-
Module: BscMempool.Proofs.OneConfirmation
Layer: Proofs
Purpose: When the confirmation watcher offers a SELL once, and no BUY again as a private one that
  was fired while it was pending; and a run in which a block is replaced by one with the same
  transactions.
Trusted boundary: none
Main exports: Offer, KolWatch.owed, confirmsOnce, one_confirmation, confirmed_again
-/
import BscMempool.Concurrent.Protocol
import BscMempool.Watch.KolConfirm
import Mathlib.Data.List.Nodup

namespace BscMempool.Watch

open Concurrent (Tid Machine Outcome Proc Protocol Config)
open Concurrent.Proc
open Trader (Address B256)

/-! ### What is offered -/

/-- What `kol_confirm` offers to a sink. -/
structure Offer where
  sink : Sink
  txHash : B256
  side : Side
  visibility : Visibility
deriving DecidableEq, Repr

/-- A SELL of a transaction to a sink. -/
def Offer.isSell (sink : Sink) (hash : B256) (offer : Offer) : Bool :=
  decide (offer.sink = sink ∧ offer.txHash = hash ∧ offer.side = .sell)

/-- A BUY that is offered to the live sink as a private one. -/
def privateBuy (hash : B256) : Offer := ⟨.live, hash, .buy, .private_⟩

/-- What an operation offers, if it offers a confirmed hit. -/
def WatchOp.offers : WatchOp → Option Offer
  | .trySend sink hit =>
      match hit.confirmedBlock, hit.side with
      | some _, some side => some ⟨sink, hit.txHash, side, hit.visibility⟩
      | _, _ => none
  | _ => none

/-- A BUY is fired to the live sink while it is pending. -/
def WatchOp.firesBuy (hash : B256) : WatchOp → Bool
  | .trySend .live hit =>
      decide (hit.txHash = hash ∧ hit.side = some .buy ∧ hit.confirmedBlock = none ∧
        hit.visibility = .public_)
  | _ => false

namespace KolWatch

variable (x : KolWatch)

/-- What is offered after a transaction was looked up. -/
def owed (hash : B256) : Option PendingMeta → List Offer
  | some m =>
      match m.side, m.token with
      | some .sell, some _ =>
          ([.trader, .private_, .live].filter x.sinks).map fun sink => ⟨sink, hash, .sell, .public_⟩
      | _, _ => []
  | none =>
      match x.confirmIndex.lookup (x.txOf hash).signer, (x.txOf hash).swap with
      | some _, some ⟨_, .sell⟩ =>
          ([.private_, .trader, .live].filter x.sinks).map fun sink =>
            ⟨sink, hash, .sell, .private_⟩
      | some _, some ⟨_, .buy⟩ =>
          ([.private_, .live].filter x.sinks).map fun sink => ⟨sink, hash, .buy, .private_⟩
      | _, _ => []

/-- `kol_confirm` takes a transaction for a KOL's, and has a sink to offer it to. -/
def takes (hash : B256) (found : Bool) : Bool :=
  (found || (x.confirmIndex.lookup (x.txOf hash).signer).isSome) &&
    (x.sinks .trader || x.sinks .private_ || x.sinks .live)

/-- A transaction was looked up and taken for a KOL's. -/
def took (hash : B256) (e : x.machine.Event) : Bool :=
  match e with
  | ⟨_, .remove h, _, found⟩ => decide (h = hash) && x.takes hash (Option.isSome found)
  | _ => false

/-- Which entries the registry has, and in which order a task makes its offers: those of one
transaction before the next is looked up. -/
def order : Protocol WatchSig (List Offer) where
  allows
    | _, .register hash entry =>
        entry.side = (x.txOf hash).swap.map GmgnSwap.side ∧
          entry.token = (x.txOf hash).swap.map GmgnSwap.token
    | left, .remove _ => left = []
    | left, .trySend sink hit =>
        ∀ offer, (WatchOp.trySend sink hit).offers = some offer → left.head? = some offer
    | _, _ => True
  next
    | _, .remove hash, found => x.owed hash found
    | left, .trySend sink hit, _ =>
        if (WatchOp.trySend sink hit).offers.isSome then left.tail else left
    | left, _, _ => left

variable {x}

/-- What the task at `i` is still to offer. -/
def leftAt (i : Tid) (h : List x.machine.Event) : List Offer := x.order.phase i [] h

/-- The steps with which each transaction is confirmed once: a SELL is looked up for the first time;
a BUY that was fired while it was pending is still registered when it is looked up; and no pending
BUY is fired while some task is still to offer it as a private one. -/
def confirmsOnce (_ : Tid) (o : WatchOp) (_ : o.Ans)
    (s : ConfirmRegistry × List x.machine.Event) : Bool :=
  match o with
  | .remove hash =>
      match (x.txOf hash).swap.map GmgnSwap.side with
      | some .sell => !x.takes hash (s.1.pending hash).isSome || !s.2.any (x.took hash)
      | some .buy =>
          !s.2.any (fun e => e.op.firesBuy hash) || (s.1.pending hash).isSome ||
            (x.confirmIndex.lookup (x.txOf hash).signer).isNone
      | none => true
  | .trySend sink hit =>
      !(WatchOp.trySend sink hit).firesBuy hit.txHash ||
        !s.2.any fun e => decide (privateBuy hit.txHash ∈ leftAt e.tid s.2)
  | _ => true

instance (i : Tid) (o : WatchOp) (a : x.machine.recording.Ans o)
    (s : ConfirmRegistry × List x.machine.Event) : Decidable (confirmsOnce i o a s = true) :=
  decEq (confirmsOnce i o a s) true

/-- The offers of a history. -/
def offersOf (h : List x.machine.Event) : List Offer := h.filterMap fun e => e.op.offers

/-! ### The tasks keep to the order -/

/-- An offer that is the next one, if its sink is configured. -/
theorem offer_obeys {kolName : String} {hash : B256} {txn : Transaction} {side : Side}
    {token : Address}
    {blockNumber : Nat} {visibility : Visibility} {sink : Sink} {rest : List Sink} :
    (x.offer sink (confirmedHit kolName hash txn side token blockNumber visibility)).Obeys x.order
      (fun left _ => left = (rest.filter x.sinks).map fun sink => ⟨sink, hash, side, visibility⟩)
      (((sink :: rest).filter x.sinks).map fun sink => ⟨sink, hash, side, visibility⟩) := by
  unfold offer
  split
  · rename_i wired
    rw [List.filter_cons_of_pos wired, List.map_cons]
    apply Obeys.call
    · exact fun _ same => same
    · exact fun _ => rfl
  · rename_i unwired
    rw [List.filter_cons_of_neg unwired]
    exact rfl

/-- The last offer leaves nothing. -/
theorem last_offer_obeys {kolName : String} {hash : B256} {txn : Transaction} {side : Side}
    {token : Address} {blockNumber : Nat} {visibility : Visibility} {sink : Sink} :
    (x.offer sink (confirmedHit kolName hash txn side token blockNumber visibility)).Obeys x.order
      (fun left _ => left = []) (([sink].filter x.sinks).map fun sink =>
        ⟨sink, hash, side, visibility⟩) :=
  @offer_obeys x _ _ _ _ _ _ _ _ []

/-- What is fired while it is pending is no offer of `kol_confirm`. -/
theorem fires_obeys {sink : Sink} {hit : KolHit} (pending : hit.confirmedBlock = none)
    {left : List Offer} :
    (x.offer sink hit).Obeys x.order (fun left' _ => left' = left) left := by
  have nothing : (WatchOp.trySend sink hit).offers = none := by simp [WatchOp.offers, pending]
  unfold offer
  split
  · apply Obeys.call
    · intro offer same
      rw [nothing] at same
      cases same
    · intro answer
      change (if _ then _ else _) = _
      rw [nothing]
      rfl
  · exact rfl

theorem fireHit_obeys {hit : KolHit} (pending : hit.confirmedBlock = none) :
    (x.fireHit hit).Obeys x.order (fun left _ => left = []) [] := by
  apply (fires_obeys pending).bind
  rintro left _ rfl
  apply (fires_obeys pending).bind
  rintro left _ rfl
  exact fires_obeys pending

theorem processOne_obeys {p : PendingTx} (own : p.tx = x.txOf p.hash) :
    (x.processOne p).Obeys x.order (fun left _ => left = []) [] := by
  unfold processOne
  split
  · exact rfl
  · rename_i kol _
    have fired : (x.fireHit (KolHit.fromPending kol p)).Obeys x.order
        (fun left _ => left = []) [] :=
      fireHit_obeys rfl
    cases traded : (KolHit.fromPending kol p).side with
    | none =>
        simp only [traded]
        exact fired
    | some side =>
        simp only [traded]
        apply Obeys.call trivial
        intro nowNs
        apply Obeys.call
        · constructor
          · rw [← traded, ← own]
            rfl
          · rw [← own]
            rfl
        · exact fun _ => fired

/-- The offers of a SELL that was pending. -/
theorem confirmPublic_obeys (blockNumber : Nat) (hash : B256) (m : PendingMeta) :
    (x.confirmPublic blockNumber hash m).Obeys x.order (fun left _ => left = [])
      (x.owed hash (some m)) := by
  obtain ⟨kolName, side, token, firstSeenNs, registeredNs, seenBlock, msIntoBlock⟩ := m
  rcases side with none_ | ⟨_ | _⟩
  · exact rfl
  · exact rfl
  cases token with
  | none => exact rfl
  | some token =>
      apply offer_obeys.bind
      rintro left _ rfl
      apply offer_obeys.bind
      rintro left _ rfl
      exact last_offer_obeys

/-- The offers of a trade that was not pending. -/
theorem confirmPrivate_obeys (blockNumber : Nat) {hash : B256} {kol : Kol}
    (own : x.confirmIndex.lookup (x.txOf hash).signer = some kol) :
    (x.confirmPrivate blockNumber hash kol).Obeys x.order (fun left _ => left = [])
      (x.owed hash none) := by
  unfold confirmPrivate owed
  rw [own]
  cases (x.txOf hash).swap with
  | none => exact rfl
  | some g =>
      obtain ⟨token, side⟩ := g
      cases side with
      | sell =>
          apply offer_obeys.bind
          rintro left _ rfl
          apply offer_obeys.bind
          rintro left _ rfl
          exact last_offer_obeys
      | buy =>
          apply offer_obeys.bind
          rintro left _ rfl
          exact last_offer_obeys

theorem confirmTxns_obeys (blockNumber : Nat) (txns : List B256) :
    (x.confirmTxns blockNumber txns).Obeys x.order (fun left _ => left = []) [] := by
  induction txns with
  | nil => exact rfl
  | cons hash rest ih =>
      have one : (x.confirmTxn blockNumber hash).Obeys x.order (fun left _ => left = []) [] := by
        apply Obeys.call rfl
        intro found
        change Obeys x.order _ (x.owed hash found) _
        cases found with
        | some m => exact confirmPublic_obeys blockNumber hash m
        | none =>
            cases own : x.confirmIndex.lookup (x.txOf hash).signer with
            | some kol => exact confirmPrivate_obeys blockNumber own
            | none =>
                simp only [owed, own]
                exact rfl
      apply one.bind
      rintro left _ rfl
      exact ih

theorem sweepShards_obeys (now : Nat) (shards : List Nat) :
    (sweepShards now shards).Obeys x.order (fun left _ => left = []) [] := by
  induction shards with
  | nil => exact rfl
  | cons shard rest ih => exact Obeys.call trivial fun _ => ih

theorem body_obeys (t : WatchTask) :
    (x.machine.body t).Obeys x.order (fun left _ => left = []) [] := by
  cases t with
  | pending hash firstSeenNs sourceSeen blockContext => exact processOne_obeys rfl
  | head blockHash blockNumber =>
      apply Obeys.call trivial
      intro fetched
      cases fetched with
      | none => exact rfl
      | some txns => exact confirmTxns_obeys blockNumber txns
  | tick =>
      apply Obeys.call trivial
      intro now
      exact sweepShards_obeys now _

/-! ### What the steps keep -/

variable {i j : Tid} {registry registry' : ConfirmRegistry} {h : List x.machine.Event} {sink : Sink}
  {hash : B256}

theorem leftAt_own {o : WatchOp} {a : o.Ans} {res : o.Res} :
    leftAt i ((⟨i, o, a, res⟩ : x.machine.Event) :: h) = x.order.next (leftAt i h) o res :=
  Protocol.phase_own rfl

theorem leftAt_other (ne : j ≠ i) {o : WatchOp} {a : o.Ans} {res : o.Res} :
    leftAt j ((⟨i, o, a, res⟩ : x.machine.Event) :: h) = leftAt j h :=
  Protocol.phase_other (Ne.symm ne)

/-- What an operation that leaves its task's offers alone leaves of all tasks' offers. -/
theorem leftAt_same {o : WatchOp} {a : o.Ans} {res : o.Res}
    (same : x.order.next (leftAt i h) o res = leftAt i h) :
    leftAt j ((⟨i, o, a, res⟩ : x.machine.Event) :: h) = leftAt j h := by
  by_cases own : j = i
  · subst own
    rw [leftAt_own, same]
  · exact leftAt_other own

theorem offersOf_none {o : WatchOp} {a : o.Ans} {res : o.Res} (nothing : o.offers = none) :
    offersOf ((⟨i, o, a, res⟩ : x.machine.Event) :: h) = offersOf h :=
  List.filterMap_cons_none nothing

theorem offersOf_some {o : WatchOp} {a : o.Ans} {res : o.Res} {offer : Offer}
    (offers : o.offers = some offer) :
    offersOf ((⟨i, o, a, res⟩ : x.machine.Event) :: h) = offer :: offersOf h :=
  List.filterMap_cons_some offers

/-- The entries of the registry are those of trades. -/
def Registered (x : KolWatch) (registry : ConfirmRegistry) : Prop :=
  ∀ hash m, registry.pending hash = some m →
    m.side = (x.txOf hash).swap.map GmgnSwap.side ∧ m.token = (x.txOf hash).swap.map GmgnSwap.token

/-- One task at most has a SELL of the transaction left to offer, and together with those that were
offered there is one at most, and none before the transaction was taken for a KOL's. -/
def SoldOnce (sink : Sink) (hash : B256) (h : List x.machine.Event) : Prop :=
  ∃ i, (∀ j, j ≠ i → (leftAt j h).countP (Offer.isSell sink hash) = 0) ∧
    (offersOf h).countP (Offer.isSell sink hash) + (leftAt i h).countP (Offer.isSell sink hash) ≤
      if h.any (x.took hash) = true then 1 else 0

/-- What the steps that confirm each transaction once keep. -/
structure Kept (s : ConfirmRegistry × List x.machine.Event) : Prop where
  registered : Registered x s.1
  sells : ∀ sink hash, SoldOnce sink hash s.2
  buys : ∀ hash, (s.2.any fun e => e.op.firesBuy hash) = true → ∀ i, privateBuy hash ∉ leftAt i s.2
  apart : s.2.Pairwise fun later earlier => ∀ hash, earlier.op.firesBuy hash = true →
    later.op.offers ≠ some (privateBuy hash)

/-- A task that is still to offer something has made an operation. -/
theorem not_left {offer : Offer}
    (none_ : (h.any fun e => decide (offer ∈ leftAt e.tid h)) = false) :
    offer ∉ leftAt j h := by
  apply Protocol.forall_phase (R := fun _ left => offer ∉ left)
  · exact fun e member =>
      of_decide_eq_false (Bool.eq_false_iff.2 (List.any_eq_false.1 none_ e member))
  · exact fun _ => List.not_mem_nil

/-! #### Steps that neither offer nor look up -/

/-- What makes no offer and looks nothing up, and fires no BUY that is still to be
offered as a private one. -/
theorem Kept.quiet {o : WatchOp} {a : o.Ans} {res : o.Res} (kept : Kept (registry, h))
    (registered : Registered x registry') (same : x.order.next (leftAt i h) o res = leftAt i h)
    (nothing : o.offers = none) (took : ∀ hash, x.took hash ⟨i, o, a, res⟩ = false)
    (fires : ∀ hash, o.firesBuy hash = true → ∀ j, privateBuy hash ∉ leftAt j h) :
    Kept (registry', (⟨i, o, a, res⟩ : x.machine.Event) :: h) := by
  constructor
  · exact registered
  · intro sink hash
    obtain ⟨owner, others, bound⟩ := kept.sells sink hash
    refine ⟨owner, ?_, ?_⟩
    · intro j ne
      rw [leftAt_same same]
      exact others j ne
    · rw [leftAt_same same, List.any_cons, took, Bool.false_or, offersOf_none nothing]
      exact bound
  · intro hash fired j
    rw [leftAt_same same]
    rcases Bool.or_eq_true_iff.1 (List.any_cons ▸ fired) with now | before
    · exact fires hash now j
    · exact kept.buys hash before j
  · apply List.Pairwise.cons
    · intro earlier _ hash _ offered
      rw [nothing] at offered
      cases offered
    · exact kept.apart

/-! #### An offer -/

/-- The offer that a task had next. -/
theorem Kept.offered {o : WatchOp} {a : o.Ans} {res : o.Res} {offer : Offer} {rest : List Offer}
    (kept : Kept (registry, h)) (next : leftAt i h = offer :: rest)
    (after : x.order.next (leftAt i h) o res = rest) (offers : o.offers = some offer)
    (took : ∀ hash, x.took hash ⟨i, o, a, res⟩ = false) (fires : ∀ hash, o.firesBuy hash = false) :
    Kept (registry, (⟨i, o, a, res⟩ : x.machine.Event) :: h) := by
  have own : leftAt i ((⟨i, o, a, res⟩ : x.machine.Event) :: h) = rest := leftAt_own.trans after
  have fewer : ∀ j, leftAt j ((⟨i, o, a, res⟩ : x.machine.Event) :: h) ⊆ leftAt j h := by
    intro j
    by_cases mine : j = i
    · subst mine
      rw [own, next]
      exact List.subset_cons_self offer rest
    · rw [leftAt_other mine]
      exact List.Subset.refl _
  constructor
  · exact kept.registered
  · intro sink hash
    obtain ⟨owner, others, bound⟩ := kept.sells sink hash
    refine ⟨owner, ?_, ?_⟩
    · intro j ne
      rw [List.countP_eq_zero]
      exact fun left member => List.countP_eq_zero.1 (others j ne) left (fewer j member)
    · rw [List.any_cons, took, Bool.false_or, offersOf_some offers, List.countP_cons]
      by_cases mine : owner = i
      · subst mine
        rw [next, List.countP_cons] at bound
        rw [own]
        exact (Nat.add_right_comm _ _ _).trans_le ((Nat.add_assoc _ _ _).trans_le bound)
      · have sold : offer.isSell sink hash = false := by
          have zero := others i (Ne.symm mine)
          rw [next, List.countP_eq_zero] at zero
          exact Bool.eq_false_iff.2 (zero offer List.mem_cons_self)
        rw [leftAt_other mine, sold]
        exact bound
  · intro hash fired j member
    rw [List.any_cons, fires, Bool.false_or] at fired
    exact kept.buys hash fired j (fewer j member)
  · apply List.Pairwise.cons
    · intro earlier member hash fired private_
      have same : offer = privateBuy hash := Option.some.inj (offers.symm.trans private_)
      have before := kept.buys hash (List.any_eq_true.2 ⟨earlier, member, fired⟩) i
      rw [next, same] at before
      exact before List.mem_cons_self
    · exact kept.apart

/-! #### A lookup -/

/-- What a lookup leaves to offer. -/
theorem mem_owed {found : Option PendingMeta} {offer : Offer} (member : offer ∈ x.owed hash found) :
    offer.txHash = hash ∧ x.takes hash found.isSome = true ∧
      ((∃ m, found = some m ∧ m.side = some .sell ∧ offer.side = .sell ∧
        offer.visibility = .public_) ∨
        found = none ∧ (x.confirmIndex.lookup (x.txOf hash).signer).isSome = true ∧
          (x.txOf hash).swap.map GmgnSwap.side = some offer.side) := by
  unfold owed at member
  split at member
  · split at member
    · rename_i m _ _ _ sell _
      obtain ⟨sink, wired, rfl⟩ := List.mem_map.1 member
      refine ⟨rfl, ?_, .inl ⟨m, rfl, sell, rfl, rfl⟩⟩
      rcases List.mem_filter.1 wired with ⟨listed, wired⟩
      simp only [List.mem_cons, List.not_mem_nil, or_false] at listed
      rcases listed with rfl | rfl | rfl <;> simp [takes, wired]
    · cases member
  · split at member
    · rename_i kol token known traded
      obtain ⟨sink, wired, rfl⟩ := List.mem_map.1 member
      refine ⟨rfl, ?_, .inr ⟨rfl, by simp [known], by simp [traded]⟩⟩
      rcases List.mem_filter.1 wired with ⟨listed, wired⟩
      simp only [List.mem_cons, List.not_mem_nil, or_false] at listed
      rcases listed with rfl | rfl | rfl <;> simp [takes, wired, known]
    · rename_i kol token known traded
      obtain ⟨sink, wired, rfl⟩ := List.mem_map.1 member
      refine ⟨rfl, ?_, .inr ⟨rfl, by simp [known], by simp [traded]⟩⟩
      rcases List.mem_filter.1 wired with ⟨listed, wired⟩
      simp only [List.mem_cons, List.not_mem_nil, or_false] at listed
      rcases listed with rfl | rfl <;> simp [takes, wired, known]
    · cases member

/-- To each sink at most one SELL is left to offer. -/
theorem owed_once {found : Option PendingMeta} {hash' : B256} :
    (x.owed hash found).countP (Offer.isSell sink hash') ≤ 1 := by
  have once : ∀ {sinks : List Sink} {make : Sink → Offer}, sinks.Nodup → (∀ s, (make s).sink = s) →
      ((sinks.filter x.sinks).map make).countP (Offer.isSell sink hash') ≤ 1 := by
    intro sinks make nodup own
    rw [List.countP_map]
    calc (sinks.filter x.sinks).countP (Offer.isSell sink hash' ∘ make)
        ≤ (sinks.filter x.sinks).count sink := by
          apply List.countP_mono_left
          intro s _ sells
          simp only [Function.comp, Offer.isSell, own, decide_eq_true_eq] at sells
          simp [sells.1]
      _ ≤ 1 := List.nodup_iff_count_le_one.1 (nodup.filter _) sink
  unfold owed
  split
  · split
    · exact once (by decide) fun _ => rfl
    · exact Nat.zero_le _
  · split
    · exact once (by decide) fun _ => rfl
    · exact once (by decide) fun _ => rfl
    · exact Nat.zero_le _

/-- A transaction is looked up for the first time, or not taken for a KOL's, or it is no SELL. -/
theorem Kept.lookedUp_sells {a : Unit} (kept : Kept (registry, h)) (free : leftAt i h = [])
    (inOrder : confirmsOnce i (.remove hash) a (registry, h) = true) (sink : Sink) (hash' : B256) :
    SoldOnce sink hash' ((⟨i, .remove hash, a, registry.pending hash⟩ : x.machine.Event) :: h) := by
  have own : leftAt i ((⟨i, .remove hash, a, registry.pending hash⟩ : x.machine.Event) :: h) =
      x.owed hash (registry.pending hash) := leftAt_own
  obtain ⟨owner, others, bound⟩ := kept.sells sink hash'
  by_cases sells : ∃ offer ∈ x.owed hash (registry.pending hash), offer.isSell sink hash' = true
  · obtain ⟨offer, member, sell⟩ := sells
    obtain ⟨hash_, taken, kind⟩ := mem_owed member
    obtain ⟨-, hash_', side⟩ := of_decide_eq_true sell
    obtain rfl : hash = hash' := hash_.symm.trans hash_'
    have trade : (x.txOf hash).swap.map GmgnSwap.side = some .sell := by
      rcases kind with ⟨m, found, sold, -⟩ | ⟨-, -, same⟩
      · rw [← (kept.registered hash m found).1, sold]
      · rw [same, side]
    have first : h.any (x.took hash) = false := by
      simp only [confirmsOnce, trade, taken] at inOrder
      simpa using inOrder
    have nothing : (offersOf h).countP (Offer.isSell sink hash) = 0 ∧
        (leftAt owner h).countP (Offer.isSell sink hash) = 0 := by
      simp only [first] at bound
      exact Nat.add_eq_zero_iff.1 (Nat.le_zero.1 bound)
    refine ⟨i, ?_, ?_⟩
    · intro j ne
      rw [leftAt_other ne]
      by_cases mine : j = owner
      · rw [mine]
        exact nothing.2
      · exact others j mine
    · have took : x.took hash ⟨i, .remove hash, a, registry.pending hash⟩ = true := by
        simp only [KolWatch.took, taken, decide_true, Bool.true_and]
      rw [offersOf_none rfl, nothing.1, Nat.zero_add, own, List.any_cons, took, Bool.true_or,
        if_pos rfl]
      exact owed_once
  · have none_ : (x.owed hash (registry.pending hash)).countP (Offer.isSell sink hash') = 0 :=
      List.countP_eq_zero.2 fun offer member sell => sells ⟨offer, member, sell⟩
    have same : ∀ j,
        (leftAt j ((⟨i, .remove hash, a, registry.pending hash⟩ : x.machine.Event) :: h)).countP
        (Offer.isSell sink hash') = (leftAt j h).countP (Offer.isSell sink hash') := by
      intro j
      by_cases mine : j = i
      · subst mine
        rw [own, none_, free]
        rfl
      · rw [leftAt_other mine]
    refine ⟨owner, ?_, ?_⟩
    · intro j ne
      rw [same]
      exact others j ne
    · rw [offersOf_none rfl, same]
      apply bound.trans
      split
      · rename_i before
        have grown : ((⟨i, .remove hash, a, registry.pending hash⟩ : x.machine.Event) :: h).any
            (x.took hash') =
            true := List.any_cons.trans (Bool.or_eq_true_iff.2 (.inr before))
        rw [if_pos grown]
      · exact Nat.zero_le _

/-- A transaction is looked up. -/
theorem Kept.lookedUp {a : Unit} (kept : Kept (registry, h)) (free : leftAt i h = [])
    (inOrder : confirmsOnce i (.remove hash) a (registry, h) = true) :
    Kept (registry.remove hash, (⟨i, .remove hash, a, registry.pending hash⟩ : x.machine.Event) ::
      h) := by
  constructor
  · intro other m found
    simp only [ConfirmRegistry.remove, Function.update_apply] at found
    split at found
    · cases found
    · exact kept.registered other m found
  · exact kept.lookedUp_sells free inOrder
  · intro hash' fired j member
    have before : (h.any fun e => e.op.firesBuy hash') = true := fired
    by_cases mine : j = i
    · subst mine
      rw [leftAt_own] at member
      obtain ⟨hash_, -, kind⟩ := mem_owed member
      obtain rfl : hash' = hash := hash_
      rcases kind with ⟨m, -, -, sell, -⟩ | ⟨none_, known, trade⟩
      · cases sell
      · rw [confirmsOnce, trade, none_] at inOrder
        obtain ⟨kol, lookup⟩ := Option.isSome_iff_exists.1 known
        obtain ⟨e, past, fires⟩ := List.any_eq_true.1 before
        simp only [privateBuy, lookup] at inOrder
        have quiet := List.any_eq_false.1 (by simpa using inOrder) e past
        exact absurd fires quiet
    · rw [leftAt_other mine] at member
      exact kept.buys hash' before j member
  · apply List.Pairwise.cons
    · intro earlier _ _ _ offered
      cases offered
    · exact kept.apart

/-! #### All steps -/

/-- A hit that is offered as confirmed was not fired while it was pending. -/
theorem not_fires {sink : Sink} {hit : KolHit} {offer : Offer}
    (offers : (WatchOp.trySend sink hit).offers = some offer) (hash : B256) :
    (WatchOp.trySend sink hit).firesBuy hash = false := by
  cases block : hit.confirmedBlock with
  | none => simp [WatchOp.offers, block] at offers
  | some n => cases sink <;> simp [WatchOp.firesBuy, block]

theorem fires_hash {sink : Sink} {hit : KolHit} {hash : B256}
    (fires : (WatchOp.trySend sink hit).firesBuy hash = true) : hit.txHash = hash := by
  cases sink with
  | live => exact (of_decide_eq_true fires).1
  | telegram | trader | private_ => cases fires

theorem kept_trySend {sink : Sink} {hit : KolHit} {a res : TrySend} (kept : Kept (registry, h))
    (allowed : x.order.allows (leftAt i h) (.trySend sink hit))
    (inOrder : confirmsOnce i (.trySend sink hit) a (registry, h) = true) :
    Kept (registry, (⟨i, .trySend sink hit, a, res⟩ : x.machine.Event) :: h) := by
  cases offers : (WatchOp.trySend sink hit).offers with
  | none =>
      apply kept.quiet kept.registered
      · change (if _ then _ else _) = _
        rw [offers]
        rfl
      · exact offers
      · exact fun _ => rfl
      · intro hash fires j
        obtain rfl : hit.txHash = hash := fires_hash fires
        rw [confirmsOnce, fires] at inOrder
        exact not_left (by simpa using inOrder)
  | some offer =>
      have head : (leftAt i h).head? = some offer := allowed offer offers
      obtain ⟨rest, next⟩ := List.head?_eq_some_iff.1 head
      apply kept.offered next
      · change (if _ then _ else _) = _
        rw [offers, next]
        rfl
      · exact offers
      · exact fun _ => rfl
      · exact not_fires offers

theorem kept_step {o : WatchOp} {a : o.Ans} {out : Outcome ConfirmRegistry WatchTask o.Res}
    (kept : Kept (registry, h)) (allowed : x.order.allows (leftAt i h) o)
    (inOrder : confirmsOnce i o a (registry, h) = true) (did : o.exec x a registry = some out) :
    Kept (out.shared, (⟨i, o, a, out.res⟩ : x.machine.Event) :: h) := by
  cases o with
  | unixNowNs =>
      cases did
      apply kept.quiet kept.registered rfl rfl fun _ => rfl
      intro hash fires
      cases fires
  | register hash entry =>
      cases did
      apply kept.quiet _ rfl rfl fun _ => rfl
      · intro hash fires
        cases fires
      · intro other m found
        simp only [ConfirmRegistry.register, Function.update_apply] at found
        split at found
        · rename_i same
          obtain rfl : entry = m := Option.some.inj found
          rw [same]
          exact allowed
        · exact kept.registered other m found
  | remove hash =>
      cases did
      exact kept.lookedUp allowed inOrder
  | retainShard shard now =>
      cases did
      apply kept.quiet _ rfl rfl fun _ => rfl
      · intro hash fires
        cases fires
      · intro hash m found
        simp only [ConfirmRegistry.retain] at found
        split at found
        · exact kept.registered hash m (Option.filter_eq_some_iff.1 found).1
        · exact kept.registered hash m found
  | getBlockByHash blockHash =>
      cases did
      apply kept.quiet kept.registered rfl rfl fun _ => rfl
      intro hash fires
      cases fires
  | trySend sink hit =>
      cases did
      exact kept_trySend kept allowed inOrder

theorem kept_start : Kept (({}, []) : ConfirmRegistry × List x.machine.Event) := by
  constructor
  · intro hash m none_
    cases none_
  · intro sink hash
    exact ⟨0, fun _ _ => rfl, Nat.le_refl 0⟩
  · intro hash fired
    cases fired
  · exact List.Pairwise.nil

end KolWatch

open KolWatch in
/-- In every run of both watchers in which each transaction is confirmed once: the confirmation
watcher offers the SELL of a transaction to a sink once at most, and never offers to the live sink,
as a private BUY, a BUY that was fired to it before while it was pending. -/
theorem one_confirmation (x : KolWatch) (tasks : List WatchTask)
    (c : Config WatchSig (ConfirmRegistry × List x.machine.Event) WatchTask Unit)
    (run : x.machine.recording.Run (fun i o a s => confirmsOnce i o a s)
      (x.machine.recording.start ({}, []) tasks) c) :
    (∀ sink hash, (offersOf c.shared.2).countP (Offer.isSell sink hash) ≤ 1) ∧
      c.shared.2.Pairwise fun later earlier => ∀ hash, earlier.op.firesBuy hash = true →
        later.op.offers ≠ some (privateBuy hash) := by
  have kept : Kept c.shared := by
    apply Machine.invariant_of_obeyed (I := Kept) body_obeys _ run kept_start
    intro i fresh t o a s out kept _ allowed meets did
    exact kept_step kept allowed meets did
  constructor
  · intro sink hash
    obtain ⟨owner, -, bound⟩ := kept.sells sink hash
    calc (offersOf c.shared.2).countP (Offer.isSell sink hash)
        ≤ if c.shared.2.any (x.took hash) = true then 1 else 0 := (Nat.le_add_right _ _).trans bound
      _ ≤ 1 := by split <;> simp
  · exact kept.apart

/-! ### A block that is replaced -/

/-- Calldata of the router with one word, a token. -/
def tradeInput : List UInt8 := GMGN_SELECTOR ++ List.replicate 12 0 ++ 1 :: List.replicate 19 0

/-- The wallet "A" buys in the transaction 1 and sells in the transaction 2.  Both are in the block
10, and in the block 11 of the same height. -/
def replacedBlock : KolWatch where
  index := { byAddress := fun addr => if addr = 0xA#160 then some { name := "A" } else none }
  confirmIndex := { byAddress := fun addr => if addr = 0xA#160 then some { name := "A" } else none }
  sinks sink := sink != .telegram
  txOf hash := {
    signer := 0xA#160
    to_ := some GMGN_ROUTER
    input := tradeInput
    value := if hash = 1#256 then 1 else 0 }
  blockOf blockHash := if blockHash = 10#256 ∨ blockHash = 11#256 then [1#256, 2#256] else []
  shards := 1
  shardOf _ := 0

/-- Every block is fetched and every sink takes its hits. -/
def delivered : (o : WatchOp) → o.Ans
  | .unixNowNs => (0 : Nat)
  | .getBlockByHash _ => true
  | .trySend .. => TrySend.sent
  | .register .. => ()
  | .remove _ => ()
  | .retainShard .. => ()

open KolWatch in
theorem one_confirmation_once :
    ∃ c, replacedBlock.machine.recording.Run (fun i o a s => confirmsOnce i o a s)
        (replacedBlock.machine.recording.start ({}, [])
          [.pending 1#256 0 "ws" none, .pending 2#256 0 "ws" none, .head 10#256 100]) c ∧
      c.Quiet ∧ (offersOf c.shared.2).countP (Offer.isSell .live 2#256) = 1 ∧
      (∀ sink hash, (offersOf c.shared.2).countP (Offer.isSell sink hash) ≤ 1) ∧
      c.shared.2.Pairwise fun later earlier => ∀ hash, earlier.op.firesBuy hash = true →
        later.op.offers ≠ some (privateBuy hash) := by
  obtain ⟨c, run, quiet, sold⟩ : ∃ c, replacedBlock.machine.recording.Run
      (fun i o a s => confirmsOnce i o a s)
        (replacedBlock.machine.recording.start ({}, [])
          [.pending 1#256 0 "ws" none, .pending 2#256 0 "ws" none, .head 10#256 100]) c ∧
      c.Quiet ∧ (offersOf c.shared.2).countP (Offer.isSell .live 2#256) = 1 :=
    Machine.exists_run_of_follow [(0, 4, delivered), (1, 4, delivered), (2, 6, delivered)]
      (by decide +kernel)
  exact ⟨c, run, quiet, sold, one_confirmation replacedBlock _ c run⟩

open KolWatch in
/-- Both transactions are seen pending and then confirmed in the block 10, which the block 11
replaces: the SELL is offered twice to every sink, and the BUY, which was fired while it was
pending, is offered as a private one. -/
theorem confirmed_again :
    ∃ c, replacedBlock.machine.recording.Run replacedBlock.machine.recording.anyStep
        (replacedBlock.machine.recording.start ({}, [])
          [.pending 1#256 0 "ws" none, .pending 2#256 0 "ws" none, .head 10#256 100,
            .head 11#256 100]) c ∧
      c.Quiet ∧
      (∀ sink ∈ [Sink.trader, .private_, .live],
        (offersOf c.shared.2).countP (Offer.isSell sink 2#256) = 2) ∧
      ¬ c.shared.2.Pairwise fun later earlier => ∀ hash, earlier.op.firesBuy hash = true →
        later.op.offers ≠ some (privateBuy hash) := by
  obtain ⟨c, run, quiet, sold, again⟩ : ∃ c,
      replacedBlock.machine.recording.Run replacedBlock.machine.recording.anyStep
        (replacedBlock.machine.recording.start ({}, [])
          [.pending 1#256 0 "ws" none, .pending 2#256 0 "ws" none, .head 10#256 100,
            .head 11#256 100]) c ∧
      c.Quiet ∧
      (∀ sink ∈ [Sink.trader, .private_, .live],
        (offersOf c.shared.2).countP (Offer.isSell sink 2#256) = 2) ∧
      ¬ c.shared.2.Pairwise fun later earlier => earlier.op.firesBuy 1#256 = true →
        later.op.offers ≠ some (privateBuy 1#256) :=
    Machine.exists_run_of_follow (C := replacedBlock.machine.recording.anyStep)
      [(0, 4, delivered), (1, 4, delivered), (2, 6, delivered), (3, 8, delivered)]
        (by decide +kernel)
  exact ⟨c, run, quiet, sold, fun apart => again (apart.imp fun never => never 1#256)⟩

end BscMempool.Watch
