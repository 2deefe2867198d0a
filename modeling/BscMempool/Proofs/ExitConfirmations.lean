/-
Module: BscMempool.Proofs.ExitConfirmations
Layer: Proofs
Purpose: What the confirmation watcher offers of a block, whatever the pending watcher has
  registered by then. The SELL of each KOL transaction of the block goes once to every sink, the
  same hit but for its visibility on both paths, and nothing is offered of other transactions.
Trusted boundary: none
Main exports: Confirmation, KolWatch.confirmation, KolWatch.due, KolWatch.exitHit,
  KolWatch.ExitsAgree, confirmed_exits_agree
-/
import BscMempool.Proofs.OneConfirmation

namespace BscMempool.Watch

open Concurrent (Tid Machine Outcome Proc Protocol Config)
open Concurrent.Proc
open Trader (Address B256)

/-- What a task has fetched, looked up and offered so far, in this order each. -/
structure Confirmation where
  fetched : Option (List B256) := none
  lookups : List (B256 × Option PendingMeta) := []
  hits : List (Sink × KolHit) := []

/-- The hits offered to one sink. -/
def Confirmation.to_ (made : Confirmation) (sink : Sink) : List KolHit :=
  (made.hits.filter fun offered => offered.1 = sink).map Prod.snd

def KolHit.isSell (hit : KolHit) : Bool := decide (hit.side = some .sell)

/-- The hit without the channel it was observed on. -/
def KolHit.anyVisibility (hit : KolHit) : KolHit := { hit with visibility := .public_ }

/-- Some more hits were offered. -/
def Confirmation.offer (made : Confirmation) (hits : List (Sink × KolHit)) : Confirmation :=
  { made with hits := made.hits ++ hits }

theorem Confirmation.offer_nil (made : Confirmation) : made.offer [] = made := by simp [offer]

theorem Confirmation.offer_offer (made : Confirmation) (hits more : List (Sink × KolHit)) :
    (made.offer hits).offer more = made.offer (hits ++ more) := by simp [offer]

/-- The three sinks of the confirmation watcher. -/
def exitSinks : List Sink := [.trader, .private_, .live]

namespace KolWatch

variable (x : KolWatch)

/-- What the pending watcher registers of a transaction: a trade of a KOL's, by its bytes. -/
def Registers (hash : B256) (m : PendingMeta) : Prop :=
  ∃ kol swap, x.index.lookup (x.txOf hash).signer = some kol ∧ (x.txOf hash).swap = some swap ∧
    m.kolName = kol.name ∧ m.side = some swap.side ∧ m.token = some swap.token

/-- The tasks register trades of KOLs only; what a task does is written down. -/
def confirmation : Protocol WatchSig Confirmation where
  allows
    | _, .register hash entry => x.Registers hash entry
    | _, _ => True
  next
    | made, .getBlockByHash _, fetched => { made with fetched := fetched }
    | made, .remove hash, found => { made with lookups := made.lookups ++ [(hash, found)] }
    | made, .trySend sink hit, _ => { made with hits := made.hits ++ [(sink, hit)] }
    | made, _, _ => made

/-- What is to be offered of a transaction after its lookup. -/
def due (blockNumber : Nat) : B256 × Option PendingMeta → List (Sink × KolHit)
  | (hash, some m) =>
      match m.side, m.token with
      | some .sell, some token => ([.trader, .private_, .live].filter x.sinks).map
          (·, confirmedHit m.kolName hash (x.txOf hash) .sell token blockNumber .public_)
      | _, _ => []
  | (hash, none) =>
      match x.confirmIndex.lookup (x.txOf hash).signer, (x.txOf hash).swap with
      | some kol, some ⟨token, .sell⟩ => ([.private_, .trader, .live].filter x.sinks).map
          (·, confirmedHit kol.name hash (x.txOf hash) .sell token blockNumber .private_)
      | some kol, some ⟨token, .buy⟩ => ([.private_, .live].filter x.sinks).map
          (·, confirmedHit kol.name hash (x.txOf hash) .buy token blockNumber .private_)
      | _, _ => []

/-- The exit a transaction stands for: the SELL of a KOL. -/
def exitHit (blockNumber : Nat) (hash : B256) : Option KolHit :=
  match x.index.lookup (x.txOf hash).signer, (x.txOf hash).swap with
  | some kol, some ⟨token, .sell⟩ =>
      some (confirmedHit kol.name hash (x.txOf hash) .sell token blockNumber .public_)
  | _, _ => none

/-- What has to be offered of the transactions of a block: to each sink, in their order, the exits
    among them; and nothing of what is no trade or no KOL's. -/
structure ExitsAgree (blockNumber : Nat) (txns : List B256) (made : Confirmation) : Prop where
  exits : ∀ sink ∈ exitSinks, x.sinks sink = true →
    ((made.to_ sink).filter KolHit.isSell).map KolHit.anyVisibility =
      txns.filterMap (x.exitHit blockNumber)
  trades : ∀ offered ∈ made.hits, offered.2.txHash ∈ txns ∧
    (x.index.lookup (x.txOf offered.2.txHash).signer).isSome ∧ (x.txOf offered.2.txHash).swap.isSome

end KolWatch

/-- Some more transactions were looked up, and what was due of them offered. -/
def Confirmation.handle (made : Confirmation) (x : KolWatch) (blockNumber : Nat)
    (lookups : List (B256 × Option PendingMeta)) : Confirmation :=
  { made with
    lookups := made.lookups ++ lookups
    hits := made.hits ++ lookups.flatMap (x.due blockNumber) }

namespace KolWatch

/-! ### What a task does -/

variable {x : KolWatch}

/-- A hit offered to a sink is written down if the sink is configured. -/
theorem offer_makes {hit : KolHit} {sink : Sink} {made : Confirmation} :
    (x.offer sink hit).Obeys x.confirmation (fun made' _ =>
      made' = made.offer (([sink].filter x.sinks).map (·, hit)))
      made := by
  unfold offer
  split
  · rename_i wired
    apply Obeys.call trivial
    intro answer
    rw [List.filter_cons_of_pos wired]
    exact rfl
  · rename_i unwired
    rw [List.filter_cons_of_neg unwired]
    exact (made.offer_nil).symm

/-- The hits of a SELL that was pending. -/
theorem confirmPublic_makes (blockNumber : Nat) (hash : B256) (m : PendingMeta)
    (made : Confirmation) :
    (x.confirmPublic blockNumber hash m).Obeys x.confirmation
      (fun made' _ => made' = made.offer (x.due blockNumber (hash, some m))) made := by
  obtain ⟨kolName, side, token, firstSeenNs, registeredNs, seenBlock, msIntoBlock⟩ := m
  rcases side with none_ | ⟨_ | _⟩
  · exact made.offer_nil.symm
  · exact made.offer_nil.symm
  cases token with
  | none => exact made.offer_nil.symm
  | some token =>
      apply offer_makes.bind
      rintro _ _ rfl
      apply offer_makes.bind
      rintro _ _ rfl
      apply offer_makes.mono
      rintro _ _ rfl
      rw [Confirmation.offer_offer, Confirmation.offer_offer, ← List.map_append, ← List.map_append,
        ← List.filter_append,
        ← List.filter_append]
      rfl

/-- The hits of a trade that was not pending. -/
theorem confirmPrivate_makes (blockNumber : Nat) {hash : B256} {kol : Kol}
    (known : x.confirmIndex.lookup (x.txOf hash).signer = some kol) (made : Confirmation) :
    (x.confirmPrivate blockNumber hash kol).Obeys x.confirmation
      (fun made' _ => made' = made.offer (x.due blockNumber (hash, none))) made := by
  unfold confirmPrivate
  simp only [due, known]
  cases (x.txOf hash).swap with
  | none => exact made.offer_nil.symm
  | some g =>
      obtain ⟨token, side⟩ := g
      cases side with
      | sell =>
          apply offer_makes.bind
          rintro _ _ rfl
          apply offer_makes.bind
          rintro _ _ rfl
          apply offer_makes.mono
          rintro _ _ rfl
          rw [Confirmation.offer_offer, Confirmation.offer_offer, ← List.map_append,
            ← List.map_append,
            ← List.filter_append, ← List.filter_append]
          rfl
      | buy =>
          apply offer_makes.bind
          rintro _ _ rfl
          apply offer_makes.mono
          rintro _ _ rfl
          rw [Confirmation.offer_offer, ← List.map_append, ← List.filter_append]
          rfl

/-- A transaction is looked up, and what is due is offered. -/
theorem confirmTxn_makes (blockNumber : Nat) (hash : B256) (made : Confirmation) :
    (x.confirmTxn blockNumber hash).Obeys x.confirmation
      (fun made' _ => ∃ found, made' = made.handle x blockNumber [(hash, found)]) made := by
  apply Obeys.call trivial
  intro found
  change Obeys x.confirmation _ { made with lookups := made.lookups ++ [(hash, found)] } _
  cases found with
  | some m =>
      apply (confirmPublic_makes blockNumber hash m _).mono
      rintro _ _ rfl
      exact ⟨some m, by simp [Confirmation.handle, Confirmation.offer]⟩
  | none =>
      cases known : x.confirmIndex.lookup (x.txOf hash).signer with
      | none => exact ⟨none, by simp [Confirmation.handle, due, known]⟩
      | some kol =>
          apply (confirmPrivate_makes blockNumber known _).mono
          rintro _ _ rfl
          exact ⟨none, by simp [Confirmation.handle, Confirmation.offer]⟩

/-- The transactions of a block are handled in their order. -/
theorem confirmTxns_makes (blockNumber : Nat) (txns : List B256) (made : Confirmation) :
    (x.confirmTxns blockNumber txns).Obeys x.confirmation
      (fun made' _ => ∃ lookups, lookups.map Prod.fst = txns ∧
        made' = made.handle x blockNumber lookups) made := by
  induction txns generalizing made with
  | nil => exact ⟨[], rfl, by simp [Confirmation.handle]⟩
  | cons hash rest ih =>
      apply (confirmTxn_makes blockNumber hash made).bind
      rintro _ _ ⟨found, rfl⟩
      apply (ih _).mono
      rintro _ _ ⟨lookups, handled, rfl⟩
      exact ⟨(hash, found) :: lookups, by rw [List.map_cons, handled],
        by simp [Confirmation.handle]⟩

/-- What a head has done when it is through. -/
def HeadMade (x : KolWatch) (blockNumber : Nat) (made : Confirmation) : Prop :=
  match made.fetched with
  | none => made.hits = []
  | some txns =>
      made.lookups.map Prod.fst = txns ∧ made.hits = made.lookups.flatMap (x.due blockNumber)

/-- What a task has done when it is through. -/
def TaskMade (x : KolWatch) (t : WatchTask) (made : Confirmation) (_ : Unit) : Prop :=
  match t with
  | .head _ blockNumber => HeadMade x blockNumber made
  | _ => True

theorem processBlock_makes (blockHash : B256) (blockNumber : Nat) :
    (x.processBlock blockHash blockNumber).Obeys x.confirmation
      (fun made _ => HeadMade x blockNumber made) {} := by
  apply Obeys.call trivial
  intro fetched
  cases fetched with
  | none => exact rfl
  | some txns =>
      apply (confirmTxns_makes blockNumber txns { fetched := some txns }).mono
      rintro _ _ ⟨lookups, handled, rfl⟩
      exact ⟨by simpa [Confirmation.handle] using handled, by simp [Confirmation.handle]⟩

/-- What is registered of a pending transaction is what the index and its bytes say. -/
theorem registers_fromPending {p : PendingTx} (own : p.tx = x.txOf p.hash)
    (sender : p.from_ = (x.txOf p.hash).signer)
    {kol : Kol} (known : x.index.lookup p.from_ = some kol) {side : Side}
    (traded : (KolHit.fromPending kol p).side = some side) {m : PendingMeta}
    (name : m.kolName = kol.name)
    (itsSide : m.side = some side) (itsToken : m.token = (KolHit.fromPending kol p).token) :
    x.Registers p.hash m := by
  obtain ⟨swap, decoded, sameSide⟩ := Option.map_eq_some_iff.mp traded
  refine ⟨kol, swap, by rw [← sender, known], by rw [← own, decoded], name,
    by rw [itsSide, sameSide], ?_⟩
  rw [itsToken]
  change p.tx.swap.map GmgnSwap.token = some swap.token
  rw [decoded, Option.map_some]

theorem processOne_makes {p : PendingTx} (own : p.tx = x.txOf p.hash)
    (sender : p.from_ = (x.txOf p.hash).signer)
    (made : Confirmation) : (x.processOne p).Obeys x.confirmation (fun _ _ => True) made := by
  unfold processOne
  split
  · trivial
  · rename_i kol known
    have fired : ∀ made, (x.fireHit (KolHit.fromPending kol p)).Obeys x.confirmation
        (fun _ _ => True) made := by
      intro made
      apply offer_makes.bind
      rintro _ _ rfl
      apply offer_makes.bind
      rintro _ _ rfl
      exact offer_makes.mono fun _ _ _ => trivial
    cases traded : (KolHit.fromPending kol p).side with
    | none =>
        simp only [traded]
        exact fired made
    | some side =>
        simp only [traded]
        apply Obeys.call trivial
        intro nowNs
        apply Obeys.call
        · exact registers_fromPending own sender known traded rfl rfl rfl
        · exact fun _ => fired _

theorem sweepShards_makes (now : Nat) (shards : List Nat) (made : Confirmation) :
    (sweepShards now shards).Obeys x.confirmation (fun _ _ => True) made := by
  induction shards generalizing made with
  | nil => trivial
  | cons shard rest ih => exact Obeys.call trivial fun _ => ih _

theorem body_makes (t : WatchTask) : (x.machine.body t).Obeys x.confirmation (TaskMade x t) {} := by
  cases t with
  | pending hash firstSeenNs sourceSeen blockContext => exact processOne_makes rfl rfl _
  | head blockHash blockNumber => exact processBlock_makes blockHash blockNumber
  | tick =>
      apply Obeys.call trivial
      intro now
      exact sweepShards_makes now _ _

/-! ### What is found in the registry -/

/-- What the task at `i` has done. -/
def doneBy (i : Tid) (h : List x.machine.Event) : Confirmation := x.confirmation.phase i {} h

theorem doneBy_own {i : Tid} {h : List x.machine.Event} {o : WatchOp} {a : o.Ans} {res : o.Res} :
    doneBy i ((⟨i, o, a, res⟩ : x.machine.Event) :: h) = x.confirmation.next (doneBy i h) o res :=
  Protocol.phase_own rfl

theorem doneBy_other {i j : Tid} (ne : j ≠ i) {h : List x.machine.Event} {o : WatchOp} {a : o.Ans}
    {res : o.Res} :
    doneBy j ((⟨i, o, a, res⟩ : x.machine.Event) :: h) = doneBy j h :=
  Protocol.phase_other (Ne.symm ne)

/-- All entries, those in the registry and those that were found there, are what the
pending watcher registers. -/
def Sourced (s : ConfirmRegistry × List x.machine.Event) : Prop :=
  (∀ hash m, s.1.pending hash = some m → x.Registers hash m) ∧
    ∀ i hash m, (hash, some m) ∈ (doneBy i s.2).lookups → x.Registers hash m

theorem sourced_start : Sourced (({}, []) : ConfirmRegistry × List x.machine.Event) := by
  constructor
  · intro hash m found
    cases found
  · intro i hash m found
    cases found

/-- A step that looks nothing up keeps the entries found, if those in the registry
are sourced after it. -/
theorem Sourced.quiet {registry registry' : ConfirmRegistry} {h : List x.machine.Event} {i : Tid}
    {o : WatchOp} {a : o.Ans} {res : o.Res} (sourced : Sourced (registry, h))
    (entries : ∀ hash m, registry'.pending hash = some m → x.Registers hash m)
    (same : ∀ made, (x.confirmation.next made o res).lookups = made.lookups) :
    Sourced (registry', (⟨i, o, a, res⟩ : x.machine.Event) :: h) := by
  refine ⟨entries, ?_⟩
  intro j hash m found
  change (hash, some m) ∈ (doneBy j ((⟨i, o, a, res⟩ : x.machine.Event) :: h)).lookups at found
  by_cases own : j = i
  · subst own
    rw [doneBy_own, same] at found
    exact sourced.2 j hash m found
  · rw [doneBy_other own] at found
    exact sourced.2 j hash m found

theorem sourced_step {i : Tid} {o : WatchOp} {a : o.Ans} {registry : ConfirmRegistry}
    {h : List x.machine.Event}
    {out : Outcome ConfirmRegistry WatchTask o.Res} (sourced : Sourced (registry, h))
    (allowed : x.confirmation.allows (doneBy i h) o) (did : o.exec x a registry = some out) :
    Sourced (out.shared, (⟨i, o, a, out.res⟩ : x.machine.Event) :: h) := by
  cases o with
  | unixNowNs =>
      cases did
      exact sourced.quiet sourced.1 fun _ => rfl
  | register hash entry =>
      cases did
      apply sourced.quiet _ fun _ => rfl
      intro other m found
      simp only [ConfirmRegistry.register, Function.update_apply] at found
      split at found
      · rename_i same
        obtain rfl : entry = m := Option.some.inj found
        rw [same]
        exact allowed
      · exact sourced.1 other m found
  | remove hash =>
      cases did
      constructor
      · intro other m found
        simp only [ConfirmRegistry.remove, Function.update_apply] at found
        split at found
        · cases found
        · exact sourced.1 other m found
      · intro j other m found
        change (other, some m) ∈
          (doneBy j ((⟨i, .remove hash, a, registry.pending hash⟩ : x.machine.Event) :: h)).lookups
            at found
        by_cases own : j = i
        · subst own
          rw [doneBy_own] at found
          rcases List.mem_append.mp found with before | now
          · exact sourced.2 j other m before
          · -- what is found now was in the registry
            have same := List.mem_singleton.mp now
            injection same with sameHash entry
            rw [sameHash]
            exact sourced.1 hash m entry.symm
        · rw [doneBy_other own] at found
          exact sourced.2 j other m found
  | retainShard shard now =>
      cases did
      apply sourced.quiet _ fun _ => rfl
      intro hash m found
      simp only [ConfirmRegistry.retain] at found
      split at found
      · exact sourced.1 hash m (Option.filter_eq_some_iff.1 found).1
      · exact sourced.1 hash m found
  | getBlockByHash blockHash =>
      cases did
      exact sourced.quiet sourced.1 fun _ => rfl
  | trySend sink hit =>
      cases did
      exact sourced.quiet sourced.1 fun _ => rfl

/-! ### Both paths -/

/-- A hit that goes to some sinks, each once, goes once to each of them that is configured. -/
theorem once_to_each {sinks : List Sink} (hit : KolHit) {sink : Sink} (once : sinks.count sink = 1)
    (wired : x.sinks sink = true) :
    (((sinks.filter x.sinks).map (·, hit)).filter fun offered => offered.1 = sink).map Prod.snd =
      [hit] := by
  have only : (sinks.filter x.sinks).filter (fun s => decide (s = sink)) = [sink] := by
    have swapped : (sinks.filter fun s => decide (s = sink)) = [sink] := by
      rw [List.filter_eq, once]
      rfl
    rw [List.filter_comm, swapped, List.filter_cons_of_pos wired]
    rfl
  rw [List.filter_map]
  change (((sinks.filter x.sinks).filter fun s => decide (s = sink)).map (·, hit)).map
      Prod.snd = [hit]
  rw [only]
  rfl

/-- A hit that is no SELL leaves no exit. -/
theorem no_exits {hits : List (Sink × KolHit)} (none_ : ∀ offered ∈ hits, offered.2.isSell = false)
    (sink : Sink) :
    ((hits.filter fun offered => offered.1 = sink).map Prod.snd).filter KolHit.isSell = [] := by
  apply List.filter_eq_nil_iff.mpr
  intro hit member
  obtain ⟨offered, found, rfl⟩ := List.mem_map.mp member
  rw [none_ offered (List.mem_of_mem_filter found)]
  simp

/-- The exits that are due to a sink of one transaction, whichever path it takes. -/
theorem due_exits (sameIndex : x.confirmIndex = x.index) (blockNumber : Nat) {hash : B256}
    {found : Option PendingMeta}
    (sourced : ∀ m, found = some m → x.Registers hash m) {sink : Sink} (isExit : sink ∈ exitSinks)
    (wired : x.sinks sink = true) :
    ((((x.due blockNumber (hash, found)).filter fun offered => offered.1 = sink).map
      Prod.snd).filter
      KolHit.isSell).map KolHit.anyVisibility = (x.exitHit blockNumber hash).toList := by
  cases found with
  | some m =>
      obtain ⟨kol, ⟨token, side⟩, known, decoded, name, itsSide, itsToken⟩ := sourced m rfl
      cases side with
      | buy => simp [due, exitHit, itsSide, known, decoded]
      | sell =>
          have once : [Sink.trader, .private_, .live].count sink = 1 := by
            revert isExit
            cases sink <;> decide
          simp only [due, itsSide, itsToken]
          rw [once_to_each _ once wired]
          simp [exitHit, known, decoded, name, confirmedHit, KolHit.isSell, KolHit.anyVisibility]
  | none =>
      simp only [due, sameIndex]
      cases known : x.index.lookup (x.txOf hash).signer with
      | none => simp [exitHit, known]
      | some kol =>
          cases decoded : (x.txOf hash).swap with
          | none => simp [exitHit, decoded]
          | some swap =>
              obtain ⟨token, side⟩ := swap
              cases side with
              | buy =>
                  have none_ : ∀ offered ∈ ([Sink.private_, .live].filter x.sinks).map
                      (·, confirmedHit kol.name hash (x.txOf hash) .buy token blockNumber
                        .private_),
                      offered.2.isSell = false := by
                    intro offered member
                    obtain ⟨s, -, rfl⟩ := List.mem_map.mp member
                    rfl
                  simp only
                  rw [no_exits none_]
                  simp [exitHit, known, decoded]
              | sell =>
                  have once : [Sink.private_, .trader, .live].count sink = 1 := by
                    revert isExit
                    cases sink <;> decide
                  simp only
                  rw [once_to_each _ once wired]
                  simp [exitHit, known, decoded, confirmedHit, KolHit.isSell, KolHit.anyVisibility]

/-- Only trades of KOLs are due. -/
theorem due_trades (sameIndex : x.confirmIndex = x.index) (blockNumber : Nat) {hash : B256}
    {found : Option PendingMeta}
    (sourced : ∀ m, found = some m → x.Registers hash m) {offered : Sink × KolHit}
    (member : offered ∈ x.due blockNumber (hash, found)) :
    offered.2.txHash = hash ∧ (x.index.lookup (x.txOf hash).signer).isSome ∧
    (x.txOf hash).swap.isSome := by
  cases found with
  | some m =>
      obtain ⟨kol, ⟨token, side⟩, known, decoded, name, itsSide, itsToken⟩ := sourced m rfl
      cases side with
      | buy => simp [due, itsSide] at member
      | sell =>
          simp only [due, itsSide, itsToken] at member
          obtain ⟨s, -, rfl⟩ := List.mem_map.mp member
          exact ⟨rfl, by rw [known]; rfl, by rw [decoded]; rfl⟩
  | none =>
      simp only [due, sameIndex] at member
      cases known : x.index.lookup (x.txOf hash).signer with
      | none => simp [known] at member
      | some kol =>
          cases decoded : (x.txOf hash).swap with
          | none => simp [known, decoded] at member
          | some swap =>
              obtain ⟨token, side⟩ := swap
              cases side with
              | buy =>
                  simp only [known, decoded] at member
                  obtain ⟨s, -, rfl⟩ := List.mem_map.mp member
                  exact ⟨rfl, rfl, rfl⟩
              | sell =>
                  simp only [known, decoded] at member
                  obtain ⟨s, -, rfl⟩ := List.mem_map.mp member
                  exact ⟨rfl, rfl, rfl⟩

/-- What a head has offered when it is through. -/
theorem exitsAgree_of_made (sameIndex : x.confirmIndex = x.index) {blockNumber : Nat}
    {made : Confirmation} (sourced : ∀ hash m, (hash, some m) ∈ made.lookups → x.Registers hash m)
    (hits : made.hits = made.lookups.flatMap (x.due blockNumber)) :
    x.ExitsAgree blockNumber (made.lookups.map Prod.fst) made := by
  constructor
  · intro sink isExit wired
    rw [Confirmation.to_, hits, List.filter_flatMap, List.map_flatMap, List.filter_flatMap,
      List.map_flatMap,
      List.filterMap_map]
    generalize made.lookups = lookups at sourced
    induction lookups with
    | nil => rfl
    | cons lookup rest ih =>
        obtain ⟨hash, found⟩ := lookup
        have first := @due_exits x sameIndex blockNumber hash found
          (fun m same => sourced hash m (by rw [same]; exact List.mem_cons_self)) sink isExit wired
        rw [List.flatMap_cons, first, ih fun hash m member =>
          sourced hash m (List.mem_cons_of_mem _ member)]
        cases exit_ : x.exitHit blockNumber hash <;> simp [exit_]
  · intro offered member
    rw [hits, List.mem_flatMap] at member
    obtain ⟨⟨hash, found⟩, looked, own⟩ := member
    obtain ⟨same, known, decoded⟩ :=
      due_trades sameIndex blockNumber (fun m isM => sourced hash m (isM ▸ looked)) own
    rw [same]
    exact ⟨List.mem_map.mpr ⟨_, looked, rfl⟩, known, decoded⟩

end KolWatch

open KolWatch in
/-- In every run of both watchers, the indexes the same, whatever was registered, swept or
    looked up before: a head that is through has offered nothing if its block was not
    fetched, and else exactly the exits of the block to each configured sink, and nothing of
    what is no trade or no KOL's. -/
theorem confirmed_exits_agree (x : KolWatch) (sameIndex : x.confirmIndex = x.index)
    (tasks : List WatchTask)
    (c : Config WatchSig (ConfirmRegistry × List x.machine.Event) WatchTask Unit)
    (run : x.machine.recording.Run x.machine.recording.anyStep
      (x.machine.recording.start ({}, []) tasks) c) (i : Tid)
    (blockHash : B256) (blockNumber : Nat) (runs : c.taskAt i = some (.head blockHash blockNumber))
    (through : c.returned i = some ()) :
    match (doneBy i c.shared.2).fetched with
    | none => (doneBy i c.shared.2).hits = []
    | some txns => x.ExitsAgree blockNumber txns (doneBy i c.shared.2) := by
  have sourced : Sourced c.shared := by
    apply Machine.invariant_of_obeyed (I := Sourced) body_makes _ run sourced_start
    intro i fresh t o a s out kept _ allowed _ did
    exact sourced_step kept allowed did
  have made : HeadMade x blockNumber (doneBy i c.shared.2) :=
    (Machine.obeyed_of_run body_makes run).obeys i _ _ (Config.pool_of_returned runs through)
  rw [HeadMade] at made
  cases fetched : (doneBy i c.shared.2).fetched with
  | none =>
      rw [fetched] at made
      exact made
  | some txns =>
      rw [fetched] at made
      obtain ⟨handled, hits⟩ := made
      have agree := exitsAgree_of_made sameIndex (sourced.2 i) hits
      rwa [handled] at agree

open KolWatch in
/-- The SELL 2 was pending in the one run and not in the other: the trader's sink
gets it once in both. -/
theorem confirmed_exits_agree_twice :
    (∃ c, replacedBlock.machine.recording.Run replacedBlock.machine.recording.anyStep
        (replacedBlock.machine.recording.start ({}, [])
          [.pending 2#256 0 "ws" none, .head 10#256 100]) c ∧
      c.returned 1 = some () ∧ (doneBy 1 c.shared.2).fetched = some [1#256, 2#256] ∧
      replacedBlock.ExitsAgree 100 [1#256, 2#256] (doneBy 1 c.shared.2)) ∧
    ∃ c, replacedBlock.machine.recording.Run replacedBlock.machine.recording.anyStep
        (replacedBlock.machine.recording.start ({}, []) [.head 10#256 100]) c ∧
      c.returned 0 = some () ∧ (doneBy 0 c.shared.2).fetched = some [1#256, 2#256] ∧
      replacedBlock.ExitsAgree 100 [1#256, 2#256] (doneBy 0 c.shared.2) := by
  constructor
  · obtain ⟨c, run, runs, through, fetched⟩ : ∃ c,
        replacedBlock.machine.recording.Run replacedBlock.machine.recording.anyStep
          (replacedBlock.machine.recording.start ({}, [])
            [.pending 2#256 0 "ws" none, .head 10#256 100]) c ∧
        c.taskAt 1 = some (.head 10#256 100) ∧ c.returned 1 = some () ∧
        (doneBy 1 c.shared.2).fetched = some [1#256, 2#256] :=
      Machine.exists_run_of_follow (C := replacedBlock.machine.recording.anyStep)
        [(0, 4, delivered), (1, 8, delivered)] (by decide +kernel)
    have agree := confirmed_exits_agree replacedBlock rfl _ c run 1 10#256 100 runs through
    rw [fetched] at agree
    exact ⟨c, run, through, fetched, agree⟩
  · obtain ⟨c, run, runs, through, fetched⟩ : ∃ c,
        replacedBlock.machine.recording.Run replacedBlock.machine.recording.anyStep
          (replacedBlock.machine.recording.start ({}, []) [.head 10#256 100]) c ∧
        c.taskAt 0 = some (.head 10#256 100) ∧ c.returned 0 = some () ∧
        (doneBy 0 c.shared.2).fetched = some [1#256, 2#256] :=
      Machine.exists_run_of_follow (C := replacedBlock.machine.recording.anyStep)
        [(0, 8, delivered)] (by decide +kernel)
    have agree := confirmed_exits_agree replacedBlock rfl _ c run 0 10#256 100 runs through
    rw [fetched] at agree
    exact ⟨c, run, through, fetched, agree⟩

end BscMempool.Watch
