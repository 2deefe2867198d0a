/-
Module: BscMempool.Proofs.Workers
Layer: Proofs
Purpose: The loops that only call outlined functions: the consumer, the newHeads loop and the visit
  of one position. What the called functions keep, every task keeps.
Trusted boundary: none
Main exports: consume_wp, processOnePosition_wp, runLoop_all, Workers, Workers.bodies,
  Workers.of_outlines, TradeSpec.workers, Task.root
-/
import BscMempool.Proofs.EntryOutline
import BscMempool.Proofs.ExitOutline
import BscMempool.Proofs.FinalizeOutline

namespace BscMempool.Trader

open Concurrent (Tid Machine Contract Proc)
open Concurrent.Proc
open LiveExecutor

variable {w : TrailWatcher} {V : Type}

/-- The operations of the newHeads loop. -/
theorem runLoop_ops {P : Op → Prop} (snapshot : P (.trade .positionSnapshot))
    (joined : ∀ i, P (.join i))
    (visit : ∀ token entry blockN, P (.spawn (.processOnePosition token entry blockN)))
    (blocks : List Nat) : (TrailWatcher.runLoop blocks).All P := by
  have spawns : ∀ blockN positions, (TrailWatcher.spawnPositions blockN positions).All P := by
    intro blockN positions
    induction positions with
    | nil => trivial
    | cons held rest ih =>
        exact (all_call.2 (visit held.1 held.2 blockN)).bind fun _ => ih.bind fun _ => trivial
  have joins : ∀ tasks, (TrailWatcher.joinAll tasks).All P := by
    intro tasks
    induction tasks with
    | nil => trivial
    | cons task rest ih => exact (all_call.2 (joined task)).bind fun _ => ih
  induction blocks with
  | nil => trivial
  | cons blockN rest ih =>
      refine Proc.All.bind ?_ fun _ => ih
      exact (all_call.2 snapshot).bind fun positions =>
        (spawns blockN positions).bind fun _ => joins _

/-! ### Loops that call outlined functions -/

section Loops

variable {K : Contract w.machine} {view : World → V} {i : Tid}

/-- The consumer keeps what its entries and, with the trail off, its exits keep. -/
theorem consume_wp (focused : Focused K view) (A : K.Assertion view i) (trailActive : Bool)
    (enters : ∀ kolName token bnbAmount kolBnbInput kolBlock kolTx visibility openPositions s,
      A.on s →
      K.wp i (w.exec.execute (.enter kolName token bnbAmount kolBnbInput kolBlock kolTx) visibility
        openPositions) (fun _ s => A.on s) s)
    (exits : trailActive = false → ∀ token kolName kolBlock kolAddr s, A.on s →
      K.wp i (w.exec.executeExit token kolName kolBlock kolAddr) (fun _ s => A.on s) s)
    (decisions : List (Decision × String)) {s : World} (now : A.on s) :
    K.wp i (w.consume trailActive decisions) (fun _ s => A.on s) s := by
  induction decisions generalizing s with
  | nil => exact now
  | cons decided rest ih =>
      obtain ⟨decision, visibility⟩ := decided
      cases decision with
      | skip reason => exact ih now
      | enter kolName token bnbAmount kolBnbInput kolBlock kolTx =>
          refine Contract.wp_seq (fun _ => A.on)
            (focused.calm_wp A (onEnv_calm _) (fun _ _ idle => idle) now) fun openPositions s
              idle => ?_
          exact Contract.wp_seq _
            (enters kolName token bnbAmount kolBnbInput kolBlock kolTx visibility
              openPositions s idle)
            fun _ _ idle => ih idle
      | exit kolName token kolBlock kolTx kolAddr =>
          cases trailActive with
          | true => exact ih now
          | false =>
              exact Contract.wp_seq _ (exits rfl token kolName kolBlock kolAddr s now)
                fun _ _ idle => ih idle

/-- A state is made of the ledger's rows and a receipt. -/
theorem initStateFromLedger_ops {P : Op → Prop} (rows : P (.env .ledgerRows))
    (asks : ∀ q, P (.ask q)) (token : Address) (currentBlock : Nat) :
    (TrailWatcher.initStateFromLedger token currentBlock).All P := by
  apply Proc.All.bind (all_call.2 rows)
  intro ledger
  split
  · trivial
  · apply Proc.All.bind (all_call.2 (asks _))
    intro receipt
    cases receipt with
    | none => trivial
    | some receipt =>
        dsimp only
        split <;> trivial

theorem initStateFromLedger_calm (token : Address) (currentBlock : Nat) :
    (TrailWatcher.initStateFromLedger token currentBlock).All Op.calm :=
  initStateFromLedger_ops trivial (fun _ => trivial) token currentBlock

theorem getLatestPriceCached_mild (token : Address) (fromBlock toBlock : Nat) :
    (TrailWatcher.getLatestPriceCached token fromBlock toBlock).All Op.mild := by
  have quote : (TrailWatcher.v2QuotePrice token).All Op.mild := by
    apply (ask_mild _ (by rfl)).bind
    intro out
    cases out with
    | none => trivial
    | some out =>
        dsimp only
        split <;> trivial
  apply (ask_mild _ (by rfl)).bind
  intro cached
  dsimp only
  split
  · trivial
  · apply quote.bind
    intro price
    cases price with
    | some price => trivial
    | none =>
        dsimp only
        split
        · trivial
        · exact ask_mild _ (by rfl)

theorem votedOut_mild (token : Address) (state : TrailState) (currentPrice : ℚ) :
    (TrailWatcher.votedOut token state currentPrice).All Op.mild := by
  unfold TrailWatcher.votedOut
  split
  · exact (ask_mild _ (by rfl)).bind fun _ => trivial
  · trivial

/-- Reading an entry changes nothing. -/
theorem loadEntry_still (entry : EntryId) : K.Still view (.trade (.loadEntry entry)) := by
  intro i fresh a s out did
  obtain ⟨mid, loaded, rfl⟩ := Option.map_eq_some_iff.1 did
  obtain ⟨p, _, rfl⟩ := Option.map_eq_some_iff.1 loaded
  exact ⟨rfl, fun j t started => by cases started⟩

section Visit

variable (focused : Focused K view) (A : K.Assertion view i)
variable (exits : ∀ token kolName kolBlock kolAddr s, A.on s →
  K.wp i (w.exec.executeExit token kolName kolBlock kolAddr) (fun _ s => A.on s) s)
include focused exits

theorem fireExit_wp (token : Address) (reason : String) (state : TrailState) (blockN : Nat)
    {s : World}
    (now : A.on s) : K.wp i (w.fireExit token reason state blockN) (fun _ s => A.on s) s := by
  refine Contract.wp_seq (fun _ => A.on)
    (focused.calm_wp A (onEnv_calm _) (fun _ _ idle => idle) now) fun _ s idle => ?_
  refine Contract.wp_seq _ (exits token ("TRAIL_" ++ reason) blockN 0 s idle) fun _ s idle => ?_
  exact focused.calm_wp A (onEnv_calm _) (fun _ _ idle => idle) idle

theorem observePosition_wp (token : Address) (state : TrailState) (blockN : Nat) {s : World}
    (now : A.on s) : K.wp i (w.observePosition token state blockN) (fun _ s => A.on s) s := by
  refine Contract.wp_seq (fun _ => A.on)
    (focused.mild_wp A (getLatestPriceCached_mild _ _ _) (fun _ _ idle => idle) now)
    fun price s idle => ?_
  cases price with
  | none =>
      dsimp only
      split
      · exact fireExit_wp focused A exits token "timeout" state blockN idle
      · exact idle
  | some currentPrice =>
      refine Contract.wp_seq (fun _ => A.on)
        (focused.mild_wp A (votedOut_mild _ _ _) (fun _ _ idle => idle) idle) fun voted s idle => ?_
      split
      · exact fireExit_wp focused A exits token _ _ blockN idle
      · split
        · exact fireExit_wp focused A exits token _ _ blockN idle
        · exact focused.calm_wp A (onEnv_calm _) (fun _ _ idle => idle) idle

/-- The visit of a position keeps what its exits keep. -/
theorem processOnePosition_wp (token : Address) (entry : EntryId) (blockN : Nat) {s : World}
    (now : A.on s) : K.wp i (w.processOnePosition token entry blockN) (fun _ s => A.on s) s := by
  refine Contract.wp_call_seq (fun _ s => A.on s) A.stable
    (A.triple_still focused.about (loadEntry_still entry) fun _ _ idle => idle)
      (fun p s idle => ?_) now
  split
  · exact idle
  · refine Contract.wp_seq (fun _ => A.on)
      (focused.calm_wp A (onEnv_calm _) (fun _ _ idle => idle) idle) fun known s idle => ?_
    cases known with
    | some state => exact observePosition_wp focused A exits token state blockN idle
    | none =>
        refine Contract.wp_seq (fun _ => A.on)
          (focused.calm_wp A (initStateFromLedger_calm _ _) (fun _ _ idle => idle) idle)
          fun state s idle => ?_
        cases state with
        | none => exact idle
        | some state =>
            refine Contract.wp_seq (fun _ => A.on)
              (focused.calm_wp A (onEnv_calm _) (fun _ _ idle => idle) idle) fun _ s idle => ?_
            exact observePosition_wp focused A exits token state blockN idle

end Visit

/-- The newHeads loop only reads the cache, starts visits and waits for them. -/
theorem runLoop_all
    (visits : ∀ token entry blockN i s, K.pre (.processOnePosition token entry blockN) i s)
    (blocks : List Nat) : (TrailWatcher.runLoop blocks).All (K.Still view) := by
  apply runLoop_ops
  · intro i fresh a s out did
    cases did
    exact ⟨rfl, fun j t started => by cases started⟩
  · intro i self fresh a s out did
    cases did
    exact ⟨rfl, fun j t started => by cases started⟩
  · intro token entry blockN self fresh a s out did
    cases did
    refine ⟨rfl, fun j t started s => ?_⟩
    cases j with
    | zero =>
        cases started
        exact visits token entry blockN _ s
    | succ j => cases started

end Loops

/-! ### All tasks of the trader -/

/-- The functions that the tasks call keep a contract, whatever the rest of the trader does. -/
structure Workers (K : Contract w.machine) (view : World → V) : Prop where
  focused : Focused K view
  enters : ∀ i kolName token bnbAmount kolBnbInput kolBlock kolTx visibility openPositions s,
    K.wp i (w.exec.execute (.enter kolName token bnbAmount kolBnbInput kolBlock kolTx) visibility
      openPositions) (fun _ _ => True) s
  exits : ∀ i token kolName kolBlock kolAddr s,
    K.wp i (w.exec.executeExit token kolName kolBlock kolAddr) (fun _ _ => True) s
  finalizes : ∀ i token buyTxHash route entry s,
    K.pre (.finalizePosition token buyTxHash route entry) i s →
    K.wp i (w.exec.finalizePosition token buyTxHash route entry) (fun _ _ => True) s
  reserves : ∀ i s, K.wp i w.exec.reserveNonce (fun _ _ => True) s
  resyncs : ∀ i s, K.wp i NonceManager.resync (fun _ _ => True) s
  persists : ∀ n i s, K.pre (.persistNonce n) i s →
    K.wp i (NonceManager.persistNonce n) (fun _ _ => True) s
  visits : ∀ token entry blockN i s, K.pre (.processOnePosition token entry blockN) i s
  posts : ∀ t i v s, K.post t i v s

/-- The body of every task keeps the contract. -/
theorem Workers.bodies {K : Contract w.machine} {view : World → V} (workers : Workers K view)
    (t : Task) (i : Tid) (s : World) (pre : K.pre t i s) : K.wp i (w.body t) (K.post t i) s := by
  let A : K.Assertion view i := ⟨fun _ => True, .true⟩
  have exits : ∀ token kolName kolBlock kolAddr s, A.on s →
      K.wp i (w.exec.executeExit token kolName kolBlock kolAddr) (fun _ s => A.on s) s :=
    fun token kolName kolBlock kolAddr s _ => workers.exits i token kolName kolBlock kolAddr s
  have returns : ∀ {α : Type} {p : Live α} {f : α → Done}, K.wp i p (fun _ _ => True) s →
      K.wp i (p >>= fun value => .ret (f value)) (K.post t i) s :=
    fun kept => Contract.wp_seq _ kept fun _ _ _ => workers.posts _ _ _ _
  cases t with
  | consumer trailActive decisions =>
      exact returns (consume_wp workers.focused A trailActive
        (fun _ _ _ _ _ _ _ _ s _ => workers.enters i _ _ _ _ _ _ _ _ s) (fun _ => exits) decisions
          trivial)
  | execute decision visibility openPositions =>
      refine returns ?_
      cases decision with
      | enter => exact workers.enters i _ _ _ _ _ _ _ _ s
      | _ => exact trivial
  | executeExit token kolName kolBlock kolAddr =>
      exact returns (workers.exits i token kolName kolBlock kolAddr s)
  | finalizePosition token buyTxHash route entry =>
      exact returns (workers.finalizes i token buyTxHash route entry s pre)
  | persistNonce n =>
      exact Contract.wp_seq _ (workers.persists n i s pre) fun _ _ _ => workers.posts _ _ _ _
  | reserve => exact returns (workers.reserves i s)
  | resync => exact returns (workers.resyncs i s)
  | trailWatcher blocks =>
      refine Contract.wp_seq (fun _ _ => True) ?_ fun _ _ _ => workers.posts _ _ _ _
      exact A.wp_still workers.focused.about (runLoop_all workers.visits blocks)
        (fun _ _ _ => trivial) trivial
  | processOnePosition token entry blockN =>
      exact Contract.wp_seq _
        (processOnePosition_wp workers.focused A exits token entry blockN trivial)
        fun _ _ _ => workers.posts _ _ _ _

/-- Outlines for every token at every position, and the calls of the nonce manager. -/
theorem Workers.of_outlines {K : Contract w.machine} {view : World → V} (focused : Focused K view)
    (entry : ∀ i token, EntryOutline K view i token)
    (enters : ∀ i token s, (entry i token).idle.on s) (exit : ∀ i token, ExitOutline K view i token)
    (exits : ∀ i token s, (exit i token).idle.on s)
    (finalize : ∀ i token route e, FinalizeOutline K view i token route e)
    (finalizes : ∀ i token buyTxHash route e s,
      K.pre (.finalizePosition token buyTxHash route e) i s →
      (finalize i token route e).pending.on s)
    (reserves : ∀ i s, K.wp i w.exec.reserveNonce (fun _ _ => True) s)
    (resyncs : ∀ i s, K.wp i NonceManager.resync (fun _ _ => True) s)
    (persists : ∀ n i s, K.pre (.persistNonce n) i s →
      K.wp i (NonceManager.persistNonce n) (fun _ _ => True) s)
    (visits : ∀ token e blockN i s, K.pre (.processOnePosition token e blockN) i s)
    (posts : ∀ t i v s, K.post t i v s) : Workers K view where
  focused := focused
  enters i kolName token bnbAmount kolBnbInput kolBlock kolTx visibility openPositions s :=
    Contract.wp_mono (fun _ _ _ => trivial) ((entry i token).execute_wp focused kolName bnbAmount
      kolBnbInput kolBlock kolTx visibility openPositions (enters i token s))
  exits i token kolName kolBlock kolAddr s :=
    Contract.wp_mono (fun _ _ _ => trivial)
      ((exit i token).executeExit_wp focused kolName kolBlock kolAddr (exits i token s))
  finalizes i token buyTxHash route e _ pre :=
    Contract.wp_mono (fun _ _ _ => trivial) ((finalize i token route e).finalizePosition_wp focused
      buyTxHash (finalizes _ _ _ _ _ _ pre))
  reserves := reserves
  resyncs := resyncs
  persists := persists
  visits := visits
  posts := posts

/-- Outlines about the trade are all a contract about the trade needs. -/
theorem TradeSpec.workers {S : TradeSpec} (entry : ∀ i token, TradeEntry S w i token)
    (enters : ∀ i token t, (entry i token).idle.holds t) (exit : ∀ i token, TradeExit S w i token)
    (exits : ∀ i token t, (exit i token).idle.holds t)
    (finalize : ∀ i token route e, TradeFinalize S w i token route e)
    (finalizes : ∀ i token buyTxHash route e t,
      S.pre (.finalizePosition token buyTxHash route e) i t →
      (finalize i token route e).pending.holds t)
    (visits : ∀ token e blockN i t, S.pre (.processOnePosition token e blockN) i t)
    (posts : ∀ t i v s, S.post t i v s) : Workers (S.contract w) World.trade := by
  have leaves : ∀ {i : Tid} {α : Type} {p : Live α} {s : World}, p.All Op.leavesTrade →
      (S.contract w).wp i p (fun _ _ => True) s :=
    fun all => TradeSpec.leaves ⟨fun _ => True, .true⟩ all (fun _ _ _ => trivial) trivial
  exact .of_outlines ⟨TradeSpec.about, fun _ _ => rfl⟩ (fun i token => (entry i token).outline)
    (fun i token s => enters i token s.trade) (fun i token => (exit i token).outline)
    (fun i token s => exits i token s.trade) (fun i token route e =>
      (finalize i token route e).outline)
    (fun i token buyTxHash route e s => finalizes i token buyTxHash route e s.trade)
    (fun _ _ => leaves (reserve_leavesTrade _)) (fun _ _ => leaves resync_leavesTrade)
    (fun n _ _ _ => leaves (persistNonce_leavesTrade n))
    (fun token e blockN i s => visits token e blockN i s.trade) fun t i v s => posts t i v s.trade

/-- Tasks that a run may start with: a finalize task is started by a BUY only, and a write of the
nonce file by a reservation only. -/
def Task.root : Task → Bool
  | .finalizePosition .. | .persistNonce _ => false
  | _ => true

end BscMempool.Trader
