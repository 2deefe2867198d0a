/-
Module: BscMempool.Proofs.ExitOrder
Layer: Proofs
Purpose: The order in which the live trader's tasks take a token's exit lock, sell, update the cache
  and give the lock back, and in which a finalize task gives its permit back.
Trusted boundary: none
Main exports: ExitPhase, exitOrder, body_obeys
-/
import BscMempool.Concurrent.Protocol
import BscMempool.Proofs.TaskOrder

namespace BscMempool.Trader

open Concurrent (Tid Protocol Proc)
open Concurrent.Proc
open LiveExecutor

/-- Whose exit lock a task has, whether it has broadcast a full close that is not in the cache yet,
and whether it has given its permit back. -/
structure ExitPhase where
  held : Option Address := none
  closing : Bool := false
  released : Bool := false
deriving DecidableEq, Repr

/-- A task sells a token and updates its cache entry under the token's exit lock only, and gives the
lock back once a full close is in the cache. -/
def exitOrder : Protocol LiveSig ExitPhase where
  allows
    | q, .trade (.lockExit _) => q.held = none ∧ q.closing = false
    | q, .trade (.unlockExit token) => q.held = some token ∧ q.closing = false
    | q, .trade (.writeBack token ..) => q.held = some token
    | q, .submit tx _ (.sell _) => q.closing = false ∧ tx.input.bought = none ∧
        ∃ token amount, q.held = some token ∧ tx.input.sold = some (token, amount)
    | _, _ => True
  next
    | q, .trade (.lockExit token), _ => { q with held := some token }
    | q, .trade (.unlockExit _), _ => { q with held := none }
    | q, .trade (.writeBack ..), _ => { q with closing := false }
    | q, .submit _ _ (.sell memo), ok => { q with closing := q.closing || (memo.full && ok) }
    | q, .env .releasePermit, _ => { q with released := true }
    | q, _, _ => q

/-- The operations that are allowed in every phase. -/
def Op.unguarded : Op → Prop
  | .trade (.lockExit _) | .trade (.unlockExit _) | .trade (.writeBack ..)
  | .submit _ _ (.sell _) => False
  | _ => True

/-- Those that keep the phase. -/
def Op.aside : Op → Prop
  | .env .releasePermit => False
  | o => o.unguarded

/-- What a task has done when it returns. -/
def Task.ended : Task → ExitPhase → Prop
  | .finalizePosition .., q => q.released = true
  | _, _ => True

section Kinds

variable {o : Op} {q : ExitPhase} {α : Type}

theorem unguarded_allowed (q : ExitPhase) (o : Op) (free : o.unguarded) : exitOrder.allows q o := by
  unfold exitOrder
  dsimp only
  split
  · exact free.elim
  · exact free.elim
  · exact free.elim
  · exact free.elim
  · trivial

theorem Op.aside.unguarded (aside : o.aside) : o.unguarded := by
  unfold Op.aside at aside
  split at aside
  · exact aside.elim
  · exact aside

theorem aside_next (aside : o.aside) (result : o.Res) : exitOrder.next q o result = q := by
  unfold exitOrder
  dsimp only
  split
  · exact aside.elim
  · exact aside.elim
  · exact aside.elim
  · exact aside.elim
  · exact aside.elim
  · rfl

theorem Op.basic.aside (basic : o.basic) : o.aside := by
  cases o with
  | trade o => exact basic.elim False.elim False.elim
  | env o => cases o <;> first | trivial | exact basic.elim False.elim False.elim
  | submit tx hash site => exact absurd basic not_basic_submit
  | _ => trivial

theorem Op.enters.aside {broadcast : Bool} (enters : o.enters broadcast) : o.aside := by
  unfold Op.enters at enters
  split at enters <;> first | trivial | exact Op.basic.aside enters

theorem Op.readies.aside {broadcast : Bool} (readies : o.readies broadcast) : o.aside := by
  unfold Op.readies at readies
  split at readies <;> first | trivial | exact Op.basic.aside readies

theorem Op.finalizes.unguarded {broadcast : Bool} (finalizes : o.finalizes broadcast) :
    o.unguarded := by
  unfold Op.finalizes at finalizes
  split at finalizes <;> first | trivial | exact (Op.basic.aside finalizes).unguarded

theorem Op.roams.aside (roams : o.roams) : o.aside := by
  unfold Op.roams at roams
  split at roams <;> first | trivial | exact Op.basic.aside (Op.light.basic roams)

/-- A task that roams keeps its phase. -/
theorem exitOrder_roams (q : ExitPhase) : Roams exitOrder fun q' => q' = q where
  allowed q' o _ kind := unguarded_allowed q' o kind.aside.unguarded
  kept := by
    rintro q' o rfl kind result
    exact aside_next kind.aside result

theorem exitOrder_kinds : exitOrder.Kinds Op.unguarded Op.aside where
  allowed := unguarded_allowed
  still_free _ := Op.aside.unguarded
  kept _ _ := aside_next

theorem basic_aside {p : Live α} (all : p.All Op.basic) : p.All Op.aside :=
  all.mono fun _ => Op.basic.aside

end Kinds

namespace ExitOrder

/-! ### The functions -/

section Functions

variable {x : LiveExecutor} {q : ExitPhase}

/-- A broadcast full close is put into the cache before the exit goes on. -/
theorem broadcastExit_obeys (kolName : String) (token : Address) (holding : Holding)
    (balance : U256) (isFullClose : Bool) (route : BuyRoute) (allowance : Option (Address × U256))
    (locked : q.held = some token) (settled : q.closing = false) :
    (x.broadcastExit kolName token holding balance isFullClose route allowance).Obeys exitOrder
      (fun q' _ => q' = q) q := by
  have records : ∀ gasGwei nonce txHash walletBnb broadcast,
      (x.recordExit kolName token gasGwei nonce txHash walletBnb broadcast).All Op.aside :=
    fun _ _ _ _ _ => Proc.All.bind (all_call.2 trivial) fun _ => all_call.2 trivial
  unfold broadcastExit
  apply exitOrder_kinds.after_still (basic_aside (basic_of_mild (sellCall_mild _ _ _ _)))
    (x.sellCall_sells _ _ _)
  rintro ⟨target, gasLimit, calldata⟩ ⟨-, sold, bought⟩
  apply exitOrder_kinds.then_still (basic_aside reserveNonce_basic)
  intro nonce
  apply exitOrder_kinds.then_still (basic_aside (basic_of_mild (gasWeiAtLeast_mild _)))
  intro gasWei
  apply Obeys.call trivial
  intro signed
  cases signed with
  | none =>
      apply exitOrder_kinds.then_still (basic_aside resync_basic)
      exact fun _ => rfl
  | some txHash =>
      apply exitOrder_kinds.then_still (basic_aside (basic_of_mild (ask_mild _ (by rfl))))
      intro walletBnb
      split
      · have sell : exitOrder.allows q (.submit
            (x.request target 0 calldata gasLimit gasWei nonce) txHash
            (.sell ⟨isFullClose, holding.sized, holding.route, allowance⟩)) :=
          ⟨settled, bought, token, balance, locked, sold⟩
        apply Obeys.call sell
        intro sent
        cases sent with
        | false =>
            change Obeys exitOrder _ { q with closing := q.closing || (isFullClose && false) } _
            rw [Bool.and_false, Bool.or_false]
            apply exitOrder_kinds.then_still (basic_aside resync_basic)
            exact fun _ => rfl
        | true =>
            apply Obeys.call locked
            intro _
            change Obeys exitOrder _ { q with closing := false } _
            rw [← settled]
            apply exitOrder_kinds.then_still (records _ _ _ _ _)
            exact fun _ => rfl
      · apply Obeys.call trivial
        intro _
        apply exitOrder_kinds.then_still (records _ _ _ _ _)
        exact fun _ => rfl

theorem exitLocked_obeys (token : Address) (kolName : String) (kolBlock : Nat) (kolAddr : Address)
    (locked : q.held = some token) (settled : q.closing = false) :
    (x.exitLocked token kolName kolBlock kolAddr).Obeys exitOrder (fun q' _ => q' = q) q := by
  apply (exitOrder_roams q).exitLocked_obeys token kolName _ _ kolBlock kolAddr rfl
  · rintro holding balance q' rfl
    apply (exitOrder_kinds.obeys_still ((exitApproval_readies token holding balance).mono fun _ =>
      Op.readies.aside) (.any _)).mono
    exact fun q'' _ same => same.1
  · rintro holding balance isFullClose route allowance q' rfl
    exact broadcastExit_obeys kolName token holding balance isFullClose route allowance
      locked settled

/-- An exit returns without a lock. -/
theorem executeExit_obeys (token : Address) (kolName : String) (kolBlock : Nat) (kolAddr : Address)
    (free : q.held = none) (settled : q.closing = false) :
    (x.executeExit token kolName kolBlock kolAddr).Obeys exitOrder (fun q' _ => q' = q) q := by
  unfold executeExit
  split
  · exact rfl
  · have lock : exitOrder.allows q (.trade (.lockExit token)) := ⟨free, settled⟩
    apply Obeys.call lock
    intro _
    have inside : (x.exitLocked token kolName kolBlock kolAddr).Obeys exitOrder
        (fun q' _ => q' = { q with held := some token }) { q with held := some token } :=
      exitLocked_obeys token kolName kolBlock kolAddr rfl settled
    apply inside.bind
    rintro q' outcome rfl
    have unlock : exitOrder.allows { q with held := some token } (.trade (.unlockExit token)) :=
      ⟨rfl, settled⟩
    apply Obeys.call unlock
    intro _
    change ({ q with held := none } : ExitPhase) = q
    rw [← free]

/-- A finalize task returns without its permit. -/
theorem finalizePosition_obeys (token : Address) (buyTxHash : B256) (route : BuyRoute)
    (entry : EntryId) :
    (x.finalizePosition token buyTxHash route entry).Obeys exitOrder
      (fun q' _ => q'.released = true) q := by
  have body : (x.finalizeBody token buyTxHash route entry).All Op.unguarded :=
    (finalizeBody_finalizes token buyTxHash route entry).mono fun _ => Op.finalizes.unguarded
  apply Obeys.call trivial
  intro _
  apply (exitOrder_kinds.obeys_free body).bind
  intro q' report _
  exact Obeys.call (f := fun _ => .ret report) trivial fun _ => rfl

end Functions

/-! ### The tasks -/

/-- No task has a lock or an open close before it starts and between its decisions. -/
theorem body_obeys {w : TrailWatcher} (t : Task) :
    (w.machine.body t).Obeys exitOrder (fun q _ => t.ended q) {} := by
  apply (exitOrder_roams {}).body_obeys _ _ _ _ t rfl
  · rintro token kolName kolBlock kolAddr q rfl
    exact executeExit_obeys token kolName kolBlock kolAddr rfl rfl
  · rintro decision visibility openPositions q rfl
    apply (exitOrder_kinds.obeys_still ((execute_enters decision visibility openPositions).mono
      fun _ => Op.enters.aside) (.any _)).mono
    exact fun q' _ same => same.1
  · rintro token buyTxHash route entry q rfl
    exact finalizePosition_obeys token buyTxHash route entry
  · intro t q _ other
    cases t with
    | finalizePosition token buyTxHash route entry =>
        exact absurd rfl (other token buyTxHash route entry)
    | _ => trivial

end ExitOrder

end BscMempool.Trader
