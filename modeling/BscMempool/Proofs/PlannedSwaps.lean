/-
Module: BscMempool.Proofs.PlannedSwaps
Layer: Proofs
Purpose: The swaps that each task of the live trader submits are the ones it was asked for, in that
  order: a consumer buys and sells what its decisions say, once for each, an exit and a visit sell
  their own token at most once, and no other task swaps anything.
Trusted boundary: none
Main exports: Leg, Op.swap, Task.plan, body_follows_plan, swaps_follow_plan, started_buys_nothing
-/
import BscMempool.Concurrent.InOrder
import BscMempool.Proofs.Scenario
import BscMempool.Proofs.TaskOrder
import BscMempool.Trader.LiveFeed

namespace BscMempool.Trader

open Concurrent (Config Machine Proc Protocol Tid)
open Concurrent.Proc
open LiveExecutor

/-- A swap: the side, and the token, if the calldata has one. -/
abbrev Leg := Action × Option Address

/-- The swap that is submitted. -/
def Op.swap : Op → Option Leg
  | .submit tx _ .buy => some (.buy, tx.input.bought)
  | .submit tx _ (.sell _) => some (.sell, tx.input.sold.map Prod.fst)
  | _ => none

/-- The swap that a decision asks for. -/
def Decision.swap (trailActive : Bool) : Decision → Option Leg
  | .skip _ => none
  | .enter _ token .. => some (.buy, some token)
  | .exit _ token .. => if trailActive then none else some (.sell, some token)

/-- The swaps that a task is asked for. -/
def Task.plan : Task → List Leg
  | .consumer trailActive decisions => decisions.filterMap fun decided => decided.1.swap trailActive
  | .execute decision _ _ => (decision.swap true).toList
  | .executeExit token .. => [(.sell, some token)]
  | .processOnePosition token .. => [(.sell, some token)]
  | _ => []

/-! ### What is no swap -/

section Quiet

variable {o : Op}

theorem swap_of_roams (roams : o.roams) : o.swap = none := by
  cases o with
  | submit tx hash site => exact roams.elim False.elim False.elim
  | _ => rfl

theorem swap_of_basic (basic : o.basic) : o.swap = none := by
  cases o with
  | submit tx hash site => exact absurd basic not_basic_submit
  | _ => rfl

theorem swap_of_mild (mild : o.mild) : o.swap = none := swap_of_basic (.inl mild)

theorem swap_of_gates (gates : o.gates) : o.swap = none := by
  cases o with
  | submit tx hash site => exact gates.elim
  | _ => rfl

theorem swap_of_calm (calm : o.calm) : o.swap = none := by
  cases o with
  | submit tx hash site => exact calm.elim
  | _ => rfl

theorem swap_of_readies {broadcast : Bool} (readies : o.readies broadcast) : o.swap = none := by
  cases o with
  | submit tx hash site =>
      cases site with
      | exitApprove => rfl
      | _ => exact absurd readies not_basic_submit
  | _ => rfl

theorem swap_of_finalizes {broadcast : Bool} (finalizes : o.finalizes broadcast) :
    o.swap = none := by
  cases o with
  | submit tx hash site =>
      cases site with
      | bgApprove => rfl
      | _ => exact absurd finalizes not_basic_submit
  | _ => rfl

end Quiet

/-! ### Tasks follow their plans -/

/-- The order of a plan of swaps. -/
abbrev planned : Protocol LiveSig (List Leg) := Protocol.inOrder Op.swap

/-- What comes behind in the plan is left. -/
def Leaves {α : Type} (rest : List Leg) (plan : List Leg) (_ : α) : Prop := rest <:+ plan

section Follow

variable {x : LiveExecutor} {plan rest : List Leg} {α β : Type} {p : Live α} {f : α → Live β}
  {ends : List Leg → β → Prop}

/-- What swaps nothing leaves the plan as it was. -/
theorem then_quiet {K : Op → Prop} (quiet : ∀ {o}, K o → Op.swap o = none) (all : p.All K)
    (after : ∀ value, (f value).Obeys planned ends plan) : (p >>= f).Obeys planned ends plan :=
  Protocol.inOrder_kinds.then_still (all.mono fun _ => quiet) after

theorem quiet_leaves {K : Op → Prop} (quiet : ∀ {o}, K o → Op.swap o = none) (all : p.All K)
    (left : rest <:+ plan) :
    p.Obeys planned (Leaves rest) plan := by
  apply (Protocol.inOrder_kinds.obeys_still (all.mono fun _ => quiet) (Ends.any p)).mono
  rintro plan value ⟨rfl, -⟩
  exact left

theorem quiet_call {o : Op} {f : o.Res → Live β} (quiet : o.swap = none)
    (after : ∀ result, (f result).Obeys planned ends plan) :
    (Proc.call (S := LiveSig) o >>= f).Obeys planned ends plan :=
  then_quiet (K := fun o => Op.swap o = none) id (all_call.2 quiet) after

/-- An entry that is passed over is left behind. -/
theorem suffix_of_cons {k : Leg} (left : (k :: rest) <:+ plan) : rest <:+ plan :=
  (List.suffix_cons k rest).trans left

theorem broadcastEntry_leaves (kolName visibility : String) (token : Address) (entry : Entry)
    (left : ((Action.buy, some token) :: rest) <:+ plan) :
    (x.broadcastEntry kolName visibility token entry).Obeys planned (Leaves rest) plan := by
  unfold broadcastEntry
  apply Protocol.inOrder_kinds.after_still ((x.buyCall_mild _ _ _).mono fun _ => swap_of_mild)
    (x.buyCall_buys _ _ _)
  rintro ⟨target, gasLimit, calldata⟩ ⟨buys, -⟩
  apply then_quiet swap_of_basic reserveNonce_basic
  intro nonce
  apply quiet_call rfl
  intro signed
  cases signed with
  | none =>
      exact quiet_leaves swap_of_basic (resync_basic.bind fun _ => trivial) (suffix_of_cons left)
  | some txHash =>
      dsimp only
      split
      · apply Obeys.marked (k := (Action.buy, some token)) _ left
        · intro plan sent left
          cases sent with
          | false => exact quiet_leaves swap_of_basic (resync_basic.bind fun _ => trivial) left
          | true =>
              apply then_quiet swap_of_mild (ask_mild _ (by rfl))
              intro bnbUsd
              apply then_quiet swap_of_calm (x.recordEntry_calm _ _ _ _ _ _ _)
              intro _
              apply quiet_call rfl
              exact fun _ => left
        · show some (Action.buy, calldata.bought) = _
          rw [buys]
      · apply quiet_call rfl
        intro _
        exact quiet_leaves swap_of_calm ((x.recordEntry_calm _ _ _ _ _ _ _).bind fun _ => trivial)
          (suffix_of_cons left)

theorem execute_leaves {kolName : String} {token : Address} {bnbAmount kolBnbInput : U256}
    {kolBlock : Nat} {kolTx : B256} (visibility : String) (openPositions : Nat)
    (left : ((Action.buy, some token) :: rest) <:+ plan) :
    (x.execute (.enter kolName token bnbAmount kolBnbInput kolBlock kolTx) visibility
      openPositions).Obeys planned
      (Leaves rest) plan := by
  apply then_quiet id (dupGuard_all (P := fun o => Op.swap o = none) rfl rfl)
  intro duplicate
  split
  · exact suffix_of_cons left
  · apply then_quiet swap_of_mild (x.sizeByUsd_mild _ _)
    intro size
    cases size with
    | none => exact suffix_of_cons left
    | some bnbAmount =>
        apply then_quiet swap_of_gates (x.entryGates_gates _ _ _ _ _)
        intro gated
        cases gated with
        | error reason => exact suffix_of_cons left
        | ok entry => exact broadcastEntry_leaves _ _ _ _ left

theorem broadcastExit_leaves (kolName : String) (token : Address) (holding : Holding)
    (balance : U256) (isFullClose : Bool) (route : BuyRoute) (allowance : Option (Address × U256))
    (left : ((Action.sell, some token) :: rest) <:+ plan) :
    (x.broadcastExit kolName token holding balance isFullClose route allowance).Obeys planned
      (Leaves rest) plan := by
  unfold broadcastExit
  apply Protocol.inOrder_kinds.after_still ((x.sellCall_mild _ _ _).mono fun _ => swap_of_mild)
    (x.sellCall_sells _ _ _)
  rintro ⟨target, gasLimit, calldata⟩ ⟨-, sells, -⟩
  apply then_quiet swap_of_basic reserveNonce_basic
  intro nonce
  apply then_quiet swap_of_mild (gasWeiAtLeast_mild _)
  intro gas
  apply quiet_call rfl
  intro signed
  cases signed with
  | none =>
      exact quiet_leaves swap_of_basic (resync_basic.bind fun _ => trivial) (suffix_of_cons left)
  | some txHash =>
      apply then_quiet swap_of_mild (ask_mild _ (by rfl))
      intro walletBnb
      split
      · apply Obeys.marked (k := (Action.sell, some token)) _ left
        · intro plan sent left
          cases sent with
          | false => exact quiet_leaves swap_of_basic (resync_basic.bind fun _ => trivial) left
          | true =>
              apply quiet_call rfl
              intro _
              exact quiet_leaves swap_of_calm
                ((x.recordExit_calm _ _ _ _ _ _ _).bind fun _ => trivial) left
        · show some (Action.sell, calldata.sold.map Prod.fst) = _
          rw [sells]
          rfl
      · apply quiet_call rfl
        intro _
        exact quiet_leaves swap_of_calm ((x.recordExit_calm _ _ _ _ _ _ _).bind fun _ => trivial)
          (suffix_of_cons left)

theorem exitLocked_leaves (token : Address) (kolName : String) (kolBlock : Nat) (kolAddr : Address)
    (left : ((Action.sell, some token) :: rest) <:+ plan) :
    (x.exitLocked token kolName kolBlock kolAddr).Obeys planned (Leaves rest) plan := by
  apply then_quiet (K := Op.roams) swap_of_roams
    (kolSellFraction_asks (fun _ => trivial) kolAddr token kolBlock)
  intro fraction
  apply then_quiet swap_of_readies (@exitHolding_readies true token)
  intro held
  cases held with
  | error outcome => exact suffix_of_cons left
  | ok holding =>
      dsimp only
      by_cases rounds : decide (fraction.getD 1 ≥ x.fractions.fullAt) = false ∧
          (if decide (fraction.getD 1 ≥ x.fractions.fullAt) then holding.ourBalance
            else x.fractions.scale holding.ourBalance (fraction.getD 1)) = 0
      · rw [if_pos rounds]
        exact suffix_of_cons left
      · rw [if_neg rounds]
        apply then_quiet swap_of_readies (exitApproval_readies _ _ _)
        intro allowance
        cases allowance with
        | none => exact suffix_of_cons left
        | some allowance =>
            apply then_quiet swap_of_mild (pickRoute_mild _ _ _)
            exact fun route => broadcastExit_leaves _ _ _ _ _ _ _ left

theorem executeExit_leaves (token : Address) (kolName : String) (kolBlock : Nat) (kolAddr : Address)
    (left : ((Action.sell, some token) :: rest) <:+ plan) :
    (x.executeExit token kolName kolBlock kolAddr).Obeys planned (Leaves rest) plan := by
  unfold executeExit
  split
  · exact suffix_of_cons left
  · apply quiet_call rfl
    intro _
    apply (exitLocked_leaves token kolName kolBlock kolAddr left).bind
    intro plan outcome left
    exact quiet_leaves (K := fun o => Op.swap o = none) id
      (Proc.All.bind (all_call.2 rfl) fun _ => trivial) left

end Follow

section Tasks

variable {w : TrailWatcher} {plan rest : List Leg}

theorem handle_leaves (trailActive : Bool) (decision : Decision) (visibility : String)
    (left : ((decision.swap trailActive).toList ++ rest) <:+ plan) :
    (w.handle trailActive decision visibility).Obeys planned (Leaves rest) plan := by
  cases decision with
  | skip reason => exact left
  | enter kolName token bnbAmount kolBnbInput kolBlock kolTx =>
      apply quiet_call rfl
      intro openPositions
      exact (execute_leaves visibility openPositions left).bind fun _ _ left => left
  | exit kolName token kolBlock kolTx kolAddr =>
      cases trailActive with
      | true => exact left
      | false =>
          exact (executeExit_leaves token kolName kolBlock kolAddr left).bind fun _ _ left => left

theorem consume_leaves (trailActive : Bool) (decisions : List (Decision × String))
    (left : (decisions.filterMap fun decided => decided.1.swap trailActive) <:+ plan) :
    (w.consume trailActive decisions).Obeys planned (Leaves []) plan := by
  induction decisions generalizing plan with
  | nil => exact List.nil_suffix
  | cons decided rest ih =>
      obtain ⟨decision, visibility⟩ := decided
      have split : ((decision, visibility) :: rest).filterMap
          (fun decided => decided.1.swap trailActive) =
          (decision.swap trailActive).toList ++ rest.filterMap fun decided =>
            decided.1.swap trailActive := by
        rw [List.filterMap_cons]
        cases decision.swap trailActive <;> rfl
      rw [split] at left
      rw [TrailWatcher.consume_cons]
      exact (handle_leaves trailActive decision visibility left).bind fun plan _ left => ih left

theorem fireExit_leaves (token : Address) (reason : String) (state : TrailState) (blockN : Nat)
    (left : ((Action.sell, some token) :: rest) <:+ plan) :
    (w.fireExit token reason state blockN).Obeys planned (Leaves rest) plan := by
  apply quiet_call rfl
  intro _
  apply (executeExit_leaves _ _ _ _ left).bind
  intro plan outcome left
  exact quiet_leaves (K := fun o => Op.swap o = none) id (all_call.2 rfl) left

theorem observePosition_leaves (token : Address) (state : TrailState) (blockN : Nat)
    (left : ((Action.sell, some token) :: rest) <:+ plan) :
    (w.observePosition token state blockN).Obeys planned (Leaves rest) plan := by
  apply then_quiet swap_of_mild (getLatestPriceCached_mild _ _ _)
  intro price
  cases price with
  | none =>
      dsimp only
      split
      · exact fireExit_leaves _ _ _ _ left
      · exact suffix_of_cons left
  | some currentPrice =>
      apply then_quiet swap_of_mild (votedOut_mild _ _ _)
      intro voted
      split
      · exact fireExit_leaves _ _ _ _ left
      · split
        · exact fireExit_leaves _ _ _ _ left
        · exact quiet_leaves (K := fun o => Op.swap o = none) id (all_call.2 rfl)
            (suffix_of_cons left)

theorem processOnePosition_leaves (token : Address) (entry : EntryId) (blockN : Nat)
    (left : ((Action.sell, some token) :: rest) <:+ plan) :
    (w.processOnePosition token entry blockN).Obeys planned (Leaves rest) plan := by
  apply quiet_call rfl
  intro p
  split
  · exact suffix_of_cons left
  · apply quiet_call rfl
    intro known
    cases known with
    | some state => exact observePosition_leaves token state blockN left
    | none =>
        apply then_quiet id
          (initStateFromLedger_ops (P := fun o => Op.swap o = none) rfl (fun _ => rfl) token blockN)
        intro state
        cases state with
        | none => exact suffix_of_cons left
        | some state =>
            apply quiet_call rfl
            exact fun _ => observePosition_leaves token state blockN left

/-- Every task follows its plan. -/
theorem body_follows_plan (t : Task) :
    (w.machine.body t).Obeys planned (fun _ _ => True) t.plan := by
  have done : ∀ {p : Live Unit} {plan rest : List Leg}, p.Obeys planned (Leaves rest) plan →
      (p >>= fun _ => Proc.ret Done.unit).Obeys planned (fun _ _ => True) plan :=
    fun obeys => obeys.bind fun _ _ _ => trivial
  have quiet : ∀ {α : Type} {p : Live α} {f : α → Done}
      {K : Op → Prop}, (∀ {o}, K o → Op.swap o = none) → p.All K →
      (p >>= fun value => Proc.ret (f value)).Obeys planned (fun _ _ => True) [] :=
    fun none all => then_quiet none all fun _ => trivial
  cases t with
  | consumer trailActive decisions =>
      exact done (consume_leaves trailActive decisions (List.suffix_refl _))
  | execute decision visibility openPositions =>
      cases decision with
      | enter kolName token bnbAmount kolBnbInput kolBlock kolTx =>
          exact (execute_leaves visibility openPositions (List.suffix_refl _)).bind fun _ _
            _ => trivial
      | _ => exact trivial
  | executeExit token kolName kolBlock kolAddr =>
      exact (executeExit_leaves token kolName kolBlock kolAddr (List.suffix_refl _)).bind fun _ _
        _ => trivial
  | finalizePosition token buyTxHash route entry =>
      exact quiet swap_of_finalizes (finalizePosition_finalizes _ _ _ _)
  | persistNonce n => exact quiet (K := fun o => Op.swap o = none) id (all_call.2 rfl)
  | reserve => exact quiet swap_of_basic reserveNonce_basic
  | resync => exact quiet swap_of_basic resync_basic
  | trailWatcher blocks =>
      exact quiet (K := fun o => Op.swap o = none) id
        (runLoop_ops (P := fun o => Op.swap o = none) rfl (fun _ => rfl) (fun _ _ _ => rfl)
        blocks)
  | processOnePosition token entry blockN =>
      exact done (processOnePosition_leaves token entry blockN (List.suffix_refl _))

/-- In every run of the live trader the swaps that a process has submitted are, in their order,
swaps of the plan of its task, each entry of the plan serving at most once. -/
theorem swaps_follow_plan {C : w.machine.recording.Cond} {s : World} {tasks : List Task}
    {c : Config LiveSig (World × List w.machine.Event) Task Done}
    (run : w.machine.recording.Run C (w.machine.recording.start (s, []) tasks) c) {i : Tid}
    {t : Task}
    (runs : c.taskAt i = some t) : (Machine.marks Op.swap i c.shared.2).Sublist t.plan := by
  obtain ⟨⟨u, p⟩, found, same⟩ := Option.map_eq_some_iff.mp runs
  cases same
  exact Machine.marks_sublist (fun t => body_follows_plan t) run found

/-- A call that was asked for a BUY of the token has bought it. -/
theorem swaps_follow_plan_buy :
    ∃ c, (scenario false).machine.recording.Run (scenario false).machine.recording.anyStep
      ((scenario false).machine.recording.start (World.boot 5 none, []) [buyTask]) c ∧
    Machine.marks Op.swap 0 c.shared.2 = [(.buy, some scenarioToken)] ∧
    (Machine.marks Op.swap 0 c.shared.2).Sublist buyTask.plan := by
  obtain ⟨c, run, bought, runs⟩ : ∃ c, (scenario false).machine.recording.Run
      (scenario false).machine.recording.anyStep
      ((scenario false).machine.recording.start (World.boot 5 none, []) [buyTask]) c ∧
      Machine.marks Op.swap 0 c.shared.2 = [(.buy, some scenarioToken)] ∧
      c.taskAt 0 = some buyTask :=
    Machine.exists_run_of_follow [(0, 15, Replies.ans { pair := some 7 })] (by decide +kernel)
  exact ⟨c, run, bought, swaps_follow_plan run runs⟩

/-- A process of the pool runs the task it was started with there, or one that plans no BUY. -/
theorem started_buys_nothing {C : w.machine.recording.Cond} {s : World} {tasks : List Task}
    {c : Config LiveSig (World × List w.machine.Event) Task Done}
    (run : w.machine.recording.Run C (w.machine.recording.start (s, []) tasks) c) {i : Tid}
    {t : Task} (runs : c.taskAt i = some t) : tasks[i]? = some t ∨ tasks.length ≤ i ∧
    ∀ k ∈ t.plan, k.1 = .sell := by
  obtain ⟨⟨u, p⟩, found, same⟩ := Option.map_eq_some_iff.mp runs
  cases same
  apply Machine.task_or_started (G := fun t => ∀ k ∈ t.plan, k.1 = .sell) body_may _ run found
  intro t i fresh o a s out j u may did started
  rcases exec_started did started with rfl | ⟨token, route, bnbIn, txHash, e, rfl, rfl⟩
  · rcases may.starts with ⟨n, rfl⟩ | ⟨token, entry, blockN, rfl⟩
    · exact nofun
    · intro k member
      rw [List.mem_singleton.mp member]
  · exact nofun

end Tasks

end BscMempool.Trader
