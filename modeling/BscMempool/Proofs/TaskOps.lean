/-
Module: BscMempool.Proofs.TaskOps
Layer: Proofs
Purpose: Which operations each task of the trader can ever make, and which of them only a trader
  that broadcasts makes.
Trusted boundary: none
Main exports: Op.enters, Op.readies, Op.exits, Op.finalizes, Op.arms, Op.visits, Op.watches,
  Task.may, body_may
-/
import BscMempool.Concurrent.History
import BscMempool.Proofs.Workers

namespace BscMempool.Trader

open Concurrent (Tid Machine Outcome Proc)
open Concurrent.Proc
open LiveExecutor

/-! ### Kinds of operations -/

/-- Accesses to the nonce manager, and signatures. -/
def Op.signs : Op → Prop
  | .nonce _ | .sign _ | .spawn (.persistNonce _) => True
  | _ => False

/-- Questions, accesses to the caches and to the nonce manager, and signatures. -/
def Op.basic (o : Op) : Prop := o.mild ∨ o.signs

/-- Those of them that ask for no balance. -/
def Op.drafts : Op → Prop
  | .ask (.balanceOf _) => False
  | o => o.basic

/-- Accesses to the nonce manager alone. -/
def Op.reserves : Op → Prop
  | .nonce _ | .spawn (.persistNonce _) => True
  | _ => False

/-- Questions and accesses to the caches and to the nonce manager: nothing is signed. -/
def Op.light (o : Op) : Prop := o.mild ∨ o.reserves

theorem Op.reserves.signs {o : Op} (reserves : o.reserves) : o.signs := by
  unfold Op.reserves at reserves
  split at reserves <;> trivial

theorem Op.light.basic {o : Op} (light : o.light) : o.basic := light.imp_right Op.reserves.signs

/-- What an entry does.  Its transactions sell nothing. -/
def Op.enters (broadcast : Bool) : Op → Prop
  | .trade (.positionsGet _) | .trade (.positionsRemove _) | .trade (.openPosition ..)
  | .env .recordOpened | .env .recordTradeFired => True
  | .env (.checkLimits ..) | .env (.ledgerAppend _) => True
  | .shadow tx => tx.input.sold = none
  | .submit tx _ .buy => broadcast = true ∧ tx.input.sold = none
  | o => o.basic

/-- What an exit does to find out what there is to sell and to have it approved. -/
def Op.readies (broadcast : Bool) : Op → Prop
  | .trade (.positionsGet _) => True
  | .shadow tx => tx.input.bought = none ∧ tx.input.sold = none
  | .submit tx _ .exitApprove => broadcast = true ∧ tx.input.bought = none ∧ tx.input.sold = none
  | o => o.basic

/-- What an exit does.  Its transactions buy nothing. -/
def Op.exits (broadcast : Bool) : Op → Prop
  | .ask _ | .trade (.positionsGet _) | .trade (.writeBack ..) | .trade (.lockExit _)
  | .trade (.unlockExit _) | .env .recordClosed | .env (.ledgerAppend _) => True
  | .shadow tx => tx.input.bought = none
  | .submit tx _ .exitApprove | .submit tx _ (.sell _) => broadcast = true ∧ tx.input.bought = none
  | o => o.basic

/-- What the finalize task of a BUY does. -/
def Op.finalizes (broadcast : Bool) : Op → Prop
  | .trade (.storeTokensBought ..) | .trade (.storeApproved ..)
  | .env .acquirePermit | .env .releasePermit => True
  | .submit tx _ .bgApprove => broadcast = true ∧ tx.input.bought = none ∧ tx.input.sold = none
  | o => o.basic

/-- What a finalize task does to have its entry approved and armed. -/
def Op.arms (broadcast : Bool) : Op → Prop
  | .trade (.storeApproved ..) => True
  | .submit tx _ .bgApprove => broadcast = true ∧ tx.input.bought = none ∧ tx.input.sold = none
  | o => o.basic

/-- What the visit of a position does. -/
def Op.visits (broadcast : Bool) : Op → Prop
  | .trade (.loadEntry _) | .env .ledgerRows | .env (.trailGet _) | .env (.trailInsert ..)
  | .env (.trailRemove _) | .env (.trailExit ..) => True
  | o => o.exits broadcast

/-- What the newHeads loop does. -/
def Op.watches : Op → Prop
  | .trade .positionSnapshot | .join _ | .spawn (.processOnePosition ..) => True
  | _ => False

/-- The operations a task can make. -/
def Task.may (broadcast : Bool) : Task → Op → Prop
  | .consumer .., o => o = .env .openCount ∨ o.enters broadcast ∨ o.exits broadcast
  | .execute .., o => o.enters broadcast
  | .executeExit .., o => o.exits broadcast
  | .finalizePosition .., o => o.finalizes broadcast
  | .persistNonce _, o | .reserve, o | .resync, o => o.basic
  | .trailWatcher _, o => o.watches
  | .processOnePosition .., o => o.visits broadcast

section Kinds

variable {broadcast : Bool} {o : Op}

theorem Op.drafts.basic (drafts : o.drafts) : o.basic := by
  unfold Op.drafts at drafts
  split at drafts
  · exact drafts.elim
  · exact drafts

theorem Op.signs.drafts (signs : o.signs) : o.drafts := by
  unfold Op.drafts
  split
  · exact signs
  · exact .inr signs

theorem Op.probes.drafts (probes : o.probes) : o.drafts := by
  unfold Op.drafts
  split
  · cases probes
  · exact .inl probes.mild

theorem Op.basic.enters (basic : o.basic) : o.enters broadcast := by
  unfold Op.enters
  split <;> first | trivial | exact basic.elim False.elim False.elim

theorem Op.basic.readies (basic : o.basic) : o.readies broadcast := by
  unfold Op.readies
  split <;> first | trivial | exact basic.elim False.elim False.elim

theorem Op.basic.exits (basic : o.basic) : o.exits broadcast := by
  unfold Op.exits
  split <;> first | trivial | exact basic.elim False.elim False.elim

theorem Op.readies.exits (readies : o.readies broadcast) : o.exits broadcast := by
  unfold Op.readies at readies
  split at readies
  · trivial
  · exact readies.1
  · exact ⟨readies.1, readies.2.1⟩
  · exact Op.basic.exits readies

theorem Op.basic.finalizes (basic : o.basic) : o.finalizes broadcast := by
  unfold Op.finalizes
  split <;> first | trivial | exact basic.elim False.elim False.elim

theorem Op.basic.arms (basic : o.basic) : o.arms broadcast := by
  unfold Op.arms
  split <;> first | trivial | exact basic.elim False.elim False.elim

theorem Op.arms.finalizes (arms : o.arms broadcast) : o.finalizes broadcast := by
  unfold Op.arms at arms
  split at arms
  · trivial
  · exact arms
  · exact Op.basic.finalizes arms

theorem Op.gates.enters (gates : o.gates) : o.enters broadcast := by
  unfold Op.gates at gates
  split at gates
  · trivial
  · trivial
  · exact Op.basic.enters (.inl gates)

theorem Op.exits.visits (exits : o.exits broadcast) : o.visits broadcast := by
  unfold Op.visits
  split <;> trivial

variable {tx : TransactionRequest} {hash : B256} {site : Site}

theorem not_basic_submit : ¬ (Op.submit tx hash site).basic := by
  rintro (mild | signs)
  · exact mild
  · exact signs

theorem Op.enters.at_site (enters : (Op.submit tx hash site).enters broadcast) :
    site = .buy ∧ broadcast = true := by
  cases site with
  | buy => exact ⟨rfl, enters.1⟩
  | _ => exact absurd enters not_basic_submit

theorem Op.exits.at_site (exits : (Op.submit tx hash site).exits broadcast) :
    site ≠ .buy ∧ broadcast = true := by
  cases site with
  | exitApprove | sell => exact ⟨nofun, exits.1⟩
  | _ => exact absurd exits not_basic_submit

theorem Op.finalizes.at_site (finalizes : (Op.submit tx hash site).finalizes broadcast) :
    site = .bgApprove ∧ broadcast = true := by
  cases site with
  | bgApprove => exact ⟨rfl, finalizes.1⟩
  | _ => exact absurd finalizes not_basic_submit

/-- A task that submits broadcasts. -/
theorem Task.may.broadcasts {t : Task} (may : t.may broadcast (.submit tx hash site)) :
    broadcast = true := by
  cases t with
  | consumer =>
      rcases may with other | enters | exits
      · cases other
      · exact (Op.enters.at_site enters).2
      · exact (Op.exits.at_site exits).2
  | execute => exact (Op.enters.at_site may).2
  | executeExit | processOnePosition => exact (Op.exits.at_site may).2
  | finalizePosition => exact (Op.finalizes.at_site may).2
  | persistNonce | reserve | resync => exact absurd may not_basic_submit
  | trailWatcher => exact may.elim

/-- What a task starts on purpose is a save of the nonce, or the visit of a position. -/
theorem Task.may.starts {t u : Task} {broadcast : Bool} (may : t.may broadcast (.spawn u)) :
    (∃ n, u = .persistNonce n) ∨ ∃ token entry blockN,
    u = .processOnePosition token entry blockN := by
  have saves : (Op.spawn u).basic → ∃ n, u = .persistNonce n := by
    rintro (mild | signs)
    · exact mild.elim
    · cases u with
      | persistNonce n => exact ⟨n, rfl⟩
      | _ => exact signs.elim
  cases t with
  | consumer =>
      rcases may with other | enters | exits
      · cases other
      · exact .inl (saves enters)
      · exact .inl (saves exits)
  | trailWatcher =>
      cases u with
      | processOnePosition token entry blockN => exact .inr ⟨token, entry, blockN, rfl⟩
      | _ => exact may.elim
  | _ => exact .inl (saves may)

end Kinds

theorem basic_of_mild {α : Type} {p : Live α} (mild : p.All Op.mild) : p.All Op.basic :=
  mild.mono fun _ => .inl

/-! ### What operations start and write -/

section Effects

variable {i fresh : Tid} {o : Op} {a : o.Ans} {s : World} {out : Outcome World Task o.Res}

/-- Only an access to the environment changes it. -/
theorem exec_env (did : o.exec i fresh a s = some out) (other : ∀ e, o ≠ .env e) :
    out.shared.env = s.env := by
  cases o with
  | env e => exact absurd rfl (other e)
  | trade o =>
      obtain ⟨mid, -, rfl⟩ := Option.map_eq_some_iff.1 did
      rfl
  | sign tx => cases a <;> cases did <;> rfl
  | _ =>
      cases did
      rfl

/-- What an access to the environment leaves alone. -/
structure EnvOp.Frame (o : EnvOp) (v v' : Env) : Prop where
  daily : (∀ config trade, o ≠ .checkLimits config trade) → o ≠ .recordTradeFired →
    v'.daily = v.daily
  openCount : o ≠ .recordOpened → o ≠ .recordClosed → v'.openCount = v.openCount
  trailStates : ∀ token, (∀ state, o ≠ .trailInsert token state) → o ≠ .trailRemove token →
    v'.trailStates token = v.trailStates token

theorem EnvOp.exec_frame {o : EnvOp} {a : o.Ans} {v v' : Env} {r : o.Res}
    (ran : o.exec a v = some (r, v')) :
    EnvOp.Frame o v v' := by
  cases o with
  | checkLimits config trade =>
      cases ran
      exact ⟨fun other _ => absurd rfl (other config trade), fun _ _ => rfl, fun _ _ _ => rfl⟩
  | recordTradeFired =>
      cases ran
      exact ⟨fun _ other => absurd rfl other, fun _ _ => rfl, fun _ _ _ => rfl⟩
  | recordOpened =>
      cases ran
      exact ⟨fun _ _ => rfl, fun other _ => absurd rfl other, fun _ _ _ => rfl⟩
  | recordClosed =>
      cases ran
      exact ⟨fun _ _ => rfl, fun _ other => absurd rfl other, fun _ _ _ => rfl⟩
  | trailInsert changed state =>
      cases ran
      refine ⟨fun _ _ => rfl, fun _ _ => rfl, fun token other _ => Function.update_of_ne ?_ _ _⟩
      rintro rfl
      exact other state rfl
  | trailRemove changed =>
      cases ran
      refine ⟨fun _ _ => rfl, fun _ _ => rfl, fun token _ other => Function.update_of_ne ?_ _ _⟩
      rintro rfl
      exact other rfl
  | acquirePermit =>
      dsimp only [EnvOp.exec] at ran
      split at ran
      · cases ran
      · cases ran
        exact ⟨fun _ _ => rfl, fun _ _ => rfl, fun _ _ _ => rfl⟩
  | ledgerAppend row =>
      cases ran
      split <;> exact ⟨fun _ _ => rfl, fun _ _ => rfl, fun _ _ _ => rfl⟩
  | _ =>
      cases ran
      exact ⟨fun _ _ => rfl, fun _ _ => rfl, fun _ _ _ => rfl⟩

/-- A task is started by a BUY that opens a position, or on purpose. -/
theorem exec_started (did : o.exec i fresh a s = some out) {j : Nat} {t : Task}
    (started : out.spawned[j]? = some t) : o = .spawn t ∨
      ∃ token route bnbIn txHash e, o = .trade (.openPosition token route bnbIn txHash) ∧
        t = .finalizePosition token txHash route e := by
  cases o with
  | trade o =>
      obtain ⟨mid, ran, rfl⟩ := Option.map_eq_some_iff.1 did
      cases o with
      | openPosition token route bnbIn txHash =>
          cases ran
          cases j with
          | zero =>
              cases started
              exact .inr ⟨token, route, bnbIn, txHash, _, rfl, rfl⟩
          | succ j => cases started
      | loadEntry entry =>
          obtain ⟨p, -, rfl⟩ := Option.map_eq_some_iff.1 ran
          cases started
      | lockExit token =>
          dsimp only [TradeOp.exec] at ran
          split at ran
          · cases ran
            cases started
          · cases ran
      | _ =>
          cases ran
          cases started
  | env e =>
      obtain ⟨after, -, rfl⟩ := Option.map_eq_some_iff.1 did
      cases started
  | sign tx => cases a <;> cases did <;> cases started
  | spawn task =>
      cases did
      cases j with
      | zero =>
          cases started
          exact .inl rfl
      | succ j => cases started
  | _ =>
      cases did
      cases started

end Effects

/-! ### The functions -/

namespace LiveExecutor

variable {x : LiveExecutor}

theorem reserveNonce_reserves : x.reserveNonce.All Op.reserves := by
  unfold reserveNonce NonceManager.reserve
  apply Proc.All.bind (all_call.2 trivial)
  intro n
  split
  · exact Proc.All.bind (all_call.2 trivial) fun _ => trivial
  · trivial

theorem reserveNonce_signs : x.reserveNonce.All Op.signs :=
  reserveNonce_reserves.mono fun _ => Op.reserves.signs

theorem reserveNonce_basic : x.reserveNonce.All Op.basic := reserveNonce_signs.mono fun _ => .inr

theorem reserveNonce_drafts : x.reserveNonce.All Op.drafts :=
  reserveNonce_signs.mono fun _ => Op.signs.drafts

/-- The next nonce is asked for, and the counter is raised to it. -/
theorem resync_all {P : Op → Prop} (asks : P (.ask .pendingNonce)) (stores : ∀ o, P (.nonce o)) :
    NonceManager.resync.All P := by
  apply Proc.All.bind (all_call.2 asks)
  intro reply
  cases reply with
  | none => trivial
  | some chain =>
      apply Proc.All.bind (all_call.2 (stores _))
      intro loaded
      exact Proc.All.bind (all_call.2 (stores _)) fun _ => trivial

theorem resync_light : NonceManager.resync.All Op.light :=
  resync_all (.inl rfl) fun _ => .inr trivial

theorem resync_basic : NonceManager.resync.All Op.basic := resync_light.mono fun _ => Op.light.basic

theorem resync_drafts : NonceManager.resync.All Op.drafts :=
  resync_all (.inl rfl) fun _ => .inr trivial

/-- The gas price is looked up, or asked for and remembered. -/
theorem gasWeiAtLeast_all {P : Op → Prop} (cached : P (.env .gasCached)) (asks : P (.ask .gasPrice))
    (caches : ∀ wei, P (.env (.cacheGas wei))) (floor : U128) : (gasWeiAtLeast floor).All P := by
  have observes : gasWei.All P := by
    apply Proc.All.bind (all_call.2 cached)
    intro known
    cases known with
    | some wei => trivial
    | none =>
        apply Proc.All.bind (all_call.2 asks)
        intro reply
        cases reply with
        | none => trivial
        | some wei => exact Proc.All.bind (all_call.2 (caches wei)) fun _ => trivial
  exact observes.bind fun _ => trivial

theorem gasWeiAtLeast_drafts (floor : U128) : (gasWeiAtLeast floor).All Op.drafts :=
  gasWeiAtLeast_all (.inl trivial) (.inl rfl) (fun _ => .inl trivial) floor

/-- A route is found by the pair of the token, or by a dry run. -/
theorem pickRoute_all {P : Op → Prop} {token : Address} {amount : U256} {action : Action}
    (cached : P (.env (.pairCached token))) (asks : P (.ask (.getPair token)))
    (caches : ∀ pair, P (.env (.cachePair token pair))) (buys : P (.ask (.acceptsBuy token amount)))
    (sells : P (.ask (.acceptsSell token amount))) : (pickRoute token amount action).All P := by
  have looks : (v2PairCached token).All P := by
    apply Proc.All.bind (all_call.2 cached)
    intro known
    cases known with
    | some pair => trivial
    | none =>
        apply Proc.All.bind (all_call.2 asks)
        intro pair
        exact Proc.All.bind (all_call.2 (caches pair)) fun _ => trivial
  apply looks.bind
  intro pair
  cases pair with
  | some pair => trivial
  | none =>
      cases action with
      | buy => exact Proc.All.bind (all_call.2 buys) fun _ => trivial
      | sell => exact Proc.All.bind (all_call.2 sells) fun _ => trivial

/-! #### Entries -/

theorem broadcastEntry_enters (kolName visibility : String) (token : Address) (entry : Entry) :
    (x.broadcastEntry kolName visibility token entry).All (Op.enters x.broadcastEnabled) := by
  have basic : ∀ {α : Type} {p : Live α}, p.All Op.basic → p.All (Op.enters x.broadcastEnabled) :=
    fun all => all.mono fun _ => Op.basic.enters
  have records : ∀ nonce txHash broadcast,
      (x.recordEntry kolName visibility token entry nonce txHash broadcast).All
        (Op.enters x.broadcastEnabled) := by
    intro nonce txHash broadcast
    apply Proc.All.bind (all_call.2 trivial)
    intro _
    exact Proc.All.bind (all_call.2 trivial) fun _ => all_call.2 trivial
  unfold broadcastEntry
  refine (basic (basic_of_mild (buyCall_mild _ _ _ _))).bind_ends (x.buyCall_buys _ _ _) fun call
    buys => ?_
  apply (basic reserveNonce_basic).bind
  intro nonce
  refine Proc.All.bind (all_call.2 (Op.basic.enters (.inr trivial))) fun signed => ?_
  cases signed with
  | none => exact (basic resync_basic).bind fun _ => trivial
  | some txHash =>
      dsimp only
      split
      · rename_i on
        apply Proc.All.bind (all_call.2 ⟨on, buys.2⟩)
        intro sent
        split
        · refine (basic (basic_of_mild (ask_mild _ (by rfl)))).bind fun _ =>
            (records _ _ _).bind fun _ => ?_
          exact Proc.All.bind (all_call.2 trivial) fun _ => trivial
        · exact (basic resync_basic).bind fun _ => trivial
      · exact Proc.All.bind (all_call.2 buys.2) fun _ => (records _ _ _).bind fun _ => trivial

theorem execute_enters (decision : Decision) (visibility : String) (openPositions : Nat) :
    (x.execute decision visibility openPositions).All (Op.enters x.broadcastEnabled) := by
  cases decision with
  | enter kolName token bnbAmount kolBnbInput kolBlock kolTx =>
      have guard : (dupGuard token).All (Op.enters x.broadcastEnabled) :=
        dupGuard_all trivial trivial
      apply guard.bind
      intro duplicate
      split
      · trivial
      · have sized := basic_of_mild (x.sizeByUsd_mild visibility bnbAmount)
        apply (sized.mono fun _ => Op.basic.enters).bind
        intro size
        cases size with
        | none => trivial
        | some bnbAmount =>
            have gated := x.entryGates_gates kolName visibility token bnbAmount openPositions
            apply (gated.mono fun _ => Op.gates.enters).bind
            intro entry
            cases entry with
            | error reason => trivial
            | ok entry => exact broadcastEntry_enters kolName visibility token entry
  | _ => trivial

/-! #### Exits -/

/-- The holding is found out by a look into the cache and mild operations. -/
theorem exitHolding_ops {P : Op → Prop} {token : Address} (get : P (.trade (.positionsGet token)))
    (mild : ∀ o, Op.mild o → P o) : (exitHolding token).All P := by
  have all : ∀ {α : Type} {p : Live α}, p.All Op.mild → p.All P := fun all => all.mono mild
  apply Proc.All.bind (all_call.2 get)
  intro cached
  cases cached with
  | none =>
      apply (all (ask_mild _ (by rfl))).bind
      intro bal
      dsimp only
      split
      · trivial
      · apply (all (pickRoute_mild _ _ _)).bind
        intro route
        cases route <;> trivial
  | some held =>
      dsimp only
      split
      · trivial
      · split
        · trivial
        · apply (all (ask_mild _ (by rfl))).bind
          intro bal
          split <;> trivial

theorem exitHolding_readies {broadcast : Bool} (token : Address) :
    (exitHolding token).All (Op.readies broadcast) :=
  exitHolding_ops trivial fun _ mild => Op.basic.readies (.inl mild)

/-- An approval asks for the allowance, and logs or submits an approve where it is short. -/
theorem exitApproval_all {P : Op → Prop} (drafts : ∀ o, o.drafts → P o)
    (logs : ∀ tx, tx.input.bought = none → tx.input.sold = none → P (.shadow tx))
    (submits : ∀ tx hash, x.broadcastEnabled = true → tx.input.bought = none →
      tx.input.sold = none →
      P (.submit tx hash .exitApprove))
    (token : Address) (holding : Holding) (balance : U256) :
    (x.exitApproval token holding balance).All P := by
  have approve : ∀ spender, (x.submitApprove token spender).All P := by
    intro spender
    apply (reserveNonce_drafts.mono drafts).bind
    intro nonce
    apply ((gasWeiAtLeast_drafts _).mono drafts).bind
    intro gas
    have signs : ∀ tx, P (.sign tx) := fun tx => drafts _ (Op.signs.drafts trivial)
    apply Proc.All.bind (all_call.2 (signs _))
    intro signed
    cases signed with
    | none => trivial
    | some txHash =>
        dsimp only
        split
        · rename_i on
          exact all_call.2 (submits _ _ on rfl rfl)
        · exact Proc.All.bind (all_call.2 (logs _ rfl rfl)) fun _ => trivial
  unfold exitApproval
  split
  · trivial
  · have asks : ∀ spender, P (.ask (.allowance token spender)) :=
      fun spender => drafts _ (Op.probes.drafts rfl)
    apply Proc.All.bind (all_call.2 (asks _))
    intro allowance
    dsimp only
    split
    · apply (approve _).bind
      intro approved
      split
      · trivial
      · exact (resync_drafts.mono drafts).bind fun _ => trivial
    · trivial

theorem exitApproval_readies (token : Address) (holding : Holding) (balance : U256) :
    (x.exitApproval token holding balance).All (Op.readies x.broadcastEnabled) :=
  exitApproval_all (fun _ drafts => Op.basic.readies drafts.basic)
    (fun _ buys sells => ⟨buys, sells⟩)
    (fun _ _ on buys sells => ⟨on, buys, sells⟩) token holding balance

theorem broadcastExit_exits (kolName : String) (token : Address) (holding : Holding)
    (balance : U256) (isFullClose : Bool) (route : BuyRoute) (allowance : Option (Address × U256)) :
    (x.broadcastExit kolName token holding balance isFullClose route allowance).All
      (Op.exits x.broadcastEnabled) := by
  have basic : ∀ {α : Type} {p : Live α}, p.All Op.basic → p.All (Op.exits x.broadcastEnabled) :=
    fun all => all.mono fun _ => Op.basic.exits
  have records : ∀ gasGwei nonce txHash walletBnb broadcast,
      (x.recordExit kolName token gasGwei nonce txHash walletBnb broadcast).All
        (Op.exits x.broadcastEnabled) :=
    fun _ _ _ _ _ => Proc.All.bind (all_call.2 trivial) fun _ => all_call.2 trivial
  unfold broadcastExit
  refine (basic (basic_of_mild (sellCall_mild _ _ _ _))).bind_ends (x.sellCall_sells _ _ _)
    fun call sells => ?_
  apply (basic reserveNonce_basic).bind
  intro nonce
  apply (basic (basic_of_mild (gasWeiAtLeast_mild _))).bind
  intro gas
  refine Proc.All.bind (all_call.2 (Op.basic.exits (.inr trivial))) fun signed => ?_
  cases signed with
  | none => exact (basic resync_basic).bind fun _ => trivial
  | some txHash =>
      apply (basic (basic_of_mild (ask_mild _ (by rfl)))).bind
      intro walletBnb
      split
      · rename_i on
        apply Proc.All.bind (all_call.2 ⟨on, sells.2.2⟩)
        intro sent
        split
        · apply Proc.All.bind (all_call.2 trivial)
          intro _
          exact (records _ _ _ _ _).bind fun _ => trivial
        · exact (basic resync_basic).bind fun _ => trivial
      · apply Proc.All.bind (all_call.2 sells.2.2)
        intro _
        exact (records _ _ _ _ _).bind fun _ => trivial

theorem exitLocked_exits (token : Address) (kolName : String) (kolBlock : Nat) (kolAddr : Address) :
    (x.exitLocked token kolName kolBlock kolAddr).All (Op.exits x.broadcastEnabled) := by
  have mild : ∀ {α : Type} {p : Live α}, p.All Op.mild → p.All (Op.exits x.broadcastEnabled) :=
    fun all => all.mono fun _ mild => Op.basic.exits (.inl mild)
  apply (kolSellFraction_asks (fun _ => trivial) kolAddr token kolBlock).bind
  intro fraction
  apply ((exitHolding_readies token).mono fun _ => Op.readies.exits).bind
  intro held
  cases held with
  | error outcome => trivial
  | ok holding =>
      dsimp only
      by_cases rounds : decide (fraction.getD 1 ≥ x.fractions.fullAt) = false ∧
          (if decide (fraction.getD 1 ≥ x.fractions.fullAt) then holding.ourBalance
            else x.fractions.scale holding.ourBalance (fraction.getD 1)) = 0
      · rw [if_pos rounds]
        trivial
      · rw [if_neg rounds]
        apply ((exitApproval_readies _ _ _).mono fun _ => Op.readies.exits).bind
        intro allowance
        cases allowance with
        | none => trivial
        | some allowance =>
            apply (mild (pickRoute_mild _ _ _)).bind
            intro route
            exact broadcastExit_exits _ _ _ _ _ _ _

theorem executeExit_exits (token : Address) (kolName : String) (kolBlock : Nat)
    (kolAddr : Address) :
    (x.executeExit token kolName kolBlock kolAddr).All (Op.exits x.broadcastEnabled) := by
  unfold executeExit
  split
  · trivial
  · refine Proc.All.bind (all_call.2 trivial) fun _ =>
      (exitLocked_exits _ _ _ _).bind fun outcome => ?_
    exact Proc.All.bind (all_call.2 trivial) fun _ => trivial

/-! #### The finalize task -/

theorem finalizeApprove_arms (token : Address) (route : BuyRoute) (entry : EntryId) (bal : U256) :
    (x.finalizeApprove token route entry bal).All (Op.arms x.broadcastEnabled) := by
  have basic : ∀ {α : Type} {p : Live α}, p.All Op.basic → p.All (Op.arms x.broadcastEnabled) :=
    fun all => all.mono fun _ => Op.basic.arms
  have approve : (x.submitApproveBg token).All (Op.arms x.broadcastEnabled) := by
    unfold submitApproveBg
    split
    · rename_i on
      apply (basic reserveNonce_basic).bind
      intro nonce
      apply (basic (basic_of_mild (ask_mild _ (by rfl)))).bind
      intro gas
      refine Proc.All.bind (all_call.2 (Op.basic.arms (.inr trivial))) fun signed => ?_
      cases signed with
      | none => trivial
      | some txHash =>
          apply Proc.All.bind (all_call.2 ⟨on, rfl, rfl⟩)
          intro sent
          split <;> trivial
    · trivial
  unfold finalizeApprove
  split
  · apply approve.bind
    intro approved
    split
    · apply (basic (basic_of_mild (ask_mild _ (by rfl)))).bind
      intro budget
      apply (basic (basic_of_mild (pollReceipt_mild _ _))).bind
      intro seen
      split
      · exact Proc.All.bind (all_call.2 trivial) fun _ => trivial
      · trivial
    · trivial
  · trivial

theorem finalizeApprove_finalizes (token : Address) (route : BuyRoute) (entry : EntryId)
    (bal : U256) :
    (x.finalizeApprove token route entry bal).All (Op.finalizes x.broadcastEnabled) :=
  (finalizeApprove_arms token route entry bal).mono fun _ => Op.arms.finalizes

theorem finalizeBody_finalizes (token : Address) (buyTxHash : B256) (route : BuyRoute)
    (entry : EntryId) :
    (x.finalizeBody token buyTxHash route entry).All (Op.finalizes x.broadcastEnabled) := by
  have basic : ∀ {α : Type} {p : Live α}, p.All Op.basic →
      p.All (Op.finalizes x.broadcastEnabled) :=
    fun all => all.mono fun _ => Op.basic.finalizes
  apply (basic (basic_of_mild (ask_mild _ (by rfl)))).bind
  intro budget
  apply (basic (basic_of_mild (pollReceipt_mild _ _))).bind
  intro seen
  split
  · apply (basic (basic_of_mild (ask_mild _ (by rfl)))).bind
    intro bal
    dsimp only
    split
    · exact (finalizeApprove_finalizes _ _ _ _).bind fun _ => trivial
    · apply Proc.All.bind (all_call.2 trivial)
      intro _
      exact (finalizeApprove_finalizes _ _ _ _).bind fun _ => trivial
  · trivial

theorem finalizePosition_finalizes (token : Address) (buyTxHash : B256) (route : BuyRoute)
    (entry : EntryId) :
    (x.finalizePosition token buyTxHash route entry).All (Op.finalizes x.broadcastEnabled) := by
  apply Proc.All.bind (all_call.2 trivial)
  intro _
  apply (finalizeBody_finalizes token buyTxHash route entry).bind
  intro report
  exact Proc.All.bind (all_call.2 trivial) fun _ => trivial

end LiveExecutor

/-! ### The tasks -/

variable {w : TrailWatcher}

theorem consume_ops (trailActive : Bool) (decisions : List (Decision × String)) :
    (w.consume trailActive decisions).All fun o : Op =>
      o = .env .openCount ∨ o.enters w.exec.broadcastEnabled ∨ o.exits w.exec.broadcastEnabled := by
  induction decisions with
  | nil => trivial
  | cons decided rest ih =>
      obtain ⟨decision, visibility⟩ := decided
      cases decision with
      | skip reason => exact ih
      | enter kolName token bnbAmount kolBnbInput kolBlock kolTx =>
          apply Proc.All.bind (all_call.2 (.inl rfl))
          intro openPositions
          have entry := execute_enters (x := w.exec)
            (.enter kolName token bnbAmount kolBnbInput kolBlock kolTx) visibility openPositions
          exact (entry.mono fun _ enters => .inr (.inl enters)).bind fun _ => ih
      | exit kolName token kolBlock kolTx kolAddr =>
          cases trailActive with
          | true => exact ih
          | false =>
              have exit_ := executeExit_exits (x := w.exec) token kolName kolBlock kolAddr
              exact (exit_.mono fun _ exits => .inr (.inr exits)).bind fun _ => ih

theorem fireExit_visits (token : Address) (reason : String) (state : TrailState) (blockN : Nat) :
    (w.fireExit token reason state blockN).All (Op.visits w.exec.broadcastEnabled) := by
  apply Proc.All.bind (all_call.2 trivial)
  intro _
  apply ((executeExit_exits _ _ _ _).mono fun _ => Op.exits.visits).bind
  intro _
  exact all_call.2 trivial

theorem observePosition_visits (token : Address) (state : TrailState) (blockN : Nat) :
    (w.observePosition token state blockN).All (Op.visits w.exec.broadcastEnabled) := by
  have mild : ∀ {α : Type} {p : Live α}, p.All Op.mild →
      p.All (Op.visits w.exec.broadcastEnabled) :=
    fun all => all.mono fun _ mild => Op.exits.visits (Op.basic.exits (.inl mild))
  apply (mild (getLatestPriceCached_mild _ _ _)).bind
  intro price
  cases price with
  | none =>
      dsimp only
      split
      · exact fireExit_visits _ _ _ _
      · trivial
  | some currentPrice =>
      apply (mild (votedOut_mild _ _ _)).bind
      intro voted
      split
      · exact fireExit_visits _ _ _ _
      · split
        · exact fireExit_visits _ _ _ _
        · exact all_call.2 trivial

theorem processOnePosition_visits (token : Address) (entry : EntryId) (blockN : Nat) :
    (w.processOnePosition token entry blockN).All (Op.visits w.exec.broadcastEnabled) := by
  apply Proc.All.bind (all_call.2 trivial)
  intro p
  split
  · trivial
  · apply Proc.All.bind (all_call.2 trivial)
    intro known
    cases known with
    | some state => exact observePosition_visits token state blockN
    | none =>
        apply (initStateFromLedger_ops trivial (fun _ => trivial) token blockN).bind
        intro state
        cases state with
        | none => trivial
        | some state =>
            apply Proc.All.bind (all_call.2 trivial)
            intro _
            exact observePosition_visits token state blockN

/-- The state of the trader and what was done so far. -/
abbrev LiveRecorded (w : TrailWatcher) := World × List w.machine.Event

/-- A task makes its own operations only. -/
theorem body_may (t : Task) : (w.body t).All (t.may w.exec.broadcastEnabled) := by
  cases t with
  | consumer trailActive decisions =>
      exact (consume_ops trailActive decisions).bind fun _ => trivial
  | execute decision visibility openPositions =>
      exact (execute_enters decision visibility openPositions).bind fun _ => trivial
  | executeExit token kolName kolBlock kolAddr =>
      exact (executeExit_exits token kolName kolBlock kolAddr).bind fun _ => trivial
  | finalizePosition token buyTxHash route entry =>
      exact (finalizePosition_finalizes token buyTxHash route entry).bind fun _ => trivial
  | persistNonce n => exact Proc.All.bind (all_call.2 (.inr trivial)) fun _ => trivial
  | reserve => exact reserveNonce_basic.bind fun _ => trivial
  | resync => exact resync_basic.bind fun _ => trivial
  | trailWatcher blocks =>
      exact (runLoop_ops (P := Op.watches) trivial (fun _ => trivial) (fun _ _ _ => trivial)
        blocks).bind
        fun _ => trivial
  | processOnePosition token entry blockN =>
      exact (processOnePosition_visits token entry blockN).bind fun _ => trivial

end BscMempool.Trader
