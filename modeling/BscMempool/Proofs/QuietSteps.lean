/-
Module: BscMempool.Proofs.QuietSteps
Layer: Proofs
Purpose: Which parts of the executor only ask questions and use caches, and which parts do more but
  leave the position cache, the exit locks and the wire alone.
Trusted boundary: none
Main exports: Op.mild, Op.gates, Op.calm, Op.leavesTrade, Focused, Focused.calm_wp,
  leavesTrade_still, pickRoute_mild, sellCall_sells
-/
import BscMempool.Concurrent.RelyGuarantee
import BscMempool.Trader.LiveSystem

namespace BscMempool.Trader

open Concurrent (Tid Machine Contract Proc)
open Concurrent.Proc

/-! ### Kinds of operations -/

/-- Questions, and accesses to the caches, the limits, the ledger and the permits. -/
def Op.calm : Op → Prop
  | .ask _ | .env _ => True
  | _ => False

/-- A question about a past block. -/
def Query.past : Query → Bool
  | .balanceOfAt .. => true
  | _ => false

/-- Questions about the present, and accesses to the caches of gas prices and pairs. -/
def Op.mild : Op → Prop
  | .ask q => q.past = false
  | .env .gasCached | .env (.cacheGas _) | .env (.pairCached _) | .env (.cachePair ..) => True
  | _ => False

/-- A question about the present, and neither about the gas price nor about a balance. -/
def Query.probing : Query → Bool
  | .balanceOfAt .. | .gasPrice | .balanceOf _ => false
  | _ => true

/-- Those that look up neither the gas price nor a balance. -/
def Op.probes : Op → Prop
  | .ask q => q.probing = true
  | .env (.pairCached _) | .env (.cachePair ..) => True
  | _ => False

theorem Op.probes.mild {o : Op} (probes : o.probes) : o.mild := by
  cases o with
  | ask q => cases q <;> first | rfl | exact absurd probes (by simp [Op.probes, Query.probing])
  | env o => cases o <;> first | exact probes.elim | trivial
  | _ => exact probes.elim

theorem Op.mild.calm {o : Op} (mild : o.mild) : o.calm := by
  cases o with
  | ask | env => trivial
  | _ => exact mild.elim

/-- What an entry does before it is made: mild operations, the limits check and a ledger row. -/
def Op.gates : Op → Prop
  | .env (.checkLimits ..) | .env (.ledgerAppend _) => True
  | o => o.mild

theorem Op.mild.gates {o : Op} (mild : o.mild) : o.gates := by
  unfold Op.gates
  split
  · trivial
  · trivial
  · exact mild

theorem Op.gates.calm {o : Op} (gates : o.gates) : o.calm := by
  cases o with
  | ask | env => trivial
  | _ => exact gates.elim

/-- Operations that leave the position cache, the exit locks and the wire alone. -/
def Op.leavesTrade : Op → Prop
  | .ask _ | .env _ | .nonce _ | .sign _ | .shadow _ | .spawn (.persistNonce _) => True
  | _ => False

theorem Op.calm.leavesTrade {o : Op} (calm : o.calm) : o.leavesTrade := by
  cases o <;> trivial

/-- The operation hands nothing to an endpoint. -/
def Op.silent : Op → Prop
  | .submit .. => False
  | _ => True

/-- A silent operation leaves the wire alone. -/
theorem wire_of_silent {i fresh : Tid} {o : Op} {a : o.Ans} {s : World}
    {out : Concurrent.Outcome World Task o.Res} (kind : o.silent)
    (did : o.exec i fresh a s = some out) :
    out.shared.trade.wire = s.trade.wire := by
  cases o with
  | submit => exact kind.elim
  | trade o =>
      obtain ⟨mid, ran, rfl⟩ := Option.map_eq_some_iff.1 did
      cases o with
      | loadEntry entry =>
          obtain ⟨p, -, rfl⟩ := Option.map_eq_some_iff.1 ran
          rfl
      | lockExit token =>
          dsimp only [TradeOp.exec] at ran
          split at ran
          · cases ran
            rfl
          · cases ran
      | _ =>
          cases ran
          rfl
  | env o =>
      obtain ⟨after, -, rfl⟩ := Option.map_eq_some_iff.1 did
      rfl
  | sign tx => cases a <;> cases did <;> rfl
  | _ =>
      cases did
      rfl

variable {w : TrailWatcher} {V : Type} {view : World → V} {K : Contract w.machine}

/-- The contract speaks about `view` only, and `view` does not show the environment. -/
structure Focused (K : Contract w.machine) (view : World → V) : Prop where
  about : K.About view
  envFree : ∀ s v, view { s with env := v } = view s

/-- A calm operation changes nothing but the environment. -/
theorem Focused.calm_still (focused : Focused K view) {o : Op} (calm : o.calm) :
    K.Still view o := by
  intro i fresh a s out did
  cases o with
  | ask q =>
      cases did
      exact ⟨rfl, fun j t started => by cases started⟩
  | env o =>
      obtain ⟨after, _, rfl⟩ := Option.map_eq_some_iff.1 did
      exact ⟨focused.envFree s after.2, fun j t started => by cases started⟩
  | _ => exact calm.elim

/-- Calm parts keep every assertion. -/
theorem Focused.calm_wp (focused : Focused K view) {i : Tid} (A : K.Assertion view i) {α : Type}
    {p : Live α} (calm : p.All Op.calm) {Q : α → World → Prop}
    (done : ∀ value s, A.on s → Q value s) {s : World} (now : A.on s) : K.wp i p Q s :=
  A.wp_still focused.about (calm.mono fun _ => focused.calm_still) done now

theorem Focused.mild_wp (focused : Focused K view) {i : Tid} (A : K.Assertion view i) {α : Type}
    {p : Live α} (mild : p.All Op.mild) {Q : α → World → Prop}
    (done : ∀ value s, A.on s → Q value s) {s : World} (now : A.on s) : K.wp i p Q s :=
  focused.calm_wp A (mild.mono fun _ => Op.mild.calm) done now

/-- An operation that leaves the trade alone leaves it alone for every contract. -/
theorem leavesTrade_still (persist : ∀ n i s, K.pre (.persistNonce n) i s) {o : Op}
    (leaves : o.leavesTrade) : K.Still World.trade o := by
  intro i fresh a s out did
  cases o with
  | ask q | nonce o | shadow tx =>
      cases did
      exact ⟨rfl, fun j t started => by cases started⟩
  | env o =>
      obtain ⟨after, _, rfl⟩ := Option.map_eq_some_iff.1 did
      exact ⟨rfl, fun j t started => by cases started⟩
  | sign tx =>
      cases a <;> cases did <;> exact ⟨rfl, fun j t started => by cases started⟩
  | spawn task =>
      cases task with
      | persistNonce n =>
          cases did
          refine ⟨rfl, fun j t started s => ?_⟩
          cases j with
          | zero =>
              cases started
              exact persist n _ s
          | succ j => cases started
      | _ => exact leaves.elim
  | _ => exact leaves.elim

/-- Signing concerns no contract about the trade. -/
theorem sign_trade {i : Tid} (about : K.About World.trade)
    (persist : ∀ n i s, K.pre (.persistNonce n) i s) (A : K.Assertion World.trade i)
    (tx : TransactionRequest) {Q : Option B256 → World → Prop}
    (implies : ∀ hash s, A.on s → Q hash s) : K.Triple i A.on (.sign tx) Q :=
  A.triple_still about (leavesTrade_still persist (show Op.leavesTrade (.sign tx) from trivial))
    implies

/-- Logging a transaction concerns no contract about the trade. -/
theorem shadow_trade {i : Tid} (about : K.About World.trade)
    (persist : ∀ n i s, K.pre (.persistNonce n) i s) (A : K.Assertion World.trade i)
    (tx : TransactionRequest) {Q : Unit → World → Prop}
    (implies : ∀ s, A.on s → Q () s) : K.Triple i A.on (.shadow tx) Q :=
  A.triple_still about (leavesTrade_still persist (show Op.leavesTrade (.shadow tx) from trivial))
    fun _ => implies

/-! ### Calm parts of the executor -/

theorem ask_mild (q : Query) (present : q.past = false) : (ask q).All Op.mild :=
  all_call.2 present

theorem ask_probes (q : Query) (probing : q.probing = true) : (ask q).All Op.probes :=
  all_call.2 probing

theorem mild_of_probes {α : Type} {p : Live α} (probes : p.All Op.probes) : p.All Op.mild :=
  probes.mono fun _ => Op.probes.mild

theorem ask_calm (q : Query) : (ask q).All Op.calm := all_call.2 trivial

theorem onEnv_calm (o : EnvOp) : (onEnv o).All Op.calm := all_call.2 trivial

namespace LiveExecutor

variable (x : LiveExecutor)

theorem gasWei_mild : gasWei.All Op.mild := by
  apply (all_call.2 trivial).bind
  intro cached
  cases cached with
  | some wei => trivial
  | none =>
      apply (ask_mild _ (by rfl)).bind
      intro reply
      cases reply with
      | none => trivial
      | some wei => exact (all_call.2 trivial).bind fun _ => trivial

theorem gasWeiAtLeast_mild (floor : U128) : (gasWeiAtLeast floor).All Op.mild :=
  gasWei_mild.bind fun _ => trivial

theorem v2PairCached_probes (token : Address) : (v2PairCached token).All Op.probes := by
  apply (all_call.2 trivial).bind
  intro cached
  cases cached with
  | some pair => trivial
  | none =>
      exact (ask_probes _ (by rfl)).bind fun pair => (all_call.2 trivial).bind fun _ => trivial

theorem pickRoute_probes (token : Address) (amount : U256) (action : Action) :
    (pickRoute token amount action).All Op.probes := by
  apply (v2PairCached_probes token).bind
  intro pair
  cases pair with
  | some pair => trivial
  | none => cases action <;> exact (ask_probes _ (by rfl)).bind fun _ => trivial

theorem pickRoute_mild (token : Address) (amount : U256) (action : Action) :
    (pickRoute token amount action).All Op.mild :=
      mild_of_probes (pickRoute_probes token amount action)

theorem impliedSellTaxBpsV2_probes (token : Address) (probeBnb : U256) :
    (impliedSellTaxBpsV2 token probeBnb).All Op.probes := by
  apply (ask_probes _ (by rfl)).bind
  intro quote
  cases quote with
  | none => trivial
  | some buyOut =>
      dsimp only
      split
      · trivial
      · apply (ask_probes _ (by rfl)).bind
        intro quote
        cases quote with
        | none => trivial
        | some sellOut =>
            dsimp only
            split <;> trivial

/-- The fraction is found out by questions alone. -/
theorem kolSellFraction_asks {x : LiveExecutor} {P : Op → Prop} (asks : ∀ q, P (.ask q))
    (kolAddr token : Address) (kolBlock : Nat) :
    (x.kolSellFraction kolAddr token kolBlock).All P := by
  unfold kolSellFraction
  split
  · trivial
  · refine Proc.All.bind (all_call.2 (asks _)) fun pre =>
      Proc.All.bind (all_call.2 (asks _)) fun post => ?_
    split
    · split <;> trivial
    · trivial

/-- The guard looks the token up and drops a stale entry. -/
theorem dupGuard_all {P : Op → Prop} {token : Address} (get : P (.trade (.positionsGet token)))
    (remove : P (.trade (.positionsRemove token))) : (dupGuard token).All P := by
  unfold dupGuard
  apply Proc.All.bind (all_call.2 get)
  intro cached
  cases cached with
  | none => trivial
  | some held =>
      dsimp only
      split
      · exact Proc.All.bind (all_call.2 remove) fun _ => trivial
      · trivial

theorem kolSellFraction_calm {x : LiveExecutor} (kolAddr token : Address) (kolBlock : Nat) :
    (x.kolSellFraction kolAddr token kolBlock).All Op.calm :=
  kolSellFraction_asks (fun _ => trivial) kolAddr token kolBlock

theorem sizeByUsd_mild (visibility : String) (bnbAmount : U256) :
    (x.sizeByUsd visibility bnbAmount).All Op.mild := by
  unfold sizeByUsd
  dsimp only
  split
  · apply (ask_mild _ (by rfl)).bind
    intro bnbUsd
    split
    · trivial
    · split
      · split <;> trivial
      · trivial
  · trivial

theorem taxTooHigh_probes (route : BuyRoute) (token : Address) (bnbAmount : U256) :
    (x.taxTooHigh route token bnbAmount).All Op.probes := by
  cases route with
  | fourMeme => trivial
  | pancakeV2 =>
      apply (impliedSellTaxBpsV2_probes token bnbAmount).bind
      intro tax
      cases tax <;> trivial

theorem buyCall_probes (route : BuyRoute) (token : Address) (bnbAmount : U256) :
    (x.buyCall route token bnbAmount).All Op.probes := by
  cases route with
  | fourMeme => trivial
  | pancakeV2 =>
      exact (ask_probes _ (by rfl)).bind fun _ => (ask_probes _ (by rfl)).bind fun _ => trivial

theorem sellCall_probes (route : BuyRoute) (token : Address) (balance : U256) :
    (x.sellCall route token balance).All Op.probes := by
  cases route with
  | fourMeme => trivial
  | pancakeV2 =>
      exact (ask_probes _ (by rfl)).bind fun _ => (ask_probes _ (by rfl)).bind fun _ => trivial

theorem taxTooHigh_mild (route : BuyRoute) (token : Address) (bnbAmount : U256) :
    (x.taxTooHigh route token bnbAmount).All Op.mild :=
      mild_of_probes (x.taxTooHigh_probes route token bnbAmount)

theorem buyCall_mild (route : BuyRoute) (token : Address) (bnbAmount : U256) :
    (x.buyCall route token bnbAmount).All Op.mild :=
      mild_of_probes (x.buyCall_probes route token bnbAmount)

theorem sellCall_mild (route : BuyRoute) (token : Address) (balance : U256) :
    (x.sellCall route token balance).All Op.mild :=
      mild_of_probes (x.sellCall_probes route token balance)

theorem entryGates_gates (kolName visibility : String) (token : Address) (bnbAmount : U256)
    (openPositions : Nat) :
    (x.entryGates kolName visibility token bnbAmount openPositions).All Op.gates := by
  have appends : ∀ row, (onEnv (.ledgerAppend row)).All Op.gates := fun _ => all_call.2 trivial
  have mild : ∀ {α : Type} {p : Live α}, p.All Op.mild → p.All Op.gates :=
    fun all => all.mono fun _ => Op.mild.gates
  unfold entryGates
  split
  · exact (appends _).bind fun _ => trivial
  · refine (mild (ask_mild _ (by rfl))).bind fun walletBnb =>
      (mild (gasWeiAtLeast_mild _)).bind fun gasWei => ?_
    apply Proc.All.bind (all_call.2 trivial)
    intro failed
    cases failed with
    | some why => exact (appends _).bind fun _ => trivial
    | none =>
        apply (mild (pickRoute_mild _ _ _)).bind
        intro route
        cases route with
        | none => exact (appends _).bind fun _ => trivial
        | some route =>
            apply (mild (x.taxTooHigh_mild _ _ _)).bind
            intro tax
            cases tax with
            | some tax => exact (appends _).bind fun _ => trivial
            | none => trivial

theorem recordEntry_calm (kolName visibility : String) (token : Address) (entry : Entry)
    (nonce : UInt64) (txHash : B256) (broadcast : Bool) :
    (x.recordEntry kolName visibility token entry nonce txHash broadcast).All Op.calm :=
  (onEnv_calm _).bind fun _ => (onEnv_calm _).bind fun _ => onEnv_calm _

theorem recordExit_calm (kolName : String) (token : Address) (gasGwei : Nat) (nonce : UInt64)
    (txHash : B256) (walletBnb : ℚ) (broadcast : Bool) :
    (x.recordExit kolName token gasGwei nonce txHash walletBnb broadcast).All Op.calm :=
  (onEnv_calm _).bind fun _ => onEnv_calm _

theorem pollReceipt_mild (txHash : B256) (n : Nat) : (pollReceipt txHash n).All Op.mild := by
  induction n with
  | zero => trivial
  | succ n ih =>
      apply (ask_mild _ (by rfl)).bind
      intro status
      split
      · trivial
      · exact ih

/-! ### What the calls are for -/

/-- A BUY calldata buys its token. -/
theorem buyCall_buys (route : BuyRoute) (token : Address) (bnbAmount : U256) :
    (x.buyCall route token bnbAmount).Ends fun call =>
      call.2.2.bought = some token ∧ call.2.2.sold = none := by
  cases route with
  | fourMeme => exact ⟨rfl, rfl⟩
  | pancakeV2 => exact fun _ _ => ⟨rfl, rfl⟩

/-- A SELL calldata sells its amount of its token, and is addressed to its route's spender. -/
theorem sellCall_sells (route : BuyRoute) (token : Address) (balance : U256) :
    (x.sellCall route token balance).Ends fun call =>
      call.1 = route.spender ∧ call.2.2.sold = some (token, balance) ∧ call.2.2.bought = none := by
  cases route with
  | fourMeme => exact ⟨rfl, rfl, rfl⟩
  | pancakeV2 => exact fun _ _ => ⟨rfl, rfl, rfl⟩

end LiveExecutor

/-! ### Nonce calls leave the trade alone -/

theorem reserve_leavesTrade (persist : Bool) :
    (NonceManager.reserve persist).All Op.leavesTrade := by
  apply (all_call.2 trivial).bind
  intro n
  cases persist with
  | false => trivial
  | true => exact (all_call.2 trivial).bind fun _ => trivial

theorem persistNonce_leavesTrade (n : UInt64) : (NonceManager.persistNonce n).All Op.leavesTrade :=
  all_call.2 trivial

theorem resync_leavesTrade : NonceManager.resync.All Op.leavesTrade := by
  apply (all_call.2 trivial).bind
  intro reply
  cases reply with
  | none => trivial
  | some chain =>
      exact (all_call.2 trivial).bind fun _ => (all_call.2 trivial).bind fun _ => trivial

end BscMempool.Trader
