/-
Module: BscMempool.Proofs.Scenario
Layer: Proofs
Purpose: Concrete traders and environments, from which schedules build runs on fixed inputs.
Trusted boundary: none
Main exports: scenario, buyTask, exitTask, Replies, Replies.ans, SwitchReplies.ans
-/
import BscMempool.Trader.KillSwitch
import BscMempool.Trader.LiveSystem

namespace BscMempool.Trader

/-- A bounded quantifier over nonces is decided along the list, not over every `UInt64`. -/
instance (priority := high) decidableForallNonce (l : List UInt64) (P : UInt64 → Prop)
    [DecidablePred P] : Decidable (∀ n ∈ l, P n) := List.decidableBAll P l

/-- Limits under which every entry of the KOL "D" passes. -/
def scenarioLimits (phase : PhaseConfig) : LimitsConfig :=
  { phase := phase
    limits := {
      dailyLossUsd := 100
      perTradeMaxBnb := 1
      minWalletBnb := 0
      maxOpenPositions := 10
      maxTradesPerDay := 10
      maxGasPriceGwei := 100
      slippageBps := 100
      cooldownAfterLossMs := 0 }
    strategy := {
      publicOnly := false
      kolWhitelist := ["D"]
      tradeSizeUsd := 0
      tradeSizePrivateUsd := 0 }
    tokens := { maxSellTaxBps := 500 } }

/-- A trader that broadcasts, with a nonce file if `persist`. -/
def scenario (persist : Bool) : TrailWatcher :=
  { cfg := { enabled := true }
    exec := {
      wallet := 0xA11CE#160
      persist := persist
      config := scenarioLimits ⟨false, false, true⟩
      blacklist := none } }

/-- The token of the scenarios. -/
abbrev scenarioToken : Address := 0x4444#160

/-- A BUY of the token. -/
def buyTask : Task := .execute (.enter "D" scenarioToken 1000 1000 7 1) "public" 0

/-- A full exit of the token. -/
def exitTask : Task := .executeExit scenarioToken "D" 0 0

/-- What the outside answers while a schedule entry lasts. -/
structure Replies where
  balance : Option U256 := none
  balanceAt : Nat → Option U256 := fun _ => none
  allowance : Option U256 := none
  pair : Option Address := none
  accepts : Bool := true
  gasPrice : Option U128 := some 1000000000
  pendingNonce : Option UInt64 := none
  receipt : Option Bool := some true
  buyReceipt : Option BuyReceipt := none
  polls : Nat := 1
  signed : Option B256 := some 1
  sent : Submitted := ⟨true, true⟩
  written : Bool := true

/-- The answers of an environment. -/
def Replies.ans (r : Replies) : (o : Op) → o.Ans
  | .ask (.balanceOf _) => r.balance
  | .ask (.balanceOfAt _ _ block) => r.balanceAt block
  | .ask (.allowance ..) => r.allowance
  | .ask (.getPair _) => r.pair
  | .ask (.acceptsBuy ..) => r.accepts
  | .ask (.acceptsSell ..) => r.accepts
  | .ask (.getAmountsOut ..) => none
  | .ask .gasPrice => r.gasPrice
  | .ask .pendingNonce => r.pendingNonce
  | .ask (.receiptStatus _) => r.receipt
  | .ask (.buyReceipt _) => r.buyReceipt
  | .ask (.observedPrice ..) => none
  | .ask (.cachedPrice _) => none
  | .ask (.tokenStats _) => none
  | .ask .bnbUsd => none
  | .ask .walletBnb => 1
  | .ask .unixSecs => 0
  | .ask (.polls _) => r.polls
  | .trade _ => ()
  | .nonce (.write _) => r.written
  | .nonce .fetchAdd => ()
  | .nonce .load => ()
  | .nonce (.store ..) => ()
  | .env .gasCached => false
  | .env (.cacheGas _) => ()
  | .env (.pairCached _) => false
  | .env (.cachePair ..) => ()
  | .env (.checkLimits ..) => (0 : Nat)
  | .env .recordTradeFired => ()
  | .env (.ledgerAppend _) => true
  | .env .ledgerRows => ()
  | .env .recordOpened => ()
  | .env .recordClosed => ()
  | .env .openCount => ()
  | .env .acquirePermit => ()
  | .env .releasePermit => ()
  | .env (.trailGet _) => ()
  | .env (.trailInsert ..) => ()
  | .env (.trailRemove _) => ()
  | .env (.trailExit ..) => ()
  | .sign _ => r.signed
  | .submit .. => r.sent
  | .shadow _ => ()
  | .spawn _ => ()
  | .join _ => ()

/-- What the kill switch gets to read while a schedule entry lasts. -/
structure SwitchReplies where
  nowMs : Nat
  balance : Option ℚ := none
  bnbUsd : Option ℚ := some 500

/-- The answers of an environment of the kill switch. -/
def SwitchReplies.ans (r : SwitchReplies) : (o : SwitchOp) → o.Ans
  | .now => r.nowMs
  | .walletBalance => (r.nowMs, r.balance)
  | .bnbUsd => r.bnbUsd
  | .maybeResetDay _ => ()
  | .gates .. => ()
  | .recordTradeFired => ()
  | .syncRealizedLoss _ => r.nowMs
  | .logBaseline .. => ()

end BscMempool.Trader
