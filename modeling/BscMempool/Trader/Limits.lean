/-
Module: BscMempool.Trader.Limits
Layer: Trader
Purpose: The kill criteria of the live trader: the limits configuration, the daily counters and the
  gate every entry passes through before it is signed.
Trusted boundary: human-reviewed translation of trader/limits.rs
Main exports: LimitsConfig, loadConfig, DailyState, LimitFail, TradeCheck, LimitsConfig.Admits,
  LimitsConfig.check, LimitsConfig.syncRealizedLoss, recordTradeFired
-/
import BscMempool.Trader.Types

namespace BscMempool.Trader

structure PhaseConfig where
  shadow : Bool
  tiny : Bool
  full : Bool
deriving DecidableEq, Repr

/-- Signed transactions actually hit the wire. -/
def PhaseConfig.broadcastEnabled (p : PhaseConfig) : Bool := p.tiny || p.full

/-- Per-trade cap honoring the tiny-mode override. -/
def PhaseConfig.effectivePerTradeMaxBnb (p : PhaseConfig) (fullCap : ℚ) : ℚ :=
  if p.tiny && !p.full then min fullCap (1 / 1000) else fullCap

structure HardLimits where
  dailyLossUsd : ℚ
  perTradeMaxBnb : ℚ
  minWalletBnb : ℚ
  maxOpenPositions : Nat
  maxTradesPerDay : Nat
  maxGasPriceGwei : Nat
  slippageBps : Nat
  cooldownAfterLossMs : Nat
deriving Repr

/-- The strategy section of the limits file, as far as the executor reads it. -/
structure StrategyPolicy where
  publicOnly : Bool
  kolWhitelist : List String
  tradeSizeUsd : ℚ
  tradeSizePrivateUsd : ℚ
deriving Repr

structure TokenPolicy where
  maxSellTaxBps : Nat
deriving Repr

structure LimitsConfig where
  phase : PhaseConfig
  limits : HardLimits
  strategy : StrategyPolicy
  tokens : TokenPolicy
deriving Repr

/-- `load_config`: exactly one phase is active in what it accepts.  `contents` is what reading the
file gives, `parse` the decoder of its format. -/
def loadConfig (path : String) (contents : Option String) (parse : String → Option LimitsConfig) :
    Except String LimitsConfig :=
  match contents with
  | none => .error s!"read {path}"
  | some s =>
      match parse s with
      | none => .error s!"parse {path}"
      | some c =>
          let active := ([c.phase.shadow, c.phase.tiny, c.phase.full].filter id).length
          if active ≠ 1 then
            .error s!"config/limits.toml: exactly one of phase.\x7bshadow,tiny,full\x7d must be true (got {active})"
          else .ok c

/-- The counters of one UTC day. -/
structure DailyState where
  day : Nat := 0
  realizedLossUsd : ℚ := 0
  tradesToday : Nat := 0
  lastLossUnixMs : Nat := 0
  halted : Bool := false
deriving Repr

inductive LimitFail where
  | notWhitelisted (kolName : String)
  | privateVisibilityWhilePublicOnly
  | perTradeCapExceeded (wantedBnb capBnb : ℚ)
  | maxOpenPositions (n : Nat)
  | maxTradesPerDay (n : Nat)
  | dailyLossHalt (lossUsd capUsd : ℚ)
  | walletBelowMin (balanceBnb minBnb : ℚ)
  | gasTooHigh (gwei cap : Nat)
  | inCooldown (remainingMs : Nat)
  | phaseSaysShadow
deriving DecidableEq, Repr

/-- The reason recorded on the ledger row of a skipped trade. -/
def limitLabel : LimitFail → String
  | .notWhitelisted _ => "not_whitelisted"
  | .privateVisibilityWhilePublicOnly => "private_visibility"
  | .perTradeCapExceeded _ _ => "per_trade_cap"
  | .maxOpenPositions _ => "max_open"
  | .maxTradesPerDay _ => "max_trades_day"
  | .dailyLossHalt _ _ => "daily_loss_halt"
  | .walletBelowMin _ _ => "wallet_low"
  | .gasTooHigh _ _ => "gas_too_high"
  | .inCooldown _ => "cooldown"
  | .phaseSaysShadow => "shadow"

/-- Inputs to one check. -/
structure TradeCheck where
  kolName : String
  visibility : String
  bnbAmount : ℚ
  currentOpenPositions : Nat
  currentWalletBnb : ℚ
  currentGasGwei : Nat
deriving Repr

/-- The UTC day of a time. -/
abbrev utcDay (nowMs : Nat) : Nat := nowMs / 86400000

/-- Roll the counters over when the UTC day has changed. -/
def maybeResetDay (s : DailyState) (nowMs : Nat) : DailyState :=
  let day := nowMs / 86400000
  if s.day ≠ day then { day := day } else s

def cooldownRemaining (lastLossMs cooldownMs nowMs : Nat) : Option Nat :=
  if lastLossMs = 0 then none
  else
    let elapsed := nowMs - lastLossMs
    if elapsed < cooldownMs then some (cooldownMs - elapsed) else none

/-- Every gate in order, on counters that are already those of the current day: the
first failure, if any. -/
def LimitsConfig.gates (cfg : LimitsConfig) (s : DailyState) (nowMs : Nat) (t : TradeCheck) :
    Option LimitFail :=
  if s.halted then some (.dailyLossHalt s.realizedLossUsd cfg.limits.dailyLossUsd)
  else match cooldownRemaining s.lastLossUnixMs cfg.limits.cooldownAfterLossMs nowMs with
    | some remaining => some (.inCooldown remaining)
    | none =>
      let cap := cfg.phase.effectivePerTradeMaxBnb cfg.limits.perTradeMaxBnb
      if ¬ t.kolName ∈ cfg.strategy.kolWhitelist then some (.notWhitelisted t.kolName)
      else if cfg.strategy.publicOnly ∧ t.visibility ≠ "public" then
        some .privateVisibilityWhilePublicOnly
      else if t.bnbAmount > cap then some (.perTradeCapExceeded t.bnbAmount cap)
      else if t.currentOpenPositions ≥ cfg.limits.maxOpenPositions then
        some (.maxOpenPositions cfg.limits.maxOpenPositions)
      else if s.tradesToday ≥ cfg.limits.maxTradesPerDay then
        some (.maxTradesPerDay cfg.limits.maxTradesPerDay)
      else if t.currentWalletBnb < cfg.limits.minWalletBnb then
        some (.walletBelowMin t.currentWalletBnb cfg.limits.minWalletBnb)
      else if t.currentGasGwei > cfg.limits.maxGasPriceGwei then
        some (.gasTooHigh t.currentGasGwei cfg.limits.maxGasPriceGwei)
      else none

theorem none_of_guard {α : Type} {c : Prop} [Decidable c] {a : α} {b : Option α}
    (passes : (if c then some a else b) = none) : ¬ c ∧ b = none := by
  split at passes
  · cases passes
  · exact ⟨by assumption, passes⟩

/-- What a trade that passes every gate satisfies. -/
structure LimitsConfig.Admits (cfg : LimitsConfig) (s : DailyState) (t : TradeCheck) : Prop where
  notHalted : s.halted = false
  whitelisted : t.kolName ∈ cfg.strategy.kolWhitelist
  visible : cfg.strategy.publicOnly = true → t.visibility = "public"
  openPositions : t.currentOpenPositions < cfg.limits.maxOpenPositions
  tradesToday : s.tradesToday < cfg.limits.maxTradesPerDay

theorem LimitsConfig.admits_of_gates {cfg : LimitsConfig} {s : DailyState} {nowMs : Nat}
    {t : TradeCheck} (passes : cfg.gates s nowMs t = none) : cfg.Admits s t := by
  unfold gates at passes
  obtain ⟨running, passes⟩ := none_of_guard passes
  split at passes
  · cases passes
  · obtain ⟨listed, passes⟩ := none_of_guard passes
    obtain ⟨shown, passes⟩ := none_of_guard passes
    obtain ⟨-, passes⟩ := none_of_guard passes
    obtain ⟨opened, passes⟩ := none_of_guard passes
    obtain ⟨traded, -⟩ := none_of_guard passes
    constructor
    · exact Bool.eq_false_iff.2 running
    · exact not_not.1 listed
    · exact fun isPublic => by_contra fun other => shown ⟨isPublic, other⟩
    · exact Nat.lt_of_not_le opened
    · exact Nat.lt_of_not_le traded

/-- A trade that passes every gate has its gas price, in whole gwei, within the cap. -/
theorem LimitsConfig.gas_of_gates {cfg : LimitsConfig} {s : DailyState} {nowMs : Nat}
    {t : TradeCheck}
    (passes : cfg.gates s nowMs t = none) : t.currentGasGwei ≤ cfg.limits.maxGasPriceGwei := by
  unfold gates at passes
  obtain ⟨-, passes⟩ := none_of_guard passes
  split at passes
  · cases passes
  · obtain ⟨-, passes⟩ := none_of_guard passes
    obtain ⟨-, passes⟩ := none_of_guard passes
    obtain ⟨-, passes⟩ := none_of_guard passes
    obtain ⟨-, passes⟩ := none_of_guard passes
    obtain ⟨-, passes⟩ := none_of_guard passes
    obtain ⟨-, passes⟩ := none_of_guard passes
    obtain ⟨within, -⟩ := none_of_guard passes
    exact Nat.le_of_not_lt within

/-- Run every gate: the first failure, if any, and the counters afterwards. -/
def LimitsConfig.check (cfg : LimitsConfig) (s : DailyState) (nowMs : Nat) (t : TradeCheck) :
    Option LimitFail × DailyState :=
  let s := maybeResetDay s nowMs
  (cfg.gates s nowMs t, s)

/-- `f64::EPSILON`. -/
def F64_EPSILON : ℚ := 1 / 2 ^ 52

/-- Set the realized loss of the day the counters are for.  A value that is there already changes
nothing; one at or above the cap halts. -/
def LimitsConfig.syncRealizedLoss (cfg : LimitsConfig) (s : DailyState) (lossUsd : ℚ) :
    DailyState :=
  let lossUsd := max lossUsd 0
  if |lossUsd - s.realizedLossUsd| < F64_EPSILON then s
  else { s with
    realizedLossUsd := lossUsd
    halted := s.halted || decide (lossUsd ≥ cfg.limits.dailyLossUsd) }

/-- Count a trade that actually fired. -/
def recordTradeFired (s : DailyState) : DailyState :=
  { s with tradesToday := min (s.tradesToday + 1) (2 ^ 32 - 1) }

end BscMempool.Trader
