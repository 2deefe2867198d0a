/-
Module: BscMempool.Trader.ExecutorLive
Layer: Trader
Purpose: The live executor: entries, exits, the approvals and the background finalize task of a BUY,
  as processes over the shared state of the trader.
Trusted boundary: human-reviewed translation of trader/executor_live.rs. Log lines, metrics and chat
  alerts are left out.
Main exports: LiveExecutor, LiveExecutor.execute, LiveExecutor.executeExit,
  LiveExecutor.finalizePosition, LiveExecutor.pickRoute
-/
import BscMempool.Trader.Blacklist
import BscMempool.Trader.Nonce

namespace BscMempool.Trader

/-! ### The executor -/

/-- The fields of the executor that never change, and the arithmetic it computes fractions with.
`persist` says whether the nonce manager has a file. -/
structure LiveExecutor where
  wallet : Address
  persist : Bool
  config : LimitsConfig
  blacklist : Option BlacklistRuntime
  fractions : Fractions := .f64

/-- How a call of `execute` ended. -/
inductive EnterOutcome where
  | notAnEntry
  | duplicate
  | privateDisabled
  | skipped (reason : String)
  | signFailed
  | broadcastFailed
  | shadowed
  | opened (entry : EntryId)
deriving DecidableEq, Repr

/-- How a call of `execute_exit` ended. -/
inductive ExitOutcome where
  | blacklisted
  | alreadyExited
  | zeroBalance
  | noRoute
  | roundsToZero
  | approveFailed
  | signFailed
  | broadcastFailed
  | shadowed
  | sold (amount : U256) (full : Bool)
deriving DecidableEq, Repr

/-- What a finalize task found out: whether the BUY's receipt was seen, the balance it read (zero if
the read failed) and whether the approve it submitted was confirmed. -/
structure FinalizeReport where
  receiptSeen : Bool
  balance : U256
  approveConfirmed : Bool
deriving DecidableEq, Repr

/-- `max` of two gas prices. -/
def maxWei (a b : U128) : U128 := if a ≤ b then b else a

/-- `(wei / 1_000_000_000) as u64`. -/
def weiToGwei (wei : U128) : Nat := wei.toNat / 1000000000 % 2 ^ 64

/-- Anything but the two known visibilities is recorded as public. -/
def leakStr : String → String
  | "public" => "public"
  | "private" => "private"
  | _ => "public"

namespace LiveExecutor

variable (x : LiveExecutor)

def broadcastEnabled : Bool := x.config.phase.broadcastEnabled

def phaseLabel : String :=
  if x.config.phase.full then "full" else if x.config.phase.tiny then "tiny" else "shadow"

/-- The runtime list where there is one, else the fallback. -/
def checkBlacklisted (token : Address) : Bool :=
  match x.blacklist with
  | some b => b.isBlacklisted token
  | none => isBlacklisted token

/-- `NonceManager::reserve` on the executor's manager. -/
def reserveNonce : Live UInt64 := NonceManager.reserve x.persist

/-- A transaction with every field the code sets. -/
def request (target : Address) (value : U256) (input : Calldata) (gasLimit : Nat) (gasWei : U128)
    (nonce : UInt64) : TransactionRequest :=
  { from_ := x.wallet
    to_ := target
    value := value
    input := input
    gasLimit := gasLimit
    maxFeePerGas := gasWei
    maxPriorityFeePerGas := gasWei
    nonce := nonce
    chainId := BSC_CHAIN_ID }

/-! ### Reads -/

/-- Gas price in wei, cached for two seconds. -/
def gasWei : Live (Option U128) := do
  match ← onEnv .gasCached with
  | some wei => return some wei
  | none =>
      match ← ask .gasPrice with
      | none => return none
      | some wei =>
          onEnv (.cacheGas wei)
          return some wei

/-- `gas_wei().await.unwrap_or(u128::MAX).max(floor)`. -/
def gasWeiAtLeast (floor : U128) : Live U128 := do
  let observed ← gasWei
  return maxWei (observed.getD (BitVec.allOnes 128)) floor

/-- V2 pair lookup through the cache. -/
def v2PairCached (token : Address) : Live (Option Address) := do
  match ← onEnv (.pairCached token) with
  | some pair => return pair
  | none =>
      let pair ← ask (.getPair token)
      onEnv (.cachePair token pair)
      return pair

/-- Which venue handles the token: V2 if it has a pair, else the bonding curve if a dry run of the
operation passes. -/
def pickRoute (token : Address) (amount : U256) (action : Action) : Live (Option BuyRoute) := do
  match ← v2PairCached token with
  | some _ => return some .pancakeV2
  | none =>
      let accepts ← match action with
        | .buy => ask (.acceptsBuy token amount)
        | .sell => ask (.acceptsSell token amount)
      return if accepts then some .fourMeme else none

/-- Sell tax implied by a round-trip quote, in basis points beyond the pool fee. -/
def impliedSellTaxBpsV2 (token : Address) (probeBnb : U256) : Live (Option Nat) := do
  match ← ask (.getAmountsOut probeBnb [WBNB, token]) with
  | none => return none
  | some buyOut =>
      if buyOut = 0 then return none
      else
        match ← ask (.getAmountsOut buyOut [token, WBNB]) with
        | none => return none
        | some sellOut =>
            if sellOut ≥ probeBnb then return some 0
            else
              let lossBps := ((probeBnb - sellOut) * 10000 / probeBnb).toNat
              return if lossBps < 2 ^ 64 then some (lossBps - 50) else none

/-- Fraction of its balance the KOL sold in `kolBlock`, from its balances before and after. -/
def kolSellFraction (kolAddr token : Address) (kolBlock : Nat) : Live (Option ℚ) := do
  if kolAddr = 0 ∨ kolBlock = 0 then return none
  else
    let pre ← ask (.balanceOfAt kolAddr token (kolBlock - 1))
    let post ← ask (.balanceOfAt kolAddr token kolBlock)
    match pre, post with
    | some pre, some post =>
        if pre = 0 ∨ post ≥ pre then return none
        else return some (x.fractions.ofPart (pre - post) pre)
    | _, _ => return none

/-! ### Entries -/

/-- The duplicate-entry guard: whether to skip.  An entry left behind by a full close is dropped. -/
def dupGuard (token : Address) : Live Bool := do
  match ← onTrade (.positionsGet token) with
  | none => return false
  | some (_, p) =>
      if p.exited then
        onTrade (.positionsRemove token)
        return false
      else return true

/-- USD-denominated size; `none` when private entries are disabled. -/
def sizeByUsd (visibility : String) (bnbAmount : U256) : Live (Option U256) := do
  let sc := x.config.strategy
  if sc.tradeSizeUsd > 0 then
    let bnbUsd := (← ask .bnbUsd).getD 0
    if bnbUsd ≤ 0 then return some bnbAmount
    else if visibility = "private" then
      if sc.tradeSizePrivateUsd > 0 then
        return some (U256.ofU128 (f64AsU128 (sc.tradeSizePrivateUsd / bnbUsd * 10 ^ 18)))
      else return none
    else return some (U256.ofU128 (f64AsU128 (sc.tradeSizeUsd / bnbUsd * 10 ^ 18)))
  else return some bnbAmount

/-- Clamp to the per-trade cap, in BNB and in wei. -/
def clampToCap (bnbAmount : U256) : ℚ × U256 :=
  let wanted : ℚ := (bnbAmount.toNat : ℚ) / 10 ^ 18
  let cap := x.config.phase.effectivePerTradeMaxBnb x.config.limits.perTradeMaxBnb
  if wanted > cap then (cap, U256.ofU128 (f64AsU128 (cap * 10 ^ 18))) else (wanted, bnbAmount)

/-- The ledger row of an entry that was not made. -/
def skipRow (kolName visibility : String) (token : Address) (bnbAmount : U256) (gasGwei : Nat)
    (walletBnb : ℚ) (reason : String) : LiveEntry :=
  { phase := x.phaseLabel
    kolName := kolName
    visibility := leakStr visibility
    tokenAddress := token
    bnbInWei := bnbAmount
    gasGwei := gasGwei
    nonce := 0
    txHash := 0
    walletBnb := walletBnb
    broadcast := false
    limitSkipReason := some reason }

/-- Whether the implied sell tax of a V2 token is too high; its value if so. -/
def taxTooHigh (route : BuyRoute) (token : Address) (bnbAmount : U256) : Live (Option Nat) := do
  match route with
  | .fourMeme => return none
  | .pancakeV2 =>
      match ← impliedSellTaxBpsV2 token bnbAmount with
      | some tax => return if tax > x.config.tokens.maxSellTaxBps then some tax else none
      | none => return none

/-- Target, gas limit and calldata of a BUY. -/
def buyCall (route : BuyRoute) (token : Address) (bnbAmount : U256) :
    Live (Address × Nat × Calldata) := do
  match route with
  | .pancakeV2 =>
      let deadline := BitVec.ofNat 256 ((← ask .unixSecs) + DEADLINE_SECS)
      let expectedOut := (← ask (.getAmountsOut bnbAmount [WBNB, token])).getD 0
      let amountOutMin := applySlippage expectedOut x.config.limits.slippageBps
      return (PANCAKE_V2_ROUTER, SWAP_GAS_LIMIT,
        .swapExactETHForTokens amountOutMin [WBNB, token] x.wallet deadline)
  | .fourMeme => return (FOURMEME, FOURMEME_GAS_LIMIT, .buyTokenAMAP token bnbAmount 0)

/-- A sized entry that has passed every gate: what is bought, where, and the
gas it is bought with. -/
structure Entry where
  route : BuyRoute
  bnbAmount : U256
  gasWei : U128
  gasGwei : Nat
  walletBnb : ℚ

/-- From the blacklist to the sell-tax check: the entry to make, or the reason there is none, which
also goes to the ledger. -/
def entryGates (kolName visibility : String) (token : Address) (bnbAmount : U256)
    (openPositions : Nat) : Live (Except String Entry) := do
  if x.checkBlacklisted token then
    onEnv (.ledgerAppend (x.skipRow kolName visibility token bnbAmount 0 0 "blacklisted_token"))
    return .error "blacklisted_token"
  else
    let (bnbIn, bnbAmount) := x.clampToCap bnbAmount
    let walletBnb ← ask .walletBnb
    let gasWei ← gasWeiAtLeast 10000000000
    let gasGwei := weiToGwei gasWei
    let check : TradeCheck := {
      kolName := kolName
      visibility := visibility
      bnbAmount := bnbIn
      currentOpenPositions := openPositions
      currentWalletBnb := walletBnb
      currentGasGwei := gasGwei }
    match ← onEnv (.checkLimits x.config check) with
    | some why =>
        onEnv (.ledgerAppend
          (x.skipRow kolName visibility token bnbAmount gasGwei walletBnb (limitLabel why)))
        return .error (limitLabel why)
    | none =>
        match ← pickRoute token bnbAmount .buy with
        | none =>
            onEnv (.ledgerAppend
              (x.skipRow kolName visibility token bnbAmount 0 walletBnb "unknown_venue"))
            return .error "unknown_venue"
        | some route =>
            match ← x.taxTooHigh route token bnbAmount with
            | some tax =>
                onEnv (.ledgerAppend (x.skipRow kolName visibility token bnbAmount 0 walletBnb
                  s!"sell_tax_{tax}bps"))
                return .error s!"sell_tax_{tax}bps"
            | none =>
                return .ok {
                  route := route
                  bnbAmount := bnbAmount
                  gasWei := gasWei
                  gasGwei := gasGwei
                  walletBnb := walletBnb }

/-- The row of a signed entry and the counters it moves. -/
def recordEntry (kolName visibility : String) (token : Address) (entry : Entry) (nonce : UInt64)
    (txHash : B256) (broadcast : Bool) : Live Unit := do
  onEnv (.ledgerAppend {
    phase := x.phaseLabel
    kolName := kolName
    visibility := leakStr visibility
    tokenAddress := token
    bnbInWei := entry.bnbAmount
    gasGwei := entry.gasGwei
    nonce := nonce
    txHash := txHash
    walletBnb := entry.walletBnb
    broadcast := broadcast
    limitSkipReason := none })
  onEnv .recordOpened
  onEnv .recordTradeFired

/-- Build, sign and broadcast (or log) the BUY; a broadcast one gets its cache entry
and its finalize task. -/
def broadcastEntry (kolName visibility : String) (token : Address) (entry : Entry) :
    Live EnterOutcome := do
  let (target, gasLimit, calldata) ← x.buyCall entry.route token entry.bnbAmount
  let nonce ← x.reserveNonce
  let tx := x.request target entry.bnbAmount calldata gasLimit entry.gasWei nonce
  match ← sign tx with
  | none =>
      let _ ← NonceManager.resync
      return .signFailed
  | some txHash =>
      if x.broadcastEnabled then
        if ← submit tx txHash .buy then
          let _ ← ask .bnbUsd
          x.recordEntry kolName visibility token entry nonce txHash true
          let e ← onTrade (.openPosition token entry.route entry.bnbAmount txHash)
          return .opened e
        else
          let _ ← NonceManager.resync
          return .broadcastFailed
      else
        shadow tx
        x.recordEntry kolName visibility token entry nonce txHash false
        return .shadowed

/-- `execute`: limits, build, sign, broadcast or log. -/
def execute (decision : Decision) (visibility : String) (openPositions : Nat) :
    Live EnterOutcome := do
  match decision with
  | .enter kolName token bnbAmount _ _ _ =>
      if ← dupGuard token then return .duplicate
      else
        match ← x.sizeByUsd visibility bnbAmount with
        | none => return .privateDisabled
        | some bnbAmount =>
            match ← x.entryGates kolName visibility token bnbAmount openPositions with
            | .error reason => return .skipped reason
            | .ok entry => x.broadcastEntry kolName visibility token entry
  | _ => return .notAnEntry

/-! ### Exits -/

/-- What an exit sells from: the balance it is sized against, the route, whether the cache alone
provided them, and the cache entry if there was one. -/
structure Holding where
  ourBalance : U256
  route : BuyRoute
  usedFastPath : Bool
  sized : Option EntryId
deriving DecidableEq, Repr

/-- The position from the cache, or from the chain where the cache is not armed. -/
def exitHolding (token : Address) : Live (Except ExitOutcome Holding) := do
  match ← onTrade (.positionsGet token) with
  | some (e, p) =>
      if p.exited then return .error .alreadyExited
      else if p.tokensBought ≠ 0 ∧ p.approved then
        return .ok ⟨p.tokensBought, p.route, true, some e⟩
      else
        let bal := (← ask (.balanceOf token)).getD 0
        if bal = 0 then return .error .zeroBalance
        else return .ok ⟨bal, p.route, false, some e⟩
  | none =>
      let bal := (← ask (.balanceOf token)).getD 0
      if bal = 0 then return .error .zeroBalance
      else
        match ← pickRoute token 1 .sell with
        | some route => return .ok ⟨bal, route, false, none⟩
        | none => return .error .noRoute

/-- `submit_approve`: a max-allowance approve; whether it went out (or was logged). -/
def submitApprove (token spender : Address) : Live Bool := do
  let nonce ← x.reserveNonce
  let gasWei ← gasWeiAtLeast 3000000000
  let tx := x.request token 0 (.approve spender (BitVec.allOnes 256)) 60000 gasWei nonce
  match ← sign tx with
  | none => return false
  | some txHash =>
      if x.broadcastEnabled then submit tx txHash .exitApprove
      else
        shadow tx
        return true

/-- The slow path's allowance check, with an approve where the allowance is short.  `none` when the
approve failed, else the allowance that was read. -/
def exitApproval (token : Address) (holding : Holding) (balance : U256) :
    Live (Option (Option (Address × U256))) := do
  if holding.usedFastPath then return some none
  else
    let spender := holding.route.spender
    let allowance := (← ask (.allowance token spender)).getD 0
    if allowance < balance then
      if ← x.submitApprove token spender then return some (some (spender, allowance))
      else
        let _ ← NonceManager.resync
        return none
    else return some (some (spender, allowance))

/-- Target, gas limit and calldata of a SELL. -/
def sellCall (route : BuyRoute) (token : Address) (balance : U256) :
    Live (Address × Nat × Calldata) := do
  match route with
  | .pancakeV2 =>
      let deadline := BitVec.ofNat 256 ((← ask .unixSecs) + DEADLINE_SECS)
      let expectedOut := (← ask (.getAmountsOut balance [token, WBNB])).getD 0
      let amountOutMin := applySlippage expectedOut x.config.limits.slippageBps
      return (PANCAKE_V2_ROUTER, SWAP_GAS_LIMIT,
        .swapExactTokensForETH balance amountOutMin [token, WBNB] x.wallet deadline)
  | .fourMeme => return (FOURMEME, FOURMEME_GAS_LIMIT, .sellToken token balance)

/-- The row of a signed exit and the counter it moves. -/
def recordExit (kolName : String) (token : Address) (gasGwei : Nat) (nonce : UInt64)
    (txHash : B256) (walletBnb : ℚ) (broadcast : Bool) : Live Unit := do
  onEnv (.ledgerAppend {
    phase := x.phaseLabel
    kolName := kolName
    visibility := "exit"
    tokenAddress := token
    bnbInWei := 0
    gasGwei := gasGwei
    nonce := nonce
    txHash := txHash
    walletBnb := walletBnb
    broadcast := broadcast
    limitSkipReason := none })
  onEnv .recordClosed

/-- Build, sign and broadcast (or log) the SELL of `balance`, and update the cache after a
broadcast: nothing is left after a full close, the rest of the balance it was sized against
after a partial one. -/
def broadcastExit (kolName : String) (token : Address) (holding : Holding) (balance : U256)
    (isFullClose : Bool) (route : BuyRoute) (allowance : Option (Address × U256)) :
    Live ExitOutcome := do
  let (target, gasLimit, calldata) ← x.sellCall route token balance
  let nonce ← x.reserveNonce
  let gasWei ← gasWeiAtLeast 3000000000
  let gasGwei := weiToGwei gasWei
  let tx := x.request target 0 calldata gasLimit gasWei nonce
  match ← sign tx with
  | none =>
      let _ ← NonceManager.resync
      return .signFailed
  | some txHash =>
      let walletBnb ← ask .walletBnb
      if x.broadcastEnabled then
        if ← submit tx txHash (.sell ⟨isFullClose, holding.sized, holding.route, allowance⟩) then
          onTrade (.writeBack token
            (if isFullClose then 0 else saturatingSubU256 holding.ourBalance balance) holding.sized)
          x.recordExit kolName token gasGwei nonce txHash walletBnb true
          return .sold balance isFullClose
        else
          let _ ← NonceManager.resync
          return .broadcastFailed
      else
        shadow tx
        x.recordExit kolName token gasGwei nonce txHash walletBnb false
        return .shadowed

/-- The part of `execute_exit` under the token's exit lock. -/
def exitLocked (token : Address) (kolName : String) (kolBlock : Nat) (kolAddr : Address) :
    Live ExitOutcome := do
  let fraction := (← x.kolSellFraction kolAddr token kolBlock).getD 1
  let isFullClose := decide (fraction ≥ x.fractions.fullAt)
  match ← exitHolding token with
  | .error outcome => return outcome
  | .ok holding =>
      let balance :=
        if isFullClose then holding.ourBalance else x.fractions.scale holding.ourBalance fraction
      if isFullClose = false ∧ balance = 0 then return .roundsToZero
      else
        match ← x.exitApproval token holding balance with
        | none => return .approveFailed
        | some allowance =>
            -- the route is looked up again just before the broadcast
            let route := (← pickRoute token 1 .sell).getD holding.route
            x.broadcastExit kolName token holding balance isFullClose route allowance

/-- `execute_exit`: sell the fraction the KOL sold, or everything where it is unknown. -/
def executeExit (token : Address) (kolName : String) (kolBlock : Nat) (kolAddr : Address) :
    Live ExitOutcome := do
  if x.checkBlacklisted token then return .blacklisted
  else
    onTrade (.lockExit token)
    let outcome ← x.exitLocked token kolName kolBlock kolAddr
    onTrade (.unlockExit token)
    return outcome

/-! ### Background finalize -/

/-- Poll for a successful receipt at most this many times. -/
def pollReceipt (txHash : B256) : Nat → Live Bool
  | 0 => return false
  | n + 1 => do
      match ← ask (.receiptStatus txHash) with
      | some true => return true
      | _ => pollReceipt txHash n

/-- `submit_approve_bg`: `none` on an error, else the hash of the approve, which a
shadow run does not have. -/
def submitApproveBg (token : Address) : Live (Option (Option B256)) := do
  if x.broadcastEnabled then
    let nonce ← x.reserveNonce
    let gasWei := maxWei ((← ask .gasPrice).getD 3000000000) 3000000000
    let tx := x.request token 0 (.approve FOURMEME (BitVec.allOnes 256)) 60000 gasWei nonce
    match ← sign tx with
    | none => return none
    | some txHash =>
        if ← submit tx txHash .bgApprove then return some (some txHash)
        else return none
  else return some none

/-- Step 3 of the finalize task: approve the bonding curve and wait for the receipt; whether the
entry was armed. -/
def finalizeApprove (token : Address) (route : BuyRoute) (entry : EntryId) (bal : U256) :
    Live Bool := do
  if route = .fourMeme ∧ x.broadcastEnabled then
    match ← x.submitApproveBg token with
    | some (some approveHash) =>
        let budget ← ask (.polls 15)
        if ← pollReceipt approveHash budget then
          onTrade (.storeApproved entry bal)
          return true
        else return false
    | _ => return false
  else return false

/-- The part of `finalize_position` under the permit. -/
def finalizeBody (token : Address) (buyTxHash : B256) (route : BuyRoute) (entry : EntryId) :
    Live FinalizeReport := do
  let budget ← ask (.polls 30)
  if ← pollReceipt buyTxHash budget then
    let bal := (← ask (.balanceOf token)).getD 0
    if bal = 0 then
      let confirmed ← x.finalizeApprove token route entry bal
      return ⟨true, bal, confirmed⟩
    else
      onTrade (.storeTokensBought entry bal)
      let confirmed ← x.finalizeApprove token route entry bal
      return ⟨true, bal, confirmed⟩
  else return ⟨false, 0, false⟩

/-- `finalize_position`: wait for the BUY's receipt, read the balance it left,
approve and arm the entry. -/
def finalizePosition (token : Address) (buyTxHash : B256) (route : BuyRoute) (entry : EntryId) :
    Live FinalizeReport := do
  onEnv .acquirePermit
  let report ← x.finalizeBody token buyTxHash route entry
  onEnv .releasePermit
  return report

end LiveExecutor

end BscMempool.Trader
