/-
Module: BscMempool.Trader.DevSniper
Layer: Trader
Purpose: The positions of the launch sniper. A position is created with a TokenCreate event and then
  visited at every processed head: the first price that is seen starts its trail state, later visits
  step it, and a launch that never showed a price is dropped after the hold time.
Trusted boundary: human-reviewed translation of dev_sniper.rs (SnipePosition, handle_log from the
  dup-guard on, process_sniper_position, sniper_trail_loop)
Main exports: SnipePosition, SnipePosition.process, SnipeMap, handleLog, SniperTick,
  SnipeMap.onBlock, SnipeMap.run
-/
import BscMempool.Trader.TrailState

namespace BscMempool.Trader

/-- One in-flight snipe.  `trail` is filled on the first successful price query. -/
structure SnipePosition where
  token : Address
  dev : Address
  bnbInWei : U128
  openedBlock : Nat
  trail : Option TrailState := none
deriving Repr

namespace SnipePosition

variable (pos : SnipePosition) (cfg : TrailConfig) (blockN : Nat)

/-- Where the price query of a position without a price starts. -/
def scanFloor : Nat := max pos.openedBlock (blockN - cfg.maxHoldBlocks)

/-- The trail state that the first price starts. -/
def initialTrail (p : ℚ) : TrailState :=
  { entryPriceBnbPerToken := p
    peakPrice := p
    lastPrice := p
    armed := false
    openedBlock := max pos.openedBlock (blockN - 1)
    lastObservedBlock := blockN }

/-- `process_sniper_position`: what is left of a position after a visit, `none` once it is removed.
`reply` is what the price query answers from a given block on. -/
def process (reply : Nat → Option ℚ) : Option SnipePosition :=
  let alreadyInited := pos.trail.isSome
  let fromBlock := if alreadyInited then blockN - 4 else pos.scanFloor cfg blockN
  let price := reply fromBlock
  -- dead launch: held for the whole hold time and never a price
  if !alreadyInited && price.isNone && decide
    (blockN - pos.openedBlock ≥ cfg.maxHoldBlocks) then none
  else
    match pos.trail with
    | none =>
        match price with
        | none => some pos
        | some p => some { pos with trail := some (pos.initialTrail blockN p) }
    | some state =>
        let currentPrice := price.getD state.lastPrice
        match step state cfg currentPrice blockN with
        | (some _, _) => none
        | (none, state) => some { pos with trail := some state }

end SnipePosition

/-- The positions by token. -/
abbrev SnipeMap := Address → Option SnipePosition

/-- A TokenCreate log of a whitelisted dev, with the size chosen for it. -/
structure CreateLog where
  token : Address
  creator : Address
  bnbInWei : U128
  blockNumber : Option Nat

/-- The position of a snipe. -/
def CreateLog.position (log : CreateLog) : SnipePosition :=
  { token := log.token
    dev := log.creator
    bnbInWei := log.bnbInWei
    openedBlock := log.blockNumber.getD 0
    trail := none }

/-- A token that is held already is skipped; else the snipe becomes a position. -/
def handleLog (positions : SnipeMap) (log : CreateLog) : SnipeMap :=
  if (positions log.token).isSome then positions
  else Function.update positions log.token (some log.position)

/-- A processed head and what the price queries of its visits answer. -/
structure SniperTick where
  block : Nat
  reply : Address → Nat → Option ℚ

namespace SnipeMap

/-- Every position is visited by a task of its own, which touches nothing but its position. -/
def onBlock (cfg : TrailConfig) (positions : SnipeMap) (tick : SniperTick) : SnipeMap :=
  fun token => (positions token).bind fun pos => pos.process cfg tick.block (tick.reply token)

/-- The heads in the order they are processed. -/
def run (cfg : TrailConfig) (positions : SnipeMap) (ticks : List SniperTick) : SnipeMap :=
  ticks.foldl (onBlock cfg) positions

end SnipeMap

end BscMempool.Trader
