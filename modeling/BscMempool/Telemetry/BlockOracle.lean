/-
Module: BscMempool.Telemetry.BlockOracle
Layer: Telemetry
Purpose: The block oracle: how many of a mined block's transactions were in the dedupe table before
  the block's timestamp, and for each of them how long before.
Trusted boundary: human-reviewed translation of bsc-telemetry/src/block_oracle.rs and
  block_phase_label of metric_names.rs; a lead is kept in nanoseconds, as it is before its
  conversion to seconds
Main exports: AggregateState, HashBlock, LeadSample, leadSample, processBlock
-/
import BscMempool.Bus.Dedupe

namespace BscMempool.Telemetry

open Bus Numeric

structure AggregateState where
  blocksSeen : UInt64
  txsInBlocks : UInt64
  txsSeenInMempool : UInt64
deriving DecidableEq, Repr

/-- A block fetched without its bodies. -/
structure HashBlock where
  timestamp : UInt64
  hashes : List TxHash

def blockPhaseLabel (msIntoBlock : UInt32) : String :=
  if msIntoBlock ≤ 112 then "0_113ms"
  else if msIntoBlock ≤ 224 then "113_225ms"
  else if msIntoBlock ≤ 336 then "225_337ms"
  else if msIntoBlock ≤ 449 then "337_450ms"
  else "past_450ms"

def msSinceUnixNs (firstSeenNs blockTsNs : UInt64) : UInt32 :=
  let deltaNs := satSubU64 blockTsNs firstSeenNs
  let totalMs := deltaNs / 1000000
  let modMs := totalMs % 450
  if modMs.toNat < UInt32.size then modMs.toUInt32 else UInt32.ofNat (UInt32.size - 1)

/-- What the two lead-time histograms are given of one covered transaction. -/
structure LeadSample where
  leadNs : UInt64
  phase : String
deriving DecidableEq, Repr

/-- One turn of the loop over a block's hashes. -/
def leadSample (d : Dedupe) (blockTsNs : UInt64) (hash : TxHash) : Option LeadSample :=
  match d.firstSeenNs hash with
  | none => none
  | some firstSeenNs =>
      if firstSeenNs < blockTsNs then
        some {
          leadNs := blockTsNs - firstSeenNs
          phase := blockPhaseLabel (msSinceUnixNs firstSeenNs blockTsNs) }
      else none

/-- The samples of one block and the totals after it; `fetched` is the node's answer. -/
def processBlock (d : Dedupe) (fetched : Except String (Option HashBlock)) (agg : AggregateState) :
    List LeadSample × AggregateState :=
  match fetched with
  | .error _ => ([], agg)
  | .ok none => ([], agg)
  | .ok (some block) =>
      let blockTsNs := satMulU64 block.timestamp 1000000000
      let samples := block.hashes.filterMap (leadSample d blockTsNs)
      let total := UInt64.ofNat block.hashes.length
      let covered := UInt64.ofNat samples.length
      (samples, {
        blocksSeen := satAddU64 agg.blocksSeen 1
        txsInBlocks := satAddU64 agg.txsInBlocks total
        txsSeenInMempool := satAddU64 agg.txsSeenInMempool covered })

/-- A block is judged by the first-seen times alone. -/
theorem processBlock_congr {d d' : Dedupe} (same : ∀ hash, d.firstSeenNs hash = d'.firstSeenNs hash)
    (fetched : Except String (Option HashBlock)) (agg : AggregateState) :
    processBlock d fetched agg = processBlock d' fetched agg := by
  have sample : ∀ blockTsNs, leadSample d blockTsNs = leadSample d' blockTsNs := by
    intro blockTsNs
    funext hash
    simp only [leadSample, same]
  simp only [processBlock, sample]

end BscMempool.Telemetry
