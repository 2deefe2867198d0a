/-
Module: BscMempool.Proofs.FlowContents
Layer: Proofs
Purpose: What the rolling window of a token's flow holds. It is the last ten of the blocks that had
  a trade, each with its trades counted and added up, and the reads are the totals over the last of
  these as their integer types hold them. The bounds on a single block leave room for totals over
  several that do not fit.
Trusted boundary: none
Main exports: tradedBlocks, BlocksInRange, ExactBlock, ReadsTotals, flow_contents,
  flow_total_overflows
-/
import BscMempool.Proofs.FlowWindow
import Mathlib.Data.List.DropRight

namespace BscMempool.Trader

/-- The distinct blocks of the trades. -/
def tradedBlocks (events : List FlowEvent) : List Nat := (events.map FlowEvent.block).dedup

/-- The counts of every block fit `u32`, and its sums are below `2^127`. -/
structure BlocksInRange (events : List FlowEvent) : Prop where
  buys : ∀ block, blockSum FlowEvent.buys events block < 2 ^ 32
  sells : ∀ block, blockSum FlowEvent.sells events block < 2 ^ 32
  bought : ∀ block, blockSum FlowEvent.bought events block < 2 ^ 127
  sold : ∀ block, blockSum FlowEvent.sold events block < 2 ^ 127

/-- An entry of the window with the trades of its block, exactly. -/
structure ExactBlock (events : List FlowEvent) (b : BlockStats) : Prop where
  buys : (b.buyCount.toNat : ℤ) = blockSum FlowEvent.buys events b.block
  sells : (b.sellCount.toNat : ℤ) = blockSum FlowEvent.sells events b.block
  bought : (b.buyBnbWei.toNat : ℤ) = blockSum FlowEvent.bought events b.block
  sold : (b.sellBnbWei.toNat : ℤ) = blockSum FlowEvent.sold events b.block

/-- The reads over `n` blocks are the totals over `blocks`, in `u32` and `i128`. -/
structure ReadsTotals (stats : TokenStats) (n : Nat) (events : List FlowEvent) (blocks : List Nat) :
    Prop where
  buys : ((stats.buyCountLast n).toNat : ℤ) = (blocks.map (blockSum FlowEvent.buys events)).sum
    % 2 ^ 32
  sells : ((stats.sellCountLast n).toNat : ℤ) = (blocks.map (blockSum FlowEvent.sells events)).sum
    % 2 ^ 32
  netFlow : stats.netFlowBnbWeiLast n = (blocks.map (netFlow events)).sum.bmod (2 ^ 128)

/-! ### The last of a list -/

/-- Of the last of a list and more, the last are those of the whole list and more. -/
theorem rtake_append_rtake {α : Type*} (xs ys : List α) (n : Nat) :
    (xs.rtake n ++ ys).rtake n = (xs ++ ys).rtake n := by
  simp only [List.rtake_eq_reverse_take_reverse, List.reverse_append, List.reverse_reverse,
    List.take_append,
    List.take_take]
  rw [Nat.min_eq_left (Nat.sub_le _ _)]

/-- Newest first, the first `n` of the last `m` are the last of both. -/
theorem take_reverse_rtake {α : Type*} (xs : List α) (n m : Nat) :
    (xs.rtake m).reverse.take n = (xs.rtake (min n m)).reverse := by
  rw [List.rtake_eq_reverse_take_reverse, List.reverse_reverse, List.take_take,
    List.rtake_eq_reverse_take_reverse,
    List.reverse_reverse]

/-! ### The blocks -/

theorem tradedBlocks_concat_old {events : List FlowEvent} {e : FlowEvent}
    (again : (events.map FlowEvent.block).getLast? = some e.block) :
    tradedBlocks (events ++ [e]) = tradedBlocks events := by
  obtain ⟨before, split⟩ := List.getLast?_eq_some_iff.mp again
  rw [tradedBlocks, tradedBlocks, List.map_append, List.map_singleton, split, List.append_assoc,
    List.dedup_append,
    List.dedup_append before [e.block]]
  simp

theorem tradedBlocks_concat_new {events : List FlowEvent} {e : FlowEvent}
    (new : ∀ e' ∈ events, e'.block ≠ e.block) :
    tradedBlocks (events ++ [e]) = tradedBlocks events ++ [e.block] := by
  have apart : (events.map FlowEvent.block).Disjoint [e.block] := by
    intro b member same
    obtain ⟨e', member', rfl⟩ := List.mem_map.mp member
    exact new e' member' (List.mem_singleton.mp same)
  rw [tradedBlocks, List.map_append, List.map_singleton, apart.dedup_append]
  rfl

theorem tradedBlocks_increasing {events : List FlowEvent}
    (ordered : (events.map FlowEvent.block).Pairwise (· ≤ ·)) :
    (tradedBlocks events).Pairwise (· < ·) := by
  have sorted := ordered.sublist (List.dedup_sublist _)
  have distinct := List.nodup_dedup (events.map FlowEvent.block)
  exact (sorted.and distinct).imp fun both => lt_of_le_of_ne both.1 both.2

/-- The blocks of the window are the last of the traded blocks. -/
theorem storedBlocks_eq_rtake {events : List FlowEvent} {h : Nat} (upTo : UpToHead events h) :
    storedBlocks events = (tradedBlocks events).rtake STATS_WINDOW := by
  induction events using List.reverseRecOn with
  | nil => rfl
  | append_singleton events e ih =>
      have stored := ih upTo.concat.1
      have last : (storedBlocks events).getLast? = (events.map FlowEvent.block).getLast? :=
        foldl_pushBlock_getLast _
      rw [storedBlocks_concat, pushBlock]
      by_cases again : (storedBlocks events).getLast? = some e.block
      · rw [if_pos again, tradedBlocks_concat_old (last ▸ again), stored]
      · rw [if_neg again, tradedBlocks_concat_new (idle_of_new upTo again), stored, ← List.rtake]
        exact rtake_append_rtake _ _ _

/-- Trades in block order have a head they are up to. -/
theorem exists_upToHead {events : List FlowEvent}
    (ordered : (events.map FlowEvent.block).Pairwise (· ≤ ·)) :
    ∃ h, UpToHead events h :=
  ⟨(events.map FlowEvent.block).sum, ordered, fun _ member =>
    List.le_sum_of_mem (List.mem_map_of_mem member)⟩

/-- A bound on the traded blocks is one on all blocks. -/
theorem forall_blockSum_lt {f : FlowEvent → ℤ} {events : List FlowEvent} {bound : ℤ}
    (pos : 0 < bound)
    (traded : ∀ block ∈ tradedBlocks events, blockSum f events block < bound) (block : Nat) :
    blockSum f events block < bound := by
  by_cases member : block ∈ tradedBlocks events
  · exact traded block member
  · have idle : (events.filter fun e => e.block = block) = [] := by
      rw [List.filter_eq_nil_iff]
      intro e inEvents same
      exact member (List.mem_dedup.mpr (List.mem_map.mpr ⟨e, inEvents, of_decide_eq_true same⟩))
    rw [blockSum, idle]
    exact pos

/-! ### The entries -/

theorem FlowEvent.sells_nonneg (e : FlowEvent) : 0 ≤ e.sells := by
  unfold sells
  split <;> simp

section InRange

variable {events : List FlowEvent} (inRange : BlocksInRange events)
include inRange

theorem exactBlock_summary (block : Nat) : ExactBlock events (summary events block) := by
  obtain ⟨buys, sells⟩ := summary_counts events block
  obtain ⟨bought, sold⟩ := summary_wei events block
  have buysNonneg := blockSum_nonneg FlowEvent.buys_nonneg events block
  have sellsNonneg := blockSum_nonneg FlowEvent.sells_nonneg events block
  have boughtFits := inRange.bought block
  have soldFits := inRange.sold block
  constructor
  · rw [summary_block, buys, Int.emod_eq_of_lt buysNonneg (inRange.buys block)]
  · rw [summary_block, sells, Int.emod_eq_of_lt sellsNonneg (inRange.sells block)]
  · rw [summary_block, bought]
    omega
  · rw [summary_block, sold]
    omega

theorem cappedFlow_eq (block : Nat) : cappedFlow events block = netFlow events block := by
  have boughtFits := inRange.bought block
  have soldFits := inRange.sold block
  rw [cappedFlow, netFlow]
  omega

end InRange

/-- For every list of trades in block order with its blocks in range: the window is the last ten of
    the traded blocks, in increasing order and each exact, and for every `n` its reads are the
    totals over the last `n` of these, in their integer types. -/
theorem flow_contents {events : List FlowEvent}
    (ordered : (events.map FlowEvent.block).Pairwise (· ≤ ·)) (inRange : BlocksInRange events) :
    (TokenStats.ingestAll events).blocks.map BlockStats.block =
      (tradedBlocks events).rtake STATS_WINDOW ∧
      (tradedBlocks events).Pairwise (· < ·) ∧
      (∀ b ∈ (TokenStats.ingestAll events).blocks, ExactBlock events b) ∧
      ∀ n, ReadsTotals (TokenStats.ingestAll events) n events
        ((tradedBlocks events).rtake (min n STATS_WINDOW)) := by
  obtain ⟨h, upTo⟩ := exists_upToHead ordered
  have stored := storedBlocks_eq_rtake upTo
  have blocks := ingestAll_blocks upTo
  refine ⟨?_, tradedBlocks_increasing ordered, ?_, ?_⟩
  · have number : BlockStats.block ∘ summary events = id := funext (summary_block events)
    rw [blocks, List.map_map, number, List.map_id, stored]
  · intro b member
    rw [blocks, List.mem_map] at member
    obtain ⟨block, -, rfl⟩ := member
    exact exactBlock_summary inRange block
  · intro n
    have read (g : Nat → ℤ) : (((storedBlocks events).reverse.take n).map g).sum =
        (((tradedBlocks events).rtake (min n STATS_WINDOW)).map g).sum := by
      rw [stored, take_reverse_rtake, List.map_reverse, List.sum_reverse]
    constructor
    · rw [buyCountLast_eq upTo, read]
    · rw [sellCountLast_eq upTo, read]
    · rw [netFlowLast_eq upTo, read, funext (cappedFlow_eq inRange)]

/-- A buy of `2^126` wei in each of two blocks. -/
def hugeBuys : List FlowEvent :=
  [⟨1, true, BitVec.ofNat 128 (2 ^ 126)⟩, ⟨2, true, BitVec.ofNat 128 (2 ^ 126)⟩]

/-- Each of the two sums is in range, and their total, `2^127`, is read as `-2^127`. -/
theorem flow_total_overflows : ¬∀ events : List FlowEvent,
    (events.map FlowEvent.block).Pairwise (· ≤ ·) →
    BlocksInRange events → ∀ n,
      let stats := TokenStats.ingestAll events
      let blocks := (tradedBlocks events).rtake (min n STATS_WINDOW)
      ((stats.buyCountLast n).toNat : ℤ) = (blocks.map (blockSum FlowEvent.buys events)).sum ∧
        ((stats.sellCountLast n).toNat : ℤ) = (blocks.map (blockSum FlowEvent.sells events)).sum ∧
        stats.netFlowBnbWeiLast n = (blocks.map (netFlow events)).sum := by
  intro claimed
  have inRange : BlocksInRange hugeBuys := by
    constructor <;> exact forall_blockSum_lt (by decide) (by decide +kernel)
  exact absurd (claimed hugeBuys (by decide) inRange 2).2.2 (by decide +kernel)

/-- A buy and a sell in each of eleven blocks. -/
def elevenBlocks : List FlowEvent :=
  (List.range 11).flatMap fun block => [⟨block, true, 5⟩, ⟨block, false, 3⟩]

/-- The first block is out of the window, and the reads over three blocks are
over the last three. -/
theorem flow_contents_eleven :
    (TokenStats.ingestAll elevenBlocks).blocks.map BlockStats.block =
      [1, 2, 3, 4, 5, 6, 7, 8, 9, 10] ∧
      (tradedBlocks elevenBlocks).Pairwise (· < ·) ∧
      (∀ b ∈ (TokenStats.ingestAll elevenBlocks).blocks, ExactBlock elevenBlocks b) ∧
      ReadsTotals (TokenStats.ingestAll elevenBlocks) 3 elevenBlocks [8, 9, 10] := by
  have inRange : BlocksInRange elevenBlocks := by
    constructor <;> exact forall_blockSum_lt (by decide) (by decide +kernel)
  obtain ⟨window, increasing, exact_, reads⟩ :=
    @flow_contents elevenBlocks (by decide +kernel) inRange
  have ten : (tradedBlocks elevenBlocks).rtake STATS_WINDOW = [1, 2, 3, 4, 5, 6, 7, 8, 9, 10] := by
    decide +kernel
  have three : (tradedBlocks elevenBlocks).rtake (min 3 STATS_WINDOW) = [8, 9, 10] := by
    decide +kernel
  exact ⟨window.trans ten, increasing, exact_, three ▸ reads 3⟩

end BscMempool.Trader
