/-
Module: BscMempool.Proofs.FlowWindow
Layer: Proofs
Purpose: What the rolling window of a token's flow counts. The window keeps the last blocks that had
  a trade, not the last blocks of the chain, so a read over `n` blocks also takes in older ones when
  some of the last `n` blocks were idle. The reads are those of the last `n` blocks of the chain
  exactly when the older ones cancel out.
Trusted boundary: none
Main exports: FlowEvent, TokenStats.ingestAll, windowSum, FlowWindowed, flow_windowed_iff
-/
import BscMempool.Proofs.FeedOrder
import Mathlib.Algebra.Order.BigOperators.Group.List
import Mathlib.Order.Interval.Finset.Nat

namespace BscMempool.Trader

/-! ### Histories -/

/-- A trade of one token as the feed takes it in. -/
structure FlowEvent where
  block : Nat
  isBuy : Bool
  bnbWei : U128
deriving DecidableEq, Repr

def FlowEvent.buys (e : FlowEvent) : ℤ := if e.isBuy then 1 else 0

def FlowEvent.sells (e : FlowEvent) : ℤ := if e.isBuy then 0 else 1

def FlowEvent.bought (e : FlowEvent) : ℤ := if e.isBuy then e.bnbWei.toNat else 0

def FlowEvent.sold (e : FlowEvent) : ℤ := if e.isBuy then 0 else e.bnbWei.toNat

/-- The window after a history of trades. -/
def TokenStats.ingestAll (events : List FlowEvent) : TokenStats :=
  events.foldl (fun s e => s.ingest e.block e.isBuy e.bnbWei) {}

/-- Trades in block order, none after the chain head `h`. -/
structure UpToHead (events : List FlowEvent) (h : Nat) : Prop where
  ordered : (events.map FlowEvent.block).Pairwise (· ≤ ·)
  upTo : ∀ e ∈ events, e.block ≤ h

/-- The sum of `f` over the trades of the blocks in `(h - n, h]`. -/
def windowSum (f : FlowEvent → ℤ) (events : List FlowEvent) (h n : Nat) : ℤ :=
  ((events.filter fun e => h < e.block + n).map f).sum

/-- The sum of `f` over the trades of one block. -/
def blockSum (f : FlowEvent → ℤ) (events : List FlowEvent) (block : Nat) : ℤ :=
  ((events.filter fun e => e.block = block).map f).sum

/-! ### Sums by block -/

theorem blockSum_cons (f : FlowEvent → ℤ) (e : FlowEvent) (events : List FlowEvent) (block : Nat) :
    blockSum f (e :: events) block = (if e.block = block then f e else 0) +
      blockSum f events block := by
  by_cases same : e.block = block <;> simp [blockSum, same]

theorem blockSum_concat (f : FlowEvent → ℤ) (events : List FlowEvent) (e : FlowEvent)
    (block : Nat) :
    blockSum f (events ++ [e]) block = blockSum f events block + if e.block = block then f e
      else 0 := by
  by_cases same : e.block = block <;> simp [blockSum, same]

/-- One block among distinct ones. -/
theorem sum_ite_eq {blocks : List Nat} (distinct : blocks.Nodup) (block : Nat) (x : ℤ) :
    (blocks.map fun b => if block = b then x else 0).sum = if block ∈ blocks then x else 0 := by
  induction blocks with
  | nil => simp
  | cons b rest ih =>
      rw [List.nodup_cons] at distinct
      by_cases same : block = b
      · subst same
        simp [ih distinct.2, distinct.1]
      · simp [ih distinct.2, same]

/-- The sums of distinct blocks add up to the sum over the trades of these blocks. -/
theorem sum_blockSum {blocks : List Nat} (distinct : blocks.Nodup) (f : FlowEvent → ℤ)
    (events : List FlowEvent) :
    (blocks.map (blockSum f events)).sum =
      ((events.filter fun e => e.block ∈ blocks).map f).sum := by
  induction events with
  | nil =>
      have zero : blockSum f [] = fun _ => 0 := by
        funext block
        simp [blockSum]
      simp [zero]
  | cons e rest ih =>
      have split : blockSum f (e :: rest) = fun b =>
          (if e.block = b then f e else 0) + blockSum f rest b := by
        funext block
        exact blockSum_cons f e rest block
      rw [split, List.sum_map_add, sum_ite_eq distinct, ih]
      by_cases member : e.block ∈ blocks <;> simp [member]

/-- A sum over a list by the answers of a test. -/
theorem sum_filter_add_not {blocks : List Nat} (p : Nat → Bool) (g : Nat → ℤ) :
    ((blocks.filter p).map g).sum + ((blocks.filter fun b => !p b).map g).sum =
      (blocks.map g).sum := by
  induction blocks with
  | nil => rfl
  | cons b rest ih =>
      simp only [List.map_cons, List.sum_cons, ← ih]
      cases answer : p b with
      | false =>
          simp only [List.filter_cons, answer, Bool.not_false, if_true, List.map_cons,
            List.sum_cons]
          exact add_left_comm _ _ _
      | true =>
          simp only [List.filter_cons, answer, Bool.not_true, if_true, List.map_cons, List.sum_cons]
          exact add_assoc _ _ _

/-! ### What the window stores -/

/-- The stored flow of a block: every trade of the block counted once. -/
def summary (events : List FlowEvent) (block : Nat) : BlockStats :=
  (events.filter fun e => e.block = block).foldl (fun s e => s.count e.isBuy e.bnbWei)
    { block := block }

/-- The blocks of the window, oldest first. -/
def storedBlocks (events : List FlowEvent) : List Nat :=
  (events.map FlowEvent.block).foldl pushBlock []

theorem summary_concat (events : List FlowEvent) (e : FlowEvent) (block : Nat) :
    summary (events ++ [e]) block =
      if e.block = block then (summary events block).count e.isBuy e.bnbWei
      else summary events block := by
  by_cases same : e.block = block <;> simp [summary, same]

theorem summary_block (events : List FlowEvent) (block : Nat) :
    (summary events block).block = block := by
  induction events using List.reverseRecOn with
  | nil => rfl
  | append_singleton events e ih =>
      rw [summary_concat]
      split
      · rw [BlockStats.count]
        split <;> exact ih
      · exact ih

/-- A block no trade was in has no flow. -/
theorem summary_of_idle {events : List FlowEvent} {block : Nat}
    (idle : ∀ e ∈ events, e.block ≠ block) :
    summary events block = { block := block } := by
  have none : (events.filter fun e => e.block = block) = [] := by simpa using idle
  rw [summary, none, List.foldl_nil]

theorem storedBlocks_concat (events : List FlowEvent) (e : FlowEvent) :
    storedBlocks (events ++ [e]) = pushBlock (storedBlocks events) e.block := by
  simp [storedBlocks]

theorem ingestAll_concat (events : List FlowEvent) (e : FlowEvent) :
    TokenStats.ingestAll (events ++ [e]) = (TokenStats.ingestAll events).ingest e.block e.isBuy
      e.bnbWei := by
  simp [TokenStats.ingestAll]

theorem UpToHead.concat {events : List FlowEvent} {e : FlowEvent} {h : Nat}
    (upTo : UpToHead (events ++ [e]) h) :
    UpToHead events h ∧ ∀ e' ∈ events, e'.block ≤ e.block := by
  have ordered := upTo.ordered
  rw [List.map_append, List.pairwise_append] at ordered
  constructor
  · constructor
    · exact ordered.1
    · intro e' member
      exact upTo.upTo e' (List.mem_append_left _ member)
  · intro e' member
    exact ordered.2.2 e'.block (List.mem_map_of_mem member) e.block (by simp)

theorem storedBlocks_increasing {events : List FlowEvent} {h : Nat} (upTo : UpToHead events h) :
    (storedBlocks events).Pairwise (· < ·) :=
  (windows_iff _).mpr upTo.ordered _ [] (by simp)

theorem mem_pushBlock {blocks : List Nat} {block b : Nat} (member : b ∈ pushBlock blocks block) :
    b ∈ blocks ∨ b = block := by
  unfold pushBlock at member
  split at member
  · exact .inl member
  · simpa using List.mem_of_mem_drop member

/-- Every block of the window had a trade. -/
theorem mem_storedBlocks {events : List FlowEvent} {b : Nat} (member : b ∈ storedBlocks events) :
    ∃ e ∈ events, e.block = b := by
  induction events using List.reverseRecOn with
  | nil => cases member
  | append_singleton events e ih =>
      rw [storedBlocks_concat] at member
      rcases mem_pushBlock member with before | isLast
      · obtain ⟨e', member, same⟩ := ih before
        exact ⟨e', List.mem_append_left _ member, same⟩
      · exact ⟨e, by simp, isLast.symm⟩

/-- A trade whose block is not the last of the window is the first of its block. -/
theorem idle_of_new {events : List FlowEvent} {e : FlowEvent} {h : Nat}
    (upTo : UpToHead (events ++ [e]) h)
    (new : (storedBlocks events).getLast? ≠ some e.block) : ∀ e' ∈ events, e'.block ≠ e.block := by
  intro e' member same
  rw [storedBlocks, foldl_pushBlock_getLast] at new
  obtain ⟨before, notAfter⟩ := upTo.concat
  rcases List.eq_nil_or_concat events with rfl | ⟨older, last, rfl⟩
  · cases member
  · rw [List.concat_eq_append] at *
    have lastUpTo : last.block ≤ e.block := notAfter last (by simp)
    have notBefore : e'.block ≤ last.block := by
      rcases List.mem_append.mp member with earlier | isLast
      · exact before.concat.2 e' earlier
      · exact le_of_eq (congrArg FlowEvent.block (List.mem_singleton.mp isLast))
    have isBlock : last.block = e.block := le_antisymm lastUpTo (same ▸ notBefore)
    exact new (by simp [isBlock])

theorem modify_last {α : Type*} (older : List α) (last : α) (f : α → α) :
    (older ++ [last]).modify ((older ++ [last]).length - 1) f = older ++ [f last] := by
  have place : (older ++ [last]).length - 1 = older.length := by simp
  rw [place]
  induction older with
  | nil => rfl
  | cons a rest ih =>
      have tail := ih (by simp)
      simpa [List.modify_succ_cons] using tail

/-- The window holds the flow of each of its blocks. -/
theorem ingestAll_blocks {events : List FlowEvent} {h : Nat} (upTo : UpToHead events h) :
    (TokenStats.ingestAll events).blocks = (storedBlocks events).map (summary events) := by
  induction events using List.reverseRecOn with
  | nil => rfl
  | append_singleton events e ih =>
      obtain ⟨before, notAfter⟩ := upTo.concat
      have stored := ih before
      have increasing := storedBlocks_increasing before
      have older (blocks : List Nat) (others : ∀ b ∈ blocks, b ≠ e.block) :
          blocks.map (summary (events ++ [e])) = blocks.map (summary events) := by
        apply List.map_congr_left
        intro b member
        rw [summary_concat, if_neg (Ne.symm (others b member))]
      have block (b : Nat) : (BlockStats.block ∘ summary events) b = id b := summary_block events b
      rw [ingestAll_concat, storedBlocks_concat, TokenStats.ingest, pushBlock, stored,
        List.getLast?_map,
        Option.map_map, funext block, Option.map_id, id]
      by_cases same : (storedBlocks events).getLast? = some e.block
      · rw [if_pos same, if_pos same]
        obtain ⟨init, split⟩ := List.getLast?_eq_some_iff.mp same
        rw [split, List.map_append, List.map_singleton, modify_last, List.map_append,
          List.map_singleton,
          summary_concat, if_pos rfl, older]
        intro b member
        rw [split, List.pairwise_append] at increasing
        exact ne_of_lt (increasing.2.2 b member e.block (by simp))
      · rw [if_neg same, if_neg same]
        have idle := idle_of_new upTo same
        have within : (storedBlocks events ++ [e.block]).length - STATS_WINDOW ≤
            (storedBlocks events).length := by
          simp [STATS_WINDOW]
        have sameLength :
            (((storedBlocks events).map (summary events)) ++
              [({ block := e.block } : BlockStats)]).length =
            (storedBlocks events ++ [e.block]).length := by simp
        simp only [sameLength]
        rw [List.drop_append_of_le_length (by simpa using within), modify_last,
          List.drop_append_of_le_length within, List.map_append, List.map_singleton, summary_concat,
          if_pos rfl,
          summary_of_idle idle, List.map_drop, older]
        intro b member
        obtain ⟨e', member', rfl⟩ := mem_storedBlocks member
        exact idle e' member'

/-! ### What the window leaves out -/

/-- Increasing numbers after `lo` and up to `hi` are at most `hi - lo`. -/
theorem length_le_of_increasing {blocks : List Nat} {lo hi : Nat}
    (increasing : blocks.Pairwise (· < ·))
    (inside : ∀ b ∈ blocks, lo < b ∧ b ≤ hi) : blocks.length ≤ hi - lo := by
  have subset : blocks.toFinset ⊆ Finset.Ioc lo hi := by
    intro b member
    exact Finset.mem_Ioc.mpr (inside b (List.mem_toFinset.mp member))
  have card := Finset.card_le_card subset
  rwa [List.toFinset_card_of_nodup (increasing.imp ne_of_lt), Nat.card_Ioc] at card

theorem pushBlock_length {blocks : List Nat} {block : Nat} (short : blocks.length ≤ STATS_WINDOW) :
    (pushBlock blocks block).length ≤ STATS_WINDOW := by
  unfold pushBlock
  split
  · exact short
  · simp only [List.length_drop, List.length_append, List.length_singleton]
    omega

theorem storedBlocks_length (events : List FlowEvent) :
    (storedBlocks events).length ≤ STATS_WINDOW := by
  induction events using List.reverseRecOn with
  | nil => simp [storedBlocks]
  | append_singleton events e ih =>
      rw [storedBlocks_concat]
      exact pushBlock_length ih

/-- A new block goes to the end of a window that has room, and takes the place of the oldest
in one that is full. -/
theorem pushBlock_new {blocks : List Nat} {block : Nat} (short : blocks.length ≤ STATS_WINDOW)
    (new : blocks.getLast? ≠ some block) :
    pushBlock blocks block = blocks ++ [block] ∨
      ∃ oldest rest, blocks = oldest :: rest ∧ blocks.length = STATS_WINDOW ∧
        pushBlock blocks block = rest ++ [block] := by
  rw [pushBlock, if_neg new]
  rcases Nat.lt_or_eq_of_le short with room | full
  · left
    have none : (blocks ++ [block]).length - STATS_WINDOW = 0 := by
      rw [List.length_append, List.length_singleton]
      exact Nat.sub_eq_zero_of_le room
    rw [none, List.drop_zero]
  · right
    cases blocks with
    | nil => cases full
    | cons oldest rest =>
        have one : (oldest :: rest ++ [block]).length - STATS_WINDOW = 1 := by simp [← full]
        exact ⟨oldest, rest, rfl, full, by rw [one]; rfl⟩

/-- A block that had a trade is in the window, or the window is full of newer ones. -/
theorem mem_storedBlocks_or_older {events : List FlowEvent} {h : Nat} (upTo : UpToHead events h) :
    ∀ e ∈ events, e.block ∈ storedBlocks events ∨
      (storedBlocks events).length = STATS_WINDOW ∧ ∀ b ∈ storedBlocks events, e.block < b := by
  induction events using List.reverseRecOn with
  | nil => simp
  | append_singleton events e ih =>
      intro e' member
      have length := storedBlocks_length (events ++ [e])
      have last := pushBlock_getLast (storedBlocks events) e.block
      rw [storedBlocks_concat] at length ⊢
      rcases List.mem_append.mp member with before | isLast
      · obtain ⟨beforeUpTo, notAfter⟩ := upTo.concat
        have known := ih beforeUpTo e' before
        have increasing := storedBlocks_increasing beforeUpTo
        by_cases same : (storedBlocks events).getLast? = some e.block
        · rwa [pushBlock, if_pos same]
        · have earlier : e'.block < e.block :=
            lt_of_le_of_ne (notAfter e' before) (idle_of_new upTo same e' before)
          rcases pushBlock_new (storedBlocks_length events) same
            with room | ⟨oldest, rest, split, full, pushed⟩
          · rw [room]
            rcases known with here | ⟨full, newer⟩
            · exact .inl (List.mem_append_left _ here)
            · rw [room, List.length_append, full] at length
              exact absurd length (by simp)
          · have newLength : (rest ++ [e.block]).length = STATS_WINDOW := by
              rw [split] at full
              simpa using full
            rw [pushed]
            rw [split] at known increasing
            have allNewer (older : ∀ b ∈ rest, e'.block < b) :
                ∀ b ∈ rest ++ [e.block], e'.block < b := by
              simpa [or_imp, forall_and] using ⟨older, earlier⟩
            rcases known with here | ⟨-, newer⟩
            · rcases List.mem_cons.mp here with isOldest | kept
              · right
                rw [List.pairwise_cons] at increasing
                exact ⟨newLength, allNewer (isOldest ▸ increasing.1)⟩
              · exact .inl (List.mem_append_left _ kept)
            · right
              exact ⟨newLength, allNewer fun b kept => newer b (List.mem_cons_of_mem _ kept)⟩
      · rw [List.mem_singleton] at isLast
        subst isLast
        exact .inl (List.mem_of_getLast? last)

/-- A number among increasing ones up to `h` is among the last `n` if it is one
of the `n` up to `h`. -/
theorem mem_take_of_recent {blocks : List Nat} {b h n : Nat} (increasing : blocks.Pairwise (· < ·))
    (upTo : ∀ b ∈ blocks, b ≤ h) (member : b ∈ blocks) (recent : h < b + n) :
    b ∈ blocks.reverse.take n := by
  obtain ⟨older, newer, rfl⟩ := List.append_of_mem member
  rw [List.pairwise_append, List.pairwise_cons] at increasing
  have few : newer.length ≤ h - b := by
    apply length_le_of_increasing increasing.2.1.2
    intro b' later
    exact ⟨increasing.2.1.1 b' later, upTo b' (by simp [later])⟩
  have reversed : (older ++ b :: newer).reverse = (newer.reverse ++ [b]) ++ older.reverse := by simp
  rw [reversed, List.take_append]
  apply List.mem_append_left
  rw [List.take_of_length_le]
  · simp
  · have notAfter : b ≤ h := upTo b (by simp)
    rw [List.length_append, List.length_reverse, List.length_singleton]
    omega

/-- A read over `n` blocks covers every trade of the last `n` blocks of the chain. -/
theorem covered {events : List FlowEvent} {h n : Nat} (upTo : UpToHead events h)
    (inWindow : n ≤ STATS_WINDOW) {e : FlowEvent} (member : e ∈ events) (recent : h < e.block + n) :
    e.block ∈ (storedBlocks events).reverse.take n := by
  have increasing := storedBlocks_increasing upTo
  have notAfter : ∀ b ∈ storedBlocks events, b ≤ h := by
    intro b stored
    obtain ⟨e', member', rfl⟩ := mem_storedBlocks stored
    exact upTo.upTo e' member'
  rcases mem_storedBlocks_or_older upTo e member with stored | ⟨full, newer⟩
  · exact mem_take_of_recent increasing notAfter stored recent
  · have few : (storedBlocks events).length ≤ h - e.block :=
      length_le_of_increasing increasing fun b stored => ⟨newer b stored, notAfter b stored⟩
    have inChain := upTo.upTo e member
    omega

/-! ### Machine sums -/

theorem foldl_count_u32 (xs : List UInt32) (acc : UInt32) :
    ((xs.foldl (· + ·) acc).toNat : ℤ) = (acc.toNat + (xs.map fun x => (x.toNat : ℤ)).sum) % 2 ^
      32 := by
  induction xs generalizing acc with
  | nil =>
      have small := acc.toNat_lt
      simp only [List.foldl_nil, List.map_nil, List.sum_nil]
      omega
  | cons x rest ih => simp [ih, UInt32.toNat_add, Int.add_assoc]

theorem foldl_flow_i128 (xs : List BlockStats) (acc : BitVec 128) :
    ((xs.map fun b => b.buyBnbWei - b.sellBnbWei).foldl (· + ·) acc).toInt =
      (acc.toInt + (xs.map fun b => (b.buyBnbWei.toNat : ℤ) - b.sellBnbWei.toNat).sum).bmod
        (2 ^ 128) := by
  induction xs generalizing acc with
  | nil => simp [BitVec.toInt_eq_toNat_bmod acc]
  | cons b rest ih =>
      simp [ih, BitVec.toInt_add, BitVec.toInt_sub, BitVec.toInt_eq_toNat_bmod b.buyBnbWei,
        BitVec.toInt_eq_toNat_bmod b.sellBnbWei, Int.add_assoc]

theorem satAddU128_toNat (a b : U128) :
    (satAddU128 a b).toNat = min (a.toNat + b.toNat) (2 ^ 128 - 1) := by
  unfold satAddU128
  split
  · rename_i fits
    rw [BitVec.toNat_add_of_lt fits]
    omega
  · rename_i above
    simp only [BitVec.toNat_allOnes]
    omega

/-- The trades of a block as the window counts them, in `u32`s. -/
theorem summary_counts (events : List FlowEvent) (block : Nat) :
    ((summary events block).buyCount.toNat : ℤ) = blockSum FlowEvent.buys events block % 2 ^ 32 ∧
      ((summary events block).sellCount.toNat : ℤ) = blockSum FlowEvent.sells events block % 2 ^
        32 := by
  induction events using List.reverseRecOn with
  | nil => simp [summary, blockSum]
  | append_singleton events e ih =>
      obtain ⟨bought, sold⟩ := ih
      rw [summary_concat, blockSum_concat, blockSum_concat]
      by_cases same : e.block = block
      · rw [if_pos same, if_pos same, if_pos same, Int.add_emod,
          Int.add_emod (blockSum FlowEvent.sells _ _), ← bought,
          ← sold, BlockStats.count]
        cases buy : e.isBuy with
        | false => simp [FlowEvent.buys, FlowEvent.sells, buy, bought, UInt32.toNat_add]
        | true => simp [FlowEvent.buys, FlowEvent.sells, buy, sold, UInt32.toNat_add]
      · rw [if_neg same, if_neg same, if_neg same, add_zero, add_zero]
        exact ⟨bought, sold⟩

theorem blockSum_nonneg {f : FlowEvent → ℤ} (nonneg : ∀ e, 0 ≤ f e) (events : List FlowEvent)
    (block : Nat) :
    0 ≤ blockSum f events block := by
  apply List.sum_nonneg
  intro x member
  obtain ⟨e, -, rfl⟩ := List.mem_map.mp member
  exact nonneg e

theorem FlowEvent.bought_nonneg (e : FlowEvent) : 0 ≤ e.bought := by
  unfold bought
  split <;> simp

theorem FlowEvent.sold_nonneg (e : FlowEvent) : 0 ≤ e.sold := by
  unfold sold
  split <;> simp

/-- The wei of a block as the window adds them up, in saturating `u128`s. -/
theorem summary_wei (events : List FlowEvent) (block : Nat) :
    ((summary events block).buyBnbWei.toNat : ℤ) = min (blockSum FlowEvent.bought events block)
      (2 ^ 128 - 1) ∧
      ((summary events block).sellBnbWei.toNat : ℤ) = min (blockSum FlowEvent.sold events block)
        (2 ^ 128 - 1) := by
  induction events using List.reverseRecOn with
  | nil => simp [summary, blockSum]
  | append_singleton events e ih =>
      obtain ⟨bought, sold⟩ := ih
      have boughtNonneg := blockSum_nonneg FlowEvent.bought_nonneg events block
      have soldNonneg := blockSum_nonneg FlowEvent.sold_nonneg events block
      rw [summary_concat, blockSum_concat, blockSum_concat]
      by_cases same : e.block = block
      · rw [if_pos same, if_pos same, if_pos same, BlockStats.count]
        cases buy : e.isBuy with
        | false =>
            simp only [FlowEvent.bought, FlowEvent.sold, buy, if_false, Bool.false_eq_true,
              satAddU128_toNat]
            omega
        | true =>
            simp only [FlowEvent.bought, FlowEvent.sold, buy, if_true, satAddU128_toNat]
            omega
      · rw [if_neg same, if_neg same, if_neg same, add_zero, add_zero]
        exact ⟨bought, sold⟩

/-! ### The condition -/

/-- The last `n` blocks of the window that are older than the last `n` blocks of the chain. -/
def staleBlocks (events : List FlowEvent) (h n : Nat) : List Nat :=
  ((storedBlocks events).reverse.take n).filter fun b => !decide (h < b + n)

def recentBlocks (events : List FlowEvent) (h n : Nat) : List Nat :=
  ((storedBlocks events).reverse.take n).filter fun b => decide (h < b + n)

/-- The flow of a block with both of its sums capped at the largest `u128`. -/
def cappedFlow (events : List FlowEvent) (block : Nat) : ℤ :=
  min (blockSum FlowEvent.bought events block) (2 ^ 128 - 1) -
    min (blockSum FlowEvent.sold events block) (2 ^ 128 - 1)

def netFlow (events : List FlowEvent) (block : Nat) : ℤ :=
  blockSum FlowEvent.bought events block - blockSum FlowEvent.sold events block

/-- The buys of the stale blocks that a read counts. -/
def staleBuys (events : List FlowEvent) (h n : Nat) : ℤ :=
  ((staleBlocks events h n).map (blockSum FlowEvent.buys events)).sum

/-- The flow of the stale blocks, and what the cap took from the flow of the others. -/
def strayFlow (events : List FlowEvent) (h n : Nat) : ℤ :=
  ((staleBlocks events h n).map (cappedFlow events)).sum +
    ((recentBlocks events h n).map fun b => cappedFlow events b - netFlow events b).sum

/-- When a read over `n` blocks is what it is named for: the result fits its integer type, and what
    does not belong to the last `n` blocks of the chain is zero in that type. -/
structure FlowWindowed (events : List FlowEvent) (h n : Nat) : Prop where
  buysFit : windowSum FlowEvent.buys events h n < 2 ^ 32
  noBuys : 2 ^ 32 ∣ staleBuys events h n
  flowFits : -2 ^ 127 ≤ windowSum FlowEvent.bought events h n -
    windowSum FlowEvent.sold events h n ∧
    windowSum FlowEvent.bought events h n - windowSum FlowEvent.sold events h n < 2 ^ 127
  noFlow : 2 ^ 128 ∣ strayFlow events h n

/-- The recent blocks of a read have all trades of the last `n` blocks of the chain. -/
theorem recent_sum {events : List FlowEvent} {h n : Nat} (upTo : UpToHead events h)
    (inWindow : n ≤ STATS_WINDOW)
    (f : FlowEvent → ℤ) : ((recentBlocks events h n).map (blockSum f events)).sum =
      windowSum f events h n := by
  have distinct : (recentBlocks events h n).Nodup := by
    apply List.Nodup.filter
    apply List.Nodup.sublist (List.take_sublist _ _)
    exact List.nodup_reverse.mpr ((storedBlocks_increasing upTo).imp ne_of_lt)
  rw [sum_blockSum distinct, windowSum]
  congr 2
  apply List.filter_congr
  intro e member
  rw [decide_eq_decide, recentBlocks, List.mem_filter, decide_eq_true_iff]
  constructor
  · exact And.right
  · intro recent
    exact ⟨covered upTo inWindow member recent, recent⟩

/-- Every block of a read is recent or stale. -/
theorem read_sum (events : List FlowEvent) (h n : Nat) (g : Nat → ℤ) :
    (((storedBlocks events).reverse.take n).map g).sum =
      ((recentBlocks events h n).map g).sum + ((staleBlocks events h n).map g).sum :=
  (sum_filter_add_not _ g).symm

/-- Reducing the summands does not change a sum in `ℤ / m`. -/
theorem sum_emod {m : ℤ} {g g' : Nat → ℤ} (reduced : ∀ b, g b = g' b % m) (blocks : List Nat) :
    (blocks.map g).sum % m = (blocks.map g').sum % m := by
  induction blocks with
  | nil => rfl
  | cons b rest ih =>
      rw [List.map_cons, List.sum_cons, List.map_cons, List.sum_cons, Int.add_emod, ih, reduced,
        Int.emod_emod,
        ← Int.add_emod]

/-- A read of counts adds up the counts of its blocks, in `u32`. -/
theorem foldl_lastBlocks {events : List FlowEvent} {h : Nat} (upTo : UpToHead events h) (n : Nat)
    {count : BlockStats → UInt32} {f : FlowEvent → ℤ}
    (counted : ∀ b, ((count (summary events b)).toNat : ℤ) = blockSum f events b % 2 ^ 32) :
    (((((TokenStats.ingestAll events).lastBlocks n).map count).foldl (· + ·) 0).toNat : ℤ) =
      (((storedBlocks events).reverse.take n).map (blockSum f events)).sum % 2 ^ 32 := by
  rw [TokenStats.lastBlocks, ingestAll_blocks upTo, foldl_count_u32, ← List.map_reverse,
    ← List.map_take, List.map_map,
    List.map_map, ← sum_emod counted]
  simp [Function.comp_def]

theorem buyCountLast_eq {events : List FlowEvent} {h : Nat} (upTo : UpToHead events h) (n : Nat) :
    (((TokenStats.ingestAll events).buyCountLast n).toNat : ℤ) =
      (((storedBlocks events).reverse.take n).map (blockSum FlowEvent.buys events)).sum % 2 ^ 32 :=
  foldl_lastBlocks upTo n fun b => (summary_counts events b).1

theorem sellCountLast_eq {events : List FlowEvent} {h : Nat} (upTo : UpToHead events h) (n : Nat) :
    (((TokenStats.ingestAll events).sellCountLast n).toNat : ℤ) =
      (((storedBlocks events).reverse.take n).map (blockSum FlowEvent.sells events)).sum % 2 ^ 32 :=
  foldl_lastBlocks upTo n fun b => (summary_counts events b).2

theorem netFlowLast_eq {events : List FlowEvent} {h : Nat} (upTo : UpToHead events h) (n : Nat) :
    (TokenStats.ingestAll events).netFlowBnbWeiLast n =
      (((storedBlocks events).reverse.take n).map (cappedFlow events)).sum.bmod (2 ^ 128) := by
  have capped (b : Nat) : ((summary events b).buyBnbWei.toNat : ℤ) -
      (summary events b).sellBnbWei.toNat =
      cappedFlow events b := by
    obtain ⟨bought, sold⟩ := summary_wei events b
    rw [bought, sold, cappedFlow]
  rw [TokenStats.netFlowBnbWeiLast, TokenStats.lastBlocks, ingestAll_blocks upTo, foldl_flow_i128,
    ← List.map_reverse,
    ← List.map_take, List.map_map]
  simp [Function.comp_def, capped]

theorem windowSum_nonneg {f : FlowEvent → ℤ} (nonneg : ∀ e, 0 ≤ f e) (events : List FlowEvent)
    (h n : Nat) :
    0 ≤ windowSum f events h n := by
  apply List.sum_nonneg
  intro x member
  obtain ⟨e, -, rfl⟩ := List.mem_map.mp member
  exact nonneg e

theorem FlowEvent.buys_nonneg (e : FlowEvent) : 0 ≤ e.buys := by
  unfold buys
  split <;> simp

/-- What a read adds up is the flow of the last `n` blocks of the chain and the stray flow. -/
theorem read_flow {events : List FlowEvent} {h n : Nat} (upTo : UpToHead events h)
    (inWindow : n ≤ STATS_WINDOW) :
    (((storedBlocks events).reverse.take n).map (cappedFlow events)).sum =
      windowSum FlowEvent.bought events h n - windowSum FlowEvent.sold events h n +
        strayFlow events h n := by
  have net : ((recentBlocks events h n).map (netFlow events)).sum =
      windowSum FlowEvent.bought events h n - windowSum FlowEvent.sold events h n := by
    rw [← recent_sum upTo inWindow, ← recent_sum upTo inWindow]
    apply eq_sub_of_add_eq
    rw [← List.sum_map_add]
    simp [netFlow]
  have split : ((recentBlocks events h n).map (cappedFlow events)).sum =
      ((recentBlocks events h n).map (netFlow events)).sum +
        ((recentBlocks events h n).map fun b => cappedFlow events b - netFlow events b).sum := by
    rw [← List.sum_map_add]
    simp
  rw [read_sum events h n, split, net, strayFlow]
  linarith

/-- The reads of a token's window over `n` blocks are the number of buys and the wei bought
    less the wei sold in the blocks `(h - n, h]`, for every history in block order up to the
    head `h` and every `n` up to the window's length, exactly when what the window adds of
    older blocks is nothing. -/
theorem flow_windowed_iff {events : List FlowEvent} {h n : Nat} (upTo : UpToHead events h)
    (inWindow : n ≤ STATS_WINDOW) :
    ((((TokenStats.ingestAll events).buyCountLast n).toNat : ℤ) =
      windowSum FlowEvent.buys events h n ∧
      (TokenStats.ingestAll events).netFlowBnbWeiLast n =
        windowSum FlowEvent.bought events h n - windowSum FlowEvent.sold events h n) ↔
      FlowWindowed events h n := by
  have nonneg := windowSum_nonneg FlowEvent.buys_nonneg events h n
  rw [buyCountLast_eq upTo, netFlowLast_eq upTo, read_sum events h n, recent_sum upTo inWindow,
    read_flow upTo inWindow,
    Int.bmod_eq_iff (by decide), ← staleBuys]
  generalize bought :
    windowSum FlowEvent.bought events h n - windowSum FlowEvent.sold events h n = flow
  constructor
  · rintro ⟨buys, low, high, flows⟩
    constructor
    · omega
    · omega
    · constructor <;> omega
    · omega
  · intro windowed
    obtain ⟨buysFit, noBuys, flowFits, noFlow⟩ := windowed
    rw [bought] at flowFits
    omega

/-- One buy at block 1, read at block 100. -/
def oldBuy : List FlowEvent := [⟨1, true, 5⟩]

/-- A token whose trading stopped: the buy is still counted among the last three blocks. -/
theorem flow_window_stale : ¬∀ (events : List FlowEvent) (h n : Nat), UpToHead events h →
    n = 3 ∨ n = 10 →
    (((TokenStats.ingestAll events).buyCountLast n).toNat : ℤ) =
      windowSum FlowEvent.buys events h n ∧
      (TokenStats.ingestAll events).netFlowBnbWeiLast n =
        windowSum FlowEvent.bought events h n - windowSum FlowEvent.sold events h n := by
  intro claimed
  have upTo : UpToHead oldBuy 100 := by constructor <;> simp [oldBuy]
  exact absurd (claimed oldBuy 100 3 upTo (.inl rfl)).1 (by decide +kernel)

/-- Trades in each of the last three blocks, and one before them. -/
theorem flow_windowed_dense :
    let events : List FlowEvent :=
      [⟨7, true, 4⟩, ⟨8, true, 5⟩, ⟨9, false, 3⟩, ⟨10, true, 2⟩, ⟨10, true, 1⟩]
    ((TokenStats.ingestAll events).buyCountLast 3).toNat = 3 ∧
    (TokenStats.ingestAll events).netFlowBnbWeiLast 3 = 5 ∧
      FlowWindowed events 10 3 := by
  intro events
  have upTo : UpToHead events 10 := by constructor <;> simp [events]
  refine ⟨by decide +kernel, by decide +kernel, (flow_windowed_iff upTo (by decide)).mp ?_⟩
  constructor <;> decide +kernel

end BscMempool.Trader
