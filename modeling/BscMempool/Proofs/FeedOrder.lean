/-
Module: BscMempool.Proofs.FeedOrder
Layer: Proofs
Purpose: When the feed's caches follow the order of blocks. Each subscription delivers its logs in
  block order, but the loop takes them in the order they arrive: the windows stay increasing and the
  prices never go back to an older block exactly if the merged logs of every token are in block
  order themselves.
Trusted boundary: none
Main exports: tokenBlocks, FollowsBlocks, MergedInOrder, feed_follows_blocks_iff, feed_goes_back
-/
import BscMempool.Trader.FourMemeFeed
import Mathlib.Data.List.Induction
import Mathlib.Data.List.Pairwise

namespace BscMempool.Trader

/-- Blocks of the trades of a token, in the order in which the loop gets them. -/
def tokenBlocks (token : Address) (events : List FeedEvent) : List Nat :=
  events.filterMap fun e =>
    (decodeTradeBuy e.log).bind fun trade => if trade.token = token then some trade.point.block
      else none

@[simp] theorem tokenBlocks_nil (token : Address) : tokenBlocks token [] = [] := rfl

@[simp] theorem tokenBlocks_append (token : Address) (events rest : List FeedEvent) :
    tokenBlocks token (events ++ rest) = tokenBlocks token events ++ tokenBlocks token rest := by
  simp [tokenBlocks]

/-! ### What one event changes -/

/-- Blocks of a window after an event. -/
def pushBlock (blocks : List Nat) (block : Nat) : List Nat :=
  if blocks.getLast? = some block then blocks
  else (blocks ++ [block]).drop ((blocks ++ [block]).length - STATS_WINDOW)

theorem ingest_blocks (s : TokenStats) (block : Nat) (isBuy : Bool) (bnbWei : U128) :
    (s.ingest block isBuy bnbWei).blocks.map BlockStats.block =
      pushBlock (s.blocks.map BlockStats.block) block := by
  have counted (b : BlockStats) : (b.count isBuy bnbWei).block = b.block := by
    simp only [BlockStats.count]
    split <;> rfl
  have kept (blocks : List BlockStats) (i : Nat) :
      (blocks.modify i fun b => b.count isBuy bnbWei).map BlockStats.block =
        blocks.map BlockStats.block := by
    apply List.ext_getElem?
    intro j
    rw [List.getElem?_map, List.getElem?_map, List.getElem?_modify]
    cases blocks[j]? with
    | none => rfl
    | some b =>
        simp only [Option.map_eq_map, Option.map_some]
        split
        · rw [counted]
        · rfl
  simp only [TokenStats.ingest, kept, pushBlock, List.getLast?_map]
  split <;> simp [List.map_drop]

theorem decode_tokenBlocks (token : Address) (e : FeedEvent) :
    (tokenBlocks token [e] = [] ∧ ∀ trade, decodeTradeBuy e.log = some trade →
      trade.token ≠ token) ∨
    ∃ trade, decodeTradeBuy e.log = some trade ∧ trade.token = token ∧
      tokenBlocks token [e] = [trade.point.block] := by
  cases decoded : decodeTradeBuy e.log with
  | none => simp [tokenBlocks, decoded]
  | some trade =>
      by_cases same : trade.token = token
      · simp [tokenBlocks, decoded, same]
      · simp [tokenBlocks, decoded, same]

/-- An event pushes its block into the window of its token. -/
theorem window_onEvent (c : FeedCaches) (token : Address) (e : FeedEvent) :
    (c.onEvent e).window token = (tokenBlocks token [e]).foldl pushBlock (c.window token) := by
  rcases decode_tokenBlocks token e with ⟨nothing, others⟩ | ⟨trade, decoded, rfl, blocks⟩
  · rw [nothing, List.foldl_nil]
    cases decoded : decodeTradeBuy e.log with
    | none => simp [FeedCaches.onEvent, decoded]
    | some trade =>
        have other := others trade decoded
        simp [FeedCaches.onEvent, FeedCaches.window, decoded, Function.update_of_ne (Ne.symm other)]
  · rw [blocks, List.foldl_cons, List.foldl_nil]
    simp [FeedCaches.onEvent, FeedCaches.window, decoded, ingest_blocks]

/-- An event overwrites the price of its token. -/
theorem priceBlock_onEvent (c : FeedCaches) (token : Address) (e : FeedEvent) :
    (c.onEvent e).priceBlock token = (tokenBlocks token [e]).getLast?.or (c.priceBlock token) := by
  rcases decode_tokenBlocks token e with ⟨nothing, others⟩ | ⟨trade, decoded, rfl, blocks⟩
  · rw [nothing, List.getLast?_nil, Option.none_or]
    cases decoded : decodeTradeBuy e.log with
    | none => simp [FeedCaches.onEvent, decoded]
    | some trade =>
        have other := others trade decoded
        simp [FeedCaches.onEvent, FeedCaches.priceBlock, decoded,
          Function.update_of_ne (Ne.symm other)]
  · rw [blocks]
    simp [FeedCaches.onEvent, FeedCaches.priceBlock, decoded]

/-! ### What the loop leaves -/

theorem runLoop_window (token : Address) (events : List FeedEvent) :
    (FeedCaches.runLoop {} events).window token = (tokenBlocks token events).foldl pushBlock
      [] := by
  induction events using List.reverseRecOn with
  | nil => rfl
  | append_singleton events e ih =>
      rw [FeedCaches.runLoop_concat, window_onEvent, ih, tokenBlocks_append, List.foldl_append]

theorem runLoop_priceBlock (token : Address) (events : List FeedEvent) :
    (FeedCaches.runLoop {} events).priceBlock token = (tokenBlocks token events).getLast? := by
  induction events using List.reverseRecOn with
  | nil => rfl
  | append_singleton events e ih =>
      rw [FeedCaches.runLoop_concat, priceBlock_onEvent, ih, tokenBlocks_append,
        List.getLast?_append]

/-! ### Windows -/

/-- The last block of a window is that of the last push. -/
theorem pushBlock_getLast (blocks : List Nat) (block : Nat) :
    (pushBlock blocks block).getLast? = some block := by
  unfold pushBlock
  split
  · assumption
  · rw [List.getLast?_drop, if_neg]
    · simp
    · simp only [List.length_append, List.length_singleton, STATS_WINDOW]
      omega

theorem foldl_pushBlock_getLast (blocks : List Nat) :
    (blocks.foldl pushBlock []).getLast? = blocks.getLast? := by
  induction blocks using List.reverseRecOn with
  | nil => rfl
  | append_singleton blocks block ih => simp [pushBlock_getLast]

/-- Pushing a block that is not before the last one keeps a window increasing. -/
theorem pushBlock_increasing {blocks : List Nat} {block : Nat}
    (increasing : blocks.Pairwise (· < ·)) (notBefore : ∀ l, blocks.getLast? = some l → l ≤ block) :
    (pushBlock blocks block).Pairwise (· < ·) := by
  unfold pushBlock
  split
  · exact increasing
  · rename_i new
    apply List.Pairwise.sublist (List.drop_sublist _ _)
    rw [List.pairwise_append]
    refine ⟨increasing, List.pairwise_singleton _ _, ?_⟩
    intro b member b' isBlock
    rw [List.mem_singleton] at isBlock
    subst isBlock
    have upTo := (increasing.imp le_of_lt).rel_getLast member
    have last := List.getLast?_eq_some_getLast (List.ne_nil_of_mem member)
    have newer : blocks.getLast (List.ne_nil_of_mem member) ≠ b' := by
      intro same
      exact new (by rw [last, same])
    have notAfter := notBefore _ last
    omega

/-- If a window is increasing after a push, the block pushed was not before the last one. -/
theorem le_of_pushBlock_increasing {blocks : List Nat} {block l : Nat}
    (last : blocks.getLast? = some l)
    (increasing : (pushBlock blocks block).Pairwise (· < ·)) : l ≤ block := by
  by_cases same : l = block
  · exact le_of_eq same
  · obtain ⟨older, rfl⟩ := List.getLast?_eq_some_iff.mp last
    have new : (older ++ [l]).getLast? ≠ some block := by simpa using same
    -- both blocks are within the window, whatever is dropped from its front
    have within : (older ++ [l, block]).length - STATS_WINDOW ≤ older.length := by
      simp only [List.length_append, List.length_cons, List.length_nil, STATS_WINDOW]
      omega
    rw [pushBlock, if_neg new, List.append_assoc, List.cons_append, List.nil_append,
      List.drop_append_of_le_length within] at increasing
    have ends := increasing.sublist (List.sublist_append_right _ _)
    exact le_of_lt (by simpa using ends)

/-! ### The order of the merged logs -/

/-- The merged logs of every token are in block order. -/
def MergedInOrder (events : List FeedEvent) : Prop :=
  ∀ token, (tokenBlocks token events).Pairwise (· ≤ ·)

/-- Another block keeps the order if it is not before the last one. -/
theorem pairwise_le_concat_iff {blocks : List Nat} {block : Nat} :
    (blocks ++ [block]).Pairwise (· ≤ ·) ↔
      blocks.Pairwise (· ≤ ·) ∧ ∀ l, blocks.getLast? = some l → l ≤ block := by
  rw [List.pairwise_append]
  constructor
  · rintro ⟨ordered, -, before⟩
    refine ⟨ordered, ?_⟩
    intro l last
    exact before l (List.mem_of_getLast? last) block (by simp)
  · rintro ⟨ordered, notBefore⟩
    refine ⟨ordered, List.pairwise_singleton _ _, ?_⟩
    intro b member b' isBlock
    rw [List.mem_singleton] at isBlock
    subst isBlock
    have last := List.getLast?_eq_some_getLast (List.ne_nil_of_mem member)
    exact (ordered.rel_getLast member).trans (notBefore _ last)

/-- The windows of a token are increasing all along exactly if its blocks come in order. -/
theorem windows_iff (blocks : List Nat) :
    (∀ seen rest, blocks = seen ++ rest → (seen.foldl pushBlock []).Pairwise (· < ·)) ↔
    blocks.Pairwise (· ≤ ·) := by
  induction blocks using List.reverseRecOn with
  | nil => simp
  | append_singleton blocks block ih =>
      rw [pairwise_le_concat_iff, ← ih]
      constructor
      · intro windows
        constructor
        · intro seen rest cut
          exact windows seen (rest ++ [block]) (by rw [cut, List.append_assoc])
        · intro l last
          have whole := windows (blocks ++ [block]) [] (by simp)
          rw [List.foldl_append, List.foldl_cons, List.foldl_nil] at whole
          exact le_of_pushBlock_increasing (by rw [foldl_pushBlock_getLast, last]) whole
      · rintro ⟨windows, notBefore⟩ seen rest cut
        rcases List.eq_nil_or_concat rest with rfl | ⟨rest', last, rfl⟩
        · rw [List.append_nil] at cut
          rw [← cut, List.foldl_append, List.foldl_cons, List.foldl_nil]
          apply pushBlock_increasing (windows blocks [] (by simp))
          intro l lastOfWindow
          rw [foldl_pushBlock_getLast] at lastOfWindow
          exact notBefore l lastOfWindow
        · rw [List.concat_eq_append, ← List.append_assoc] at cut
          exact windows seen rest' (List.append_inj' cut rfl).1

/-! ### The caches -/

/-- After every event each token's window is strictly increasing, and no event takes a token's price
    back to an older block. -/
structure FollowsBlocks (events : List FeedEvent) : Prop where
  windows : ∀ token seen rest, events = seen ++ rest →
    ((FeedCaches.runLoop {} seen).window token).Pairwise (· < ·)
  prices : ∀ token seen e rest block, events = seen ++ e :: rest →
    (FeedCaches.runLoop {} seen).priceBlock token = some block →
    ∃ block', (FeedCaches.runLoop {} (seen ++ [e])).priceBlock token = some block' ∧ block ≤ block'

theorem windows_of_merged {events : List FeedEvent} (merged : MergedInOrder events)
    (token : Address) {seen rest : List FeedEvent} (cut : events = seen ++ rest) :
    ((FeedCaches.runLoop {} seen).window token).Pairwise (· < ·) := by
  have blocks : tokenBlocks token events = tokenBlocks token seen ++ tokenBlocks token rest := by
    rw [cut, tokenBlocks_append]
  rw [runLoop_window]
  exact (windows_iff _).mpr (merged token) _ _ blocks

theorem merged_of_windows {events : List FeedEvent}
    (windows : ∀ token seen rest, events = seen ++ rest →
      ((FeedCaches.runLoop {} seen).window token).Pairwise (· < ·)) : MergedInOrder events := by
  intro token
  apply (windows_iff _).mp
  intro seenBlocks restBlocks cut
  obtain ⟨seen, rest, split, rfl, -⟩ := List.filterMap_eq_append_iff.mp cut
  have increasing := windows token seen rest split
  rw [runLoop_window] at increasing
  exact increasing

theorem prices_of_merged {events : List FeedEvent} (merged : MergedInOrder events) (token : Address)
    {seen rest : List FeedEvent} {e : FeedEvent} {block : Nat} (cut : events = seen ++ e :: rest)
    (priced : (FeedCaches.runLoop {} seen).priceBlock token = some block) :
    ∃ block', (FeedCaches.runLoop {} (seen ++ [e])).priceBlock token = some block' ∧
      block ≤ block' := by
  rw [runLoop_priceBlock] at priced
  rw [runLoop_priceBlock, tokenBlocks_append, List.getLast?_append, priced]
  have ordered := merged token
  rw [cut, ← List.singleton_append, ← List.append_assoc, tokenBlocks_append, tokenBlocks_append]
    at ordered
  have upTo := (List.pairwise_append.mp ordered).1
  rcases decode_tokenBlocks token e with ⟨nothing, -⟩ | ⟨trade, -, -, blocks⟩
  · rw [nothing]
    exact ⟨block, rfl, le_rfl⟩
  · rw [blocks] at upTo ⊢
    exact ⟨trade.point.block, rfl, (pairwise_le_concat_iff.mp upTo).2 block priced⟩

/-- If no event takes a price back, the merged logs are in order: the price is
that of the last trade. -/
theorem merged_of_prices {events : List FeedEvent}
    (prices : ∀ token seen e rest block, events = seen ++ e :: rest →
      (FeedCaches.runLoop {} seen).priceBlock token = some block →
      ∃ block', (FeedCaches.runLoop {} (seen ++ [e])).priceBlock token = some block' ∧
        block ≤ block') :
    MergedInOrder events := by
  intro token
  induction events using List.reverseRecOn with
  | nil => simp
  | append_singleton events e ih =>
      have before : (tokenBlocks token events).Pairwise (· ≤ ·) := by
        apply ih
        intro token seen e' rest block cut
        exact prices token seen e' (rest ++ [e]) block
          (by rw [cut, List.append_assoc, List.cons_append])
      rw [tokenBlocks_append]
      rcases decode_tokenBlocks token e with ⟨nothing, -⟩ | ⟨trade, -, -, blocks⟩
      · rw [nothing, List.append_nil]
        exact before
      · rw [blocks, pairwise_le_concat_iff]
        refine ⟨before, ?_⟩
        intro l last
        obtain ⟨block', now, notBack⟩ :=
          prices token events e [] l rfl (by rw [runLoop_priceBlock, last])
        rw [runLoop_priceBlock, tokenBlocks_append, blocks, List.getLast?_concat] at now
        cases now
        exact notBack

/-- The caches follow the order of blocks exactly if the merged logs of every token do; the order of
    the windows and that of the prices each amount to it. -/
theorem feed_follows_blocks_iff (events : List FeedEvent) :
    FollowsBlocks events ↔ MergedInOrder events := by
  constructor
  · intro follows
    exact merged_of_windows follows.windows
  · intro merged
    constructor
    · intro token seen rest cut
      exact windows_of_merged merged token cut
    · intro token seen e rest block cut priced
      exact prices_of_merged merged token cut priced

/-! ### Two streams in order whose merge is not -/

/-- Logs of one of the subscriptions. -/
def delivered (isBuy : Bool) (events : List FeedEvent) : List FeedLog :=
  (events.filter fun e => e.isBuy == isBuy).map FeedEvent.log

/-- A subscription delivers its logs in the order of blocks. -/
def DeliveredInOrder (logs : List FeedLog) : Prop :=
  (logs.map fun log => log.blockNumber.getD 0).Pairwise (· ≤ ·)

/-- A trade of one raw token of `0x44` for three wei. -/
def tradeAt (block : Nat) : FeedLog where
  data :=
    (List.replicate 31 0 ++ [0x44]) ++ List.replicate 32 0 ++ List.replicate 32 0 ++
      (List.replicate 31 0 ++ [1]) ++ (List.replicate 31 0 ++ [2]) ++ (List.replicate 31 0 ++ [1])
  blockNumber := some block

/-- A sell of block 9 that arrives after a buy of block 10 takes the price back
and breaks the window. -/
theorem feed_goes_back :
    ¬ ∀ events, DeliveredInOrder (delivered true events) →
    DeliveredInOrder (delivered false events) →
      FollowsBlocks events := by
  intro claimed
  have streams :=
    claimed [⟨true, tradeAt 10⟩, ⟨false, tradeAt 9⟩] (by simp [DeliveredInOrder, delivered])
    (by simp [DeliveredInOrder, delivered])
  have merged := merged_of_windows streams.windows 0x44#160
  have blocks : tokenBlocks 0x44#160 [⟨true, tradeAt 10⟩, ⟨false, tradeAt 9⟩] = [10, 9] := by
    decide +kernel
  rw [blocks] at merged
  simp at merged

end BscMempool.Trader
