/-
Module: BscMempool.Proofs.ProportionalExit
Layer: Proofs
Purpose: When the exits of a position keep up with the KOL: with one signal for each block that he
  sells in, with balances that are not stale, and with fractions as exact numbers, no larger share
  of the position is sold than he sold of his.
Trusted boundary: none
Main exports: TrackedBuy, TrackedBuy.exactReads, proportional_exit, same_block_oversells
-/
import BscMempool.Proofs.FinalizeRace
import Mathlib.Algebra.Order.BigOperators.Ring.Finset
import Mathlib.Data.Nat.Cast.Order.Field
import Mathlib.Order.Interval.Finset.Nat

namespace BscMempool.Trader

open Concurrent (Tid Machine Contract Proc)
open Concurrent.Proc

/-! ### Shares -/

/-- A slice is at most its fraction of the amount. -/
theorem scaleU256ByFraction_le_mul {x : U256} {f : ℚ} (low : 0 ≤ f) (high : f ≤ 1) :
    ((scaleU256ByFraction x f).toNat : ℚ) ≤ x.toNat * f := by
  have amount : (0 : ℚ) ≤ x.toNat := Nat.cast_nonneg _
  have clamped := clamp01_eq_of_mem low high
  have bps : ((f64AsU64 (f * 10000) : Nat) : ℚ) ≤ f * 10000 := by
    have floor : 0 ≤ ⌊f * 10000⌋ := Int.floor_nonneg.2 (by positivity)
    calc ((f64AsU64 (f * 10000) : Nat) : ℚ) ≤ (⌊f * 10000⌋.toNat : ℚ) := by
          exact_mod_cast Nat.min_le_left _ _
      _ = ((⌊f * 10000⌋ : ℤ) : ℚ) := by exact_mod_cast Int.toNat_of_nonneg floor
      _ ≤ f * 10000 := Int.floor_le _
  simp only [scaleU256ByFraction, clamped]
  split
  · simpa using mul_nonneg amount low
  · split
    · rename_i all
      have one : f = 1 := by
        have : (10000 : ℚ) ≤ f * 10000 := le_trans (by exact_mod_cast all) bps
        linarith
      rw [one, mul_one]
    · have wrapped : (x * BitVec.ofNat 256 (f64AsU64 (f * 10000))).toNat ≤
          x.toNat * f64AsU64 (f * 10000) := by
        rw [BitVec.toNat_mul, BitVec.toNat_ofNat]
        exact (Nat.mod_le _ _).trans (Nat.mul_le_mul_left _ (Nat.mod_le _ _))
      rw [BitVec.toNat_udiv]
      calc (((x * BitVec.ofNat 256 (f64AsU64 (f * 10000))).toNat / 10000 : Nat) : ℚ)
          ≤ ((x.toNat * f64AsU64 (f * 10000) / 10000 : Nat) : ℚ) := by
            exact_mod_cast Nat.div_le_div_right wrapped
        _ ≤ ((x.toNat * f64AsU64 (f * 10000) : Nat) : ℚ) / 10000 := Nat.cast_div_le
        _ ≤ x.toNat * f := by
            rw [div_le_iff₀ (by norm_num), Nat.cast_mul]
            calc (x.toNat : ℚ) * (f64AsU64 (f * 10000) : Nat) ≤ x.toNat * (f * 10000) := by gcongr
              _ = x.toNat * f * 10000 := by ring

/-- A balance that only falls is at the end at least what the blocks of any set leave of it. -/
theorem le_mul_prod_kept (balance : Nat → ℚ) (nonneg : ∀ n, 0 ≤ balance n) {first last : Nat}
    (le : first ≤ last) (falls : ∀ n, first ≤ n → n < last → balance (n + 1) ≤ balance n)
    (blocks : Finset Nat) (within : blocks ⊆ Finset.Ioc first last) :
    balance last ≤ balance first * ∏ n ∈ blocks, balance n / balance (n - 1) := by
  induction last, le using Nat.le_induction generalizing blocks with
  | base =>
      have none_ : blocks = ∅ := by simpa using within
      simp [none_]
  | succ last le ih =>
      have falls' : ∀ n, first ≤ n → n < last → balance (n + 1) ≤ balance n :=
        fun n low high => falls n low (high.trans (Nat.lt_succ_self _))
      have earlier := ih falls'
      by_cases sells : last + 1 ∈ blocks
      · have rest : blocks.erase (last + 1) ⊆ Finset.Ioc first last := by
          intro n member
          have inside := Finset.mem_Ioc.1 (within (Finset.mem_of_mem_erase member))
          have ne := Finset.ne_of_mem_erase member
          exact Finset.mem_Ioc.2 (by omega)
        rw [← Finset.mul_prod_erase _ _ sells, Nat.add_sub_cancel]
        have step : balance (last + 1) = balance (last + 1) / balance last * balance last := by
          by_cases gone : balance last = 0
          · have zero : balance (last + 1) = 0 :=
              le_antisymm (gone ▸ falls last le (Nat.lt_succ_self _)) (nonneg _)
            simp [gone, zero]
          · exact (div_mul_cancel₀ _ gone).symm
        calc balance (last + 1) = balance (last + 1) / balance last * balance last := step
          _ ≤ balance (last + 1) / balance last *
              (balance first * ∏ n ∈ blocks.erase (last + 1), balance n / balance (n - 1)) :=
            mul_le_mul_of_nonneg_left (earlier _ rest) (div_nonneg (nonneg _) (nonneg _))
          _ = _ := by ring
      · have rest : blocks ⊆ Finset.Ioc first last := by
          intro n member
          have inside := Finset.mem_Ioc.1 (within member)
          have ne : n ≠ last + 1 := fun same => sells (same ▸ member)
          exact Finset.mem_Ioc.2 (by omega)
        exact (falls last le (Nat.lt_succ_self _)).trans (earlier _ rest)

/-! ### The position and the KOL's -/

/-- A position and what is known of the KOL it was bought after: his balance of the token after each
block, and the block of the sell that each exit was signalled for. -/
structure TrackedBuy extends FinalizedBuy where
  kolAddr : Address
  kolBalance : Nat → U256
  blockOf : Tid → Nat

namespace TrackedBuy

variable (b : TrackedBuy)

/-- The KOL's balances are read as they are, no balance of ours is stale, and a SELL that was
reported as failed did not go out. -/
def exactReads (i : Tid) : (o : Op) → o.Ans → Trade → Bool
  | .ask (.balanceOfAt who token block), reply, _ =>
      decide (who ≠ b.kolAddr) || decide (token ≠ b.token) || decide
        (reply = some (b.kolBalance block))
  | .submit tx _ _, (sent : Submitted), _ =>
      decide (tx.input.sold.map Prod.fst ≠ some b.token) || !sent.accepted || sent.ok
  | o, a, t => b.freshReads i o a t

/-- The share of his balance that the KOL keeps in a block. -/
def kept (n : Nat) : ℚ := (b.kolBalance n).toNat / (b.kolBalance (n - 1)).toNat

/-- He sells in the block, but not so much that it counts as everything. -/
structure Sells (n : Nat) : Prop where
  sold : (b.kolBalance n).toNat < (b.kolBalance (n - 1)).toNat
  part : 1 - b.kept n < 99 / 100

/-- What the exits of the tasks leave if each sells the share the KOL sold. -/
def keptBy : List Tid → ℚ
  | [] => 1
  | i :: rest => b.kept (b.blockOf i) * keptBy rest

/-- The tasks whose SELL of the token was broadcast since the BUY. -/
def sellers (t : Trade) : List Tid :=
  ((t.wire.drop b.start).filter fun r => r.sells b.token).map (·.sender)

/-- No task sells twice, and what is left is at least what the KOL's shares leave. -/
structure Inv (t : Trade) : Prop where
  base : b.toFinalizedBuy.Inv false t
  once : (b.sellers t).Nodup
  signalled : ∀ i ∈ b.sellers t, b.blockOf i ≠ 0
  share : (b.received : ℚ) * b.keptBy (b.sellers t) + b.sold t ≤ b.received

/-- What a step of the task at `i` may do: no task sells for another. -/
structure Guar (i : Tid) (t t' : Trade) : Prop where
  base : b.toFinalizedBuy.Guar i t t'
  sellers : ∀ j, j ≠ i → (j ∈ b.sellers t' ↔ j ∈ b.sellers t)

/-- The finalize task of the BUY, an exit of the token for each signal, and
exits on other tokens. -/
def spec : TradeSpec where
  cond i o a t := b.exactReads i o a t = true
  inv := b.Inv
  guar := b.Guar
  pre task i t :=
    match task with
    | .executeExit token _ kolBlock kolAddr => token = b.token →
        kolAddr = b.kolAddr ∧ kolBlock = b.blockOf i ∧ kolAddr ≠ 0 ∧ kolBlock ≠ 0 ∧
          b.Sells kolBlock ∧ i ∉ b.sellers t
    | .finalizePosition token _ _ e => token = b.token ∧ e = b.entry
    | .persistNonce _ => True
    | _ => False
  post _ _ _ _ := True
  idle _ _ _ := ⟨⟨fun _ _ => Iff.rfl, fun _ => ⟨rfl, rfl⟩⟩, fun _ _ => Iff.rfl⟩
  persist _ _ _ := trivial

variable {b} {w : TrailWatcher} {i : Tid} {t : Trade}

/-! ### What one operation does -/

theorem kept_nonneg (n : Nat) : 0 ≤ b.kept n := div_nonneg (Nat.cast_nonneg _) (Nat.cast_nonneg _)

theorem Sells.kept_le {n : Nat} (sells : b.Sells n) : b.kept n ≤ 1 := by
  apply div_le_one_of_le₀ _ (Nat.cast_nonneg _)
  exact_mod_cast Nat.le_of_lt sells.sold

/-- What the exit computes from the two balances is the share that was sold. -/
theorem Sells.fraction {n : Nat} (sells : b.Sells n) :
    clamp01 (((b.kolBalance (n - 1) - b.kolBalance n).toNat : ℚ) / (b.kolBalance (n - 1)).toNat) =
      1 - b.kept n := by
  have le : b.kolBalance n ≤ b.kolBalance (n - 1) := by
    rw [BitVec.le_def]
    exact Nat.le_of_lt sells.sold
  have positive : ((b.kolBalance (n - 1)).toNat : ℚ) ≠ 0 := by
    have := sells.sold
    exact_mod_cast (show (b.kolBalance (n - 1)).toNat ≠ 0 by omega)
  have same : ((b.kolBalance (n - 1) - b.kolBalance n).toNat : ℚ) / (b.kolBalance (n - 1)).toNat =
      1 - b.kept n := by
    rw [BitVec.toNat_sub_of_le le, Nat.cast_sub (BitVec.le_def.1 le), kept, sub_div,
      div_self positive]
  rw [same]
  exact clamp01_eq_of_mem (by linarith [sells.kept_le]) (by linarith [b.kept_nonneg n])

/-- A step that puts no SELL of the token on the wire. -/
theorem lift {t' : Trade} (inv : b.Inv t) (moves : (b.toFinalizedBuy.spec false).Moves i t t')
    (sellers : b.sellers t' = b.sellers t) (sold : b.sold t' = b.sold t) : b.spec.Moves i t t' := by
  refine ⟨⟨moves.inv, ?_, ?_, ?_⟩, moves.guar, fun j _ => ?_⟩
  · rw [sellers]
    exact inv.once
  · rw [sellers]
    exact inv.signalled
  · rw [sellers, sold]
    exact inv.share
  · rw [sellers]

theorem sellers_transmit {r : WireTx} (start : b.start ≤ t.wire.length) :
    b.sellers (t.transmit r) =
      if r.sells b.token then b.sellers t ++ [r.sender] else b.sellers t := by
  rw [sellers, Trade.transmit_wire, List.drop_append_of_le_length start, List.filter_append]
  by_cases sells : r.sells b.token = true <;> simp [TrackedBuy.sellers, sells]

/-- A transaction that is no SELL of the token. -/
theorem transmit_other {r : WireTx} (inv : b.Inv t) (other : r.sells b.token = false) :
    b.spec.Moves i t (t.transmit r) ∧ b.sellers (t.transmit r) = b.sellers t ∧
      b.sold (t.transmit r) = b.sold t ∧ (t.transmit r).unsettled b.token =
        t.unsettled b.token := by
  obtain ⟨moves, sold, unsettled⟩ := FinalizedBuy.transmit_other (i := i) inv.base other
  have sellers : b.sellers (t.transmit r) = b.sellers t := by
    rw [sellers_transmit inv.base.start, other]
    rfl
  exact ⟨lift inv moves sellers sold, sellers, sold, unsettled⟩

theorem keptBy_append (is : List Tid) (i : Tid) :
    b.keptBy (is ++ [i]) = b.keptBy is * b.kept (b.blockOf i) := by
  induction is with
  | nil => simp [keptBy]
  | cons j is ih => rw [List.cons_append, keptBy, keptBy, ih, mul_assoc]

/-- A slice of what is left leaves the KOL's share of it. -/
theorem share_step {sold amount balance received : Nat} {kept : ℚ} {already : ℚ}
    (share : (received : ℚ) * already + sold ≤ received) (low : 0 ≤ kept) (high : kept ≤ 1)
    (within : balance + sold ≤ received) (slice : (amount : ℚ) ≤ balance * (1 - kept)) :
    (received : ℚ) * (already * kept) + (sold + amount : Nat) ≤ received := by
  have balance_ : (balance : ℚ) ≤ received - sold := by
    have : (balance : ℚ) + sold ≤ received := by exact_mod_cast within
    linarith
  have taken : (amount : ℚ) ≤ (received - sold) * (1 - kept) :=
    slice.trans (mul_le_mul_of_nonneg_right balance_ (by linarith))
  have left : (received : ℚ) * already * kept ≤ (received - sold) * kept :=
    mul_le_mul_of_nonneg_right (by linarith) low
  push_cast
  linarith

/-! ### The outlines of the other tasks -/

def anything (b : TrackedBuy) (w : TrailWatcher) (i : Tid) :
    (b.spec.contract w).Assertion World.trade i :=
  ⟨fun _ => True, .true⟩

/-- An exit on another token. -/
def otherExit (b : TrackedBuy) (w : TrailWatcher) (i : Tid) (token : Address)
    (ne : token ≠ b.token) :
    TradeExit b.spec w i token where
  idle := b.anything w i
  locked := b.anything w i
  looked _ := b.anything w i
  sized _ := b.anything w i
  ready _ := b.anything w i
  sent _ := b.anything w i
  done _ := b.anything w i
  post _ _ := True
  refused _ _ := trivial
  lock _ inv _ _ :=
    ⟨lift inv (FinalizedBuy.move_lock inv.base fun same => absurd same ne) rfl rfl, trivial⟩
  get _ _ _ _ := trivial
  exited _ _ _ _ _ := trivial
  fast _ _ _ _ _ _ := trivial
  balance r bal t _ _ _ _ := by
    by_cases zero : bal.getD 0 = 0
    · rw [if_pos zero]
      trivial
    · rw [if_neg zero]
      exact fun _ _ => trivial
  givenUp _ _ _ := ⟨trivial, trivial, trivial⟩
  approved _ _ _ := trivial
  sendApprove _ _ _ _ _ _ _ sold _ inv _ _ :=
    ⟨(transmit_other inv (WireTx.sells_of_none sold)).1, fun _ => trivial, fun _ => trivial⟩
  failed _ _ _ := ⟨trivial, trivial⟩
  sendSale _ _ _ _ _ _ sold _ inv _ _ :=
    ⟨(transmit_other inv (by rw [WireTx.sells_of_sold sold]; simp [ne])).1, fun _ => trivial,
      fun _ => trivial⟩
  update sale t inv _ _ :=
    ⟨lift inv ((b.toFinalizedBuy.otherExit false w i token ne).update sale t inv.base trivial
      ⟨rfl, fun only => by cases only⟩).1 rfl rfl,
      trivial⟩
  unlock _ _ inv _ :=
    ⟨lift inv (FinalizedBuy.move_lock inv.base fun same => absurd same ne) rfl rfl, trivial⟩

/-- The finalize task sells nothing. -/
def finalize (b : TrackedBuy) (w : TrailWatcher) (i : Tid) (route : BuyRoute) :
    TradeFinalize b.spec w i b.token route b.entry where
  pending := b.anything w i
  read _ := b.anything w i
  stored _ := b.anything w i
  approving _ := b.anything w i
  done _ := b.anything w i
  unseen _ _ := trivial
  balance _ _ _ _ _ := trivial
  empty _ _ := trivial
  store bal t some_ inv _ meets :=
    ⟨lift inv ((b.toFinalizedBuy.finalize false w i route).store bal t some_ inv.base trivial
      ⟨meets, fun only => by cases only⟩).1 rfl rfl,
      trivial⟩
  unarmed _ _ _ := trivial
  sendApprove _ _ _ _ _ sold _ _ inv _ _ :=
    ⟨(transmit_other inv (WireTx.sells_of_none sold)).1, fun _ => trivial, fun _ => trivial⟩
  unconfirmed _ _ _ := trivial
  confirm bal t inv _ _ :=
    ⟨lift inv ((b.toFinalizedBuy.finalize false w i route).confirm bal t inv.base trivial
      ⟨rfl, fun only => by cases only⟩).1 rfl rfl,
      trivial⟩

/-! ### The exits of the position -/

/-- The task has not sold. -/
def fresh (b : TrackedBuy) (w : TrailWatcher) (i : Tid) :
    (b.spec.contract w).Assertion World.trade i :=
  b.spec.assertion w i (fun t => i ∉ b.sellers t) fun _ _ _ ne _ _ _ guar unsold sold =>
    unsold ((guar.sellers i ne.symm).1 sold)

/-- An assertion of the holder of the lock, who has not sold if `unsold`, about what was sold and
what is left to settle. -/
def mine (b : TrackedBuy) (w : TrailWatcher) (i : Tid) (unsold : Bool) (R : Nat → Nat → Prop) :
    (b.spec.contract w).Assertion World.trade i where
  holds t := (b.toFinalizedBuy.owned false w i R).holds t ∧ (unsold = true → i ∉ b.sellers t)
  stable j s s' ne inv inv' guar holds := by
    obtain ⟨grows, guar⟩ := guar
    constructor
    · exact (b.toFinalizedBuy.owned false w i R).stable j s s' ne inv.base inv'.base
        ⟨grows, guar.base⟩ holds.1
    · exact fun yes sold => holds.2 yes ((guar.sellers i ne.symm).1 sold)

variable (b w i)

def locked : (b.spec.contract w).Assertion World.trade i :=
  b.mine w i true fun _ unsettled => unsettled = 0

/-- The exit sells of this balance, which is not stale. -/
def sized (balance : U256) : (b.spec.contract w).Assertion World.trade i :=
  b.mine w i true fun sold unsettled => unsettled = 0 ∧ balance.toNat + sold ≤ b.received

/-- The SELL was broadcast, and this is left of the balance. -/
def sent (rest : U256) : (b.spec.contract w).Assertion World.trade i :=
  b.mine w i false fun sold _ => rest.toNat + sold ≤ b.received

def done : (b.spec.contract w).Assertion World.trade i :=
  b.mine w i false fun _ unsettled => unsettled = 0

variable {b w i}

theorem done_of_locked {s : World} (now : (b.locked w i).on s) : (b.done w i).on s := ⟨now.1, nofun⟩

theorem done_of_sized {balance : U256} {s : World} (now : (b.sized w i balance).on s) :
    (b.done w i).on s := ⟨⟨now.1.1, now.1.2.1⟩, nofun⟩

theorem lock_triple : (b.spec.contract w).Triple i (b.fresh w i).on (.trade (.lockExit b.token))
    fun _ s => (b.locked w i).on s :=
  TradeSpec.lock b.token fun t inv unsold free => by
    obtain ⟨moves, held⟩ := (b.toFinalizedBuy.ownExit false w i).lock t inv.base trivial free
    exact ⟨lift inv moves rfl rfl, held, fun _ => unsold⟩

theorem get_triple : (b.spec.contract w).Triple i (b.locked w i).on (.trade (.positionsGet b.token))
    fun r s => (b.locked w i).on s ∧ ∀ e q, r = some (e, q) → (b.sized w i q.tokensBought).on s :=
  TradeSpec.get b.token (Q := fun r t => (b.locked w i).holds t ∧
      ∀ e q, r = some (e, q) → (b.sized w i q.tokensBought).holds t) fun t inv now _ => by
    have looked :=
      (b.toFinalizedBuy.ownExit false w i).get t inv.base now.1 ⟨rfl, fun only => by cases only⟩
    refine ⟨now, fun e q held => ⟨⟨looked.1, looked.2.1, looked.2.2 e q held⟩, now.2⟩⟩

theorem balanceOf_triple :
    (b.spec.contract w).Triple i (b.locked w i).on (.ask (.balanceOf b.token))
    fun (bal : Option U256) s => (b.sized w i (bal.getD 0)).on s :=
  TradeSpec.ask (.balanceOf b.token) (b.locked w i).holds
    (fun (bal : Option U256) t => (b.sized w i (bal.getD 0)).holds t) fun t bal inv now meets => by
    have within : (Option.getD bal 0).toNat + b.sold t ≤ b.received := by
      have reads : b.freshReads i (.ask (.balanceOf b.token)) bal t = true := meets
      simpa [FinalizedBuy.freshReads, now.1.1] using reads
    exact ⟨⟨now.1.1, now.1.2, within⟩, now.2⟩

theorem submitApprove_triple {balance : U256} (tx : TransactionRequest) (hash : B256)
    (sold : tx.input.sold = none) :
    (b.spec.contract w).Triple i (b.sized w i balance).on (.submit tx hash .exitApprove)
      fun _ s => (b.sized w i balance).on s := by
  refine TradeSpec.submit tx hash .exitApprove (b.sized w i balance).holds
    (fun _ t => (b.sized w i balance).holds t) ?_
  rintro t r - rfl - - inv ⟨⟨held, settled, within⟩, unsold⟩ -
  obtain ⟨moves, sellers, same, unsettled⟩ := transmit_other inv (WireTx.sells_of_none sold)
  refine ⟨moves, ⟨held, unsettled.trans settled, ?_⟩, ?_⟩
  · rw [same]
    exact within
  · rw [sellers]
    exact unsold

/-- A SELL of the KOL's share of a balance that is not stale. -/
theorem submitSell_triple {balance amount : U256} (tx : TransactionRequest) (hash : B256)
    (memo : ExitMemo) (sold : tx.input.sold = some (b.token, amount)) (known : b.blockOf i ≠ 0)
    (sells : b.Sells (b.blockOf i))
    (slice : (amount.toNat : ℚ) ≤ balance.toNat * (1 - b.kept (b.blockOf i))) :
    (b.spec.contract w).Triple i (b.sized w i balance).on (.submit tx hash (.sell memo))
      fun ok s => if ok = true then (b.sent w i (saturatingSubU256 balance amount)).on s
        else (b.done w i).on s := by
  refine TradeSpec.submit tx hash (.sell memo) (b.sized w i balance).holds
    (fun ok t => if ok = true then (b.sent w i (saturatingSubU256 balance amount)).holds t
      else (b.done w i).holds t) ?_
  rintro t r sender rfl - site inv ⟨⟨held, settled, within⟩, unsold⟩ -
  have amount_le : amount.toNat ≤ balance.toNat := by
    have whole : (amount.toNat : ℚ) ≤ balance.toNat * 1 :=
      slice.trans (mul_le_mul_of_nonneg_left (by linarith [b.kept_nonneg (b.blockOf i)])
        (Nat.cast_nonneg _))
    exact_mod_cast (mul_one (balance.toNat : ℚ)) ▸ whole
  by_cases ok : r.ok = true
  · have sold_ : r.soldAmount b.token = amount.toNat := by simp [WireTx.soldAmount_of_sold sold, ok]
    have selling : r.sells b.token = true := by simp [WireTx.sells_of_sold sold, ok]
    have total := FinalizedBuy.sold_transmit (r := r) inv.base.start
    have sellers : b.sellers (t.transmit r) = b.sellers t ++ [i] := by
      rw [sellers_transmit inv.base.start, selling, sender]
      rfl
    have unsettled : (t.transmit r).unsettled b.token = amount.toNat := by
      rw [Trade.unsettled_transmit_sell t site sold ok, sold_]
    rw [if_pos ok]
    refine ⟨⟨⟨⟨inv.base.start.trans (by simp), ?_, fun free => ?_⟩, ?_, ?_, ?_⟩,
      ⟨fun _ _ => Iff.rfl,
      fun other => absurd held other⟩, fun j ne => ?_⟩, ⟨held, ?_⟩, nofun⟩
    · obtain ⟨q, cached, before⟩ := inv.base.within
      refine ⟨q, cached, ?_⟩
      rw [total, sold_, FinalizedBuy.ahead_false, unsettled]
      rw [FinalizedBuy.ahead_false, settled] at before
      omega
    · rw [Trade.transmit_exitLocks, held] at free
      cases free
    · rw [sellers]
      exact List.Nodup.append inv.once (List.nodup_singleton i)
        (List.disjoint_singleton.2 (unsold rfl))
    · rw [sellers]
      intro j sold
      rcases List.mem_append.1 sold with before | same
      · exact inv.signalled j before
      · exact List.mem_singleton.1 same ▸ known
    · rw [sellers, keptBy_append, total, sold_]
      exact share_step inv.share (b.kept_nonneg _) sells.kept_le within slice
    · rw [sellers]
      simp [ne]
    · rw [total, sold_]
      have added := saturatingSubU256_add amount_le
      omega
  · have failed : r.ok = false := by simpa using ok
    obtain ⟨moves, -, -, unsettled⟩ :=
      transmit_other (i := i) inv (show r.sells b.token = false by simp [WireTx.sells, failed])
    rw [if_neg ok]
    exact ⟨moves, ⟨held, unsettled.trans settled⟩, nofun⟩

theorem writeBack_triple (rest : U256) (entry : Option EntryId) :
    (b.spec.contract w).Triple i (b.sent w i rest).on (.trade (.writeBack b.token rest entry))
      fun _ s => (b.done w i).on s :=
  TradeSpec.writeBack b.token rest entry fun t inv now _ => by
    obtain ⟨⟨held, within⟩, -⟩ := now
    have zero : Function.update t.unsettled b.token 0 b.token = 0 := Function.update_self _ _ _
    refine ⟨⟨⟨⟨inv.base.start, ?_, fun _ => zero⟩, inv.once, inv.signalled, inv.share⟩,
      ⟨fun _ _ => Iff.rfl,
      fun other => absurd held other⟩, fun _ _ => Iff.rfl⟩, ⟨held, zero⟩, nofun⟩
    obtain ⟨q, cached, _⟩ := inv.base.within
    have cached : t.book.cached b.token = some (b.entry, q) := cached
    refine ⟨{ q with tokensBought := rest }, ?_, within.trans (Nat.le_add_right _ _)⟩
    change (t.book.writeBack b.token rest).cached b.token = _
    rw [Book.cached_writeBack_self, cached]
    rfl

theorem unlock_triple : (b.spec.contract w).Triple i (b.done w i).on (.trade (.unlockExit b.token))
    fun _ _ => True :=
  TradeSpec.unlock b.token (Q := fun _ => True) fun t inv now =>
    ⟨lift inv ((b.toFinalizedBuy.ownExit false w i).unlock .zeroBalance t inv.base now.1).1 rfl rfl,
      trivial⟩

theorem focused : Focused (b.spec.contract w) World.trade := ⟨TradeSpec.about, fun _ _ => rfl⟩

/-- Drawing and returning nonces, and signing, concern nobody here. -/
theorem leaves_wp (A : (b.spec.contract w).Assertion World.trade i) {α : Type} {p : Live α}
    (all : p.All Op.leavesTrade) {s : World} (now : A.on s) :
    (b.spec.contract w).wp i p (fun _ s => A.on s) s :=
  TradeSpec.leaves A all (fun _ _ now => now) now

theorem calm_wp (A : (b.spec.contract w).Assertion World.trade i) {α : Type} {p : Live α}
    (all : p.All Op.calm) {s : World} (now : A.on s) :
    (b.spec.contract w).wp i p (fun _ s => A.on s) s :=
  focused.calm_wp A all (fun _ _ now => now) now

theorem mild_wp (A : (b.spec.contract w).Assertion World.trade i) {α : Type} {p : Live α}
    (all : p.All Op.mild) {s : World} (now : A.on s) :
    (b.spec.contract w).wp i p (fun _ s => A.on s) s :=
  calm_wp A (all.mono fun _ => Op.mild.calm) now

theorem sign_leaves (tx : TransactionRequest) : (sign tx).All Op.leavesTrade := all_call.2 trivial

theorem shadow_leaves (tx : TransactionRequest) : (shadow tx).All Op.leavesTrade :=
  all_call.2 trivial

theorem kolSellFraction_wp (exactly : w.exec.fractions = .exact)
    (known : b.kolAddr ≠ 0 ∧ b.blockOf i ≠ 0) (sells : b.Sells (b.blockOf i))
    {s : World} (now : (b.locked w i).on s) :
    (b.spec.contract w).wp i (w.exec.kolSellFraction b.kolAddr b.token (b.blockOf i))
      (fun fraction s => fraction = some (1 - b.kept (b.blockOf i)) ∧ (b.locked w i).on s) s := by
  have read : ∀ n, (b.spec.contract w).Triple i (b.locked w i).on
      (.ask (.balanceOfAt b.kolAddr b.token n))
      fun (reply : Option U256) s => reply = some (b.kolBalance n) ∧ (b.locked w i).on s := fun n =>
    TradeSpec.ask (.balanceOfAt b.kolAddr b.token n) (b.locked w i).holds
      (fun (reply : Option U256) t => reply = some (b.kolBalance n) ∧ (b.locked w i).holds t)
      fun t reply _ now meets => by
        have exact_ : b.exactReads i (.ask (.balanceOfAt b.kolAddr b.token n)) reply t = true :=
          meets
        exact ⟨by simpa [exactReads] using exact_, now⟩
  unfold LiveExecutor.kolSellFraction
  rw [if_neg (not_or.2 known)]
  apply Contract.wp_call_seq _ (b.locked w i).stable (read _) _ now
  rintro pre s ⟨rfl, now⟩
  apply Contract.wp_call_seq _ (b.locked w i).stable (read _) _ now
  rintro post s ⟨rfl, now⟩
  have sold := sells.sold
  have unknown : ¬ (b.kolBalance (b.blockOf i - 1) = 0 ∨
      b.kolBalance (b.blockOf i) ≥ b.kolBalance (b.blockOf i - 1)) := by
    rintro (none_ | more)
    · rw [none_] at sold
      exact absurd sold (by simp)
    · exact absurd (BitVec.le_def.1 more) (by omega)
  dsimp only
  rw [if_neg unknown, exactly]
  exact ⟨congrArg some sells.fraction, now⟩

theorem exitHolding_wp {s : World} (now : (b.locked w i).on s) :
    (b.spec.contract w).wp i (LiveExecutor.exitHolding b.token) (fun r s => match r with
      | .error _ => (b.done w i).on s
      | .ok holding => (b.sized w i holding.ourBalance).on s) s := by
  apply Contract.wp_call_seq _ (b.locked w i).stable get_triple _ now
  rintro r s ⟨now, read⟩
  cases r with
  | none =>
      apply Contract.wp_call_seq _ (b.locked w i).stable balanceOf_triple _ now
      intro (bal : Option U256) s sized
      dsimp only
      split
      · exact done_of_sized sized
      · apply Contract.wp_seq _ (mild_wp _ (LiveExecutor.pickRoute_mild _ _ _) sized)
        intro route s sized
        cases route with
        | none => exact done_of_sized sized
        | some route => exact sized
  | some held =>
      obtain ⟨e, q⟩ := held
      dsimp only
      split
      · exact done_of_locked now
      · split
        · exact read e q rfl
        · apply Contract.wp_call_seq _ (b.locked w i).stable balanceOf_triple _ now
          intro (bal : Option U256) s sized
          split
          · exact done_of_sized sized
          · exact sized

/-- Approving sells nothing. -/
theorem exitApproval_wp (holding : LiveExecutor.Holding) (balance amount : U256) {s : World}
    (now : (b.sized w i balance).on s) :
    (b.spec.contract w).wp i (w.exec.exitApproval b.token holding amount)
      (fun _ s => (b.sized w i balance).on s) s := by
  have approve : ∀ spender {s : World}, (b.sized w i balance).on s →
      (b.spec.contract w).wp i (w.exec.submitApprove b.token spender)
        (fun _ s => (b.sized w i balance).on s) s := by
    intro spender s now
    apply Contract.wp_seq _ (leaves_wp _ (reserve_leavesTrade _) now)
    intro nonce s now
    apply Contract.wp_seq _ (mild_wp _ (LiveExecutor.gasWeiAtLeast_mild _) now)
    intro gas s now
    apply Contract.wp_seq _ (leaves_wp _ (sign_leaves _) now)
    intro signed s now
    cases signed with
    | none => exact now
    | some hash =>
        dsimp only
        split
        · exact Contract.wp_call (b.sized w i balance).stable (submitApprove_triple _ hash rfl) now
        · apply Contract.wp_seq _ (leaves_wp _ (shadow_leaves _) now)
          exact fun _ _ now => now
  unfold LiveExecutor.exitApproval
  split
  · exact now
  · apply Contract.wp_seq _ (mild_wp _ (ask_mild _ (by rfl)) now)
    intro allowance s now
    dsimp only
    split
    · apply Contract.wp_seq _ (approve _ now)
      intro sent s now
      cases sent with
      | true => exact now
      | false =>
          apply Contract.wp_seq _ (leaves_wp _ resync_leavesTrade now)
          exact fun _ _ now => now
    · exact now

theorem broadcastExit_wp (kolName : String) (holding : LiveExecutor.Holding) (amount : U256)
    (route : BuyRoute)
    (allowance : Option (Address × U256)) (known : b.blockOf i ≠ 0) (sells : b.Sells (b.blockOf i))
    (slice : (amount.toNat : ℚ) ≤ holding.ourBalance.toNat * (1 - b.kept (b.blockOf i))) {s : World}
    (now : (b.sized w i holding.ourBalance).on s) :
    (b.spec.contract w).wp i
      (w.exec.broadcastExit kolName b.token holding amount false route allowance)
      (fun _ s => (b.done w i).on s) s := by
  have resyncs : ∀ (outcome : ExitOutcome) {s : World}, (b.done w i).on s →
      (b.spec.contract w).wp i (NonceManager.resync >>= fun _ => .ret outcome)
        (fun _ s => (b.done w i).on s) s := by
    intro outcome s now
    apply Contract.wp_seq _ (leaves_wp _ resync_leavesTrade now)
    exact fun _ _ now => now
  unfold LiveExecutor.broadcastExit
  apply Contract.wp_seq
    (fun call s => (call.1 = route.spender ∧ call.2.2.sold = some (b.token, amount) ∧
    call.2.2.bought = none) ∧ (b.sized w i holding.ourBalance).on s)
    (Contract.wp_ends (w.exec.sellCall_sells _ _ _)
      (focused.mild_wp (b.sized w i holding.ourBalance)
      (w.exec.sellCall_mild _ _ _) (fun _ _ now call => ⟨call, now⟩) now))
  rintro call s ⟨⟨-, sold, -⟩, now⟩
  apply Contract.wp_seq _ (leaves_wp _ (reserve_leavesTrade _) now)
  intro nonce s now
  apply Contract.wp_seq _ (mild_wp _ (LiveExecutor.gasWeiAtLeast_mild _) now)
  intro gas s now
  apply Contract.wp_seq _ (leaves_wp _ (sign_leaves _) now)
  intro signed s now
  cases signed with
  | none => exact resyncs _ (done_of_sized now)
  | some hash =>
      apply Contract.wp_seq _ (mild_wp _ (ask_mild _ (by rfl)) now)
      intro walletBnb s now
      split
      · apply Contract.wp_call_seq _ (b.sized w i holding.ourBalance).stable
          (submitSell_triple _ hash ⟨false, holding.sized, holding.route, allowance⟩ sold known
            sells slice) _ now
        intro ok s sent
        cases ok with
        | false => exact resyncs _ sent
        | true =>
            apply Contract.wp_call_seq _
              (b.sent w i (saturatingSubU256 holding.ourBalance amount)).stable
              (writeBack_triple _ holding.sized) _ sent
            intro _ s now
            apply Contract.wp_seq _ (calm_wp _ (w.exec.recordExit_calm ..) now)
            exact fun _ _ now => now
      · apply Contract.wp_seq _ (leaves_wp _ (shadow_leaves _) now)
        intro _ s now
        apply Contract.wp_seq _ (calm_wp _ (w.exec.recordExit_calm ..) now)
        exact fun _ _ now => done_of_sized now

theorem executeExit_wp (exactly : w.exec.fractions = .exact) (kolName : String)
    (known : b.kolAddr ≠ 0 ∧ b.blockOf i ≠ 0)
    (sells : b.Sells (b.blockOf i)) {s : World} (now : (b.fresh w i).on s) :
    (b.spec.contract w).wp i (w.exec.executeExit b.token kolName (b.blockOf i) b.kolAddr)
      (fun _ _ => True) s := by
  unfold LiveExecutor.executeExit
  split
  · trivial
  apply Contract.wp_call_seq _ (b.fresh w i).stable lock_triple _ now
  intro _ s now
  apply Contract.wp_seq (fun _ s => (b.done w i).on s)
  · apply Contract.wp_seq _ (kolSellFraction_wp exactly known sells now)
    rintro fraction s ⟨rfl, now⟩
    have partial_ : decide ((1 - b.kept (b.blockOf i) : ℚ) ≥ Fractions.exact.fullAt) = false :=
      decide_eq_false (not_le.2 sells.part)
    apply Contract.wp_seq _ (exitHolding_wp now)
    intro r s now
    cases r with
    | error outcome => exact now
    | ok holding =>
        simp only [exactly, Option.getD_some, partial_, Bool.false_eq_true, if_false, true_and]
        split
        · exact done_of_sized now
        · apply Contract.wp_seq _ (exitApproval_wp holding holding.ourBalance _ now)
          intro allowance s now
          cases allowance with
          | none => exact done_of_sized now
          | some allowance =>
              apply Contract.wp_seq _ (mild_wp _ (LiveExecutor.pickRoute_mild _ _ _) now)
              intro route s now
              have slice := scaleU256ByFraction_le_mul (x := holding.ourBalance)
                (show 0 ≤ 1 - b.kept (b.blockOf i) by linarith [sells.kept_le])
                (by linarith [b.kept_nonneg (b.blockOf i)])
              exact broadcastExit_wp kolName holding _ _ allowance known.2 sells slice now
  · intro outcome s now
    apply Contract.wp_call_seq _ (b.done w i).stable unlock_triple _ now
    exact fun _ _ _ => trivial

theorem bodies (w : TrailWatcher) (exactly : w.exec.fractions = .exact) (t : Task) (i : Tid)
    (s : World) (pre : (b.spec.contract w).pre t i s) :
    (b.spec.contract w).wp i (w.body t) ((b.spec.contract w).post t i) s := by
  cases t with
  | executeExit token kolName kolBlock kolAddr =>
      by_cases same : token = b.token
      · obtain ⟨rfl, rfl, known, block, sells, unsold⟩ := pre same
        subst same
        exact Contract.wp_seq _ (executeExit_wp exactly kolName ⟨known, block⟩ sells unsold) fun _ _
          _ => trivial
      · exact Contract.wp_seq _
          ((b.otherExit w i token same).executeExit_wp kolName kolBlock kolAddr trivial)
          fun _ _ _ => trivial
  | finalizePosition token buyTxHash route e =>
      obtain ⟨rfl, rfl⟩ := pre
      exact Contract.wp_seq _ ((b.finalize w i route).finalizePosition_wp buyTxHash trivial)
        fun _ _ _ => trivial
  | persistNonce n => exact TradeSpec.persistNonce_wp n fun _ => trivial
  | _ => exact pre.elim

/-! ### What went out -/

/-- Amount of the token in the SELLs that went out, whatever the endpoint said of them. -/
def gone (token : Address) : List WireTx → Nat
  | [] => 0
  | r :: rest => match r.tx.input.sold with
    | some (t, amount) =>
        (if t = token ∧ (r.accepted || r.ok) = true then amount.toNat else 0) + gone token rest
    | none => gone token rest

/-- A SELL of the token that went out was reported to have gone out. -/
def Reported (token : Address) (r : WireTx) : Prop :=
  r.tx.input.sold.map Prod.fst = some token → r.accepted = true → r.ok = true

theorem gone_eq {token : Address} {wire : List WireTx} (reported : ∀ r ∈ wire, Reported token r) :
    gone token wire = soldTotal wire token := by
  induction wire with
  | nil => rfl
  | cons r rest ih =>
      have later := ih fun q member => reported q (List.mem_cons_of_mem _ member)
      have total : soldTotal (r :: rest) token = r.soldAmount token + soldTotal rest token := rfl
      have now := reported r List.mem_cons_self
      rw [total, gone, later, WireTx.soldAmount]
      cases sold : r.tx.input.sold with
      | none => simp
      | some sale =>
          obtain ⟨t, amount⟩ := sale
          rw [Reported, sold] at now
          by_cases same : t = token
          · subst same
            have ok := now rfl
            cases accepted : r.accepted <;> cases done : r.ok <;> simp_all
          · simp [same]

/-- Since the BUY every SELL of the token was reported. -/
def AllReported (b : TrackedBuy) (t : Trade) : Prop :=
  b.start ≤ t.wire.length ∧ ∀ r ∈ t.wire.drop b.start, Reported b.token r

theorem reported_step {o : Op} {i fresh : Tid} {a : o.Ans} {s : World}
    {out : Concurrent.Outcome World Task o.Res} (reported : AllReported b s.trade)
    (did : o.exec i fresh a s = some out) (meets : b.exactReads i o a s.trade = true) :
    AllReported b out.shared.trade := by
  obtain ⟨start, reported⟩ := reported
  have kept : o.silent → AllReported b out.shared.trade := by
    intro silent
    rw [AllReported, wire_of_silent silent did]
    exact ⟨start, reported⟩
  cases o with
  | submit tx hash site =>
      cases did
      refine ⟨start.trans (by simp), ?_⟩
      rw [Trade.transmit_wire, List.drop_append_of_le_length start]
      intro r member
      rcases List.mem_append.1 member with old | new
      · exact reported r old
      · cases List.mem_singleton.1 new
        intro sold accepted
        have sold : tx.input.sold.map Prod.fst = some b.token := sold
        have accepted : a.accepted = true := accepted
        simpa [exactReads, sold, accepted] using meets
  | _ => exact kept trivial

/-- In a run with exact reads every SELL of the token is reported. -/
theorem reported_of_run {w : TrailWatcher} {c c' : LiveConfig}
    (run : w.machine.Run (fun i o a s => b.exactReads i o a s.trade = true) c c')
    (init : AllReported b c.shared.trade) : AllReported b c'.shared.trade := by
  refine run.invariant (I := fun c => AllReported b c.shared.trade)
    (fun i d d' reported step => ?_) init
  cases step with
  | @mk t o next a out running ready meets did => exact reported_step reported did meets

/-! ### The signals -/

/-- The block of the sell that the task at `i` was started for; zero where it is
no exit of the token. -/
def signalBlock (token : Address) (tasks : List Task) (i : Tid) : Nat :=
  match tasks[i]? with
  | some (.executeExit t _ kolBlock _) => if t = token then kolBlock else 0
  | _ => 0

/-- The position as its BUY left it: in the cache, with nothing sold. -/
structure Bought (b : TrackedBuy) (t : Trade) : Prop where
  some_ : 0 < b.received
  start : b.start = t.wire.length
  cached : ∃ p, t.cached b.token = some (b.entry, p) ∧ p.tokensBought.toNat ≤ b.received
  settled : t.unsettled b.token = 0

/-- The tasks are exits, of this token one for each signal, and finalize tasks of the BUY; the
signals are of sells of the KOL in known blocks, and he buys nothing in between. -/
structure Signalled (b : TrackedBuy) (first last : Nat) (tasks : List Task) : Prop where
  calls : ∀ t ∈ tasks,
    (∃ token kolName kolBlock kolAddr, t = .executeExit token kolName kolBlock kolAddr) ∨
    ∃ buyTxHash route, t = .finalizePosition b.token buyTxHash route b.entry
  blocks : b.blockOf = signalBlock b.token tasks
  kol : b.kolAddr ≠ 0
  sells : ∀ kolName n kolAddr, .executeExit b.token kolName n kolAddr ∈ tasks →
    kolAddr = b.kolAddr ∧ first < n ∧ n ≤ last ∧ b.Sells n
  span : first ≤ last
  falls : ∀ n, first ≤ n → n < last → b.kolBalance (n + 1) ≤ b.kolBalance n

theorem signalBlock_of_exit {token kolAddr : Address} {kolName : String} {n : Nat}
    {tasks : List Task} (found : tasks[i]? = some (.executeExit token kolName n kolAddr)) :
    signalBlock token tasks i = n := by
  simp [signalBlock, found]

/-- A block that is signalled is the one of an exit. -/
theorem exit_of_signalBlock {token : Address} {tasks : List Task}
    (known : signalBlock token tasks i ≠ 0) :
    ∃ kolName kolAddr,
      .executeExit token kolName (signalBlock token tasks i) kolAddr ∈ tasks := by
  unfold signalBlock at known ⊢
  split at known
  · rename_i t kolName n kolAddr found
    by_cases same : t = token
    · subst same
      simp only [if_true]
      exact ⟨kolName, kolAddr, List.mem_of_getElem? found⟩
    · exact absurd (if_neg same) known
  · exact absurd rfl known

theorem keptBy_eq_prod {is : List Tid} (nodup : (is.map b.blockOf).Nodup) :
    b.keptBy is = ∏ n ∈ (is.map b.blockOf).toFinset, b.kept n := by
  induction is with
  | nil => rfl
  | cons i is ih =>
      obtain ⟨fresh, rest⟩ := List.nodup_cons.1 nodup
      rw [keptBy, ih rest, List.map_cons, List.toFinset_cons,
        Finset.prod_insert (by simpa using fresh)]

/-- With one signal for each block the exits leave at least the KOL's share. -/
theorem share_of_inv {first last : Nat} {tasks : List Task}
    (signalled : b.Signalled first last tasks) (once : ∀ i j, signalBlock b.token tasks i ≠ 0 →
      signalBlock b.token tasks i = signalBlock b.token tasks j → i = j)
    {is : List Tid} (nodup : is.Nodup) (known : ∀ i ∈ is, b.blockOf i ≠ 0) :
    ((b.kolBalance last).toNat : ℚ) / (b.kolBalance first).toNat ≤ b.keptBy is := by
  have distinct : (is.map b.blockOf).Nodup := by
    refine List.Nodup.map_on (fun i member j _ same => ?_) nodup
    rw [signalled.blocks] at same
    exact once i j (signalled.blocks ▸ known i member) same
  have within : (is.map b.blockOf).toFinset ⊆ Finset.Ioc first last := by
    intro n member
    obtain ⟨i, sold, rfl⟩ := List.mem_map.1 (List.mem_toFinset.1 member)
    have block := known i sold
    rw [signalled.blocks] at block ⊢
    obtain ⟨kolName, kolAddr, exit⟩ := exit_of_signalBlock block
    obtain ⟨-, low, high, -⟩ := signalled.sells _ _ _ exit
    exact Finset.mem_Ioc.2 ⟨low, high⟩
  have total := le_mul_prod_kept (fun n => ((b.kolBalance n).toNat : ℚ))
    (fun n => Nat.cast_nonneg _) signalled.span
    (fun n low high => by exact_mod_cast BitVec.le_def.1 (signalled.falls n low high)) _ within
  have kept : b.keptBy is = ∏ n ∈ (is.map b.blockOf).toFinset,
      ((b.kolBalance n).toNat : ℚ) / (b.kolBalance (n - 1)).toNat := keptBy_eq_prod distinct
  rw [← kept] at total
  apply div_le_of_le_mul₀ (Nat.cast_nonneg _) _ (by linarith)
  rw [kept]
  exact Finset.prod_nonneg fun n _ => b.kept_nonneg n

end TrackedBuy

/-- A position bought once, its finalize task, and an exit for every sell of the KOL that was
signalled, beside exits on other tokens.  With one signal for each block and fractions as exact
numbers, and in every interleaving whose reads are exact, the share of the position that is left is
at least the share of his that the KOL has left. -/
theorem proportional_exit {w : TrailWatcher} (exactly : w.exec.fractions = .exact) (b : TrackedBuy)
    (s : World) (bought : b.Bought s.trade)
    {first last : Nat} (tasks : List Task) (signalled : b.Signalled first last tasks)
    (once : ∀ i j, TrackedBuy.signalBlock b.token tasks i ≠ 0 →
      TrackedBuy.signalBlock b.token tasks i = TrackedBuy.signalBlock b.token tasks j → i = j)
    (c : LiveConfig)
    (run : w.machine.Run (fun i o a s => b.exactReads i o a s.trade = true)
      (w.machine.start s tasks) c) :
    ((b.kolBalance last).toNat : ℚ) / (b.kolBalance first).toNat ≤
      (b.received - TrackedBuy.gone b.token (c.shared.trade.wire.drop b.start)) / b.received := by
  have nothing : s.trade.wire.drop b.start = [] := by
    rw [bought.start]
    exact List.drop_length
  have unsold : b.sellers s.trade = [] := by simp [TrackedBuy.sellers, nothing]
  obtain ⟨p, cached, few⟩ := bought.cached
  have sound : (b.spec.contract w).Sound c := by
    refine (b.spec.contract w).sound (fun t i s _ pre => TrackedBuy.bodies w exactly t i s pre)
      ?_ ?_ run
    · refine ⟨⟨le_of_eq bought.start, ⟨p, cached, ?_⟩, fun _ => bought.settled⟩, ?_, ?_, ?_⟩
      · rw [FinalizedBuy.sold, nothing]
        exact few.trans (Nat.le_add_right _ _)
      · rw [unsold]
        exact List.nodup_nil
      · rw [unsold]
        simp
      · rw [unsold, FinalizedBuy.sold, nothing]
        simp [TrackedBuy.keptBy]
    · intro i t found
      have member := List.mem_of_getElem? found
      rcases signalled.calls t member
        with ⟨token, kolName, kolBlock, kolAddr, rfl⟩ | ⟨hash, route, rfl⟩
      · intro same
        subst same
        obtain ⟨rfl, low, -, sells⟩ := signalled.sells _ _ _ member
        have block : b.blockOf i = kolBlock := by
          rw [signalled.blocks]
          exact TrackedBuy.signalBlock_of_exit found
        refine ⟨rfl, block.symm, signalled.kol, by omega, sells, ?_⟩
        rw [unsold]
        exact List.not_mem_nil
      · exact ⟨rfl, rfl⟩
  have reported := TrackedBuy.reported_of_run run (by
    refine ⟨le_of_eq bought.start, ?_⟩
    change ∀ r ∈ s.trade.wire.drop b.start, _
    rw [nothing]
    simp)
  have positive : (0 : ℚ) < b.received := by exact_mod_cast bought.some_
  have share := sound.inv.share
  rw [TrackedBuy.gone_eq reported.2, le_div_iff₀ positive]
  have kept := TrackedBuy.share_of_inv signalled once sound.inv.once sound.inv.signalled
  calc ((b.kolBalance last).toNat : ℚ) / (b.kolBalance first).toNat * b.received
      ≤ b.keptBy (b.sellers c.shared.trade) * b.received := by gcongr
    _ ≤ b.received - b.sold c.shared.trade := by linarith

/-- The position of the scenarios, bought after a KOL whose balance halves in every block from the
ninth on, and the exits of his sells. -/
def halving (tasks : List Task) : TrackedBuy where
  token := scenarioToken
  entry := 0
  received := 1000
  start := 0
  kolAddr := 0xD
  kolBalance n := BitVec.ofNat 256 (1000 / 2 ^ (n - 8))
  blockOf := TrackedBuy.signalBlock scenarioToken tasks

theorem halving_bought (tasks : List Task) : (halving tasks).Bought boughtWorld.trade where
  some_ := by norm_num [halving]
  start := rfl
  cached := ⟨_, rfl, Nat.zero_le _⟩
  settled := rfl

theorem halving_sells {tasks : List Task} {n : Nat} (block : n = 9 ∨ n = 10) :
    (halving tasks).Sells n := by
  rcases block with rfl | rfl <;>
    exact ⟨by norm_num [halving], by norm_num [TrackedBuy.kept, halving]⟩

/-- Exits of a sell in the ninth block and of one in the last block. -/
def twoExits (last : Nat) : List Task :=
  [.executeExit scenarioToken "D" 9 0xD, .executeExit scenarioToken "D" last 0xD]

theorem halving_signalled {last : Nat} (block : last = 9 ∨ last = 10) :
    (halving (twoExits last)).Signalled 8 last (twoExits last) where
  calls t member := by
    rcases List.mem_pair.1 member with rfl | rfl <;> exact .inl ⟨_, _, _, _, rfl⟩
  blocks := rfl
  kol := show (0xD : Address) ≠ 0 by decide
  sells kolName n kolAddr member := by
    rcases List.mem_pair.1 member with same | same <;> cases same
    · exact ⟨rfl, by omega, by omega, halving_sells (.inl rfl)⟩
    · exact ⟨rfl, by omega, by omega, halving_sells block⟩
  span := by omega
  falls n low high := by
    change BitVec.ofNat 256 (1000 / 2 ^ (n + 1 - 8)) ≤ BitVec.ofNat 256 (1000 / 2 ^ (n - 8))
    obtain rfl | rfl : n = 8 ∨ n = 9 := by omega
    · decide
    · decide

/-- The watcher of the scenarios with fractions as exact numbers. -/
def rational : TrailWatcher :=
  { scenario false with exec := { (scenario false).exec with fractions := .exact } }

/-- One sell in each of two blocks: the KOL keeps a quarter and so do we. -/
theorem proportional_exit_quarter :
    ∃ c, rational.machine.Run
        (fun i o a s => (halving (twoExits 10)).exactReads i o a s.trade = true)
        (rational.machine.start boughtWorld (twoExits 10)) c ∧
      c.Quiet ∧ TrackedBuy.gone scenarioToken c.shared.trade.wire = 750 ∧
      (250 : ℚ) / 1000 ≤ (1000 - TrackedBuy.gone scenarioToken c.shared.trade.wire) / 1000 := by
  let balances : Nat → Option U256 := fun n => some ((halving (twoExits 10)).kolBalance n)
  let first : Replies := { balance := some 1000, balanceAt := balances, allowance := some 1000 }
  let second : Replies := { first with balance := some 500 }
  obtain ⟨c, run, quiet, gone⟩ : ∃ c, rational.machine.Run
      (fun i o a s => (halving (twoExits 10)).exactReads i o a s.trade = true)
      (rational.machine.start boughtWorld (twoExits 10)) c ∧
      c.Quiet ∧ TrackedBuy.gone scenarioToken c.shared.trade.wire = 750 :=
    Machine.exists_run_of_follow [(0, 21, first.ans), (1, 21, second.ans)] (by decide +kernel)
  have share :=
    proportional_exit rfl (halving (twoExits 10)) boughtWorld (halving_bought _) (twoExits 10)
    (halving_signalled (.inr rfl)) (fun i j known same => by
      rcases i with _ | _ | i <;> rcases j with _ | _ | j <;>
        simp_all [TrackedBuy.signalBlock, twoExits, halving]) c run
  exact ⟨c, run, quiet, gone, by simpa [halving] using share⟩

/-- Two sells in one block: both exits sell the share of the whole block, and where the KOL keeps
half we keep a quarter. -/
theorem same_block_oversells :
    (halving (twoExits 9)).Bought boughtWorld.trade ∧
      (halving (twoExits 9)).Signalled 8 9 (twoExits 9) ∧
      ∃ c, rational.machine.Run
          (fun i o a s => (halving (twoExits 9)).exactReads i o a s.trade = true)
          (rational.machine.start boughtWorld (twoExits 9)) c ∧
        c.Quiet ∧ ¬ ((((halving (twoExits 9)).kolBalance 9).toNat : ℚ) /
            ((halving (twoExits 9)).kolBalance 8).toNat ≤
          (1000 - TrackedBuy.gone scenarioToken c.shared.trade.wire) / 1000) := by
  let balances : Nat → Option U256 := fun n => some ((halving (twoExits 9)).kolBalance n)
  let first : Replies := { balance := some 1000, balanceAt := balances, allowance := some 1000 }
  let second : Replies := { first with balance := some 500 }
  obtain ⟨c, run, quiet, gone⟩ : ∃ c, rational.machine.Run
      (fun i o a s => (halving (twoExits 9)).exactReads i o a s.trade = true)
      (rational.machine.start boughtWorld (twoExits 9)) c ∧
      c.Quiet ∧ TrackedBuy.gone scenarioToken c.shared.trade.wire = 750 :=
    Machine.exists_run_of_follow [(0, 21, first.ans), (1, 21, second.ans)] (by decide +kernel)
  refine ⟨halving_bought _, halving_signalled (.inl rfl), c, run, quiet, ?_⟩
  rw [gone]
  norm_num [halving]

end BscMempool.Trader
