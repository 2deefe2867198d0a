/-
Module: BscMempool.Proofs.HardLimits
Layer: Proofs
Purpose: What the limits bound: the value, the KOL, the visibility and the token of every BUY that
  is broadcast, and the number of trades that fire on a day.
Trusted boundary: none
Main exports: Tally, tally, WithinLimits, limited, clockMonotone, hard_limits
-/
import BscMempool.Proofs.Scenario
import BscMempool.Proofs.TaskOps

namespace BscMempool.Trader

open Concurrent (Tid Machine Contract Outcome Config Proc)
open Concurrent.Proc
open LiveExecutor

variable {w : TrailWatcher}

/-! ### What a history says about the entries -/

/-- The entries among the decisions. -/
def entriesOf (decisions : List (Decision × String)) : List (Decision × String) :=
  decisions.filter fun decided => match decided.1 with
    | .enter .. => true
    | _ => false

/-- The entries the consumer has taken up, the time of the latest limits check, and the trades that
fired after a check of each day: the BUYs that went out, or were logged instead. -/
structure Tally where
  taken : Nat := 0
  checkedMs : Option Nat := none
  fired : Nat → Nat := fun _ => 0

/-- One more trade fired, on the day of the latest check. -/
def Tally.fire (k : Tally) : Tally :=
  { k with fired := fun day => if k.checkedMs.map utcDay = some day then k.fired day + 1
    else k.fired day }

def Tally.note (k : Tally) : (o : Op) → o.Ans → Tally
  | .env .openCount, _ => { k with taken := k.taken + 1 }
  | .env (.checkLimits ..), nowMs => { k with checkedMs := some nowMs }
  | .submit _ _ .buy, sent => if sent.ok then k.fire else k
  | .shadow tx, _ => if tx.input.bought.isSome then k.fire else k
  | _, _ => k

def tally : List w.machine.Event → Tally
  | [] => {}
  | e :: older => (tally older).note e.op e.ans

/-- A BUY transaction for an entry of the KOL is within the limits of the executor. -/
structure WithinLimits (x : LiveExecutor) (kolName visibility : String) (token : Address)
    (tx : TransactionRequest) : Prop where
  bought : tx.input.bought = some token
  value : (tx.value.toNat : ℤ) ≤
    ⌊x.config.phase.effectivePerTradeMaxBnb x.config.limits.perTradeMaxBnb * 10 ^ 18⌋
  tiny : x.config.phase.tiny = true → x.config.phase.full = false → tx.value.toNat ≤ 10 ^ 15
  whitelisted : kolName ∈ x.config.strategy.kolWhitelist
  visible : x.config.strategy.publicOnly = true → visibility = "public"
  notBlacklisted : x.checkBlacklisted token = false

/-- Every BUY that was handed to the network is within the limits, for the entry that the
consumer had taken up. -/
def limited (x : LiveExecutor) (entries : List (Decision × String)) : List w.machine.Event → Prop
  | [] => True
  | ⟨_, .submit tx _ .buy, _, _⟩ :: older =>
      (∃ k kolName token bnbAmount kolBnbInput kolBlock kolTx visibility,
        (tally older).taken = k + 1 ∧
        entries[k]? = some (.enter kolName token bnbAmount kolBnbInput kolBlock kolTx, visibility) ∧
        WithinLimits x kolName visibility token tx) ∧ limited x entries older
  | _ :: older => limited x entries older

/-- The limits checks read a clock that does not go back. -/
def clockMonotone : (o : Op) → o.Ans → List w.machine.Event → Bool
  | .env (.checkLimits ..), nowMs, h =>
      (tally h).checkedMs.all fun lastMs => decide (lastMs ≤ nowMs)
  | _, _, _ => true

instance (o : Op) (a : w.machine.recording.Ans o) (s : LiveRecorded w) :
    Decidable (clockMonotone o a s.2 = true) := decEq (clockMonotone o a s.2) true

/-- Tasks that make no entries. -/
def Task.besides : Task → Bool
  | .consumer .. | .execute .. => false
  | _ => true

namespace HardLimits

/-! ### The counters and the tally -/

/-- What the entries read and write: the counters, the tally, and whether every BUY was limited. -/
structure View where
  daily : DailyState
  tally : Tally
  limited : Prop

def view (x : LiveExecutor) (entries : List (Decision × String)) (s : LiveRecorded w) : View :=
  ⟨s.1.env.daily, tally s.2, limited x entries s.2⟩

/-- The counters agree with the tally, up to trades that fired and are not counted yet. -/
structure Counted (pending : Nat) (daily : DailyState) (k : Tally) : Prop where
  current : ∀ nowMs, k.checkedMs = some nowMs →
    daily.day = utcDay nowMs ∧ k.fired (utcDay nowMs) = daily.tradesToday + pending
  later : ∀ day, (∀ nowMs, k.checkedMs = some nowMs → utcDay nowMs < day) → k.fired day = 0
  unchecked : k.checkedMs = none → daily.tradesToday = 0

/-- Every BUY is limited and no day has more trades than it may. -/
def Inv (x : LiveExecutor) (v : View) : Prop :=
  v.limited ∧ ∀ day, v.tally.fired day ≤ x.config.limits.maxTradesPerDay

/-- The consumer is between two decisions. -/
def Idle (entries rest : List (Decision × String)) (v : View) : Prop :=
  Counted 0 v.daily v.tally ∧ entries.drop v.tally.taken = entriesOf rest

/-- Entries come from the one consumer only. -/
def Starts (entries : List (Decision × String)) : Task → Tid → View → Prop
  | .consumer _ decisions, i, v => i = 0 ∧ Idle entries decisions v
  | .execute .., _, _ => False
  | _, _, _ => True

def contract (w : TrailWatcher) (entries : List (Decision × String)) :
    Contract w.machine.recording :=
  .owned (fun _ o a s => clockMonotone o a s.2 = true) 0 (view w.exec entries) (Inv w.exec)
    (Starts entries)

/-! ### Operations beside the entries -/

/-- Operations that neither check, count nor make an entry. -/
def aside : Op → Prop
  | .env .openCount | .env (.checkLimits ..) | .env .recordTradeFired => False
  | .submit _ _ .buy => False
  | .shadow tx => tx.input.bought = none
  | .spawn (.persistNonce _) | .spawn (.processOnePosition ..) => True
  | .spawn _ => False
  | _ => True

theorem aside_of_basic {o : Op} (basic : o.basic) : aside o := by
  rcases basic with mild | signs
  · cases o with
    | ask q => trivial
    | env o => cases o <;> trivial
    | _ => exact mild.elim
  · cases o with
    | nonce | sign => trivial
    | spawn task => cases task <;> trivial
    | _ => exact signs.elim

theorem aside_of_exits {broadcast : Bool} {o : Op} (exits : o.exits broadcast) : aside o := by
  unfold Op.exits at exits
  split at exits
  all_goals first | trivial | exact exits | exact aside_of_basic exits

theorem aside_of_finalizes {broadcast : Bool} {o : Op} (finalizes : o.finalizes broadcast) :
    aside o := by
  unfold Op.finalizes at finalizes
  split at finalizes
  all_goals first | trivial | exact aside_of_basic finalizes

theorem aside_of_visits {broadcast : Bool} {o : Op} (visits : o.visits broadcast) : aside o := by
  unfold Op.visits at visits
  split at visits
  all_goals first | trivial | exact aside_of_exits visits

theorem aside_of_watches {o : Op} (watches : o.watches) : aside o := by
  unfold Op.watches at watches
  split at watches
  all_goals trivial

theorem aside_of_may {broadcast : Bool} {t : Task} {o : Op} (besides : t.besides = true)
    (may : t.may broadcast o) : aside o := by
  cases t with
  | consumer | execute => cases besides
  | executeExit => exact aside_of_exits may
  | finalizePosition => exact aside_of_finalizes may
  | persistNonce | reserve | resync => exact aside_of_basic may
  | trailWatcher => exact aside_of_watches may
  | processOnePosition => exact aside_of_visits may

variable {entries : List (Decision × String)}

/-- They leave the counters alone. -/
theorem aside_daily {o : Op} (kind : aside o) {i fresh : Tid} {a : o.Ans} {s : World}
    {out : Outcome World Task o.Res} (did : o.exec i fresh a s = some out) :
    out.shared.env.daily = s.env.daily := by
  cases o with
  | env o =>
      obtain ⟨⟨res, v⟩, ran, rfl⟩ := Option.map_eq_some_iff.1 did
      apply (EnvOp.exec_frame ran).daily
      · rintro config trade rfl
        exact kind
      · rintro rfl
        exact kind
  | _ => exact congrArg Env.daily (exec_env did fun e same => by cases same)

theorem aside_tally {o : Op} (kind : aside o) {i : Tid} {a : o.Ans} {r : o.Res}
    {h : List w.machine.Event} : @tally w (⟨i, o, a, r⟩ :: h) = tally h := by
  cases o with
  | env o => cases o <;> first | rfl | exact kind.elim
  | submit tx hash site => cases site <;> first | rfl | exact kind.elim
  | shadow tx =>
      have sells : tx.input.bought = none := kind
      simp [tally, Tally.note, sells]
  | _ => rfl

theorem aside_limited {o : Op} (kind : aside o) {i : Tid} {a : o.Ans} {r : o.Res}
    {h : List w.machine.Event} :
    @limited w w.exec entries (⟨i, o, a, r⟩ :: h) = limited w.exec entries h := by
  cases o with
  | submit tx hash site => cases site <;> first | rfl | exact kind.elim
  | _ => rfl

theorem aside_still {o : Op} (kind : aside o) :
    (contract w entries).Still (view w.exec entries) o := by
  intro i fresh a s out did
  obtain ⟨ran, past⟩ := Machine.exec_of_recording did
  constructor
  · have daily : out.shared.1.env.daily = s.1.env.daily := aside_daily kind ran
    have same : tally out.shared.2 = tally s.2 := (congrArg tally past).trans (aside_tally kind)
    have kept : limited w.exec entries out.shared.2 = limited w.exec entries s.2 :=
      (congrArg (limited w.exec entries) past).trans (aside_limited kind)
    unfold view
    rw [daily, same, kept]
  · intro j t started _
    rcases exec_started ran started with rfl | ⟨token, route, bnbIn, txHash, e, rfl, rfl⟩
    · cases t <;> trivial
    · trivial

/-- Operations beside the entries keep what the consumer knows. -/
theorem aside_wp {P : View → Prop} {α : Type} {p : Live α} (all : p.All aside)
    {Q : α → LiveRecorded w → Prop} (done : ∀ value s, P (view w.exec entries s) → Q value s)
    {s : LiveRecorded w} (now : P (view w.exec entries s)) : (contract w entries).wp 0 p Q s :=
  Contract.wp_still Contract.owned_about Contract.owned_stable (all.mono fun _ => aside_still)
    done now

theorem mild_wp {P : View → Prop} {α : Type} {p : Live α} (mild : p.All Op.mild)
    {Q : α → LiveRecorded w → Prop} (done : ∀ value s, P (view w.exec entries s) → Q value s)
    {s : LiveRecorded w} (now : P (view w.exec entries s)) : (contract w entries).wp 0 p Q s :=
  aside_wp (mild.mono fun _ mild => aside_of_basic (.inl mild)) done now

theorem aside_ends {P : View → Prop} {α : Type} {p : Live α} {R : α → Prop} (all : p.All aside)
    (ends : p.Ends R) {Q : α → LiveRecorded w → Prop}
    (done : ∀ value s, R value → P (view w.exec entries s) → Q value s) {s : LiveRecorded w}
    (now : P (view w.exec entries s)) : (contract w entries).wp 0 p Q s :=
  Contract.wp_ends ends (aside_wp all (fun value s holds is => done value s is holds) now)

/-! ### Operations of the entries -/

/-- The consumer has taken up an entry. -/
def Taken (entries : List (Decision × String)) (entry : Decision × String)
    (rest : List (Decision × String)) (pending : Nat) (v : View) : Prop :=
  Counted pending v.daily v.tally ∧ (∃ k, v.tally.taken = k + 1 ∧ entries[k]? = some entry) ∧
    entries.drop v.tally.taken = entriesOf rest

theorem Taken.idle {entry : Decision × String} {rest : List (Decision × String)} {v : View}
    (taken : Taken entries entry rest 0 v) : Idle entries rest v := ⟨taken.1, taken.2.2⟩

/-- The rule for an operation of the consumer that starts nothing. -/
theorem triple {o : Op} {P : View → Prop} {Q : o.Res → View → Prop}
    (does : ∀ (s : LiveRecorded w) a, Inv w.exec (view w.exec entries s) →
      P (view w.exec entries s) →
      clockMonotone o a s.2 = true → ∀ fresh (out : Outcome World Task o.Res),
        o.exec 0 fresh a s.1 = some out → out.spawned = [] ∧
          Inv w.exec (view w.exec entries (out.shared, ⟨0, o, a, out.res⟩ :: s.2)) ∧
          Q out.res (view w.exec entries (out.shared, ⟨0, o, a, out.res⟩ :: s.2))) :
    (contract w entries).Triple 0 (fun s => P (view w.exec entries s)) o
      fun r s => Q r (view w.exec entries s) :=
  Contract.recorded_triple does

/-- Taking up the next entry. -/
theorem openCount_triple {entry : Decision × String} {rest : List (Decision × String)}
    {P : View → Prop} (next : ∀ v, P v → Counted 0 v.daily v.tally ∧
      entries.drop v.tally.taken = entry :: entriesOf rest) :
    (contract w entries).Triple 0 (fun s => P (view w.exec entries s)) (.env .openCount)
      fun _ s => Taken entries entry rest 0 (view w.exec entries s) := by
  refine triple (o := .env .openCount) (Q := fun _ v => Taken entries entry rest 0 v) ?_
  intro s a inv holds _ fresh out did
  cases did
  obtain ⟨counted, ahead⟩ := next _ holds
  have ahead : entries.drop (tally s.2).taken = entry :: entriesOf rest := ahead
  refine ⟨rfl, inv, ⟨counted.current, counted.later, counted.unchecked⟩, ⟨_, rfl, ?_⟩, ?_⟩
  · rw [← List.head?_drop, ahead]
    rfl
  · change entries.drop ((tally s.2).taken + 1) = _
    rw [← List.tail_drop, ahead]
    rfl

/-- What a check that passed has found out. -/
structure Passed (x : LiveExecutor) (kolName visibility : String) (v : View) : Prop where
  checked : v.tally.checkedMs ≠ none
  below : v.daily.tradesToday < x.config.limits.maxTradesPerDay
  whitelisted : kolName ∈ x.config.strategy.kolWhitelist
  visible : x.config.strategy.publicOnly = true → visibility = "public"

/-- A check rolls the counters over to its day. -/
theorem check_counted {daily : DailyState} {k : Tally} (counted : Counted 0 daily k) {nowMs : Nat}
    (later : ∀ lastMs, k.checkedMs = some lastMs → lastMs ≤ nowMs) :
    Counted 0 (maybeResetDay daily nowMs) { k with checkedMs := some nowMs } := by
  constructor
  · rintro t rfl_
    cases rfl_
    by_cases same : daily.day = utcDay nowMs
    · have kept : maybeResetDay daily nowMs = daily := by simp [maybeResetDay, same]
      rw [kept]
      refine ⟨same, ?_⟩
      cases last : k.checkedMs with
      | none =>
          rw [counted.unchecked last]
          exact counted.later _ fun _ checked => by rw [last] at checked; cases checked
      | some lastMs =>
          obtain ⟨day, fired⟩ := counted.current lastMs last
          have today : utcDay lastMs = utcDay nowMs := day.symm.trans same
          exact today ▸ fired
    · have reset : maybeResetDay daily nowMs = { day := utcDay nowMs } := by
        simp [maybeResetDay, same]
      rw [reset]
      refine ⟨rfl, counted.later _ fun lastMs last => ?_⟩
      have day := (counted.current lastMs last).1
      exact (Nat.div_le_div_right (later lastMs last)).lt_of_ne fun today => same (day.trans today)
  · intro d after
    apply counted.later
    intro lastMs last
    exact (Nat.div_le_div_right (later lastMs last)).trans_lt (after nowMs rfl)
  · nofun

/-- The rule for the limits check of an entry. -/
theorem checkLimits_triple {entry : Decision × String} {rest : List (Decision × String)}
    (trade : TradeCheck) :
    (contract w entries).Triple 0 (fun s => Taken entries entry rest 0 (view w.exec entries s))
      (.env (.checkLimits w.exec.config trade)) fun (failed : Option LimitFail) s =>
        Taken entries entry rest 0 (view w.exec entries s) ∧
          (failed = none → Passed w.exec trade.kolName trade.visibility
            (view w.exec entries s)) := by
  refine triple (o := .env (.checkLimits w.exec.config trade))
    (P := Taken entries entry rest 0) (Q := fun
      (failed : Option LimitFail) v => Taken entries entry rest 0 v ∧
      (failed = none → Passed w.exec trade.kolName trade.visibility v)) ?_
  intro s nowMs inv taken monotone fresh out did
  cases did
  have later : ∀ lastMs, (tally s.2).checkedMs = some lastMs → lastMs ≤ nowMs := by
    intro lastMs last
    have le : ((tally s.2).checkedMs.all fun lastMs => decide (lastMs ≤ nowMs)) = true := monotone
    rw [last] at le
    exact of_decide_eq_true le
  refine ⟨rfl, inv, ⟨check_counted taken.1 later, taken.2⟩, fun passes => ?_⟩
  have admits := LimitsConfig.admits_of_gates passes
  exact ⟨nofun, admits.tradesToday, admits.whitelisted, admits.visible⟩

/-- A trade that fires is one more on the day of its check. -/
theorem fire_counted {daily : DailyState} {k : Tally} {most : Nat} (checked : k.checkedMs ≠ none)
    (below : daily.tradesToday < most) (counted : Counted 0 daily k)
    (few : ∀ day, k.fired day ≤ most) :
    Counted 1 daily k.fire ∧ ∀ day, k.fire.fired day ≤ most := by
  obtain ⟨nowMs, last⟩ := Option.ne_none_iff_exists'.1 checked
  obtain ⟨today, fired⟩ := counted.current nowMs last
  have fires : k.fire.fired =
      fun day => if utcDay nowMs = day then k.fired day + 1 else k.fired day := by
    simp [Tally.fire, last]
  constructor
  · constructor
    · intro t again
      have again : k.checkedMs = some t := again
      rw [last] at again
      cases again
      refine ⟨today, ?_⟩
      rw [fires]
      simpa using fired
    · intro day after
      have later : utcDay nowMs < day := after nowMs last
      rw [fires]
      dsimp only
      rw [if_neg (Nat.ne_of_lt later)]
      exact counted.later day after
    · intro unchecked
      exact absurd unchecked checked
  · intro day
    rw [fires]
    dsimp only
    split
    · rename_i same
      subst same
      omega
    · exact few day

/-- The consumer has an entry that passed every check, and the transaction it is to be made with. -/
def Ready (entries : List (Decision × String)) (rest : List (Decision × String)) (x : LiveExecutor)
    (tx : TransactionRequest) (v : View) : Prop :=
  ∃ kolName token bnbAmount kolBnbInput kolBlock kolTx visibility,
    Taken entries (.enter kolName token bnbAmount kolBnbInput kolBlock kolTx, visibility) rest 0 v ∧
      Passed x kolName visibility v ∧ WithinLimits x kolName visibility token tx

/-- What is left of a decision once its trade has fired, or not. -/
def Fired (entries rest : List (Decision × String)) (x : LiveExecutor) (v : View) : Prop :=
  Counted 1 v.daily v.tally ∧ entries.drop v.tally.taken = entriesOf rest ∧
    v.tally.checkedMs ≠ none ∧
    v.daily.tradesToday < x.config.limits.maxTradesPerDay

theorem submit_triple {rest : List (Decision × String)} (tx : TransactionRequest) (hash : B256) :
    (contract w entries).Triple 0 (fun s => Ready entries rest w.exec tx (view w.exec entries s))
      (.submit tx hash .buy) fun (ok : Bool) s =>
        if ok then Fired entries rest w.exec (view w.exec entries s)
        else Idle entries rest (view w.exec entries s) := by
  refine triple (o := .submit tx hash .buy) (P := Ready entries rest w.exec tx)
    (Q := fun (ok : Bool) v => if ok then Fired entries rest w.exec v else Idle entries rest v) ?_
  rintro s ⟨accepted, ok⟩ ⟨limited_, few⟩
    ⟨kolName, token, amount, input, block, kolTx, visibility, taken, passed, within⟩ - fresh out did
  cases did
  obtain ⟨k, took, entry⟩ := taken.2.1
  have within_ : limited w.exec entries (⟨0, .submit tx hash .buy, ⟨accepted, ok⟩, ok⟩ :: s.2) :=
    ⟨⟨k, kolName, token, amount, input, block, kolTx, visibility, took, entry, within⟩, limited_⟩
  cases ok with
  | false => exact ⟨rfl, ⟨within_, few⟩, taken.idle⟩
  | true =>
      obtain ⟨counted, few⟩ := fire_counted passed.checked passed.below taken.1 few
      exact ⟨rfl, ⟨within_, few⟩, counted, taken.2.2, passed.checked, passed.below⟩

theorem shadow_triple {rest : List (Decision × String)} (tx : TransactionRequest) :
    (contract w entries).Triple 0 (fun s => Ready entries rest w.exec tx (view w.exec entries s))
      (.shadow tx) fun _ s => Fired entries rest w.exec (view w.exec entries s) := by
  refine triple (o := .shadow tx) (P := Ready entries rest w.exec tx)
    (Q := fun _ v => Fired entries rest w.exec v) ?_
  rintro s a ⟨limited_, few⟩
    ⟨kolName, token, amount, input, block, kolTx, visibility, taken, passed, within⟩ - fresh out did
  cases did
  have fires : tally (⟨0, .shadow tx, a, ()⟩ :: s.2) = (tally s.2).fire := by
    simp [tally, Tally.note, within.bought]
  obtain ⟨counted, few⟩ := fire_counted passed.checked passed.below taken.1 few
  unfold view
  rw [fires]
  exact ⟨rfl, ⟨limited_, few⟩, counted, taken.2.2, passed.checked, passed.below⟩

/-- The trade is counted. -/
theorem recordTradeFired_triple {rest : List (Decision × String)}
    (small : w.exec.config.limits.maxTradesPerDay < 2 ^ 32) :
    (contract w entries).Triple 0 (fun s => Fired entries rest w.exec (view w.exec entries s))
      (.env .recordTradeFired) fun _ s => Idle entries rest (view w.exec entries s) := by
  refine triple (o := .env .recordTradeFired) (P := Fired entries rest w.exec)
    (Q := fun _ v => Idle entries rest v) ?_
  rintro s a inv ⟨counted, ahead, checked, below⟩ - fresh out did
  cases did
  have below : s.1.env.daily.tradesToday < w.exec.config.limits.maxTradesPerDay := below
  have counts : (recordTradeFired s.1.env.daily).tradesToday = s.1.env.daily.tradesToday + 1 :=
    Nat.min_eq_left (by omega)
  refine ⟨rfl, inv, ⟨fun nowMs last => ?_, counted.later, fun unchecked => ?_⟩, ahead⟩
  · obtain ⟨day, fired⟩ := counted.current nowMs last
    exact ⟨day, fired.trans counts.symm⟩
  · exact absurd unchecked checked

/-! ### Sizes -/

/-- What a cast to `u128` leaves is at most the floor of what is cast. -/
theorem toNat_f64AsU128_le {f : ℚ} (nonneg : 0 ≤ f) :
    ((U256.ofU128 (f64AsU128 f)).toNat : ℤ) ≤ ⌊f⌋ := by
  have floor : 0 ≤ ⌊f⌋ := Int.floor_nonneg.2 nonneg
  rw [toNat_ofU128_f64AsU128]
  calc ((min ⌊f⌋.toNat (2 ^ 128 - 1) : Nat) : ℤ)
    _ ≤ (⌊f⌋.toNat : ℤ) := by exact_mod_cast Nat.min_le_left _ _
    _ = ⌊f⌋ := Int.toNat_of_nonneg floor

/-- A clamped amount is at most the cap. -/
theorem clampToCap_le {x : LiveExecutor} (nonneg : 0 ≤ x.config.limits.perTradeMaxBnb)
    (bnbAmount : U256) : ((x.clampToCap bnbAmount).2.toNat : ℤ) ≤
      ⌊x.config.phase.effectivePerTradeMaxBnb x.config.limits.perTradeMaxBnb * 10 ^ 18⌋ := by
  have cap : 0 ≤ x.config.phase.effectivePerTradeMaxBnb x.config.limits.perTradeMaxBnb := by
    unfold PhaseConfig.effectivePerTradeMaxBnb
    split
    · exact le_min nonneg (by norm_num)
    · exact nonneg
  unfold clampToCap
  dsimp only
  split
  · exact toNat_f64AsU128_le (mul_nonneg cap (by norm_num))
  · rename_i within
    rw [Int.le_floor]
    have le := not_lt.1 within
    rw [div_le_iff₀ (by norm_num)] at le
    exact_mod_cast le

/-- In the tiny phase the cap is a thousandth. -/
theorem floor_tiny {p : PhaseConfig} {fullCap : ℚ} (tiny : p.tiny = true) (full : p.full = false) :
    ⌊p.effectivePerTradeMaxBnb fullCap * 10 ^ 18⌋ ≤ 10 ^ 15 := by
  have cap : p.effectivePerTradeMaxBnb fullCap ≤ 1 / 1000 := by
    simp [PhaseConfig.effectivePerTradeMaxBnb, tiny, full]
  have bound : p.effectivePerTradeMaxBnb fullCap * 10 ^ 18 ≤ ((10 ^ 15 : ℤ) : ℚ) := by
    calc p.effectivePerTradeMaxBnb fullCap * 10 ^ 18 ≤ 1 / 1000 * 10 ^ 18 := by gcongr
      _ = ((10 ^ 15 : ℤ) : ℚ) := by norm_num
  exact Int.floor_le_iff.2 (bound.trans_lt (by norm_num))

/-! ### The entries -/

/-- What the gates of an entry let through. -/
structure Cleared (x : LiveExecutor) (token : Address) (bnbAmount : U256) : Prop where
  value : (bnbAmount.toNat : ℤ) ≤
    ⌊x.config.phase.effectivePerTradeMaxBnb x.config.limits.perTradeMaxBnb * 10 ^ 18⌋
  notBlacklisted : x.checkBlacklisted token = false

variable {entry : Decision × String} {rest : List (Decision × String)}

theorem aside_append (row : LiveEntry) : (onEnv (.ledgerAppend row)).All aside := all_call.2 trivial

theorem aside_of_mild {α : Type} {p : Live α} (mild : p.All Op.mild) : p.All aside :=
  mild.mono fun _ mild => aside_of_basic (.inl mild)

/-- After the check the gates only look for a route and its sell tax. -/
theorem routed (x : LiveExecutor) (kolName visibility : String) (token : Address) (bnbAmount : U256)
    (gasWei : U128) (gasGwei : Nat) (walletBnb : ℚ) :
    let p : Live (Except String Entry) := do
      match ← pickRoute token bnbAmount .buy with
      | none =>
          onEnv (.ledgerAppend
            (x.skipRow kolName visibility token bnbAmount 0 walletBnb "unknown_venue"))
          return .error "unknown_venue"
      | some route =>
          match ← x.taxTooHigh route token bnbAmount with
          | some tax =>
              onEnv (.ledgerAppend (x.skipRow kolName visibility token bnbAmount 0 walletBnb
                s!"sell_tax_{tax}bps"))
              return .error s!"sell_tax_{tax}bps"
          | none =>
              return .ok {
                route := route
                bnbAmount := bnbAmount
                gasWei := gasWei
                gasGwei := gasGwei
                walletBnb := walletBnb }
    p.All aside ∧ p.Ends fun gated => ∀ e, gated = .ok e → e.bnbAmount = bnbAmount := by
  dsimp only
  constructor
  · apply (aside_of_mild (pickRoute_mild _ _ _)).bind
    intro route
    cases route with
    | none => exact (aside_append _).bind fun _ => trivial
    | some route =>
        apply (aside_of_mild (x.taxTooHigh_mild _ _ _)).bind
        intro tax
        cases tax with
        | some tax => exact (aside_append _).bind fun _ => trivial
        | none => trivial
  · apply (Ends.any _).bind
    intro route _
    cases route with
    | none => exact (Ends.any _).bind fun _ _ e is => by cases is
    | some route =>
        apply (Ends.any _).bind
        intro tax _
        cases tax with
        | some tax => exact (Ends.any _).bind fun _ _ e is => by cases is
        | none =>
            rintro e ⟨⟩
            rfl

theorem entryGates_wp (nonneg : 0 ≤ w.exec.config.limits.perTradeMaxBnb)
    (kolName visibility : String)
    (token : Address) (bnbAmount : U256) (openPositions : Nat) {s : LiveRecorded w}
    (now : Taken entries entry rest 0 (view w.exec entries s)) :
    (contract w entries).wp 0 (w.exec.entryGates kolName visibility token bnbAmount openPositions)
      (fun gated s => Taken entries entry rest 0 (view w.exec entries s) ∧ ∀ e, gated = .ok e →
        Passed w.exec kolName visibility (view w.exec entries s) ∧
        Cleared w.exec token e.bnbAmount) s := by
  have skips : ∀ row (reason : String) {s : LiveRecorded w},
      Taken entries entry rest 0 (view w.exec entries s) →
      (contract w entries).wp 0 (do onEnv (.ledgerAppend row); return .error reason)
        (fun (gated : Except String Entry) s => Taken entries entry rest 0 (view w.exec entries s) ∧
          ∀ e, gated = .ok e → Passed w.exec kolName visibility (view w.exec entries s) ∧
            Cleared w.exec token e.bnbAmount) s := by
    intro row reason s now
    let p : Live (Except String Entry) :=
      onEnv (.ledgerAppend row) >>= fun _ => .ret (.error reason)
    have all : p.All aside := (aside_append row).bind fun _ => trivial
    have ends : p.Ends fun gated => gated = .error reason := fun _ => rfl
    refine aside_ends (P := Taken entries entry rest 0) all ends ?_ now
    rintro gated s rfl taken
    exact ⟨taken, nofun⟩
  unfold entryGates
  split
  · exact skips _ _ now
  · rename_i listed
    refine Contract.wp_seq _ (mild_wp (P := Taken entries entry rest 0) (ask_mild _ (by rfl))
      (fun _ _ taken => taken) now) fun walletBnb s now => ?_
    refine Contract.wp_seq _ (mild_wp (P := Taken entries entry rest 0) (gasWeiAtLeast_mild _)
      (fun _ _ taken => taken) now) fun gasWei s now => ?_
    refine Contract.wp_call_seq _ Contract.owned_stable (checkLimits_triple _)
      (fun (failed : Option LimitFail) s checked => ?_) now
    cases failed with
    | some why => exact skips _ _ checked.1
    | none =>
        obtain ⟨all, ends⟩ :=
          routed w.exec kolName visibility token (w.exec.clampToCap bnbAmount).2 gasWei
          (weiToGwei gasWei) walletBnb
        refine aside_ends (P := fun v => Taken entries entry rest 0 v ∧
          Passed w.exec kolName visibility v)
          all ends ?_ ⟨checked.1, checked.2 rfl⟩
        rintro gated s same ⟨taken, passed⟩
        refine ⟨taken, fun e is => ⟨passed, ?_, ?_⟩⟩
        · rw [same e is]
          exact clampToCap_le nonneg bnbAmount
        · exact Bool.eq_false_iff.2 listed

/-- Starting the finalize task concerns nobody here. -/
theorem openPosition_aside (token : Address) (route : BuyRoute) (bnbIn : U256) (txHash : B256) :
    (onTrade (.openPosition token route bnbIn txHash)).All aside := all_call.2 trivial

theorem reserveNonce_aside : w.exec.reserveNonce.All aside :=
  reserveNonce_basic.mono fun _ => aside_of_basic

theorem resync_aside : NonceManager.resync.All aside := resync_basic.mono fun _ => aside_of_basic

/-- The rows and counters of a trade that fired. -/
theorem recordEntry_wp (small : w.exec.config.limits.maxTradesPerDay < 2 ^ 32)
    (kolName visibility : String) (token : Address) (e : Entry) (nonce : UInt64) (txHash : B256)
    (broadcast : Bool) {s : LiveRecorded w}
    (now : Fired entries rest w.exec (view w.exec entries s)) :
    (contract w entries).wp 0 (w.exec.recordEntry kolName visibility token e nonce txHash broadcast)
      (fun _ s => Idle entries rest (view w.exec entries s)) s := by
  refine Contract.wp_seq _ (aside_wp (P := Fired entries rest w.exec) (aside_append _)
    (fun _ _ fired => fired) now) fun _ s now => ?_
  have opened : (onEnv .recordOpened).All aside := all_call.2 trivial
  refine Contract.wp_seq _ (aside_wp (P := Fired entries rest w.exec) opened
    (fun _ _ fired => fired) now) fun _ s now => ?_
  exact Contract.wp_call Contract.owned_stable (recordTradeFired_triple small) now

theorem broadcastEntry_wp (small : w.exec.config.limits.maxTradesPerDay < 2 ^ 32)
    (kolName visibility : String) (token : Address) (bnbAmount kolBnbInput : U256) (kolBlock : Nat)
    (kolTx : B256) (e : Entry) (cleared : Cleared w.exec token e.bnbAmount) {s : LiveRecorded w}
    (now : Taken entries (.enter kolName token bnbAmount kolBnbInput kolBlock kolTx,
      visibility) rest 0
        (view w.exec entries s) ∧ Passed w.exec kolName visibility (view w.exec entries s)) :
    (contract w entries).wp 0 (w.exec.broadcastEntry kolName visibility token e)
      (fun _ s => Idle entries rest (view w.exec entries s)) s := by
  let P (v : View) : Prop :=
    Taken entries (.enter kolName token bnbAmount kolBnbInput kolBlock kolTx, visibility) rest 0 v ∧
      Passed w.exec kolName visibility v
  unfold broadcastEntry
  refine Contract.wp_seq _ (aside_ends (P := P) (aside_of_mild (w.exec.buyCall_mild _ _ _))
    (w.exec.buyCall_buys _ _ _) (fun _ _ buys now => And.intro buys now) now) fun call s
      ⟨buys, now⟩ => ?_
  refine Contract.wp_seq _ (aside_wp (P := P) reserveNonce_aside (fun _ _ now => now) now)
    fun nonce s now => ?_
  have signs : ∀ tx, (sign tx).All aside := fun tx => all_call.2 trivial
  refine Contract.wp_seq _ (aside_wp (P := P) (signs _) (fun _ _ now => now) now) fun signed s
    now => ?_
  have within : WithinLimits w.exec kolName visibility token
      (w.exec.request call.1 e.bnbAmount call.2.2 call.2.1 e.gasWei nonce) := {
    bought := buys.1
    value := cleared.value
    tiny := fun tiny full => by
      have le := cleared.value.trans (floor_tiny tiny full)
      exact_mod_cast le
    whitelisted := now.2.whitelisted
    visible := now.2.visible
    notBlacklisted := cleared.notBlacklisted }
  have ready : Ready entries rest w.exec
      (w.exec.request call.1 e.bnbAmount call.2.2 call.2.1 e.gasWei nonce)
        (view w.exec entries s) :=
    ⟨kolName, token, bnbAmount, kolBnbInput, kolBlock, kolTx, visibility, now.1, now.2, within⟩
  have idles : ∀ (outcome : EnterOutcome) {s : LiveRecorded w},
      Idle entries rest (view w.exec entries s) →
      (contract w entries).wp 0 (NonceManager.resync >>= fun _ => .ret outcome)
        (fun _ s => Idle entries rest (view w.exec entries s)) s := by
    intro outcome s now
    exact Contract.wp_seq _
      (aside_wp (P := Idle entries rest) resync_aside (fun _ _ idle => idle) now)
      fun _ _ idle => idle
  cases signed with
  | none => exact idles _ now.1.idle
  | some txHash =>
      dsimp only
      split
      · refine Contract.wp_call_seq _ Contract.owned_stable (submit_triple _ _)
          (fun (ok : Bool) s sent => ?_) ready
        cases ok with
        | false => exact idles _ sent
        | true =>
            refine Contract.wp_seq _ (mild_wp (P := Fired entries rest w.exec) (ask_mild _ (by rfl))
              (fun _ _ fired => fired) sent) fun _ s fired => ?_
            refine Contract.wp_seq _ (recordEntry_wp small _ _ _ _ _ _ _ fired) fun _ s idle => ?_
            exact Contract.wp_seq _ (aside_wp (P := Idle entries rest) (openPosition_aside _ _ _ _)
              (fun _ _ idle => idle) idle) fun _ _ idle => idle
      · refine Contract.wp_call_seq _ Contract.owned_stable (shadow_triple _)
          (fun _ s fired => ?_) ready
        exact Contract.wp_seq _ (recordEntry_wp small _ _ _ _ _ _ _ fired) fun _ s idle => idle

theorem execute_wp (nonneg : 0 ≤ w.exec.config.limits.perTradeMaxBnb)
    (small : w.exec.config.limits.maxTradesPerDay < 2 ^ 32) (kolName visibility : String)
    (token : Address) (bnbAmount kolBnbInput : U256) (kolBlock : Nat) (kolTx : B256)
    (openPositions : Nat) {s : LiveRecorded w}
    (now : Taken entries (.enter kolName token bnbAmount kolBnbInput kolBlock kolTx,
      visibility) rest 0
        (view w.exec entries s)) :
    (contract w entries).wp 0
      (w.exec.execute (.enter kolName token bnbAmount kolBnbInput kolBlock kolTx)
      visibility openPositions) (fun _ s => Idle entries rest (view w.exec entries s)) s := by
  let P (v : View) : Prop :=
    Taken entries (.enter kolName token bnbAmount kolBnbInput kolBlock kolTx, visibility) rest 0 v
  have guard : (dupGuard token).All aside := dupGuard_all trivial trivial
  refine Contract.wp_seq _ (aside_wp (P := P) guard (fun _ _ now => now) now) fun duplicate s
    now => ?_
  split
  · exact now.idle
  · refine Contract.wp_seq _ (mild_wp (P := P) (w.exec.sizeByUsd_mild _ _) (fun _ _ now => now) now)
      fun size s now => ?_
    cases size with
    | none => exact now.idle
    | some sized =>
        refine Contract.wp_seq _
          (entryGates_wp nonneg kolName visibility token sized openPositions now)
          fun gated s ⟨now, passed⟩ => ?_
        cases gated with
        | error reason => exact now.idle
        | ok e =>
            obtain ⟨passed, cleared⟩ := passed e rfl
            exact broadcastEntry_wp small _ _ _ bnbAmount kolBnbInput kolBlock kolTx e cleared
              ⟨now, passed⟩

theorem consume_wp (nonneg : 0 ≤ w.exec.config.limits.perTradeMaxBnb)
    (small : w.exec.config.limits.maxTradesPerDay < 2 ^ 32) (trailActive : Bool)
    (decisions : List (Decision × String)) {s : LiveRecorded w}
    (now : Idle entries decisions (view w.exec entries s)) :
    (contract w entries).wp 0 (w.consume trailActive decisions) (fun _ _ => True) s := by
  induction decisions generalizing s with
  | nil => trivial
  | cons decided rest ih =>
      obtain ⟨decision, visibility⟩ := decided
      cases decision with
      | skip reason => exact ih now
      | enter kolName token bnbAmount kolBnbInput kolBlock kolTx =>
          refine Contract.wp_call_seq _ Contract.owned_stable
            (openCount_triple (P := Idle entries
              ((.enter kolName token bnbAmount kolBnbInput kolBlock kolTx, visibility) :: rest))
              fun _ idle => idle) (fun openPositions s now => ?_) now
          exact Contract.wp_seq _ (execute_wp nonneg small _ _ _ _ _ _ _ _ now) fun _ _
            idle => ih idle
      | exit kolName token kolBlock kolTx kolAddr =>
          cases trailActive with
          | true => exact ih now
          | false =>
              have all := (executeExit_exits (x := w.exec) token kolName kolBlock kolAddr).mono
                fun _ => aside_of_exits
              exact Contract.wp_seq _
                (aside_wp (P := Idle entries rest) all (fun _ _ idle => idle) now)
                fun _ _ idle => ih idle

theorem bodies (nonneg : 0 ≤ w.exec.config.limits.perTradeMaxBnb)
    (small : w.exec.config.limits.maxTradesPerDay < 2 ^ 32) (t : Task) (i : Tid)
    (s : LiveRecorded w) (starts : Starts entries t i (view w.exec entries s)) :
    (contract w entries).wp i (w.body t) (fun _ _ => True) s := by
  have others : t.besides = true → (contract w entries).wp i (w.body t) (fun _ _ => True) s :=
    fun besides => Contract.wp_still (P := fun _ => True) Contract.owned_about .true
      ((body_may t).mono fun _ may => aside_still (aside_of_may besides may))
        (fun _ _ _ => trivial) trivial
  cases t with
  | consumer trail decisions =>
      obtain ⟨rfl, idle⟩ := starts
      exact Contract.wp_seq _ (consume_wp nonneg small trail decisions idle) fun _ _ _ => trivial
  | execute => exact starts.elim
  | _ => exact others rfl

end HardLimits

/-- In every run of the consumer beside any tasks that make no entries, under a clock that does not
go back: every BUY handed to the network is within the limits for the entry it was made for, and no
UTC day has more trades fired after its checks than it may have. -/
theorem hard_limits (nonneg : 0 ≤ w.exec.config.limits.perTradeMaxBnb)
    (small : w.exec.config.limits.maxTradesPerDay < 2 ^ 32) {trailActive : Bool}
    {decisions : List (Decision × String)} {others : List Task}
    (besides : ∀ t ∈ others, t.besides = true) {start : World} {day : Nat}
    (new : start.env.daily = { day := day })
    {c : Config LiveSig (LiveRecorded w) Task Done}
    (run : w.machine.recording.Run (fun _ o a s => clockMonotone o a s.2 = true)
      (w.machine.recording.start (start, []) (.consumer trailActive decisions :: others)) c) :
    limited w.exec (entriesOf decisions) c.shared.2 ∧
      ∀ day, (tally c.shared.2).fired day ≤ w.exec.config.limits.maxTradesPerDay := by
  let entries := entriesOf decisions
  have idle : HardLimits.Idle entries decisions 
      (HardLimits.view w.exec entries ((start, []) : LiveRecorded w)) := by
    refine ⟨⟨nofun, fun _ _ => rfl, fun _ => ?_⟩, rfl⟩
    change start.env.daily.tradesToday = 0
    rw [new]
  have sound := Contract.sound (K := HardLimits.contract w entries)
    (fun t i s _ starts => HardLimits.bodies nonneg small t i s starts)
    (show HardLimits.Inv w.exec (HardLimits.view w.exec entries ((start, []) : LiveRecorded w)) from
      ⟨trivial, fun _ => Nat.zero_le _⟩)
    (fun i t found => ?_) run
  · exact sound.inv
  · cases i with
    | zero =>
        cases found
        exact ⟨rfl, idle⟩
    | succ i =>
        have aside := besides t (List.mem_of_getElem? found)
        cases t with
        | consumer | execute => cases aside
        | _ => trivial

/-- A consumer that makes one entry. -/
def oneEntry : List Task := [.consumer true [(.enter "D" scenarioToken 1000 1000 7 1, "public")]]

theorem hard_limits_entered :
    ∃ c, (scenario false).machine.recording.Run (fun _ o a s => clockMonotone o a s.2 = true)
        ((scenario false).machine.recording.start (World.boot 7 none, []) oneEntry) c ∧
      c.shared.1.trade.wire.map (·.tx.value) = [1000] ∧ (tally c.shared.2).fired 0 = 1 ∧
      limited (scenario false).exec (entriesOf [(.enter "D" scenarioToken 1000 1000 7 1, "public")])
        c.shared.2 := by
  let r : Replies := {}
  obtain ⟨c, run, wire, fired⟩ : ∃ c, (scenario false).machine.recording.Run
        (fun _ o a s => clockMonotone o a s.2 = true)
        ((scenario false).machine.recording.start (World.boot 7 none, []) oneEntry) c ∧
      c.shared.1.trade.wire.map (·.tx.value) = [1000] ∧ (tally c.shared.2).fired 0 = 1 :=
    Machine.exists_run_of_follow [(0, 19, r.ans)] (by decide +kernel)
  have bounded := hard_limits (by norm_num [scenario, scenarioLimits])
    (by norm_num [scenario, scenarioLimits]) (by simp) rfl run
  exact ⟨c, run, wire, fired, bounded.1⟩

end BscMempool.Trader
