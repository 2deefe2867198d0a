/-
Module: BscMempool.Proofs.LossBaseline
Layer: Proofs
Purpose: When the kill-switch poller measures a real loss: which balances become baselines, what a
  failed read of the balance does to the recorded loss, and a run in which it erases that loss.
Trusted boundary: none
Main exports: lastBaseline, lastRead, measuredLoss, readsBalance, loss_measured, loss_erased
-/
import BscMempool.Concurrent.History
import BscMempool.Concurrent.RelyGuarantee
import BscMempool.Proofs.DailyLossHalt

namespace BscMempool.Trader

open Concurrent (Tid Machine Contract Outcome Config Proc)
open Concurrent.Proc

variable {cfg : LimitsConfig}

/-! ### What a poller has announced and read -/

/-- The history of a kill switch, the latest operation first. -/
abbrev SwitchHistory (cfg : LimitsConfig) := List (KillSwitch.machine cfg).Event

def baselineOf : (o : SwitchOp) → o.Ans → o.Res → Option (ℚ × Nat)
  | .logBaseline baselineBnb utcDay, _, _ => some (baselineBnb, utcDay)
  | _, _, _ => none

def readOf : (o : SwitchOp) → o.Ans → o.Res → Option (Nat × Option ℚ)
  | .walletBalance, read, _ => some read
  | _, _, _ => none

def priceOf : (o : SwitchOp) → o.Ans → o.Res → Option (Option ℚ)
  | .bnbUsd, _, price => some price
  | _, _, _ => none

/-- The baseline of the poller at `i` and its day. -/
def lastBaseline (i : Tid) (h : SwitchHistory cfg) : Option (ℚ × Nat) :=
  Machine.latest (M := KillSwitch.machine cfg) i baselineOf h

/-- When the poller at `i` last asked for the balance, and what came back. -/
def lastRead (i : Tid) (h : SwitchHistory cfg) : Option (Nat × Option ℚ) :=
  Machine.latest (M := KillSwitch.machine cfg) i readOf h

/-- The price the poller at `i` last got. -/
def lastPrice (i : Tid) (h : SwitchHistory cfg) : Option (Option ℚ) :=
  Machine.latest (M := KillSwitch.machine cfg) i priceOf h

/-- The last balance the poller at `i` asked for could not be read. -/
def readFailed (i : Tid) (h : SwitchHistory cfg) : Bool := (lastRead i h).any (·.2.isNone)

/-- The poller at `i` has read this balance on the UTC day. -/
def readOn (i : Tid) (h : SwitchHistory cfg) (day : Nat) (balance : ℚ) : Prop :=
  ∃ e ∈ h, e.tid = i ∧ ∃ nowMs, readOf e.op e.ans e.res = some (nowMs, some balance) ∧
    utcDay nowMs = day

/-- What an operation of the poller at `i` makes of the baseline and the loss: a baseline it rolls
over to is a balance it has read on the new day, a loss it sets is measured from the baseline, and
where its last read failed it neither changes the baseline nor lowers the loss. -/
structure MeasuredLoss (i : Tid) (s s' : SwitchRecorded cfg) : Prop where
  rollover : ∀ e balance day, s'.2 = e :: s.2 → e.op = .logBaseline balance day →
    lastBaseline i s.2 ≠ none → readOn i s.2 day balance
  measured : ∀ e lossUsd, s'.2 = e :: s.2 → e.op = .syncRealizedLoss lossUsd → ∀ baseline,
    lastBaseline i s.2 = some baseline → ∃ nowMs read price, lastRead i s.2 = some (nowMs, read) ∧
      lastPrice i s.2 = some (some price) ∧
      lossUsd = max (baseline.1 - read.getD baseline.1) 0 * price
  baseline : readFailed i s.2 = true →
    (lastBaseline i s'.2).map Prod.fst = (lastBaseline i s.2).map Prod.fst
  loss : readFailed i s.2 = true → s.1.daily.realizedLossUsd ≤ s'.1.daily.realizedLossUsd

/-- The steps that keep the loss real: a tick that finds a new day has read the balance on that day,
and one that sets a loss without having read the balance finds no loss recorded. -/
def readsBalance (i : Tid) : (o : SwitchOp) → o.Ans → SwitchRecorded cfg → Bool
  | .now, nowMs, s =>
      (lastBaseline i s.2).all fun baseline => decide (baseline.2 = utcDay nowMs) ||
        (lastRead i s.2).any fun read => read.2.isSome && decide (utcDay read.1 = utcDay nowMs)
  | .syncRealizedLoss _, _, s =>
      !readFailed i s.2 || decide (s.1.daily.realizedLossUsd < F64_EPSILON)
  | _, _, _ => true

instance (i : Tid) (o : SwitchOp) (a : (KillSwitch.machine cfg).recording.Ans o)
    (s : SwitchRecorded cfg) : Decidable (readsBalance i o a s = true) :=
  decEq (readsBalance i o a s) true

namespace LossBaseline

/-! ### What a task knows from its own operations -/

/-- What the process at a position last announced, read and got. -/
structure Known where
  baseline : Option (ℚ × Nat)
  read : Option (Nat × Option ℚ)
  price : Option (Option ℚ)

def known (i : Tid) (h : SwitchHistory cfg) : Known :=
  ⟨lastBaseline i h, lastRead i h, lastPrice i h⟩

/-- What it knows after an operation. -/
def Known.after (k : Known) : (o : SwitchOp) → o.Ans → o.Res → Known
  | .logBaseline baselineBnb utcDay, _, _ => { k with baseline := some (baselineBnb, utcDay) }
  | .walletBalance, read, _ => { k with read := some read }
  | .bnbUsd, _, price => { k with price := some price }
  | _, _, _ => k

theorem known_other {i : Tid} {h : SwitchHistory cfg} {e : (KillSwitch.machine cfg).Event}
    (ne : e.tid ≠ i) : known i (e :: h) = known i h := by
  have baseline : lastBaseline i (e :: h) = lastBaseline i h := Machine.latest_other ne
  have read : lastRead i (e :: h) = lastRead i h := Machine.latest_other ne
  have price : lastPrice i (e :: h) = lastPrice i h := Machine.latest_other ne
  simp only [known, baseline, read, price]

theorem known_self {i : Tid} {h : SwitchHistory cfg} {o : SwitchOp} {a : o.Ans} {r : o.Res} :
    @known cfg i (⟨i, o, a, r⟩ :: h) = (known i h).after o a r := by
  cases o <;> simp [known, lastBaseline, lastRead, lastPrice, Machine.latest, Known.after,
    baselineOf,
    readOf, priceOf]

/-- Each operation is noted, and a poller's measures the loss. -/
structure Guar (i : Tid) (s s' : SwitchRecorded cfg) : Prop where
  noted : ∃ e, s'.2 = e :: s.2 ∧ e.tid = i
  measured : MeasuredLoss i s s'

def contract (cfg : LimitsConfig) : Contract (KillSwitch.machine cfg).recording where
  cond i o a s := readsBalance i o a s = true
  inv _ := True
  guar := Guar
  pre _ i s := (known i s.2).baseline = none ∧ (known i s.2).read = none
  post _ _ _ _ := True

variable {i : Tid}

/-- What a process knows it knows whatever the others do. -/
theorem stable_known {P : Known → Prop} : (contract cfg).Stable i fun s => P (known i s.2) := by
  rintro j s s' ne - - ⟨⟨e, past, mine⟩, -⟩ holds
  rw [past, known_other (mine.trans_ne ne)]
  exact holds

/-! ### Operations -/

/-- The operations that announce no baseline and leave the recorded loss as it is. -/
def plain : SwitchOp → Prop
  | .maybeResetDay _ | .syncRealizedLoss _ | .logBaseline .. => False
  | _ => True

theorem plain_loss {o : SwitchOp} {a : o.Ans} {s : SwitchState}
    {out : Outcome SwitchState SwitchTask o.Res} (did : o.exec cfg a s = some out)
    (kind : plain o) :
    out.shared.daily.realizedLossUsd = s.daily.realizedLossUsd := by
  cases o with
  | maybeResetDay | syncRealizedLoss | logBaseline => exact kind.elim
  | now | walletBalance =>
      obtain ⟨d, passes, rfl⟩ := Option.map_eq_some_iff.1 did
      obtain ⟨later, rfl⟩ := DailyLossHalt.at_eq_some passes
      rfl
  | _ =>
      cases did
      rfl

/-- Only an announcement changes the baseline. -/
theorem lastBaseline_silent {h : SwitchHistory cfg} {o : SwitchOp} {a : o.Ans} {r : o.Res}
    (silent : ∀ balance day, o ≠ .logBaseline balance day) :
    @lastBaseline cfg i (⟨i, o, a, r⟩ :: h) = lastBaseline i h := by
  apply Machine.latest_none
  cases o with
  | logBaseline balance day => exact absurd rfl (silent balance day)
  | _ => rfl

/-- The rule for an operation that measures the loss. -/
theorem triple {o : SwitchOp} {P : Known → Prop} {Q : o.Res → Known → Prop}
    (measured : ∀ a (s : SwitchRecorded cfg) out, P (known i s.2) → readsBalance i o a s = true →
      o.exec cfg a s.1 = some out → MeasuredLoss i s (out.shared, ⟨i, o, a, out.res⟩ :: s.2))
    (gives : ∀ a (s : SwitchRecorded cfg) out, P (known i s.2) → readsBalance i o a s = true →
      o.exec cfg a s.1 = some out → Q out.res ((known i s.2).after o a out.res)) :
    (contract cfg).Triple i (fun s => P (known i s.2)) o fun res s => Q res (known i s.2) := by
  intro s _ holds fresh _ a meets out did
  obtain ⟨ran, past⟩ := Machine.exec_of_recording did
  have shared : out.shared = (out.shared.1, ⟨i, o, a, out.res⟩ :: s.2) := Prod.ext rfl past
  constructor
  · refine .quiet trivial ⟨⟨_, past, rfl⟩, ?_⟩ (DailyLossHalt.exec_spawned ran)
    rw [shared]
    exact measured a s ⟨out.res, out.shared.1, out.spawned⟩ holds meets ran
  · have after := (congrArg (known i) past).trans known_self
    have given_ := gives a s _ holds meets ran
    rw [← after] at given_
    exact given_

theorem plain_triple {o : SwitchOp} (kind : plain o) {P : Known → Prop} {Q : o.Res → Known → Prop}
    (gives : ∀ a (s : SwitchRecorded cfg) out, P (known i s.2) → readsBalance i o a s = true →
      o.exec cfg a s.1 = some out → Q out.res ((known i s.2).after o a out.res)) :
    (contract cfg).Triple i (fun s => P (known i s.2)) o fun res s => Q res (known i s.2) := by
  refine triple (fun a s out _ _ did => ?_) gives
  have baseline : lastBaseline i (⟨i, o, a, out.res⟩ :: s.2) = lastBaseline i s.2 := by
    apply lastBaseline_silent
    rintro b d rfl
    exact kind
  constructor
  · rintro e balance day noted rfl_
    cases noted
    cases rfl_
    exact kind.elim
  · rintro e lossUsd noted rfl_
    cases noted
    cases rfl_
    exact kind.elim
  · exact fun _ => congrArg _ baseline
  · exact fun _ => (plain_loss did kind).ge

/-- A baseline is announced that was read, and on its day unless it is the first. -/
theorem logBaseline_triple {P : Known → Prop} (balance : ℚ) (day : Nat)
    (known_ : ∀ k, P k → ∃ nowMs, k.read = some (nowMs, some balance) ∧
      (k.baseline = none ∨ utcDay nowMs = day)) :
    (contract cfg).Triple i (fun s => P (known i s.2)) (.logBaseline balance day)
      fun _ s => ∃ k, P k ∧ known i s.2 = { k with baseline := some (balance, day) } := by
  refine triple (Q := fun _ k' => ∃ k, P k ∧ k' = { k with baseline := some (balance, day) }) ?_
    (fun _ _ _ holds _ _ => ⟨_, holds, rfl⟩)
  intro a s out holds _ did
  obtain ⟨nowMs, read, first⟩ := known_ _ holds
  have read : lastRead i s.2 = some (nowMs, some balance) := read
  have succeeded : readFailed i s.2 = false := by simp [readFailed, read]
  cases did
  constructor
  · rintro e b d noted rfl_ later
    cases noted
    cases rfl_
    obtain ⟨e, member, mine, picked⟩ := Machine.exists_of_latest read
    exact ⟨e, member, mine, nowMs, picked, first.resolve_left later⟩
  · rintro e lossUsd noted rfl_
    cases noted
    cases rfl_
  · intro failed
    rw [succeeded] at failed
    cases failed
  · exact fun _ => le_rfl

theorem le_syncRealizedLoss_zero {s : DailyState} (small : s.realizedLossUsd < F64_EPSILON) :
    s.realizedLossUsd ≤ (cfg.syncRealizedLoss s 0).realizedLossUsd := by
  unfold LimitsConfig.syncRealizedLoss
  dsimp only
  split
  · exact le_rfl
  · rename_i apart
    rw [max_self, zero_sub, abs_neg, abs_lt, not_and] at apart
    have below := mt apart (not_not.2 small)
    have pos : 0 < F64_EPSILON := by norm_num [F64_EPSILON]
    change s.realizedLossUsd ≤ max 0 0
    linarith [le_max_left (0 : ℚ) 0]

/-- The loss that a tick sets. -/
def Measures (k : Known) (lossUsd : ℚ) : Prop :=
  ∃ baseline nowMs read price, k.baseline = some baseline ∧ k.read = some (nowMs, read) ∧
    k.price = some (some price) ∧ lossUsd = max (baseline.1 - read.getD baseline.1) 0 * price

theorem syncRealizedLoss_triple {P : Known → Prop} (lossUsd : ℚ)
    (known_ : ∀ k, P k → (k.baseline = none ∧ k.read = none) ∨ Measures k lossUsd) :
    (contract cfg).Triple i (fun s => P (known i s.2)) (.syncRealizedLoss lossUsd)
      fun _ s => P (known i s.2) := by
  refine triple (Q := fun _ k => P k) ?_ (fun _ _ _ holds _ _ => holds)
  intro nowMs s out holds meets did
  obtain ⟨s', passes, rfl⟩ := Option.map_eq_some_iff.1 did
  obtain ⟨later, rfl⟩ := DailyLossHalt.at_eq_some passes
  constructor
  · rintro e b d noted rfl_
    cases noted
    cases rfl_
  · rintro e loss noted rfl_ baseline based
    cases noted
    cases rfl_
    have based : (known i s.2).baseline = some baseline := based
    rcases known_ _ holds with ⟨unbased, -⟩ | ⟨b, t, read, price, isBased, isRead, priced, loss⟩
    · rw [unbased] at based
      cases based
    · rw [isBased] at based
      cases based
      exact ⟨t, read, price, isRead, priced, loss⟩
  · exact fun _ => congrArg _ (lastBaseline_silent (fun _ _ => nofun))
  · intro failed
    rcases known_ _ holds with ⟨-, unread⟩ | ⟨b, t, read, price, -, isRead, -, loss⟩
    · have unread : lastRead i s.2 = none := unread
      simp [readFailed, unread] at failed
    · have isRead : lastRead i s.2 = some (t, read) := isRead
      obtain rfl : read = none := by simpa [readFailed, isRead] using failed
      obtain rfl : lossUsd = 0 := by simpa using loss
      have small := (Bool.or_eq_true_iff.1 meets).resolve_left (by simp [failed])
      exact le_syncRealizedLoss_zero (of_decide_eq_true small)

theorem maybeResetDay_triple {P : Known → Prop} (nowMs : Nat) (known_ : ∀ k, P k → k.read = none) :
    (contract cfg).Triple i (fun s => P (known i s.2)) (.maybeResetDay nowMs)
      fun _ s => P (known i s.2) := by
  refine triple (Q := fun _ k => P k) ?_ (fun _ _ _ holds _ _ => holds)
  intro a s out holds _ did
  have unread : lastRead i s.2 = none := known_ _ holds
  have succeeded : readFailed i s.2 = false := by simp [readFailed, unread]
  cases did
  constructor
  · rintro e b d noted rfl_
    cases noted
    cases rfl_
  · rintro e lossUsd noted rfl_
    cases noted
    cases rfl_
  · exact fun _ => congrArg _ (lastBaseline_silent (fun _ _ => nofun))
  · intro failed
    rw [succeeded] at failed
    cases failed

/-! ### The poller -/

/-- The clock is read, and the condition says what a new day finds. -/
theorem now_triple {P : Known → Prop} :
    (contract cfg).Triple i (fun s => P (known i s.2)) .now fun nowMs s =>
      P (known i s.2) ∧ ∀ baseline, (known i s.2).baseline = some baseline →
        baseline.2 ≠ utcDay nowMs →
        ∃ t balance, (known i s.2).read = some (t, some balance) ∧ utcDay t = utcDay nowMs := by
  refine plain_triple (o := .now) trivial (Q := fun nowMs k => P k ∧ ∀ baseline,
    k.baseline = some baseline → baseline.2 ≠ utcDay nowMs →
      ∃ t balance, k.read = some (t, some balance) ∧ utcDay t = utcDay nowMs) ?_
  intro nowMs s out holds meets did
  obtain ⟨s', passes, rfl⟩ := Option.map_eq_some_iff.1 did
  refine ⟨holds, fun baseline based newDay => ?_⟩
  have based : lastBaseline i s.2 = some baseline := based
  rw [readsBalance, based] at meets
  have read := (Bool.or_eq_true_iff.1 meets).resolve_left (by simpa using newDay)
  obtain ⟨⟨t, reply⟩, found, ok⟩ := (Option.any_eq_true _ _).1 read
  obtain ⟨isSome, sameDay⟩ := Bool.and_eq_true_iff.1 ok
  obtain ⟨balance, rfl⟩ := Option.isSome_iff_exists.1 isSome
  exact ⟨t, balance, found, of_decide_eq_true sameDay⟩

theorem utcDayNow_wp {P : Known → Prop} {s : SwitchRecorded cfg} (now : P (known i s.2)) :
    (contract cfg).wp i KillSwitch.utcDayNow (fun today s => P (known i s.2) ∧ ∀ baseline,
      (known i s.2).baseline = some baseline → baseline.2 ≠ today →
        ∃ t balance, (known i s.2).read = some (t, some balance) ∧ utcDay t = today) s := by
  refine Contract.wp_call_seq _ stable_known now_triple (fun nowMs s after => ?_) now
  have day : nowMs / 1000 / 86400 = utcDay nowMs := Nat.div_div_eq_div_mul ..
  rw [day]
  exact after

theorem walletBalance_triple {P : Option (ℚ × Nat) → Prop} :
    (contract cfg).Triple i (fun s => P (known i s.2).baseline) .walletBalance fun reply s =>
      P (known i s.2).baseline ∧ ∃ t, (known i s.2).read = some (t, reply) := by
  refine plain_triple (o := .walletBalance) trivial (P := fun k => P k.baseline)
    (Q := fun reply k => P k.baseline ∧ ∃ t, k.read = some (t, reply)) ?_
  rintro ⟨t, reply⟩ s out holds - did
  obtain ⟨s', passes, rfl⟩ := Option.map_eq_some_iff.1 did
  exact ⟨holds, t, rfl⟩

/-- The baseline is set, and the balance was asked for. -/
def Asked (baseline : ℚ × Nat) (read : Option ℚ) (k : Known) : Prop :=
  k.baseline = some baseline ∧ ∃ t, k.read = some (t, read)

theorem pollTicks_wp (ticks : Nat) (baseline : ℚ) (baselineDay : Nat) {s : SwitchRecorded cfg}
    (based : (known i s.2).baseline = some (baseline, baselineDay)) :
    (contract cfg).wp i (KillSwitch.pollTicks baseline baselineDay ticks) (fun _ _ => True) s := by
  induction ticks generalizing baseline baselineDay s with
  | zero => trivial
  | succ ticks ih =>
      have basedStable : (contract cfg).Stable i fun s =>
          (known i s.2).baseline = some (baseline, baselineDay) :=
        stable_known (P := fun k => k.baseline = some (baseline, baselineDay))
      refine Contract.wp_call_seq _ basedStable
        (walletBalance_triple (P := fun b => b = some (baseline, baselineDay)))
          (fun read s asked => ?_)
        based
      have priced :
          (contract cfg).Triple i (fun s => Asked (baseline, baselineDay) read (known i s.2))
          .bnbUsd fun price s => Asked (baseline, baselineDay) read (known i s.2) ∧
            (known i s.2).price = some price := by
        refine plain_triple (o := .bnbUsd) trivial (Q := fun price k =>
          Asked (baseline, baselineDay) read k ∧ k.price = some price) ?_
        intro reply s out asked _ did
        cases did
        exact ⟨asked, rfl⟩
      refine Contract.wp_call_seq _ (stable_known (P := Asked (baseline, baselineDay) read)) priced
        (fun price s asked => ?_) asked
      dsimp only
      split
      · exact ih _ _ asked.1.1
      · rename_i positive
        obtain ⟨usd, rfl⟩ : ∃ usd, price = some usd := by
          cases price with
          | none => exact absurd le_rfl positive
          | some usd => exact ⟨usd, rfl⟩
        let P (k : Known) : Prop := Asked (baseline, baselineDay) read k ∧ k.price = some (some usd)
        refine Contract.wp_seq _ (utcDayNow_wp (P := P) asked) fun today s ⟨asked, fresh⟩ => ?_
        split
        · rename_i newDay
          -- the balance was read, on the new day
          obtain ⟨t, balance, isRead, sameDay⟩ := fresh _ asked.1.1 (Ne.symm newDay)
          obtain rfl : read = some balance := by
            obtain ⟨t', isRead'⟩ := asked.1.2
            rw [isRead] at isRead'
            cases isRead'
            rfl
          let R (k : Known) : Prop := k.read = some (t, some balance) ∧ k.price = some (some usd)
          refine Contract.wp_call_seq _ (stable_known (P := R))
            (logBaseline_triple balance today fun k at_ => ⟨t, at_.1, .inr sameDay⟩)
            (fun _ s announced => ?_) ⟨isRead, asked.2⟩
          let T (k : Known) : Prop := ∃ k', R k' ∧ k = { k' with baseline := some (balance, today) }
          refine Contract.wp_call_seq _ (stable_known (P := T)) (syncRealizedLoss_triple 0 ?_)
            (fun _ s rolled => ?_) announced
          · rintro k ⟨k', ⟨read, price⟩, rfl⟩
            exact .inr ⟨(balance, today), t, some balance, usd, rfl, read, price, by simp⟩
          · obtain ⟨k', -, rolled⟩ := rolled
            exact ih balance today (congrArg Known.baseline rolled)
        · refine Contract.wp_call_seq _ (stable_known (P := P)) (syncRealizedLoss_triple _ ?_)
            (fun _ s asked => ih _ _ asked.1.1) asked
          rintro k ⟨⟨based, t, isRead⟩, priced⟩
          exact .inr ⟨_, t, read, usd, based, isRead, priced, rfl⟩

/-- Nothing announced, nothing read. -/
def Blank (k : Known) : Prop := k.baseline = none ∧ k.read = none

theorem poll_wp (ticks : Nat) {s : SwitchRecorded cfg} (blank : Blank (known i s.2)) :
    (contract cfg).wp i (KillSwitch.poll ticks) (fun _ _ => True) s := by
  refine Contract.wp_call_seq _ (stable_known (P := fun k => k.baseline = none))
    (walletBalance_triple (P := fun b => b = none)) (fun reply s asked => ?_) blank.1
  split
  · trivial
  · rename_i initial
    let P (k : Known) : Prop := k.baseline = none ∧ ∃ t, k.read = some (t, some initial)
    refine Contract.wp_seq _ (utcDayNow_wp (P := P) asked) fun baselineDay s ⟨asked, _⟩ => ?_
    refine Contract.wp_call_seq _ (stable_known (P := P))
      (logBaseline_triple initial baselineDay fun k at_ => ⟨_, at_.2.choose_spec, .inl at_.1⟩)
      (fun _ s announced => ?_) asked
    obtain ⟨k', -, based⟩ := announced
    exact pollTicks_wp ticks initial baselineDay (congrArg Known.baseline based)

/-! ### The other tasks -/

/-- The operations of the tasks that neither announce a baseline nor read the balance. -/
def apart : SwitchOp → Prop
  | .walletBalance | .logBaseline .. => False
  | _ => True

theorem apart_triple {o : SwitchOp} (kind : apart o) :
    (contract cfg).Triple i (fun s => Blank (known i s.2)) o fun _ s => Blank (known i s.2) := by
  have kept : ∀ (k : Known) a r, Blank k → Blank (k.after o a r) := by
    intro k a r blank
    cases o with
    | walletBalance | logBaseline => exact kind.elim
    | _ => exact blank
  cases o with
  | walletBalance | logBaseline => exact kind.elim
  | maybeResetDay nowMs => exact maybeResetDay_triple nowMs fun _ blank => blank.2
  | syncRealizedLoss lossUsd => exact syncRealizedLoss_triple lossUsd fun _ blank => .inl blank
  | now => exact plain_triple (o := .now) trivial fun a s out blank _ _ => kept _ a _ blank
  | bnbUsd => exact plain_triple (o := .bnbUsd) trivial fun a s out blank _ _ => kept _ a _ blank
  | gates nowMs trade =>
      exact plain_triple (o := .gates nowMs trade) trivial fun a s out blank _ _ => kept _ a _ blank
  | recordTradeFired =>
      exact plain_triple (o := .recordTradeFired) trivial fun a s out blank _ _ => kept _ a _ blank

theorem consume_apart (calls : List LimitsCall) : (KillSwitch.consume calls).All apart := by
  induction calls with
  | nil => trivial
  | cons call rest ih =>
      cases call with
      | check trade =>
          refine Proc.All.bind ?_ fun _ => ih
          exact (all_call.2 trivial).bind fun _ => (all_call.2 trivial).bind fun _ =>
            all_call.2 trivial
      | recordTradeFired => exact (all_call.2 trivial).bind fun _ => ih

theorem syncAll_apart (losses : List ℚ) : (KillSwitch.syncAll losses).All apart := by
  induction losses with
  | nil => trivial
  | cons lossUsd rest ih => exact (all_call.2 trivial).bind fun _ => ih

theorem bodies (t : SwitchTask) (i : Tid) (s : SwitchRecorded cfg) (blank : Blank (known i s.2)) :
    (contract cfg).wp i ((KillSwitch.machine cfg).body t) (fun _ _ => True) s := by
  have apart_wp : ∀ {p : Switch Unit}, p.All apart → (contract cfg).wp i p (fun _ _ => True) s :=
    fun all => Contract.wp_of_all (stable_known (P := Blank)) (fun _ kind => apart_triple kind) all
      (fun _ _ _ => trivial) blank
  cases t with
  | consumer calls => exact apart_wp (consume_apart calls)
  | syncs losses => exact apart_wp (syncAll_apart losses)
  | poller ticks => exact poll_wp ticks blank

end LossBaseline

/-- In every run in which a poller that finds a new day has read the balance on that day, and one
that sets a loss without having read the balance finds no loss recorded, every step of every poller
measures a real loss. -/
theorem loss_measured {nowMs : Nat} {tasks : List SwitchTask}
    {c c' : Config SwitchSig (SwitchRecorded cfg) SwitchTask Unit}
    (run : (KillSwitch.machine cfg).recording.Run (fun i o a s => readsBalance i o a s = true)
      ((KillSwitch.machine cfg).recording.start (SwitchState.new nowMs, []) tasks) c)
    {i : Tid} (step : (KillSwitch.machine cfg).recording.Step
      (fun i o a s => readsBalance i o a s = true) i c c') :
    MeasuredLoss i c.shared c'.shared := by
  have bodies : ∀ t i s, (LossBaseline.contract cfg).inv s → (LossBaseline.contract cfg).pre t i s →
      (LossBaseline.contract cfg).wp i ((KillSwitch.machine cfg).recording.body t)
        ((LossBaseline.contract cfg).post t i) s :=
    fun t i s _ blank => LossBaseline.bodies t i s blank
  have sound := Contract.sound bodies trivial (fun _ _ _ => ⟨rfl, rfl⟩) run
  exact (sound.step bodies step).1.measured

/-- A poller of two ticks that starts on day 0. -/
abbrev switchStart : Config SwitchSig (SwitchRecorded switchLimits) SwitchTask Unit :=
  (KillSwitch.machine switchLimits).recording.start (SwitchState.new 0, []) [.poller 2]

/-- What the poller gets to read: the balance at a time, with the price at 50 USD. -/
def tickAns (nowMs : Nat) (balance : Option ℚ) : (o : SwitchOp) → o.Ans :=
  SwitchReplies.ans { nowMs := nowMs, balance := balance, bnbUsd := some 50 }

theorem loss_measured_rolled :
    ∃ c c' : Config SwitchSig (SwitchRecorded switchLimits) SwitchTask Unit,
      (KillSwitch.machine switchLimits).recording.Run
        (fun i o a s => readsBalance i o a s = true) switchStart c ∧
      lastBaseline 0 c'.shared.2 = some (3, 1) ∧ c'.shared.1.daily.realizedLossUsd = 50 ∧
      MeasuredLoss 0 c.shared c'.shared := by
  obtain ⟨c, c', run, step, based, loss⟩ : ∃ c c', (KillSwitch.machine switchLimits).recording.Run
        (fun i o a s => readsBalance i o a s = true) switchStart c ∧
      (KillSwitch.machine switchLimits).recording.Step (fun i o a s => readsBalance i o a s = true)
        0 c c' ∧
      lastBaseline 0 c'.shared.2 = some (3, 1) ∧ c'.shared.1.daily.realizedLossUsd = 50 :=
    Machine.exists_step_of_follow
      [(0, 3, tickAns 2000 (some 2)), (0, 5, tickAns 86400000 (some 3)),
        (0, 3, tickAns 86430000 (some 2))]
      0 (tickAns 86430000 none) (by decide +kernel)
  exact ⟨c, c', run, based, loss, loss_measured run step⟩

/-- A loss of 50 USD is recorded on day 0.  The first tick of day 1 fails to read the balance: it
takes the old baseline for the balance of the new day and sets the loss to nothing. -/
theorem loss_erased :
    ∃ c c', (KillSwitch.machine switchLimits).recording.Run
        (KillSwitch.machine switchLimits).recording.anyStep switchStart c ∧
      (KillSwitch.machine switchLimits).recording.Step
        (KillSwitch.machine switchLimits).recording.anyStep 0 c c' ∧
      readFailed 0 c.shared.2 = true ∧ lastBaseline 0 c.shared.2 = some (2, 1) ∧
      c.shared.1.daily.realizedLossUsd = 50 ∧ c'.shared.1.daily.realizedLossUsd = 0 ∧
      ¬ MeasuredLoss 0 c.shared c'.shared := by
  obtain ⟨c, c', run, step, failed, based, before, after⟩ :
      ∃ c c', (KillSwitch.machine switchLimits).recording.Run
        (KillSwitch.machine switchLimits).recording.anyStep switchStart c ∧
      (KillSwitch.machine switchLimits).recording.Step
        (KillSwitch.machine switchLimits).recording.anyStep 0 c c' ∧
      readFailed 0 c.shared.2 = true ∧ lastBaseline 0 c.shared.2 = some (2, 1) ∧
      c.shared.1.daily.realizedLossUsd = 50 ∧ c'.shared.1.daily.realizedLossUsd = 0 :=
    Machine.exists_step_of_follow
      [(0, 3, tickAns 2000 (some 2)), (0, 4, tickAns 32000 (some 1)), (0, 4, tickAns 86400000 none)]
      0 (tickAns 86400000 none) (by decide +kernel)
  refine ⟨c, c', run, step, failed, based, before, after, fun real => ?_⟩
  have kept := real.loss failed
  rw [before, after] at kept
  exact absurd kept (by norm_num)

end BscMempool.Trader
