/-
Module: BscMempool.Proofs.FedTrader
Layer: Proofs
Purpose: The fed trader refines the live trader. Every run of it, seen without the feed, is a run of
  the live trader whose consumer is given the decisions of the strategy on the hits, in the order
  they were taken.
Trusted boundary: none
Main exports: LiveFeed.liveEvents, LiveFeed.decided, LiveFeed.runs_are_live_runs
-/
import BscMempool.Concurrent.Foretold
import BscMempool.Concurrent.Trace
import BscMempool.Proofs.Scenario
import BscMempool.Proofs.TaskOps
import BscMempool.Trader.LiveFeed

namespace BscMempool.Trader

open Concurrent (Config Foretells Machine Outcome Proc Protocol Tid)
open Concurrent.Proc
open Watch (KolHit)

/-! ### Kinds of operations -/

namespace FeedOp

/-- What is around the trader. -/
def isFeed : FeedOp → Prop
  | .live _ => False
  | _ => True

/-- What `BnbPrice::get` does. -/
def prices : FeedOp → Prop
  | .cachedPrice | .fetch | .storePrice _ | .lastPrice => True
  | _ => False

/-- What the watchers and the kill switch do. -/
def outer : FeedOp → Prop
  | .trySend _ | .dropSender => True
  | o => o.prices

theorem live_or_feed (o : FeedOp) : (∃ o', o = .live o') ∨ o.isFeed := by
  cases o with
  | live o => exact .inl ⟨o, rfl⟩
  | _ => exact .inr trivial

theorem prices.outer {o : FeedOp} (prices : o.prices) : o.outer := by
  unfold FeedOp.outer
  split <;> trivial

theorem outer.isFeed {o : FeedOp} (outer : o.outer) : o.isFeed := by
  cases o with
  | live o => exact outer
  | _ => trivial

end FeedOp

namespace LiveFeed

variable {x : LiveFeed}

/-- What the consumer, at position 0, has decided. -/
def deciding (h : List x.machine.Event) : Deciding :=
  (Protocol.mk (fun _ _ => True) Deciding.next : Protocol FeedSig Deciding).phase 0 {} h

/-- The hits decided on, in order, each with the price it was decided at. -/
def decided (h : List x.machine.Event) : List (KolHit × ℚ) := (deciding h).decided

/-- The operation of the trader in an operation of the fed trader. -/
def liveEvent : x.machine.Event → Option x.watcher.machine.Event
  | ⟨i, .live o, a, r⟩ => some ⟨i, o, a, r⟩
  | _ => none

/-- What the trader did. -/
def liveEvents (h : List x.machine.Event) : List x.watcher.machine.Event := h.filterMap liveEvent

/-- A condition on the steps of the trader, as one on the steps of the fed trader. -/
def fed (C : x.watcher.machine.recording.Cond) : x.machine.recording.Cond :=
  fun i o a s => match o, a with
    | .live o, a => C i o a (s.1.world, liveEvents s.2)
    | _, _ => True

/-- The task of the live trader that a task around the consumer is.  The watchers and the kill
switch are nothing to it. -/
def asLive : FeedTask → Task
  | .background task => task
  | _ => .consumer true []

/-- The consumer of the live trader that is told what is decided. -/
def toldConsumer (x : LiveFeed) (trailActive : Bool) (decided : List (KolHit × ℚ)) : Task :=
  .consumer trailActive (decided.map fun seen => x.decision seen.1 seen.2)

/-! ### How the processes correspond -/

/-- A lookup of the price decides the pending hit with its last operation, and no sooner. -/
def Asks : Feed (Option ℚ) → Prop
  | .ret _ => False
  | .op o next => o.prices ∧ ∀ result,
      (∀ q : Deciding, q.next o result = q) ∧ Asks (next result) ∨
        ∃ price, next result = .ret price ∧ ∀ q : Deciding, q.next o result = q.priced price

/-- The consumer's loop, as the code of its task. -/
def loop (x : LiveFeed) (trailActive : Bool) (rounds : Nat) : Feed Done :=
  x.consume trailActive rounds >>= fun _ => .ret .unit

/-- What is done about a hit at a price, and the rest of the loop. -/
def act (x : LiveFeed) (trailActive : Bool) (hit : KolHit) (rounds : Nat) (price : Option ℚ) :
    Feed Done :=
  lift (x.watcher.handle trailActive (x.decision hit (price.getD 0)).1
    (x.decision hit (price.getD 0)).2) >>= fun _ =>
    x.loop trailActive rounds

/-- What the consumer of the live trader has ahead of it. -/
def ahead (x : LiveFeed) (trailActive : Bool) (rest : List (KolHit × ℚ)) : Live Done :=
  x.watcher.consume trailActive (rest.map fun seen => x.decision seen.1 seen.2) >>= fun _ =>
    .ret .unit

theorem ahead_cons (trailActive : Bool) (hit : KolHit) (bnbUsd : ℚ) (rest : List (KolHit × ℚ)) :
    x.ahead trailActive ((hit, bnbUsd) :: rest) =
      x.watcher.handle trailActive (x.decision hit bnbUsd).1 (x.decision hit bnbUsd).2 >>= fun _ =>
        x.ahead trailActive rest := by
  unfold ahead
  rw [List.map_cons, TrailWatcher.consume_cons, bind_assoc]

/-- A round of the loop. -/
theorem loop_succ (trailActive : Bool) (rounds : Nat) :
    x.loop trailActive (rounds + 1) = .op (S := FeedSig) .recv fun got => match got with
      | none => .op (S := FeedSig) .dropReceiver fun _ => .ret .unit
      | some hit => bnbPrice >>= x.act trailActive hit rounds := by
  apply congrArg (Proc.op (S := FeedSig) .recv)
  funext got
  cases got with
  | none => rfl
  | some hit =>
      show (bnbPrice >>= fun price => _) >>= (fun _ => Proc.ret Done.unit) = _
      rw [bind_assoc]
      apply congrArg (bnbPrice >>= ·)
      funext price
      show (_ >>= fun _ => _) >>= (fun _ => Proc.ret Done.unit) = _
      rw [bind_assoc]
      rfl

theorem asks_bnbPrice : Asks bnbPrice := by
  refine ⟨trivial, fun cached => ?_⟩
  cases cached with
  | some price => exact .inr ⟨some price, rfl, fun _ => rfl⟩
  | none =>
      refine .inl ⟨fun _ => rfl, trivial, fun fetched => .inl ?_⟩
      cases fetched with
      | some price => exact ⟨fun _ => rfl, trivial, fun _ => .inr ⟨some price, rfl, fun _ => rfl⟩⟩
      | none => exact ⟨fun _ => rfl, trivial, fun price => .inr ⟨price, rfl, fun _ => rfl⟩⟩

/-- A process of the fed trader and the process of the live trader that it is, while `pending` waits
for its price and `rest` is still to be decided. -/
inductive Stands (x : LiveFeed) (trailActive : Bool) (total : Nat) (rest : List (KolHit × ℚ)) :
    Option KolHit → Tid → FeedTask × Feed Done → Task × Live Done → Prop where
  | background {pending : Option KolHit} {i : Tid} {task : Task} {p : Live Done} :
      Stands x trailActive total rest pending i (.background task, lift p) (task, p)
  | aside {pending : Option KolHit} {i : Tid} {t : FeedTask} {u : Task} {p : Feed Done}
    (apart : i ≠ 0)
      (other : ∀ task, t ≠ .background task) (feeds : p.All FeedOp.outer) :
      Stands x trailActive total rest pending i (t, p) (u, .ret .unit)
  | handling {u : Task} {p : Live Unit} {rounds : Nat} :
      Stands x trailActive total rest none 0
        (.consumer trailActive total, lift p >>= fun _ => x.loop trailActive rounds)
        (u, p >>= fun _ => x.ahead trailActive rest)
  | pricing {u : Task} {p : Feed (Option ℚ)} {hit : KolHit} {rounds : Nat} (asks : Asks p) :
      Stands x trailActive total rest (some hit) 0
        (.consumer trailActive total, p >>= x.act trailActive hit rounds)
          (u, x.ahead trailActive rest)
  | ending {pending : Option KolHit} {u : Task} :
      Stands x trailActive total rest pending 0
        (.consumer trailActive total, .op (S := FeedSig) .dropReceiver fun _ => .ret .unit)
          (u, x.ahead trailActive rest)
  | returned {pending : Option KolHit} {u : Task} :
      Stands x trailActive total rest pending 0 (.consumer trailActive total, .ret .unit)
        (u, x.ahead trailActive rest)

section Stands

variable {trailActive : Bool} {total : Nat} {rest : List (KolHit × ℚ)} {pending : Option KolHit}
  {i : Tid} {t : FeedTask} {u : Task} {q : Live Done}

/-- Only the consumer's process depends on what is decided. -/
theorem Stands.apart {rest' : List (KolHit × ℚ)} {pending' : Option KolHit}
    {a : FeedTask × Feed Done} {b : Task × Live Done} (apart : i ≠ 0)
    (stands : Stands x trailActive total rest pending i a b) :
    Stands x trailActive total rest' pending' i a b := by
  cases stands with
  | background => exact .background
  | aside _ other feeds => exact .aside apart other feeds
  | _ => exact absurd rfl apart

/-- A process that has returned is one that has returned, if nothing is to be decided any more. -/
theorem Stands.finished {value : Done}
    (stands : Stands x trailActive total rest pending i (t, .ret value) (u, q))
    (last : i = 0 → rest = []) : ∃ value', q = .ret value' := by
  generalize pair : (t, (Proc.ret value : Feed Done)) = entry at stands
  generalize pair' : (u, q) = entry' at stands
  cases stands with
  | @background _ _ task p =>
      cases p with
      | ret v =>
          cases pair
          cases pair'
          exact ⟨value, rfl⟩
      | op o next => cases pair
  | aside _ other _ =>
      cases pair
      cases pair'
      exact ⟨.unit, rfl⟩
  | @handling _ p rounds =>
      cases p with
      | ret v => cases rounds <;> cases pair
      | op o next => cases pair
  | @pricing _ p hit rounds asks =>
      cases p with
      | ret v => exact asks.elim
      | op o next => cases pair
  | ending => cases pair
  | returned =>
      cases pair
      cases pair'
      rw [last rfl]
      exact ⟨.unit, rfl⟩

/-- An operation of the trader is the next one of the process of the live trader. -/
theorem Stands.live {o : Op} {next : o.Res → Feed Done}
    (stands : Stands x trailActive total rest pending i (t, .op (S := FeedSig) (.live o) next)
      (u, q)) :
    ∃ next' : o.Res → Live Done, q = .op o next' ∧
      ∀ result, Stands x trailActive total rest pending i (t, next result) (u, next' result) := by
  generalize pair : (t, (Proc.op (S := FeedSig) (.live o) next : Feed Done)) = entry at stands
  generalize pair' : (u, q) = entry' at stands
  cases stands with
  | @background _ _ task p =>
      cases p with
      | ret v => cases pair
      | op o' next' =>
          cases pair
          cases pair'
          exact ⟨next', rfl, fun result => .background⟩
  | aside _ other feeds =>
      cases pair
      exact feeds.1.elim
  | @handling _ p rounds =>
      cases p with
      | ret v => cases rounds <;> cases pair
      | op o' next' =>
          cases pair
          cases pair'
          exact ⟨fun result => next' result >>= fun _ =>
            x.ahead trailActive rest, rfl, fun result => .handling⟩
  | @pricing _ p hit rounds asks =>
      cases p with
      | ret v => exact asks.elim
      | op o' next' =>
          cases pair
          exact asks.1.elim
  | ending => cases pair
  | returned => cases pair

/-- Any other operation leaves the process of the live trader where it was: it is
told what is decided. -/
theorem Stands.feed {o : FeedOp} {next : o.Res → Feed Done} {seen : Deciding} {result : o.Res}
    {new : List (KolHit × ℚ)}
    (feed : o.isFeed) (grown : i = 0 → (seen.next o result).decided = seen.decided ++ new)
    (still : i ≠ 0 → new = [])
    (stands : Stands x trailActive total (new ++ rest) seen.pending i (t, .op (S := FeedSig) o next)
      (u, q)) :
    Stands x trailActive total rest (if i = 0 then seen.next o result else seen).pending i
      (t, next result) (u, q) := by
  have kept : i = 0 → seen.next o result = seen → new = [] := by
    intro here same
    have grown := grown here
    rw [same] at grown
    exact List.self_eq_append_right.mp grown
  generalize pair : (t, (Proc.op (S := FeedSig) o next : Feed Done)) = entry at stands
  generalize pair' : (u, q) = entry' at stands
  generalize waits : seen.pending = pending at stands
  cases stands with
  | @background _ _ task p =>
      cases p with
      | ret v => cases pair
      | op o' next' =>
          cases pair
          exact feed.elim
  | aside apart other feeds =>
      cases pair
      cases pair'
      rw [if_neg apart]
      exact .aside apart other (feeds.2 result)
  | @handling _ p rounds =>
      cases p with
      | op o' next' =>
          cases pair
          exact feed.elim
      | ret v =>
          cases pair'
          rw [if_pos rfl]
          cases rounds with
          | zero =>
              cases pair
              rw [kept rfl rfl]
              exact .returned
          | succ rounds =>
              have code : (t, (Proc.op (S := FeedSig) o next : Feed Done)) =
                  (.consumer trailActive total, x.loop trailActive (rounds + 1)) := pair
              rw [loop_succ] at code
              cases code
              cases result with
              | none =>
                  rw [kept rfl rfl]
                  exact .ending
              | some hit =>
                  rw [List.self_eq_append_right.mp (grown rfl)]
                  exact .pricing asks_bnbPrice
  | @pricing _ p hit rounds asks =>
      cases p with
      | ret v => exact asks.elim
      | op o' next' =>
          cases pair
          cases pair'
          rw [if_pos rfl]
          rcases asks.2 result with ⟨same, asks⟩ | ⟨price, returns, priced⟩
          · rw [kept rfl (same seen), same seen, waits]
            exact .pricing asks
          · have after : seen.next o result =
                { decided := seen.decided ++ [(hit, price.getD 0)], pending := none } := by
              rw [priced, Deciding.priced, waits]
            have found : new = [(hit, price.getD 0)] := by
              have grown := grown rfl
              rw [after] at grown
              exact (List.append_cancel_left grown).symm
            have code : (next' result).bind (x.act trailActive hit rounds) =
                x.act trailActive hit rounds price := by
              rw [returns]
              rfl
            rw [after, found, List.singleton_append, ahead_cons]
            show Stands x trailActive total rest none 0
                (_, (next' result).bind (x.act trailActive hit rounds)) _
            rw [code]
            exact .handling
  | ending =>
      cases pair
      cases pair'
      rw [kept rfl rfl, if_pos rfl]
      exact .returned
  | returned => cases pair

/-- A background task of the fed trader is the task of the live one. -/
theorem Stands.task {task : Task} {p : Feed Done}
    (stands : Stands x trailActive total rest pending i (.background task, p) (u, q)) :
    u = task ∧ p = lift q := by
  generalize pair : ((FeedTask.background task), p) = entry at stands
  cases stands with
  | background =>
      cases pair
      exact ⟨rfl, rfl⟩
  | aside _ other _ =>
      cases pair
      exact absurd rfl (other task)
  | _ => cases pair

end Stands

/-! ### Steps -/

/-- What an operation adds to what is decided. -/
theorem next_grows (seen : Deciding) (o : FeedOp) (result : o.Res) :
    ∃ new, (seen.next o result).decided = seen.decided ++ new := by
  have priced : ∀ price, ∃ new, (seen.priced price).decided = seen.decided ++ new := by
    intro price
    unfold Deciding.priced
    split
    · exact ⟨_, rfl⟩
    · exact ⟨[], (List.append_nil _).symm⟩
  unfold Deciding.next
  split
  · exact ⟨[], (List.append_nil _).symm⟩
  · exact priced _
  · exact priced _
  · exact priced _
  · exact ⟨[], (List.append_nil _).symm⟩

theorem deciding_cons (i : Tid) (o : FeedOp) (a : o.Ans) (result : o.Res)
    (h : List x.machine.Event) :
    deciding (x := x) (⟨i, o, a, result⟩ :: h) = if i = 0 then (deciding h).next o result
      else deciding h := by
  split
  · rename_i own
    exact Protocol.phase_own own
  · rename_i other
    exact Protocol.phase_other other

section Exec

variable {i fresh : Tid} {s : FeedState}

/-- What is no operation of the trader leaves the trader alone. -/
theorem exec_feed {o : FeedOp} {a : o.Ans} {out : Outcome FeedState FeedTask o.Res}
    (feed : o.isFeed)
    (did : o.exec i fresh a s = some out) : out.shared.world = s.world ∧ out.spawned = [] := by
  cases o with
  | live o => exact feed.elim
  | trySend hit =>
      dsimp only [FeedOp.exec] at did
      split at did <;> cases did <;> exact ⟨rfl, rfl⟩
  | recv =>
      obtain ⟨got, -, same⟩ := Option.map_eq_some_iff.mp did
      cases same
      exact ⟨rfl, rfl⟩
  | _ =>
      cases did
      exact ⟨rfl, rfl⟩

end Exec

/-- The live trader `d` is the fed trader `c`, and `rest` is still to be decided. -/
structure Follows (x : LiveFeed) (trailActive : Bool) (total : Nat) (rest : List (KolHit × ℚ))
    (c : Config FeedSig (FeedState × List x.machine.Event) FeedTask Done)
    (d : Config LiveSig (World × List x.watcher.machine.Event) Task Done) : Prop where
  shared : d.shared = (c.shared.1.world, liveEvents c.shared.2)
  length : d.pool.length = c.pool.length
  stands : ∀ i t p, c.pool[i]? = some (t, p) → ∃ u q, d.pool[i]? = some (u, q) ∧
    Stands x trailActive total rest (deciding c.shared.2).pending i (t, p) (u, q)

/-- Once the consumer has returned nothing is to be decided any more. -/
def MayCome {x : LiveFeed} (c : Config FeedSig (FeedState × List x.machine.Event) FeedTask Done)
    (rest : List (KolHit × ℚ)) : Prop := c.finished 0 = true → rest = []

section Step

variable {trailActive : Bool} {total : Nat} {rest : List (KolHit × ℚ)}
  {c c' : Config FeedSig (FeedState × List x.machine.Event) FeedTask Done}
  {d : Config LiveSig (World × List x.watcher.machine.Event) Task Done}

/-- Who has returned has returned. -/
theorem Follows.finished (follows : Follows x trailActive total rest c d) (may : MayCome c rest)
    {j : Tid} (done : c.finished j = true) : d.finished j = true := by
  unfold Config.finished at done
  split at done
  · rename_i t value found
    obtain ⟨u, q, there, stands⟩ := follows.stands j t _ found
    have last : j = 0 → rest = [] := by
      rintro rfl
      apply may
      unfold Config.finished
      rw [found]
    obtain ⟨value', same⟩ := stands.finished last
    unfold Config.finished
    rw [there, same]
  · cases done

/-- A step around the trader is none of it. -/
theorem Follows.aside {i : Tid} {t : FeedTask} {o : FeedOp} {next : o.Res → Feed Done} {a : o.Ans}
    {out : Outcome FeedState FeedTask o.Res} {new : List (KolHit × ℚ)} (feed : o.isFeed)
    (running : c.pool[i]? = some (t, .op (S := FeedSig) o next))
    (did : o.exec i c.pool.length a c.shared.1 = some out)
    (shared : c'.shared = (out.shared, ⟨i, o, a, out.res⟩ :: c.shared.2))
    (pool : c'.pool = c.pool.set i (t, next out.res) ++ out.spawned.map fun u =>
      (u, x.machine.body u))
    (grown : decided c'.shared.2 = decided c.shared.2 ++ new)
    (follows : Follows x trailActive total (new ++ rest) c d) :
    Follows x trailActive total rest c' d := by
  obtain ⟨world, spawned⟩ := exec_feed feed did
  have bound : i < c.pool.length := (List.getElem?_eq_some_iff.mp running).1
  rw [spawned] at pool
  constructor
  · have nothing : liveEvent (x := x) ⟨i, o, a, out.res⟩ = none := by
      cases o with
      | live o => exact feed.elim
      | _ => rfl
    rw [follows.shared, shared, world]
    simp only [liveEvents, List.filterMap_cons, nothing]
  · rw [follows.length, pool]
    simp
  · rw [shared] at grown ⊢
    intro j v p found
    rw [pool] at found
    rcases Machine.pool_cases bound found with ⟨rfl, same⟩ | ⟨ne, before⟩ | ⟨-, started, -⟩
    · cases same
      obtain ⟨u, q, there, stands⟩ := follows.stands j _ _ running
      refine ⟨u, q, there, ?_⟩
      rw [deciding_cons]
      apply stands.feed feed
      · rintro rfl
        rwa [decided, deciding_cons, if_pos rfl] at grown
      · intro apart
        rw [decided, deciding_cons, if_neg apart] at grown
        exact List.self_eq_append_right.mp grown
    · obtain ⟨u, q, there, stands⟩ := follows.stands j v p before
      refine ⟨u, q, there, ?_⟩
      rw [deciding_cons]
      by_cases consumer : j = 0
      · have apart : i ≠ 0 := fun here => ne (consumer.trans here.symm)
        rw [decided, deciding_cons, if_neg apart] at grown
        rw [if_neg apart]
        rwa [List.self_eq_append_right.mp grown] at stands
      · exact stands.apart consumer
    · cases started

/-- A step of the trader is one of the live trader. -/
theorem Follows.live {C : x.watcher.machine.recording.Cond} {i : Tid} {t : FeedTask} {o : Op}
    {next : o.Res → Feed Done} {a : o.Ans} {out : Outcome FeedState FeedTask o.Res}
    (running : c.pool[i]? = some (t, .op (S := FeedSig) (.live o) next))
    (ready : o.waits.all c.finished = true)
    (meets : C i o a (c.shared.1.world, liveEvents c.shared.2))
    (did : FeedOp.exec i c.pool.length (.live o) a c.shared.1 = some out)
    (shared : c'.shared = (out.shared, ⟨i, .live o, a, out.res⟩ :: c.shared.2))
    (pool : c'.pool = c.pool.set i (t, next out.res) ++ out.spawned.map fun u =>
      (u, x.machine.body u))
    (may : MayCome c rest) (follows : Follows x trailActive total rest c d) :
    ∃ d', x.watcher.machine.recording.Step C i d d' ∧ Follows x trailActive total rest c' d' := by
  obtain ⟨inner, ran, rfl⟩ := Option.map_eq_some_iff.mp did
  obtain ⟨u, q, there, stands⟩ := follows.stands i t _ running
  obtain ⟨next', rfl, after⟩ := stands.live
  have waited : (x.watcher.machine.recording.waits o).all d.finished = true := by
    rw [List.all_eq_true] at ready ⊢
    exact fun j member => follows.finished may (ready j member)
  have meets' : C i o a d.shared := by
    rw [follows.shared]
    exact meets
  have does : x.watcher.machine.recording.exec i d.pool.length o a d.shared =
      some ⟨inner.res, (inner.shared, ⟨i, o, a, inner.res⟩ :: liveEvents c.shared.2),
        inner.spawned⟩ := by
    rw [follows.shared, follows.length]
    show (Op.exec i c.pool.length o a c.shared.1.world).map _ = _
    rw [ran]
    rfl
  refine ⟨_, .mk there waited meets' does, ?_⟩
  have bound : i < c.pool.length := (List.getElem?_eq_some_iff.mp running).1
  have bound' : i < d.pool.length := follows.length ▸ bound
  have same : deciding c'.shared.2 = deciding c.shared.2 := by
    rw [shared, deciding_cons]
    split <;> rfl
  constructor
  · rw [shared]
    rfl
  · rw [pool]
    simp [Machine.advance, follows.length]
  · intro j v p found
    rw [pool] at found
    rw [same]
    rcases Machine.pool_cases bound found with ⟨rfl, entry⟩ | ⟨ne, before⟩ | ⟨new, started, code⟩
    · cases entry
      exact ⟨u, _, Concurrent.pool_self bound', after inner.res⟩
    · obtain ⟨u', q', there', stands'⟩ := follows.stands j v p before
      refine ⟨u', q', ?_, stands'⟩
      rw [← there']
      exact Concurrent.pool_other ne (List.getElem?_eq_some_iff.mp there').1
    · rw [List.getElem?_map, Option.map_eq_some_iff] at started
      obtain ⟨task, started, rfl⟩ := started
      refine ⟨task, x.watcher.body task, ?_, code ▸ .background⟩
      show (d.pool.set i _ ++ inner.spawned.map fun u => (u, x.watcher.machine.body u))[j]? = _
      rw [Concurrent.pool_started (by rw [follows.length]; exact new), follows.length,
        List.getElem?_map, started]
      rfl

/-- What the fed trader finds out while it runs is told to the live trader. -/
theorem foretells (C : x.watcher.machine.recording.Cond) (trailActive : Bool) (total : Nat) :
    Concurrent.Foretells x.machine.recording x.watcher.machine.recording (fed C) C
      (fun c => decided c.shared.2) MayCome (Follows x trailActive total) where
  step := by
    intro i c c' step
    obtain ⟨t, o, next, a, out, running, ready, meets, did, shared, pool⟩ := step.inversion
    have seen : deciding c'.shared.2 = if i = 0 then (deciding c.shared.2).next o out.res
        else deciding c.shared.2 := by
      rw [shared]
      exact deciding_cons i o a out.res _
    obtain ⟨new, grown, apart⟩ : ∃ new, decided c'.shared.2 = decided c.shared.2 ++ new ∧
        (i ≠ 0 → new = []) := by
      rw [decided, seen]
      split
      · obtain ⟨new, grown⟩ := next_grows (deciding c.shared.2) o out.res
        exact ⟨new, grown, fun apart => absurd (by assumption) apart⟩
      · exact ⟨[], (List.append_nil _).symm, fun _ => rfl⟩
    refine ⟨new, grown, fun rest may => ?_⟩
    have before : MayCome c (new ++ rest) := by
      intro done
      by_cases here : i = 0
      · subst here
        unfold Config.finished at done
        rw [running] at done
        cases done
      · rw [apart here, List.nil_append]
        apply may
        unfold Config.finished at done ⊢
        rw [pool]
        split at done
        · rename_i u value found
          rw [Concurrent.pool_other (Ne.symm here) (List.getElem?_eq_some_iff.mp found).1, found]
        · cases done
    refine ⟨before, fun d follows => ?_⟩
    rcases o.live_or_feed with ⟨o, rfl⟩ | feed
    · have nothing : new = [] := by
        rw [decided, seen] at grown
        split at grown <;> exact List.self_eq_append_right.mp grown
      rw [nothing, List.nil_append] at before follows
      obtain ⟨d', goes, after⟩ := follows.live running ready meets did shared pool before
      exact ⟨d', .single ⟨i, goes⟩, after⟩
    · exact ⟨d, .refl, follows.aside feed running did shared pool grown⟩

end Step

/-! ### Runs -/

section Runs

variable {C : x.watcher.machine.recording.Cond} {s : FeedState} {trailActive : Bool} {rounds : Nat}
  {others : List FeedTask} {c : Config FeedSig (FeedState × List x.machine.Event) FeedTask Done}

theorem sendAll_outer (hits : List KolHit) :
    (sendAll hits >>= fun _ => Proc.ret Done.unit).All FeedOp.outer := by
  induction hits with
  | nil => exact ⟨trivial, fun _ => trivial⟩
  | cons hit rest ih => exact ⟨trivial, fun _ => ih⟩

theorem bnbPrice_prices : bnbPrice.All FeedOp.prices := by
  refine ⟨trivial, fun cached => ?_⟩
  cases cached with
  | some price => trivial
  | none =>
      refine ⟨trivial, fun fetched => ?_⟩
      cases fetched with
      | some price => exact ⟨trivial, fun _ => trivial⟩
      | none => exact ⟨trivial, fun _ => trivial⟩

theorem pollPrice_outer (ticks : Nat) : (pollPrice ticks).All FeedOp.outer := by
  induction ticks with
  | zero => trivial
  | succ ticks ih => exact (bnbPrice_prices.mono fun _ => FeedOp.prices.outer).bind fun _ => ih

/-- The fed trader starts as the live trader does, whatever is to be decided. -/
theorem follows_start (others_apart : ∀ t ∈ others, ∀ active n, t ≠ .consumer active n)
    (rest : List (KolHit × ℚ)) :
    Follows x trailActive rounds rest
      (x.machine.recording.start (s, []) (.consumer trailActive rounds :: others))
      (x.watcher.machine.recording.start (s.world, [])
        (x.toldConsumer trailActive rest :: others.map asLive)) where
  shared := rfl
  length := by simp [Machine.start]
  stands i t p found := by
    cases i with
    | zero =>
        cases found
        exact ⟨_, _, rfl, .handling (p := .ret ())⟩
    | succ i =>
        simp only [Machine.start, List.map_cons, List.getElem?_cons_succ, List.getElem?_map,
          Option.map_eq_some_iff] at found
        obtain ⟨t', there, same⟩ := found
        cases same
        refine ⟨asLive t, x.watcher.body (asLive t), ?_, ?_⟩
        · simp only [Machine.start, List.map_cons, List.getElem?_cons_succ,
            List.getElem?_map, there]
          rfl
        · have apart := others_apart t (List.mem_of_getElem? there)
          cases t with
          | consumer active n => exact absurd rfl (apart active n)
          | background task => exact .background
          | sender hits => exact .aside (Nat.succ_ne_zero i) (by simp) (sendAll_outer hits)
          | killSwitch ticks =>
              exact .aside (Nat.succ_ne_zero i) (by simp)
                ((pollPrice_outer ticks).bind fun _ => trivial)

/-- At every point of a run the fed trader is the live trader that was told
what it decided so far. -/
theorem follows_of_run (others_apart : ∀ t ∈ others, ∀ active n, t ≠ .consumer active n)
    (run : x.machine.recording.Run (fed C)
      (x.machine.recording.start (s, []) (.consumer trailActive rounds :: others)) c) :
    ∃ d, x.watcher.machine.recording.Run C
        (x.watcher.machine.recording.start (s.world, [])
          (x.toldConsumer trailActive (decided c.shared.2) :: others.map asLive)) d ∧
      Follows x trailActive rounds [] c d := by
  have told := (foretells C trailActive rounds).run
    (fun told => x.watcher.machine.recording.start (s.world, [])
      (x.toldConsumer trailActive told :: others.map asLive))
    run (fun rest _ => follows_start others_apart rest) [] (fun _ => rfl)
  rwa [List.append_nil] at told

/-- Every run of the fed trader, seen without the feed, is a run of the live trader: of the one
whose consumer was given what the strategy decides on the hits of the run, in the order they were
taken, each at the price of its moment.  What the background tasks do and return is the same. -/
theorem runs_are_live_runs (others_apart : ∀ t ∈ others, ∀ active n, t ≠ .consumer active n)
    (run : x.machine.recording.Run (fed C)
      (x.machine.recording.start (s, []) (.consumer trailActive rounds :: others)) c) :
    ∃ d, x.watcher.machine.recording.Run C
        (x.watcher.machine.recording.start (s.world, [])
          (x.toldConsumer trailActive (decided c.shared.2) :: others.map asLive)) d ∧
      d.shared = (c.shared.1.world, liveEvents c.shared.2) ∧ d.pool.length = c.pool.length ∧
      ∀ i task, c.taskAt i = some (.background task) →
        d.taskAt i = some task ∧ d.returned i = c.returned i := by
  obtain ⟨d, live, follows⟩ := follows_of_run others_apart run
  refine ⟨d, live, follows.shared, follows.length, fun i task runs => ?_⟩
  unfold Config.taskAt at runs ⊢
  obtain ⟨⟨t, p⟩, found, same⟩ := Option.map_eq_some_iff.mp runs
  cases same
  obtain ⟨u, q, there, stands⟩ := follows.stands i _ p found
  obtain ⟨rfl, rfl⟩ := stands.task
  unfold Config.returned
  rw [there, found]
  refine ⟨rfl, ?_⟩
  cases q with
  | ret value => rfl
  | op o next => rfl

end Runs

/-! ### A run -/

/-- The strategy of the KOL "D", in front of the trader of the scenarios. -/
def feedScenario : LiveFeed where
  watcher := scenario false
  strategy := {}

/-- The KOL buys the token for one BNB. -/
def feedHit : KolHit where
  kolName := "D"
  txHash := 1
  fromAddr := 2
  valueBnb := 1
  sourceSeen := "ipc"
  calldata := []
  token := some scenarioToken
  side := some .buy
  confirmedBlock := none
  visibility := .public_

/-- The answers while BNB is at 600 dollars. -/
def feedAns (r : Replies) : (o : FeedOp) → o.Ans
  | .cachedPrice => (0 : Nat)
  | .fetch => some "0xdf8475800".toList
  | .storePrice _ => (0 : Nat)
  | .live o => r.ans o
  | .trySend _ => ()
  | .dropSender => ()
  | .recv => ()
  | .dropReceiver => ()
  | .lastPrice => ()

/-- One watcher, one hit. -/
abbrev feedTasks : List FeedTask := [.consumer true 1, .sender [feedHit]]

theorem fed_any {c c' : Config FeedSig (FeedState × List feedScenario.machine.Event) FeedTask Done}
    (run : feedScenario.machine.recording.Run feedScenario.machine.recording.anyStep c c') :
    feedScenario.machine.recording.Run (fed feedScenario.watcher.machine.recording.anyStep) c
      c' := by
  apply run.mono
  intro i o a s _
  cases o <;> trivial

/-- The BUY that follows the hit, as a run of the trader that was told of it. -/
theorem runs_are_live_runs_buy : ∃ d, feedScenario.watcher.machine.recording.Run
      feedScenario.watcher.machine.recording.anyStep
      (feedScenario.watcher.machine.recording.start (World.boot 5 none, [])
        [feedScenario.toldConsumer true [(feedHit, 600)], .consumer true []]) d ∧
          d.shared.1.trade.wire.length = 1 := by
  obtain ⟨c, run, told, sent⟩ : ∃ c, feedScenario.machine.recording.Run
      feedScenario.machine.recording.anyStep
      (feedScenario.machine.recording.start (build (World.boot 5 none) 1, []) feedTasks) c ∧
      decided c.shared.2 = [(feedHit, 600)] ∧ c.shared.1.world.trade.wire.length = 1 :=
    Machine.exists_run_of_follow [(1, 1, feedAns {}), (0, 20, feedAns { pair := some 7 })]
      (by decide +kernel)
  obtain ⟨d, live, shared, -⟩ := runs_are_live_runs (by simp) (fed_any run)
  rw [told] at live
  refine ⟨d, live, ?_⟩
  rw [shared]
  exact sent

end LiveFeed

end BscMempool.Trader
