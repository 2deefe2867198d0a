/-
Module: BscMempool.Trader.LiveFeed
Layer: Trader
Purpose: The live trader with what feeds it: the queue of hits, the price of BNB and the strategy,
  which decides on each hit while the tasks of the trader run.
Trusted boundary: human-reviewed translation of start_live_only (trader/mod.rs) and of BnbPrice::get
  (bnb_price.rs). A consumer that is told to shut down ends after a round. The kill switch is here
  for the price it asks for; what it does with it is modelled apart.
Main exports: FeedOp, FeedState, LiveFeed, LiveFeed.machine, LiveFeed.build
-/
import BscMempool.Concurrent.Fifo
import BscMempool.Trader.BnbPrice
import BscMempool.Trader.LiveSystem
import BscMempool.Trader.Strategy

namespace BscMempool.Trader

open Concurrent (Fifo Machine Outcome Proc Sig Tid)
open Watch (KolHit Visibility)

/-! ### The accesses of the tasks -/

/-- Accesses to the queue of hits and to the price cache, and the steps of the trader.  `fetch` asks
the price feed. -/
inductive FeedOp where
  | trySend (hit : KolHit)
  | dropSender
  | recv
  | dropReceiver
  | cachedPrice
  | fetch
  | storePrice (price : ℚ)
  | lastPrice
  | live (o : Op)

abbrev FeedOp.Res : FeedOp → Type
  | .trySend _ => Bool
  | .recv => Option KolHit
  | .cachedPrice => Option ℚ
  | .fetch => Option ℚ
  | .lastPrice => Option ℚ
  | .live o => o.Res
  | _ => Unit

/-- The time at which the cache is looked up or filled, and the answer of the feed, as text: `none`
where the request failed. -/
abbrev FeedOp.Ans : FeedOp → Type
  | .cachedPrice => Nat
  | .fetch => Option (List Char)
  | .storePrice _ => Nat
  | .live o => o.Ans
  | _ => Unit

abbrev FeedSig : Sig := ⟨FeedOp, FeedOp.Res⟩

/-- A task of the fed trader, or a part of one. -/
abbrev Feed (α : Type) := Proc FeedSig α

structure FeedState where
  world : World
  hits : Fifo KolHit
  price : PriceCache := none

/-- The tasks: the watchers that send hits, the consumer, the kill switch, and the
tasks of the trader. -/
inductive FeedTask where
  | sender (hits : List KolHit)
  | consumer (trailActive : Bool) (rounds : Nat)
  | killSwitch (ticks : Nat)
  | background (task : Task)
deriving DecidableEq, Repr

/-- A receive waits for a hit while a sender is left. -/
def FeedOp.exec (self fresh : Tid) : (o : FeedOp) → o.Ans → FeedState →
    Option (Outcome FeedState FeedTask o.Res)
  | .trySend hit, _, s =>
      match s.hits.trySend hit with
      | some hits => some { res := true, shared := { s with hits := hits } }
      | none => some { res := false, shared := s }
  | .dropSender, _, s => some { res := (), shared := { s with hits := s.hits.dropSender } }
  | .recv, _, s => s.hits.await.map fun got => { res := got.1, shared := { s with hits := got.2 } }
  | .dropReceiver, _, s => some { res := (), shared := { s with hits := s.hits.dropReceiver } }
  | .cachedPrice, nowNs, s => some { res := s.price.fresh nowNs, shared := s }
  | .fetch, reply, s => some { res := reply.bind latestAnswer, shared := s }
  | .storePrice price, nowNs, s =>
      some { res := (), shared := { s with price := some (price, nowNs) } }
  | .lastPrice, _, s => some { res := s.price.map Prod.fst, shared := s }
  | .live o, a, s =>
      (o.exec self fresh a s.world).map fun out =>
        { res := out.res, shared := { s with world := out.shared },
          spawned := out.spawned.map .background }

def FeedOp.waits : FeedOp → List Tid
  | .live o => o.waits
  | _ => []

def onFeed (o : FeedOp) : Feed o.Res := @Proc.call FeedSig o

/-- Code of the trader as code of the fed trader. -/
def lift {α : Type} (p : Live α) : Feed α := p.interpret fun o => @Proc.call FeedSig (.live o)

/-- `BnbPrice::get`. -/
def bnbPrice : Feed (Option ℚ) := do
  match ← onFeed .cachedPrice with
  | some price => return some price
  | none =>
      match ← onFeed .fetch with
      | some price => do
          onFeed (.storePrice price)
          return some price
      | none => onFeed .lastPrice

/-- What a hit says of its channel. -/
def visibilityLabel : Visibility → String
  | .public_ => "public"
  | .private_ => "private"

/-- What the consumer does about a decision. -/
def TrailWatcher.handle (w : TrailWatcher) (trailActive : Bool) (decision : Decision)
    (visibility : String) : Live Unit :=
  match decision with
  | .skip _ => return ()
  | .exit kolName token kolBlock _ kolAddr =>
      if trailActive then return ()
      else do
        let _ ← w.exec.executeExit token kolName kolBlock kolAddr
        return ()
  | .enter .. => do
      let openPositions ← onEnv .openCount
      let _ ← w.exec.execute decision visibility openPositions
      return ()

/-- The consumer of given decisions handles one after the other. -/
theorem TrailWatcher.consume_cons (w : TrailWatcher) (trailActive : Bool) (decision : Decision)
    (visibility : String)
    (rest : List (Decision × String)) : w.consume trailActive ((decision, visibility) :: rest) =
      w.handle trailActive decision visibility >>= fun _ => w.consume trailActive rest := by
  cases decision with
  | skip reason => rfl
  | enter kolName token bnbAmount kolBnbInput kolBlock kolTx =>
      simp only [TrailWatcher.consume, TrailWatcher.handle, bind_assoc]
      rfl
  | exit kolName token kolBlock kolTx kolAddr =>
      cases trailActive with
      | true => rfl
      | false =>
          rw [TrailWatcher.consume, TrailWatcher.handle, if_neg Bool.false_ne_true,
            if_neg Bool.false_ne_true,
            bind_assoc]
          rfl

/-- What the fed trader runs with. -/
structure LiveFeed where
  watcher : TrailWatcher
  strategy : StrategyConfig

namespace LiveFeed

variable (x : LiveFeed)

/-- What is decided on a hit at a price. -/
def decision (hit : KolHit) (bnbUsd : ℚ) : Decision × String :=
  (evaluate x.strategy hit bnbUsd, visibilityLabel hit.visibility)

/-- The consumer's loop.  Without a price the price is zero. -/
def consume (trailActive : Bool) : Nat → Feed Unit
  | 0 => onFeed .dropReceiver
  | rounds + 1 => do
      match ← onFeed .recv with
      | none => onFeed .dropReceiver
      | some hit =>
          let bnbUsd := (← bnbPrice).getD 0
          let (decision, visibility) := x.decision hit bnbUsd
          lift (x.watcher.handle trailActive decision visibility)
          consume trailActive rounds

/-- A watcher offers its hits, whether or not the one before was taken. -/
def sendAll : List KolHit → Feed Unit
  | [] => onFeed .dropSender
  | hit :: rest => do
      let _ ← onFeed (.trySend hit)
      sendAll rest

/-- The kill switch asks for the price on every tick. -/
def pollPrice : Nat → Feed Unit
  | 0 => return ()
  | ticks + 1 => do
      let _ ← bnbPrice
      pollPrice ticks

def body : FeedTask → Feed Done
  | .sender hits => do
      sendAll hits
      return .unit
  | .consumer trailActive rounds => do
      x.consume trailActive rounds
      return .unit
  | .killSwitch ticks => do
      pollPrice ticks
      return .unit
  | .background task => lift (x.watcher.body task)

/-- The machine of the fed trader. -/
def machine : Machine FeedSig FeedState FeedTask Done where
  Ans := FeedOp.Ans
  exec := FeedOp.exec
  waits := FeedOp.waits
  body := x.body

/-- How `start_live_only` sets it up, for a number of watchers. -/
def build (world : World) (senders : Nat) : FeedState where
  world := world
  hits := .new 1024 senders 1

end LiveFeed

/-! ### What the consumer has decided -/

/-- The hits decided on so far, each with the price it was decided at, and the one that
waits for its price. -/
structure Deciding where
  decided : List (KolHit × ℚ) := []
  pending : Option KolHit := none
deriving DecidableEq, Repr

/-- The pending hit is decided on. -/
def Deciding.priced (q : Deciding) (price : Option ℚ) : Deciding :=
  match q.pending with
  | some hit => { decided := q.decided ++ [(hit, price.getD 0)], pending := none }
  | none => q

/-- What an operation of the consumer changes. -/
def Deciding.next (q : Deciding) : (o : FeedOp) → o.Res → Deciding
  | .recv, some hit => { q with pending := some hit }
  | .cachedPrice, some price => q.priced (some price)
  | .storePrice price, _ => q.priced (some price)
  | .lastPrice, price => q.priced price
  | _, _ => q

end BscMempool.Trader
