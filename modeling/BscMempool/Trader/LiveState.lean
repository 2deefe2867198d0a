/-
Module: BscMempool.Trader.LiveState
Layer: Trader
Purpose: The state the tasks of the live trader share: the position cache with its entries, the
  per-token exit locks and the transactions handed to the network, the nonce manager's counter and
  file, and the caches and counters beside them.
Trusted boundary: human-reviewed translation of the shared fields of LiveExecutor
  (executor_live.rs), NonceManager (nonce.rs), LiveLedger (live_ledger.rs) and TrailWatcher
  (adaptive_trail.rs)
Main exports: PositionEntry, Book, WireTx, Trade, NonceState, Env, World, NonceManager.new
-/
import BscMempool.Concurrent.System
import BscMempool.Trader.Limits
import BscMempool.Trader.TrailState
import Mathlib.Data.List.AList

namespace BscMempool.Trader

open Concurrent (Tid)

/-! ### Position cache

An `Arc<PositionEntry>` outlives its removal from the map, because a finalize task may still hold
it. Entries therefore live in an append-only heap and the map holds their places in it. -/

/-- Place of an entry in the heap. -/
abbrev EntryId := Nat

/-- Cached state of one held position.  `token` is the key it was inserted under, `finalizer` the
task started for it; `openedAt` is the instant of the insertion, counted in transactions handed to
the network so far. -/
structure PositionEntry where
  token : Address
  route : BuyRoute
  tokensBought : U256
  bnbIn : U256
  approved : Bool
  openedAt : Nat
  finalizer : Tid
deriving DecidableEq, Repr

/-- The pair the exit and the duplicate guard read as "fully exited". -/
def PositionEntry.exited (p : PositionEntry) : Bool := decide (p.tokensBought = 0) && p.approved

/-- The position cache.  Every key leads to an entry that was made for it. -/
structure Book where
  positions : AList fun _ : Address => EntryId
  entries : List PositionEntry
  keyed : ∀ token e, positions.lookup token = some e → ∃ p, entries[e]? = some p ∧ p.token = token

namespace Book

variable (b : Book)

def empty : Book where
  positions := ∅
  entries := []
  keyed := by
    intro token e held
    rw [AList.lookup_empty] at held
    cases held

/-- What the cache holds for `token`. -/
def cached (token : Address) : Option (EntryId × PositionEntry) :=
  (b.positions.lookup token).bind fun e => b.entries[e]?.map fun p => (e, p)

/-- Change one entry in place, but not the token it is for. -/
def modify (e : EntryId) (f : PositionEntry → PositionEntry)
    (same : ∀ p, (f p).token = p.token) : Book :=
  { b with
    entries := b.entries.modify e f
    keyed := by
      intro token d held
      obtain ⟨p, found, key⟩ := b.keyed token d held
      rw [List.getElem?_modify, found]
      by_cases here : e = d
      · exact ⟨f p, by simp [here], (same p).trans key⟩
      · exact ⟨p, by simp [here], key⟩ }

def setTokens (e : EntryId) (tokens : U256) : Book :=
  b.modify e (fun p => { p with tokensBought := tokens }) fun _ => rfl

def setApproved (e : EntryId) : Book :=
  b.modify e (fun p => { p with approved := true }) fun _ => rfl

/-- Store an amount in the entry the cache holds for `token`, if it holds one. -/
def writeBack (token : Address) (tokens : U256) : Book :=
  match b.positions.lookup token with
  | some e => b.setTokens e tokens
  | none => b

/-- Drop `token` from the cache. -/
def remove (token : Address) : Book :=
  { b with
    positions := b.positions.erase token
    keyed := by
      intro other e held
      by_cases same : other = token
      · rw [same, AList.lookup_erase] at held
        cases held
      · rw [AList.lookup_erase_ne same] at held
        exact b.keyed other e held }

/-- Insert a fresh entry for its token. -/
def insert (p : PositionEntry) : Book :=
  { positions := b.positions.insert p.token b.entries.length
    entries := b.entries ++ [p]
    keyed := by
      intro other e held
      by_cases same : other = p.token
      · subst same
        rw [AList.lookup_insert] at held
        cases held
        exact ⟨p, by simp, rfl⟩
      · rw [AList.lookup_insert_ne same] at held
        obtain ⟨q, found, key⟩ := b.keyed other e held
        have bound : e < b.entries.length := (List.getElem?_eq_some_iff.1 found).1
        exact ⟨q, by rw [List.getElem?_append_left bound, found], key⟩ }

end Book

/-! ### Transactions handed to the network -/

/-- What a call of `execute_exit` knew when it handed its SELL to the network: whether it closes the
whole position, the cache entry its amount came from, the route before the re-validation, and the
allowance it read on the way, with the spender it read it for. -/
structure ExitMemo where
  full : Bool
  sized : Option EntryId
  checkedRoute : BuyRoute
  allowance : Option (Address × U256)
deriving DecidableEq, Repr

/-- The four places that submit a transaction. -/
inductive Site where
  | buy
  | sell (memo : ExitMemo)
  | exitApprove
  | bgApprove
deriving DecidableEq, Repr

/-- A signed transaction that a task has handed to its endpoint.  `accepted` says whether the
network took it, `ok` whether the endpoint's reply counted as success for the caller. -/
structure WireTx where
  tx : TransactionRequest
  hash : B256
  site : Site
  sender : Tid
  accepted : Bool
  ok : Bool
deriving DecidableEq, Repr

/-- The token a swap calldata buys. -/
def Calldata.bought : Calldata → Option Address
  | .swapExactETHForTokens _ path _ _ => path.getLast?
  | .buyTokenAMAP token _ _ => some token
  | _ => none

/-- The token a swap calldata sells, and how much of it. -/
def Calldata.sold : Calldata → Option (Address × U256)
  | .swapExactTokensForETH amountIn _ path _ _ => path.head?.map fun token => (token, amountIn)
  | .sellToken token amount => some (token, amount)
  | _ => none

namespace WireTx

/-- A BUY of `token` that was broadcast. -/
def buys (r : WireTx) (token : Address) : Bool := r.ok && r.tx.input.bought == some token

/-- Amount of `token` the transaction sells, if it was broadcast. -/
def soldAmount (r : WireTx) (token : Address) : Nat :=
  match r.tx.input.sold with
  | some (t, amount) => if r.ok && t == token then amount.toNat else 0
  | none => 0

/-- A SELL of `token` that was broadcast. -/
def sells (r : WireTx) (token : Address) : Bool :=
  r.ok && r.tx.input.sold.any fun sold => sold.1 == token

/-- A full-close SELL of `token` that was broadcast. -/
def closes (r : WireTx) (token : Address) : Bool :=
  r.sells token && match r.site with
    | .sell memo => memo.full
    | _ => false

/-- An approve of `token` for `spender` that was broadcast. -/
def approves (r : WireTx) (token spender : Address) : Bool :=
  r.ok && decide (r.tx.to_ = token) && match r.tx.input with
    | .approve s _ => decide (s = spender)
    | _ => false

end WireTx

/-- Sum of the amounts of `token` in the SELLs that were broadcast. -/
def soldTotal (wire : List WireTx) (token : Address) : Nat :=
  (wire.map fun r => r.soldAmount token).sum

/-- The last BUY or full-close SELL of `token` that was broadcast is a full close. -/
def closed (wire : List WireTx) (token : Address) : Bool :=
  wire.foldl (fun shut r => if r.buys token then false else shut || r.closes token) false

@[simp] theorem soldTotal_nil (token : Address) : soldTotal [] token = 0 := rfl

@[simp] theorem soldTotal_append (wire : List WireTx) (r : WireTx) (token : Address) :
    soldTotal (wire ++ [r]) token = soldTotal wire token + r.soldAmount token := by
  simp [soldTotal]

@[simp] theorem closed_nil (token : Address) : closed [] token = false := rfl

@[simp] theorem closed_append (wire : List WireTx) (r : WireTx) (token : Address) :
    closed (wire ++ [r]) token =
      if r.buys token then false else closed wire token || r.closes token := by
  simp [closed]

namespace WireTx

variable {r : WireTx} {token : Address}

theorem soldAmount_of_sold {t : Address} {amount : U256}
    (sold : r.tx.input.sold = some (t, amount)) :
    r.soldAmount token = if r.ok && t == token then amount.toNat else 0 := by
  simp [soldAmount, sold]

theorem sells_of_sold {t : Address} {amount : U256} (sold : r.tx.input.sold = some (t, amount)) :
    r.sells token = (r.ok && t == token) := by
  simp [sells, sold]

theorem sells_of_none (none_ : r.tx.input.sold = none) : r.sells token = false := by
  simp [sells, none_]

/-- A transaction that is no SELL of the token sells nothing of it. -/
theorem soldAmount_eq_zero (other : r.sells token = false) : r.soldAmount token = 0 := by
  cases sold : r.tx.input.sold with
  | none => simp [soldAmount, sold]
  | some pair =>
      obtain ⟨t, amount⟩ := pair
      rw [sells_of_sold sold] at other
      rw [soldAmount_of_sold sold, other]
      rfl

end WireTx

/-! ### The components of the shared state -/

/-- The position cache, the exit locks and the wire.

`exitLocks token` is the task that holds the token's exit lock.  `unsettled token` is the amount in
a SELL that was broadcast and whose cache update is still to come. -/
structure Trade where
  book : Book := .empty
  exitLocks : Address → Option Tid := fun _ => none
  wire : List WireTx := []
  unsettled : Address → Nat := fun _ => 0

namespace Trade

/-- What the cache holds for `token`. -/
abbrev cached (t : Trade) (token : Address) : Option (EntryId × PositionEntry) :=
  t.book.cached token

/-- The entry a BUY of `token` gets, to be finalized by `finalizer`. -/
def freshEntry (t : Trade) (token : Address) (route : BuyRoute) (bnbIn : U256) (finalizer : Tid) :
    PositionEntry :=
  { token := token
    route := route
    tokensBought := 0
    bnbIn := bnbIn
    approved := false
    openedAt := t.wire.length
    finalizer := finalizer }

/-- Hand a transaction to the network. -/
def transmit (t : Trade) (r : WireTx) : Trade :=
  { t with
    wire := t.wire ++ [r]
    unsettled := match r.site, r.tx.input.sold with
      | .sell _, some (token, _) =>
          if r.ok then Function.update t.unsettled token (r.soldAmount token) else t.unsettled
      | _, _ => t.unsettled }

end Trade

/-- The nonce manager's counter and file.  `handedOut` lists the nonces `reserve` has returned,
`written` the values of the completed file writes and `inFlight` the reserved nonces whose
transaction is neither submitted nor given up yet, each in the order of the events. -/
structure NonceState where
  current : UInt64
  file : Option UInt64 := none
  handedOut : List UInt64 := []
  written : List UInt64 := []
  inFlight : List UInt64 := []
deriving DecidableEq, Repr

/-- `NonceManager::new`: the larger of the chain's pending count and the value on disk. -/
def NonceManager.new (chain : UInt64) (file : Option UInt64) : NonceState :=
  { current := max chain (file.getD 0)
    file := file }

/-- One row of the live ledger. -/
structure LiveEntry where
  phase : String
  kolName : String
  visibility : String
  tokenAddress : Address
  tokenSymbol : String := ""
  bnbInWei : U256
  gasGwei : Nat
  nonce : UInt64
  txHash : B256
  walletBnb : ℚ
  broadcast : Bool
  limitSkipReason : Option String
deriving DecidableEq, Repr

def BG_FINALIZE_CONCURRENCY : Nat := 8

/-- Caches, counters, the ledger and the trail watcher's map. -/
structure Env where
  gasCache : U128 := 0
  v2PairCache : Address → Option (Option Address) := fun _ => none
  daily : DailyState := {}
  openCount : Nat := 0
  ledger : List LiveEntry := []
  bgPermits : Nat := BG_FINALIZE_CONCURRENCY
  trailStates : Address → Option TrailState := fun _ => none

/-- Everything the tasks of one process share. -/
structure World where
  trade : Trade := {}
  nonce : NonceState
  env : Env := {}

/-- The state a process starts in. -/
def World.boot (chain : UInt64) (file : Option UInt64) : World :=
  { nonce := NonceManager.new chain file }

/-! ### How the operations on the cache act

These are the equations the proofs about the trader rewrite with. -/

namespace Book

variable {b : Book}

theorem cached_eq_some {token : Address} {e : EntryId} {p : PositionEntry} :
    b.cached token = some (e, p) ↔ b.positions.lookup token = some e ∧ b.entries[e]? = some p := by
  simp only [cached, Option.bind_eq_some_iff, Option.map_eq_some_iff, Prod.mk.injEq]
  constructor
  · rintro ⟨_, held, _, found, rfl, rfl⟩
    exact ⟨held, found⟩
  · rintro ⟨held, found⟩
    exact ⟨e, held, p, found, rfl, rfl⟩

theorem cached_of_lookup {token : Address} {e : EntryId}
    (held : b.positions.lookup token = some e) :
    ∃ p, b.cached token = some (e, p) := by
  obtain ⟨p, found, _⟩ := b.keyed token e held
  exact ⟨p, cached_eq_some.2 ⟨held, found⟩⟩

theorem cached_eq_none {token : Address} :
    b.cached token = none ↔ b.positions.lookup token = none := by
  constructor
  · intro missing
    by_contra held
    obtain ⟨e, held⟩ := Option.ne_none_iff_exists'.1 held
    obtain ⟨p, found⟩ := cached_of_lookup held
    simp [found] at missing
  · intro missing
    simp [cached, missing]

/-- What the cache holds for a token was made for it. -/
theorem token_of_cached {token : Address} {e : EntryId} {p : PositionEntry}
    (held : b.cached token = some (e, p)) : p.token = token := by
  obtain ⟨looked, found⟩ := cached_eq_some.1 held
  obtain ⟨q, found', key⟩ := b.keyed token e looked
  rw [found] at found'
  cases found'
  exact key

/-- Different tokens have different entries. -/
theorem token_unique {token other : Address} {e : EntryId} {p q : PositionEntry}
    (held : b.cached token = some (e, p)) (held' : b.cached other = some (e, q)) :
    token = other := by
  have found := (cached_eq_some.1 held).2
  rw [(cached_eq_some.1 held').2] at found
  cases found
  exact (token_of_cached held).symm.trans (token_of_cached held')

theorem modify_entries {e d : EntryId} {f : PositionEntry → PositionEntry}
    {same : ∀ p, (f p).token = p.token} :
    (b.modify e f same).entries[d]? = b.entries[d]?.map fun p => if d = e then f p else p := by
  simp only [modify, List.getElem?_modify]
  by_cases here : e = d
  · subst here
    simp
  · simp [here, Ne.symm here]

theorem cached_modify {e : EntryId} {f : PositionEntry → PositionEntry}
    {same : ∀ p, (f p).token = p.token} {token : Address} :
    (b.modify e f same).cached token =
      (b.cached token).map fun held => (held.1, if held.1 = e then f held.2 else held.2) := by
  simp only [cached, modify_entries]
  change (b.positions.lookup token).bind _ = _
  cases b.positions.lookup token with
  | none => rfl
  | some d => cases found : b.entries[d]? <;> simp [found]

theorem setTokens_entries {e d : EntryId} {tokens : U256} :
    (b.setTokens e tokens).entries[d]? =
      b.entries[d]?.map fun p => if d = e then { p with tokensBought := tokens } else p :=
  modify_entries

theorem setApproved_entries {e d : EntryId} :
    (b.setApproved e).entries[d]? =
      b.entries[d]?.map fun p => if d = e then { p with approved := true } else p :=
  modify_entries

theorem cached_setTokens {e : EntryId} {tokens : U256} {token : Address} :
    (b.setTokens e tokens).cached token = (b.cached token).map fun held =>
      (held.1, if held.1 = e then { held.2 with tokensBought := tokens } else held.2) :=
  cached_modify

theorem cached_setApproved {e : EntryId} {token : Address} :
    (b.setApproved e).cached token = (b.cached token).map fun held =>
      (held.1, if held.1 = e then { held.2 with approved := true } else held.2) :=
  cached_modify

theorem writeBack_entries {token : Address} {tokens : U256} {d : EntryId} :
    (b.writeBack token tokens).entries[d]? = b.entries[d]?.map fun p =>
      if b.positions.lookup token = some d then { p with tokensBought := tokens } else p := by
  unfold writeBack
  cases held : b.positions.lookup token with
  | none => simp
  | some e => simp only [setTokens_entries, Option.some.injEq, eq_comm]

theorem writeBack_positions {token : Address} {tokens : U256} :
    (b.writeBack token tokens).positions = b.positions := by
  unfold writeBack
  cases b.positions.lookup token <;> rfl

/-- The cache update changes what the cache holds for its token. -/
theorem cached_writeBack_self {token : Address} {tokens : U256} :
    (b.writeBack token tokens).cached token =
      (b.cached token).map fun held => (held.1, { held.2 with tokensBought := tokens }) := by
  unfold writeBack
  cases looked : b.positions.lookup token with
  | none => simp [cached_eq_none.2 looked]
  | some e =>
      obtain ⟨p, held⟩ := cached_of_lookup looked
      simp [cached_setTokens, held]

/-- The cache update changes nothing else the cache holds. -/
theorem cached_writeBack_other {token other : Address} {tokens : U256} (ne : other ≠ token) :
    (b.writeBack token tokens).cached other = b.cached other := by
  unfold writeBack
  cases looked : b.positions.lookup token with
  | none => rfl
  | some e =>
      obtain ⟨p, held⟩ := cached_of_lookup looked
      cases found : b.cached other with
      | none => simp [cached_setTokens, found]
      | some entry =>
          obtain ⟨d, q⟩ := entry
          have apart : d ≠ e := by
            rintro rfl
            exact ne (token_unique found held)
          simp [cached_setTokens, found, apart]

@[simp] theorem cached_remove_self {token : Address} : (b.remove token).cached token = none := by
  simp [cached_eq_none, remove]

theorem cached_remove_other {token other : Address} (ne : other ≠ token) :
    (b.remove token).cached other = b.cached other := by
  simp only [cached, remove, AList.lookup_erase_ne ne]

@[simp] theorem remove_entries {token : Address} : (b.remove token).entries = b.entries := rfl

@[simp] theorem cached_insert_self {p : PositionEntry} :
    (b.insert p).cached p.token = some (b.entries.length, p) := by
  simp [cached_eq_some, insert]

theorem cached_insert_other {p : PositionEntry} {other : Address} (ne : other ≠ p.token) :
    (b.insert p).cached other = b.cached other := by
  cases held : b.cached other with
  | none =>
      rw [cached_eq_none] at held ⊢
      simpa [insert, AList.lookup_insert_ne ne] using held
  | some entry =>
      obtain ⟨e, q⟩ := entry
      obtain ⟨looked, found⟩ := cached_eq_some.1 held
      have bound : e < b.entries.length := (List.getElem?_eq_some_iff.1 found).1
      refine cached_eq_some.2 ⟨?_, ?_⟩
      · simpa [insert, AList.lookup_insert_ne ne] using looked
      · simpa [insert, List.getElem?_append_left bound] using found

/-- An insertion keeps the entries there were. -/
theorem insert_old {p q : PositionEntry} {d : EntryId} (found : b.entries[d]? = some q) :
    (b.insert p).entries[d]? = some q := by
  have bound : d < b.entries.length := (List.getElem?_eq_some_iff.1 found).1
  simpa [insert, List.getElem?_append_left bound] using found

theorem insert_new {p : PositionEntry} : (b.insert p).entries[b.entries.length]? = some p := by
  simp [insert]

/-- After an insertion an entry is one there was before or the new one. -/
theorem insert_found {p q : PositionEntry} {d : EntryId}
    (found : (b.insert p).entries[d]? = some q) :
    b.entries[d]? = some q ∨ d = b.entries.length ∧ q = p := by
  simp only [insert, List.getElem?_append] at found
  split at found
  · exact .inl found
  · rename_i past
    have fresh : d - b.entries.length = 0 := by
      rw [List.getElem?_eq_some_iff] at found
      simpa using found.1
    rw [fresh] at found
    have same := Nat.le_antisymm (Nat.sub_eq_zero_iff_le.1 fresh) (Nat.le_of_not_lt past)
    exact .inr ⟨same, by simpa using found.symm⟩

end Book

namespace Trade

@[simp] theorem transmit_wire (t : Trade) (r : WireTx) : (t.transmit r).wire = t.wire ++ [r] := rfl

@[simp] theorem transmit_book (t : Trade) (r : WireTx) : (t.transmit r).book = t.book := rfl

@[simp] theorem transmit_exitLocks (t : Trade) (r : WireTx) :
    (t.transmit r).exitLocks = t.exitLocks := rfl

/-- A transaction that is no SELL of the token leaves nothing of it to settle. -/
theorem unsettled_transmit_other (t : Trade) {r : WireTx} {token : Address}
    (other : r.sells token = false) : (t.transmit r).unsettled token = t.unsettled token := by
  cases site : r.site with
  | sell memo =>
      cases sold : r.tx.input.sold with
      | none => simp [transmit, site, sold]
      | some sale =>
          rw [WireTx.sells_of_sold sold] at other
          by_cases ok : r.ok = true
          · have ne : token ≠ sale.1 := by
              rintro rfl
              simp [ok] at other
            simp [transmit, site, sold, ok, Function.update_of_ne ne]
          · simp [transmit, site, sold, ok]
  | _ => simp [transmit, site]

/-- A broadcast SELL is left to settle. -/
theorem unsettled_transmit_sell (t : Trade) {r : WireTx} {token : Address} {amount : U256}
    {memo : ExitMemo} (site : r.site = .sell memo) (sold : r.tx.input.sold = some (token, amount))
    (ok : r.ok = true) : (t.transmit r).unsettled token = r.soldAmount token := by
  simp [transmit, site, sold, ok]

end Trade

end BscMempool.Trader
