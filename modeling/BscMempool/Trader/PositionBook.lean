/-
Module: BscMempool.Trader.PositionBook
Layer: Trader
Purpose: The paper trader's open positions, one for each portfolio, KOL and token. A second buy
  averages in, a partial close shrinks.
Trusted boundary: human-reviewed translation of trader/position.rs and of the positions of
  trader/types.rs
Main exports: PortfolioMode, PositionKey, OpenPosition, PositionBook, PositionBook.openOrAdd,
  PositionBook.remove, PositionBook.shrink
-/
import BscMempool.Trader.Types
import Mathlib.Data.List.AList

namespace BscMempool.Trader

/-- Which simulated portfolio a position belongs to. -/
inductive PortfolioMode where
  | fastTip
  | normalTip
deriving DecidableEq, Repr

/-- The portfolios that get a position per entry. -/
def PortfolioMode.ALL : List PortfolioMode := [.fastTip]

/-- Lookup key of the position book. -/
structure PositionKey where
  portfolio : PortfolioMode
  kolName : String
  token : Address
deriving DecidableEq, Repr

/-- One open paper position, over all buys of the same KOL on the same token. -/
structure OpenPosition where
  portfolio : PortfolioMode
  kolName : String
  tokenAddress : Address
  tokenSymbol : String
  tokenDecimals : Nat
  bnbIn : U256
  tokensHeld : U256
  openedAtBlock : Nat
  openedAtUnixNs : Nat
  lastAddedBlock : Nat
  buyTxHashes : List B256
  dMcapUsd : ℚ := 0
  ourEntryMcapUsd : ℚ := 0
deriving DecidableEq, Repr

def OpenPosition.key (p : OpenPosition) : PositionKey := ⟨p.portfolio, p.kolName, p.tokenAddress⟩

/-- The open positions.  Every position is held under its own key. -/
structure PositionBook where
  byKey : AList fun _ : PositionKey => OpenPosition
  keyed : ∀ key p, byKey.lookup key = some p → p.key = key

namespace PositionBook

variable (b : PositionBook)

def empty : PositionBook where
  byKey := ∅
  keyed := by
    intro key p held
    rw [AList.lookup_empty] at held
    cases held

def get (key : PositionKey) : Option OpenPosition := b.byKey.lookup key

/-- Hold a position under its key. -/
def put (p : OpenPosition) : PositionBook where
  byKey := b.byKey.insert p.key p
  keyed := by
    intro key q held
    by_cases same : key = p.key
    · rw [same, AList.lookup_insert] at held
      cases held
      exact same.symm
    · rw [AList.lookup_insert_ne same] at held
      exact b.keyed key q held

/-- Change the position under a key, if there is one. -/
def modify (key : PositionKey) (f : OpenPosition → OpenPosition) : PositionBook :=
  match b.get key with
  | some p => b.put (f p)
  | none => b

/-- Average a buy into the position under its key, or open one. -/
def openOrAdd (portfolio : PortfolioMode) (kolName : String) (tokenAddress : Address)
    (tokenSymbol : String) (tokenDecimals : Nat) (bnbIn tokensIn : U256) (block : Nat) (tx : B256)
    (nowNs : Nat) : PositionBook :=
  match b.get ⟨portfolio, kolName, tokenAddress⟩ with
  | some pos => b.put { pos with
      bnbIn := saturatingAddU256 pos.bnbIn bnbIn
      tokensHeld := saturatingAddU256 pos.tokensHeld tokensIn
      lastAddedBlock := block
      buyTxHashes := pos.buyTxHashes ++ [tx] }
  | none => b.put {
      portfolio := portfolio
      kolName := kolName
      tokenAddress := tokenAddress
      tokenSymbol := tokenSymbol
      tokenDecimals := tokenDecimals
      bnbIn := bnbIn
      tokensHeld := tokensIn
      openedAtBlock := block
      openedAtUnixNs := nowNs
      lastAddedBlock := block
      buyTxHashes := [tx] }

/-- Stamp the entry market caps: the first that is not zero stays. -/
def setEntryMcaps (key : PositionKey) (dMcap ourMcap : ℚ) : PositionBook :=
  b.modify key fun p => { p with
    dMcapUsd := if p.dMcapUsd = 0 then dMcap else p.dMcapUsd
    ourEntryMcapUsd := if p.ourEntryMcapUsd = 0 then ourMcap else p.ourEntryMcapUsd }

def remove (key : PositionKey) : PositionBook where
  byKey := b.byKey.erase key
  keyed := by
    intro other p held
    by_cases same : other = key
    · rw [same, AList.lookup_erase] at held
      cases held
    · rw [AList.lookup_erase_ne same] at held
      exact b.keyed other p held

/-- Partial close: what is left of tokens and cost basis. -/
def shrink (key : PositionKey) (newTokensHeld newBnbIn : U256) : PositionBook :=
  b.modify key fun p => { p with tokensHeld := newTokensHeld, bnbIn := newBnbIn }

/-- The keys of the positions that were opened at `cutoffUnixNs` or before. -/
def openedBefore (cutoffUnixNs : Nat) : List PositionKey :=
  (b.byKey.entries.filter fun held => decide (held.2.openedAtUnixNs ≤ cutoffUnixNs)).map Sigma.fst

/-- The keys of a KOL's positions on a token. -/
def keysForKolToken (kolName : String) (token : Address) : List PositionKey :=
  b.byKey.keys.filter fun key => decide (key.kolName = kolName ∧ key.token = token)

/-- Some portfolio holds the token. -/
def holds (token : Address) : Bool := b.byKey.keys.any fun key => decide (key.token = token)

def snapshot : List OpenPosition := b.byKey.entries.map Sigma.snd

/-! ### How the operations act on one key -/

variable {b} {key other : PositionKey}

theorem key_of_get {p : OpenPosition} (held : b.get key = some p) : p.key = key :=
  b.keyed key p held

theorem get_put (p : OpenPosition) : (b.put p).get key = if key = p.key then some p
    else b.get key := by
  unfold get put
  split
  · rename_i same
    rw [same, AList.lookup_insert]
  · rename_i other
    rw [AList.lookup_insert_ne other]

theorem get_remove : (b.remove key).get other = if other = key then none else b.get other := by
  unfold get remove
  split
  · rename_i same
    rw [same, AList.lookup_erase]
  · rename_i ne
    rw [AList.lookup_erase_ne ne]

theorem get_remove_of_ne (ne : other ≠ key) : (b.remove key).get other = b.get other := by
  rw [get_remove, if_neg ne]

/-- What is left after a removal was there before. -/
theorem get_of_remove {p : OpenPosition} (held : (b.remove key).get other = some p) :
    b.get other = some p := by
  rw [get_remove] at held
  split at held
  · cases held
  · exact held

theorem get_modify {f : OpenPosition → OpenPosition} (same : ∀ p, (f p).key = p.key) :
    (b.modify key f).get other = if other = key then (b.get key).map f else b.get other := by
  unfold modify
  cases held : b.get key with
  | none =>
      dsimp only
      split
      · rename_i here
        rw [here, held]
        rfl
      · rfl
  | some p =>
      dsimp only
      rw [get_put, same, key_of_get held]
      rfl

theorem get_shrink {tokens bnb : U256} : (b.shrink key tokens bnb).get other =
    if other = key then (b.get key).map fun p => { p with tokensHeld := tokens, bnbIn := bnb }
    else b.get other :=
  get_modify fun _ => rfl

theorem get_shrink_of_ne {tokens bnb : U256} (ne : other ≠ key) :
    (b.shrink key tokens bnb).get other = b.get other := by
  rw [get_shrink, if_neg ne]

/-- A partial close keeps when each position was opened. -/
theorem get_of_shrink {tokens bnb : U256} {p : OpenPosition}
    (held : (b.shrink key tokens bnb).get other = some p) :
    ∃ q, b.get other = some q ∧ q.openedAtUnixNs = p.openedAtUnixNs := by
  rw [get_shrink] at held
  split at held
  · rename_i same
    obtain ⟨q, there, rfl⟩ := Option.map_eq_some_iff.1 held
    exact ⟨q, same ▸ there, rfl⟩
  · exact ⟨p, held, rfl⟩

theorem get_setEntryMcaps {dMcap ourMcap : ℚ} : (b.setEntryMcaps key dMcap ourMcap).get other =
    if other = key then (b.get key).map fun p => { p with
      dMcapUsd := if p.dMcapUsd = 0 then dMcap else p.dMcapUsd
      ourEntryMcapUsd := if p.ourEntryMcapUsd = 0 then ourMcap else p.ourEntryMcapUsd }
    else b.get other :=
  get_modify fun _ => rfl

/-! ### Which keys and tokens are held -/

/-- A token is held if there is a position under some key with it. -/
theorem holds_iff {token : Address} :
    b.holds token = true ↔ ∃ key : PositionKey, key.token = token ∧ (b.get key).isSome = true := by
  simp only [holds, get, List.any_eq_true, decide_eq_true_eq, AList.lookup_isSome, AList.mem_keys]
  constructor
  · rintro ⟨key, there, same⟩
    exact ⟨key, same, there⟩
  · rintro ⟨key, same, there⟩
    exact ⟨key, there, same⟩

theorem isSome_get_modify {f : OpenPosition → OpenPosition} (same : ∀ p, (f p).key = p.key) :
    ((b.modify key f).get other).isSome = (b.get other).isSome := by
  rw [get_modify same]
  split
  · rename_i here
    rw [here, Option.isSome_map]
  · rfl

theorem isSome_get_openOrAdd {mode : PortfolioMode} {kolName : String} {token : Address}
    {symbol : String} {decimals block nowNs : Nat} {bnbIn tokensIn : U256} {tx : B256} :
    ((b.openOrAdd mode kolName token symbol decimals bnbIn tokensIn block tx nowNs).get
      other).isSome =
      (decide (other = ⟨mode, kolName, token⟩) || (b.get other).isSome) := by
  have put : ∀ p : OpenPosition, p.key = ⟨mode, kolName, token⟩ →
      ((b.put p).get other).isSome =
        (decide (other = ⟨mode, kolName, token⟩) || (b.get other).isSome) := by
    intro p own
    rw [get_put, own]
    split
    · rename_i same
      simp [same]
    · rename_i ne
      simp [ne]
  unfold openOrAdd
  cases held : b.get ⟨mode, kolName, token⟩ with
  | none => exact put _ rfl
  | some p =>
      have own : p.key = ⟨mode, kolName, token⟩ := key_of_get held
      exact put _ own

theorem isSome_get_setEntryMcaps {dMcap ourMcap : ℚ} :
    ((b.setEntryMcaps key dMcap ourMcap).get other).isSome = (b.get other).isSome :=
  isSome_get_modify fun _ => rfl

theorem isSome_get_shrink {tokens bnb : U256} :
    ((b.shrink key tokens bnb).get other).isSome = (b.get other).isSome :=
  isSome_get_modify fun _ => rfl

/-- A token without changes under its keys is held as before. -/
theorem holds_congr {b b' : PositionBook} {token : Address}
    (same : ∀ key : PositionKey, key.token = token → (b'.get key).isSome = (b.get key).isSome) :
    b'.holds token = b.holds token := by
  apply Bool.eq_iff_iff.2
  rw [holds_iff, holds_iff]
  constructor
  · rintro ⟨key, own, there⟩
    exact ⟨key, own, (same key own).symm.trans there⟩
  · rintro ⟨key, own, there⟩
    exact ⟨key, own, (same key own).trans there⟩

end PositionBook

end BscMempool.Trader
