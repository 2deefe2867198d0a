/-
Module: BscMempool.Proofs.BookRoundTrip
Layer: Proofs
Purpose: What a restart leaves of the paper trader's book.  Every position comes back under its key
  with its amounts, but loading buys it again, so that further buys and the entry market caps are
  forgotten.
Trusted boundary: none
Main exports: BookOp, Reachable, reachable_consistent, loadBook_saveBook, book_round_trip_iff,
  round_trip_loses_buy
-/
import BscMempool.Codec.Bytes
import BscMempool.Trader.Ledger

namespace BscMempool.Trader.Ledger

open Codec (asBytes)

/-! ### Books that can be built -/

/-- A change of the book. -/
inductive BookOp where
  | openOrAdd (portfolio : PortfolioMode) (kolName : String) (tokenAddress : Address)
    (tokenSymbol : String)
      (tokenDecimals : Nat) (bnbIn tokensIn : U256) (block : Nat) (tx : B256) (nowNs : Nat)
  | setEntryMcaps (key : PositionKey) (dMcap ourMcap : ℚ)
  | shrink (key : PositionKey) (newTokensHeld newBnbIn : U256)
  | remove (key : PositionKey)

def BookOp.apply (book : PositionBook) : BookOp → PositionBook
  | .openOrAdd portfolio kolName tokenAddress tokenSymbol tokenDecimals bnbIn tokensIn block tx
    nowNs =>
      book.openOrAdd portfolio kolName tokenAddress tokenSymbol tokenDecimals bnbIn tokensIn block
        tx nowNs
  | .setEntryMcaps key dMcap ourMcap => book.setEntryMcaps key dMcap ourMcap
  | .shrink key newTokensHeld newBnbIn => book.shrink key newTokensHeld newBnbIn
  | .remove key => book.remove key

/-- A book that some changes make of an empty one. -/
def Reachable (book : PositionBook) : Prop :=
  ∃ ops : List BookOp, ops.foldl BookOp.apply .empty = book

/-- A position has a first buy, and if that is the only one, it is the last. -/
structure Consistent (p : OpenPosition) : Prop where
  bought : p.buyTxHashes ≠ []
  once : p.buyTxHashes.length = 1 → p.lastAddedBlock = p.openedAtBlock

def AllConsistent (book : PositionBook) : Prop := ∀ key p, book.get key = some p → Consistent p

theorem AllConsistent.put {book : PositionBook} (all : AllConsistent book) {p : OpenPosition}
    (consistent : Consistent p) :
    AllConsistent (book.put p) := by
  intro key q held
  rw [PositionBook.get_put] at held
  split at held
  · cases held
    exact consistent
  · exact all key q held

theorem AllConsistent.modify {book : PositionBook} (all : AllConsistent book) (key : PositionKey)
    {f : OpenPosition → OpenPosition} (keeps : ∀ p, Consistent p → Consistent (f p)) :
    AllConsistent (book.modify key f) := by
  unfold PositionBook.modify
  cases held : book.get key with
  | none => exact all
  | some p => exact all.put (keeps p (all key p held))

theorem AllConsistent.openOrAdd {book : PositionBook} (all : AllConsistent book)
    (portfolio : PortfolioMode)
    (kolName : String) (tokenAddress : Address) (tokenSymbol : String) (tokenDecimals : Nat)
    (bnbIn tokensIn : U256) (block : Nat) (tx : B256) (nowNs : Nat) :
    AllConsistent
      (book.openOrAdd portfolio kolName tokenAddress tokenSymbol tokenDecimals bnbIn tokensIn block
        tx nowNs) := by
  unfold PositionBook.openOrAdd
  cases held : book.get ⟨portfolio, kolName, tokenAddress⟩ with
  | none =>
      apply all.put
      constructor
      · exact List.cons_ne_nil _ _
      · intro _
        rfl
  | some p =>
      have bought := (all _ p held).bought
      apply all.put
      constructor
      · simp
      · intro single
        rw [List.length_append, List.length_singleton] at single
        exact absurd (List.length_eq_zero_iff.mp (by omega)) bought

/-- Every change keeps the positions consistent. -/
theorem AllConsistent.apply {book : PositionBook} (all : AllConsistent book) (op : BookOp) :
    AllConsistent (op.apply book) := by
  cases op with
  | openOrAdd portfolio kolName tokenAddress tokenSymbol tokenDecimals bnbIn tokensIn block tx
    nowNs =>
      exact all.openOrAdd portfolio kolName tokenAddress tokenSymbol tokenDecimals bnbIn tokensIn
        block tx nowNs
  | setEntryMcaps key dMcap ourMcap =>
      exact all.modify key fun p consistent => ⟨consistent.bought, consistent.once⟩
  | shrink key newTokensHeld newBnbIn =>
      exact all.modify key fun p consistent => ⟨consistent.bought, consistent.once⟩
  | remove key =>
      intro other p held
      exact all other p (PositionBook.get_of_remove held)

theorem reachable_consistent {book : PositionBook} (reachable : Reachable book) :
    AllConsistent book := by
  rcases reachable with ⟨ops, rfl⟩
  have run : ∀ (ops : List BookOp) (book : PositionBook), AllConsistent book →
      AllConsistent (ops.foldl BookOp.apply book) := by
    intro ops
    induction ops with
    | nil => exact fun book all => all
    | cons op ops ih => exact fun book all => ih _ (all.apply op)
  apply run
  intro key p held
  rw [PositionBook.get, PositionBook.empty, AList.lookup_empty] at held
  cases held

/-! ### Loading -/

/-- What loading makes of a position at `nowNs`. -/
def restored (p : OpenPosition) (nowNs : Nat) : OpenPosition :=
  { p with
    openedAtUnixNs := nowNs
    lastAddedBlock := p.openedAtBlock
    buyTxHashes := [p.buyTxHashes.head?.getD 0]
    dMcapUsd := 0
    ourEntryMcapUsd := 0 }

/-- A position whose key is free is put under it. -/
theorem openOrAdd_eq_put {book : PositionBook} {p : OpenPosition} (free : book.get p.key = none)
    (nowNs : Nat) :
    book.openOrAdd p.portfolio p.kolName p.tokenAddress p.tokenSymbol p.tokenDecimals p.bnbIn
      p.tokensHeld
      p.openedAtBlock (p.buyTxHashes.head?.getD 0) nowNs = book.put (restored p nowNs) := by
  have freeKey : book.get ⟨p.portfolio, p.kolName, p.tokenAddress⟩ = none := free
  rw [PositionBook.openOrAdd, freeKey]
  rfl

/-- Positions with different keys come back one by one, and the rest of the book stays. -/
theorem get_replay (nowNs : Nat → Nat) {positions : List OpenPosition}
    (distinct : (positions.map OpenPosition.key).Nodup)
    {book : PositionBook} (free : ∀ p ∈ positions, book.get p.key = none) (i : Nat) :
    (∀ p ∈ positions, ∃ ns, (replay nowNs i positions book).get p.key = some (restored p ns)) ∧
      ∀ key, key ∉ positions.map OpenPosition.key →
        (replay nowNs i positions book).get key = book.get key := by
  induction positions generalizing book i with
  | nil => simp [replay]
  | cons p positions ih =>
      rw [List.map_cons, List.nodup_cons] at distinct
      have freeRest : ∀ q ∈ positions, (book.put (restored p (nowNs i))).get q.key = none := by
        intro q member
        have other : q.key ≠ (restored p (nowNs i)).key := by
          intro same
          exact distinct.1 (same ▸ List.mem_map_of_mem member)
        rw [PositionBook.get_put, if_neg other]
        exact free q (List.mem_cons_of_mem _ member)
      rcases ih distinct.2 freeRest (i + 1) with ⟨here, elsewhere⟩
      rw [replay, openOrAdd_eq_put (free p List.mem_cons_self)]
      constructor
      · intro q member
        rcases List.mem_cons.mp member with first | later
        · rw [first, elsewhere _ distinct.1, PositionBook.get_put]
          exact ⟨nowNs i, if_pos rfl⟩
        · exact here q later
      · intro key absent
        rw [List.map_cons, List.mem_cons, not_or] at absent
        rw [elsewhere key absent.2, PositionBook.get_put]
        exact if_neg absent.1

/-! ### The snapshot -/

theorem mem_snapshot {book : PositionBook} {p : OpenPosition} :
    p ∈ book.snapshot ↔ book.get p.key = some p := by
  unfold PositionBook.snapshot PositionBook.get
  rw [List.mem_map]
  constructor
  · intro member
    rcases member with ⟨held, there, rfl⟩
    have lookup := AList.mem_lookup_iff.mpr there
    rw [book.keyed held.1 held.2 lookup]
    exact lookup
  · intro lookup
    exact ⟨⟨p.key, p⟩, AList.mem_lookup_iff.mp lookup, rfl⟩

theorem nodup_snapshot (book : PositionBook) : (book.snapshot.map OpenPosition.key).Nodup := by
  have keys : book.snapshot.map OpenPosition.key = book.byKey.keys := by
    rw [PositionBook.snapshot, List.map_map, AList.keys, List.keys]
    apply List.map_congr_left
    intro held member
    exact book.keyed held.1 held.2 (AList.mem_lookup_iff.mpr member)
  rw [keys]
  exact AList.keys_nodup _

/-- Loading what was saved succeeds, with every position restored and no others. -/
theorem loadBook_saveBook {json : PositionJson} (lawful : json.Lawful) {book : PositionBook}
    {positions : List OpenPosition} (walk : positions.Perm book.snapshot) {bytes : List UInt8}
    (saved : saveBook json positions = some bytes) (nowNs : Nat → Nat) :
    ∃ loaded, loadBook json nowNs (some bytes) = some loaded ∧
      ∀ key, ∃ ns, loaded.get key = (book.get key).map fun p => restored p ns := by
  have decoded := lawful.inverse positions bytes saved
  have loads : loadBook json nowNs (some bytes) = some (replay nowNs 0 positions .empty) := by
    cases bytes with
    | nil => exact absurd (lawful.empty.symm.trans decoded) (Option.some_ne_none _).symm
    | cons b bytes => simp [loadBook, decoded]
  have distinct : (positions.map OpenPosition.key).Nodup :=
    (walk.map OpenPosition.key).nodup_iff.mpr (nodup_snapshot book)
  have free : ∀ key, PositionBook.empty.get key = none := fun key => AList.lookup_empty _
  rcases get_replay nowNs distinct (fun p _ => free p.key) 0 with ⟨here, elsewhere⟩
  exists replay nowNs 0 positions .empty
  constructor
  · exact loads
  · intro key
    cases held : book.get key with
    | none =>
        have absent : key ∉ positions.map OpenPosition.key := by
          intro member
          rcases List.mem_map.mp member with ⟨p, there, rfl⟩
          rw [mem_snapshot.mp (walk.mem_iff.mp there)] at held
          cases held
        exact ⟨0, by rw [elsewhere key absent, free]; rfl⟩
    | some p =>
        have own := PositionBook.key_of_get held
        have there : p ∈ positions := walk.mem_iff.mpr (mem_snapshot.mpr (own ▸ held))
        rw [← own]
        exact here p there

/-! ### The round trip -/

/-- A position without the time it was opened at. -/
def timeless (p : OpenPosition) : OpenPosition := { p with openedAtUnixNs := 0 }

/-- The same keys with the same positions, but for the times they were opened at. -/
def SameBook (loaded book : PositionBook) : Prop :=
  ∀ key, (loaded.get key).map timeless = (book.get key).map timeless

/-- A position comes back as it was if it was bought once and has no market caps. -/
theorem timeless_restored_iff {p : OpenPosition} (consistent : Consistent p) (nowNs : Nat) :
    timeless (restored p nowNs) = timeless p ↔
      p.buyTxHashes.length = 1 ∧ p.dMcapUsd = 0 ∧ p.ourEntryMcapUsd = 0 := by
  constructor
  · intro same
    simp only [timeless, restored, OpenPosition.mk.injEq, true_and] at same
    exact ⟨by rw [← same.2.1]; rfl, same.2.2.1.symm, same.2.2.2.symm⟩
  · intro plain
    rcases plain with ⟨single, noDMcap, noOurMcap⟩
    have last := consistent.once single
    rcases List.length_eq_one_iff.mp single with ⟨tx, only⟩
    simp [timeless, restored, last, only, noDMcap, noOurMcap]

/-- A saved book is loaded as it was, but for the times of the first buys, exactly when every
position was bought once and has no entry market caps. -/
theorem book_round_trip_iff {json : PositionJson} (lawful : json.Lawful) {book : PositionBook}
    (reachable : Reachable book) {positions : List OpenPosition}
    (walk : positions.Perm book.snapshot)
    {bytes : List UInt8} (saved : saveBook json positions = some bytes) (nowNs : Nat → Nat) :
    ∃ loaded, loadBook json nowNs (some bytes) = some loaded ∧
      (SameBook loaded book ↔ ∀ key p, book.get key = some p →
        p.buyTxHashes.length = 1 ∧ p.dMcapUsd = 0 ∧ p.ourEntryMcapUsd = 0) := by
  rcases loadBook_saveBook lawful walk saved nowNs with ⟨loaded, loads, restores⟩
  exists loaded
  constructor
  · exact loads
  · constructor
    · intro same key p held
      have here := same key
      rcases restores key with ⟨ns, restoredHere⟩
      rw [restoredHere, held] at here
      exact (timeless_restored_iff (reachable_consistent reachable key p held) ns).mp
        (Option.some.inj here)
    · intro plain key
      rcases restores key with ⟨ns, restoredHere⟩
      rw [restoredHere]
      cases held : book.get key with
      | none => rfl
      | some p =>
          have same :=
            (timeless_restored_iff (reachable_consistent reachable key p held) ns).mpr
              (plain key p held)
          simp [same]

/-! ### A position that was bought twice -/

def firstBuy : BookOp := .openOrAdd .fastTip "A" 0xAA "PEPE" 18 100 1000 7 1 50
def secondBuy : BookOp := .openOrAdd .fastTip "A" 0xAA "PEPE" 18 100 900 9 2 60
def otherBuy : BookOp := .openOrAdd .fastTip "B" 0xBB "DOGE" 9 300 5000 8 3 70

def boughtOnce : OpenPosition where
  portfolio := .fastTip
  kolName := "A"
  tokenAddress := 0xAA
  tokenSymbol := "PEPE"
  tokenDecimals := 18
  bnbIn := 100
  tokensHeld := 1000
  openedAtBlock := 7
  openedAtUnixNs := 50
  lastAddedBlock := 7
  buyTxHashes := [1]

def boughtTwice : OpenPosition :=
  { boughtOnce with bnbIn := 200, tokensHeld := 1900, lastAddedBlock := 9, buyTxHashes := [1, 2] }

def halfSold : OpenPosition := { boughtOnce with bnbIn := 50, tokensHeld := 500 }

def boughtOther : OpenPosition where
  portfolio := .fastTip
  kolName := "B"
  tokenAddress := 0xBB
  tokenSymbol := "DOGE"
  tokenDecimals := 9
  bnbIn := 300
  tokensHeld := 5000
  openedAtBlock := 8
  openedAtUnixNs := 70
  lastAddedBlock := 8
  buyTxHashes := [3]

def shrunkBook : PositionBook :=
  [firstBuy, otherBuy, .shrink boughtOnce.key 500 50].foldl BookOp.apply .empty
def twiceBook : PositionBook := [firstBuy, secondBuy].foldl BookOp.apply .empty

/-- A hash in the list of a position's buys, as `serde_json` writes it. -/
def hashText (lastDigit : String) : List UInt8 :=
  asBytes "      \"0x000000000000000000000000000000000000000000000000000000000000000" ++
    asBytes lastDigit ++ asBytes "\""

/-- A position as `serde_json` writes it. -/
def positionText
    (kolName lastByte symbol decimals bnbIn tokensHeld openedAtBlock openedAtUnixNs
      lastAddedBlock : String)
    (buyTxHashes : List UInt8) : List UInt8 :=
  asBytes "  \x7b\n    \"portfolio\": \"FastTip\",\n    \"kol_name\": \"" ++ asBytes kolName ++
  asBytes "\",\n    \"token_address\": \"0x00000000000000000000000000000000000000" ++
    asBytes lastByte ++
  asBytes "\",\n    \"token_symbol\": \"" ++ asBytes symbol ++
  asBytes "\",\n    \"token_decimals\": " ++ asBytes decimals ++
  asBytes ",\n    \"bnb_in\": \"" ++ asBytes bnbIn ++
  asBytes "\",\n    \"tokens_held\": \"" ++ asBytes tokensHeld ++
  asBytes "\",\n    \"opened_at_block\": " ++ asBytes openedAtBlock ++
  asBytes ",\n    \"opened_at_unix_ns\": " ++ asBytes openedAtUnixNs ++
  asBytes ",\n    \"last_added_block\": " ++ asBytes lastAddedBlock ++
  asBytes ",\n    \"buy_tx_hashes\": [\n" ++ buyTxHashes ++
  asBytes "\n    ],\n    \"d_mcap_usd\": 0.0,\n    \"our_entry_mcap_usd\": 0.0\n  \x7d"

/-- The file of a book with these positions. -/
def bookText (positions : List (List UInt8)) : List UInt8 :=
  asBytes "[\n" ++ (asBytes ",\n").intercalate positions ++ asBytes "\n]"

def shrunkText : List UInt8 := bookText [
  positionText "A" "aa" "PEPE" "18" "0x32" "0x1f4" "7" "50" "7" (hashText "1"),
  positionText "B" "bb" "DOGE" "9" "0x12c" "0x1388" "8" "70" "8" (hashText "3")]

def twiceText : List UInt8 := bookText [
  positionText "A" "aa" "PEPE" "18" "0xc8" "0x76c" "7" "50" "9"
    (hashText "1" ++ asBytes ",\n" ++ hashText "2")]

/-- `serde_json` on these two snapshots. -/
def twoPositionsJson : PositionJson where
  toVecPretty positions :=
    if positions = [halfSold, boughtOther] then some shrunkText
    else if positions = [boughtTwice] then some twiceText
    else none
  fromSlice bytes :=
    if bytes = shrunkText then some [halfSold, boughtOther]
    else if bytes = twiceText then some [boughtTwice]
    else none

theorem twoPositionsJson_lawful : twoPositionsJson.Lawful where
  inverse := by
    intro positions bytes encoded
    have apart : twiceText ≠ shrunkText := by decide +kernel
    simp only [twoPositionsJson] at encoded ⊢
    split at encoded
    · rename_i shrunk
      cases encoded
      rw [shrunk, if_pos rfl]
    · split at encoded
      · rename_i twice
        cases encoded
        rw [twice, if_neg apart, if_pos rfl]
      · cases encoded
  empty := by
    have shrunk : [] ≠ shrunkText := by decide +kernel
    have twice : [] ≠ twiceText := by decide +kernel
    simp [twoPositionsJson, shrunk, twice]

theorem snapshot_shrunkBook : shrunkBook.snapshot = [halfSold, boughtOther] := by decide +kernel
theorem snapshot_twiceBook : twiceBook.snapshot = [boughtTwice] := by decide +kernel

theorem saved_shrunkBook : saveBook twoPositionsJson shrunkBook.snapshot = some shrunkText := by
  simp only [snapshot_shrunkBook, saveBook, twoPositionsJson, if_true]

theorem saved_twiceBook : saveBook twoPositionsJson twiceBook.snapshot = some twiceText := by
  have other : [boughtTwice] ≠ [halfSold, boughtOther] := by decide +kernel
  simp only [snapshot_twiceBook, saveBook, twoPositionsJson, other, if_true, if_false]

/-- A book of two positions with a single buy each is loaded as it was, also after one of
them was sold by half. -/
theorem single_buys_round_trip : shrunkBook.snapshot = [halfSold, boughtOther] ∧
    ∃ loaded, loadBook twoPositionsJson (fun _ => 99) (some shrunkText) = some loaded ∧
      SameBook loaded shrunkBook := by
  rcases book_round_trip_iff twoPositionsJson_lawful
    ⟨[firstBuy, otherBuy, .shrink boughtOnce.key 500 50], rfl⟩
    (List.Perm.refl shrunkBook.snapshot) saved_shrunkBook (fun _ => 99) with ⟨loaded, loads, same⟩
  have plain : ∀ key p, shrunkBook.get key = some p →
      p.buyTxHashes.length = 1 ∧ p.dMcapUsd = 0 ∧ p.ourEntryMcapUsd = 0 := by
    intro key p held
    have member : p ∈ shrunkBook.snapshot := mem_snapshot.mpr (PositionBook.key_of_get held ▸ held)
    rw [snapshot_shrunkBook] at member
    rcases List.mem_pair.mp member with rfl | rfl
    · exact ⟨rfl, rfl, rfl⟩
    · exact ⟨rfl, rfl, rfl⟩
  exact ⟨snapshot_shrunkBook, loaded, loads, same.mpr plain⟩

/-- Of two buys the second is forgotten. -/
theorem round_trip_loses_buy :
    Reachable twiceBook ∧ saveBook twoPositionsJson twiceBook.snapshot = some twiceText ∧
      ∃ loaded p q, loadBook twoPositionsJson (fun _ => 99) (some twiceText) = some loaded ∧
        twiceBook.get boughtTwice.key = some p ∧ loaded.get boughtTwice.key = some q ∧
        p.buyTxHashes = [1, 2] ∧ q.buyTxHashes = [1] ∧ p.lastAddedBlock = 9 ∧ q.lastAddedBlock = 7 ∧
        ¬ SameBook loaded twiceBook := by
  rcases loadBook_saveBook twoPositionsJson_lawful (List.Perm.refl twiceBook.snapshot)
    saved_twiceBook (fun _ => 99)
    with ⟨loaded, loads, restores⟩
  rcases restores boughtTwice.key with ⟨ns, here⟩
  have before : twiceBook.get boughtTwice.key = some boughtTwice := by
    rw [← mem_snapshot, snapshot_twiceBook, List.mem_singleton]
  rw [before, Option.map_some] at here
  constructor
  · exact ⟨[firstBuy, secondBuy], rfl⟩
  · constructor
    · exact saved_twiceBook
    · refine ⟨loaded, boughtTwice, restored boughtTwice ns, loads, before, here, rfl, rfl, rfl,
        rfl, ?_⟩
      intro same
      have both := same boughtTwice.key
      rw [here, before, Option.map_some, Option.map_some, Option.some.injEq] at both
      have blocks : (7 : Nat) = 9 := congrArg OpenPosition.lastAddedBlock both
      exact absurd blocks (by decide)

end BscMempool.Trader.Ledger
