/-
Module: BscMempool.Proofs.BorrowerDiscovery
Layer: Proofs
Purpose: Which blocks the Venus watcher has scanned. The chunks of the seed scan tile the blocks
  from its start up to the head, those of the polls the blocks after the head; nothing is asked for
  twice. So what a failed query leaves out stays out, and so does the head itself where the seed's
  chunks end just before it.
Trusted boundary: none
Main exports: Covered, NoHoles, ShortOfHead, HeadsFit, Tiled, discovery_complete_iff,
  discovery_has_holes
-/
import BscMempool.Numeric.Tiling
import BscMempool.Watch.Venus

namespace BscMempool.Watch

open Numeric Venus

namespace Venus

/-- A block that a scan whose query succeeded has asked for. -/
def Covered (s : Venus) (b : Nat) : Prop :=
  ∃ scan ∈ s.scans, scan.ok = true ∧ scan.from_ ≤ b ∧ b ≤ scan.to_

/-- Every block from the start of the seed on up to the one scanned last is covered. -/
def NoHoles (head lastScanned : Nat) (s : Venus) : Prop :=
  ∀ b, head - SEED_BLOCKS ≤ b → b ≤ lastScanned → s.Covered b

/-- The chunks of the seed scan, of 5001 blocks, end just before the head. -/
def ShortOfHead (head : Nat) : Prop := head < SEED_BLOCKS ∧ head % 5001 = 0

instance (head : Nat) : Decidable (ShortOfHead head) := inferInstanceAs (Decidable (_ ∧ _))

/-- The end of no chunk passes the largest `u64`. -/
def HeadsFit (head : Nat) (replies : List VenusReply) : Prop :=
  head < 2 ^ 64 - 5001 ∧ ∀ h, .blockNumber (some h) ∈ replies → h < 2 ^ 64 - 5001

/-! ### Tilings -/

abbrev TiledBy := Tiles Scan.from_ Scan.to_

/-- Where the seed scan of this head ends. -/
def seedEnd (head : Nat) : Nat := if ShortOfHead head then head else head + 1

/-- What the scans so far cover, and what comes next. -/
structure Tiled (head : Nat) (s : Venus) (seed later : List Scan) (seeded next : Nat) : Prop where
  split : s.scans = seed ++ later
  seedTiles : TiledBy (head - SEED_BLOCKS) seed seeded
  laterTiles : TiledBy (head + 1) later next
  phase : match s.phase with
    | .seed from_ h => h = head ∧ from_ = seeded ∧ from_ < head ∧ later = [] ∧ next = head + 1 ∧
        (from_ - (head - SEED_BLOCKS)) % 5001 = 0
    | .idle last => next = last + 1 ∧ head ≤ last ∧ last < 2 ^ 64 - 5001 ∧ seeded = seedEnd head
    | .scan f h _ => next = f ∧ head < f ∧ f ≤ h ∧ h < 2 ^ 64 - 5001 ∧ seeded = seedEnd head

theorem shortOfHead_iff (head : Nat) : (head - (head - SEED_BLOCKS)) % 5001 = 0 ↔
    ShortOfHead head := by
  simp only [ShortOfHead, SEED_BLOCKS]
  omega

/-- The seed scan is over at the head, or one block further on. -/
theorem seedFrom_tiled {head from_ : Nat} {s : Venus} {seed : List Scan}
    (fits : head < 2 ^ 64 - 5001)
    (scans : s.scans = seed) (tiles : TiledBy (head - SEED_BLOCKS) seed from_)
    (phase : s.phase = seedFrom from_ head)
    (aligned : from_ ≤ head → (from_ - (head - SEED_BLOCKS)) % 5001 = 0)
    (past : head < from_ → from_ = head + 1 ∧ (head - (head - SEED_BLOCKS)) % 5001 ≠ 0) :
    Tiled head s seed [] from_ (head + 1) := by
  have start := tiles.le
  refine ⟨by simpa using scans, tiles, .nil _, ?_⟩
  rw [phase, seedFrom]
  by_cases inside : from_ < head
  · rw [if_pos inside]
    exact ⟨rfl, rfl, inside, rfl, rfl, aligned (Nat.le_of_lt inside)⟩
  · rw [if_neg inside]
    refine ⟨rfl, le_rfl, fits, ?_⟩
    -- whether the head is left out depends on where the last chunk ends
    rw [seedEnd]
    rcases Nat.lt_or_ge head from_ with beyond | atHead
    · obtain ⟨next, notAligned⟩ := past beyond
      rw [next, if_neg fun short => notAligned ((shortOfHead_iff head).mpr short)]
    · obtain rfl : from_ = head := by omega
      rw [if_pos ((shortOfHead_iff from_).mp (aligned le_rfl))]

theorem scanFrom_tiled {head f h last seeded : Nat} {s : Venus} {seed later : List Scan}
    (seedTiles : TiledBy (head - SEED_BLOCKS) seed seeded) (scans : s.scans = seed ++ later)
    (laterTiles : TiledBy (head + 1) later f) (phase : s.phase = scanFrom f h last)
    (fits : h < 2 ^ 64 - 5001)
    (isSeeded : seeded = seedEnd head) (upTo : f ≤ h + 1) (above : head ≤ h) :
    Tiled head s seed later seeded f := by
  refine ⟨scans, seedTiles, laterTiles, ?_⟩
  rw [phase, scanFrom]
  by_cases inside : f ≤ h
  · rw [if_pos inside]
    exact ⟨rfl, laterTiles.le, inside, fits, isSeeded⟩
  · rw [if_neg inside]
    exact ⟨by omega, above, fits, isSeeded⟩

theorem init_tiled {blockNumber : Option Nat} (fits : blockNumber.getD 0 < 2 ^ 64 - 5001) :
    Tiled (blockNumber.getD 0) (init blockNumber) [] [] (blockNumber.getD 0 - SEED_BLOCKS)
      (blockNumber.getD 0 + 1) := by
  apply seedFrom_tiled fits rfl (.nil _) rfl
  · intro _
    simp
  · intro beyond
    omega

/-- The ends of a chunk do not wrap. -/
theorem chunk_noWrap {from_ h : Nat} (inside : from_ ≤ h) (fits : h < 2 ^ 64 - 5001) :
    (from_ + CHUNK) % 2 ^ 64 = from_ + 5000 ∧
    (min (from_ + 5000) h + 1) % 2 ^ 64 = min (from_ + 5000) h + 1 := by
  constructor
  · exact Nat.mod_eq_of_lt (by simp only [CHUNK]; omega)
  · exact Nat.mod_eq_of_lt (by omega)

/-- A chunk goes on where the scans before it end. -/
theorem chunk_tiled {start from_ h : Nat} {scans : List Scan} (tiles : TiledBy start scans from_)
    (inside : from_ ≤ h) (answered : Bool) :
    TiledBy start (scans ++ [⟨from_, min (from_ + 5000) h, answered⟩]) (min (from_ + 5000) h + 1) :=
  .snoc _ tiles rfl (by simp only; omega)

/-- A step goes on with the tiling. -/
theorem step_tiled {head : Nat} {s s' : Venus} {seed later : List Scan} {seeded next : Nat}
    (tiled : Tiled head s seed later seeded next) (headFits : head < 2 ^ 64 - 5001)
    {reply : VenusReply} (fits : ∀ h, reply = .blockNumber (some h) → h < 2 ^ 64 - 5001)
    (stepped : s.step reply = some s') :
    ∃ seed later seeded next, Tiled head s' seed later seeded next := by
  have before := tiled
  obtain ⟨split, seedTiles, laterTiles, phase⟩ := tiled
  cases atPhase : s.phase with
  | seed from_ h =>
      rw [atPhase] at phase
      obtain ⟨rfl, rfl, inside, rfl, rfl, aligned⟩ := phase
      cases reply with
      | blockNumber head => simp [step, atPhase] at stepped
      | logs answer =>
          simp only [step, atPhase, Option.some.injEq] at stepped
          obtain ⟨noWrap, noWrap'⟩ := chunk_noWrap (Nat.le_of_lt inside) headFits
          rw [noWrap, noWrap'] at stepped
          have tiles := chunk_tiled seedTiles (Nat.le_of_lt inside) answer.isSome
          have start := seedTiles.le
          refine ⟨_, [], _, _, seedFrom_tiled headFits ?_ tiles ?_ ?_ ?_⟩
          · rw [← stepped, split, List.append_nil]
          · rw [← stepped]
          · intro within
            omega
          · intro beyond
            omega
  | idle last =>
      rw [atPhase] at phase
      obtain ⟨rfl, above, lastFits, isSeeded⟩ := phase
      cases reply with
      | logs answer => simp [step, atPhase] at stepped
      | blockNumber answer =>
          cases answer with
          | none =>
              simp only [step, atPhase, Option.some.injEq] at stepped
              subst stepped
              exact ⟨seed, later, seeded, _, before⟩
          | some h =>
              have hFits := fits h rfl
              by_cases newer : h > last
              · simp only [step, atPhase, newer, if_true, Option.some.injEq] at stepped
                have noWrap : (last + 1) % 2 ^ 64 = last + 1 := Nat.mod_eq_of_lt (by omega)
                rw [noWrap] at stepped
                subst stepped
                exact ⟨seed, later, seeded, _, scanFrom_tiled seedTiles split laterTiles rfl hFits
                  isSeeded (by omega) (by omega)⟩
              · simp only [step, atPhase, newer, if_false, Option.some.injEq] at stepped
                subst stepped
                exact ⟨seed, later, seeded, _, before⟩
  | scan f h last =>
      rw [atPhase] at phase
      obtain ⟨rfl, above, inside, hFits, isSeeded⟩ := phase
      cases reply with
      | blockNumber head => simp [step, atPhase] at stepped
      | logs answer =>
          simp only [step, atPhase, Option.some.injEq] at stepped
          obtain ⟨noWrap, noWrap'⟩ := chunk_noWrap inside hFits
          rw [noWrap, noWrap'] at stepped
          have tiles := chunk_tiled laterTiles inside answer.isSome
          have start := laterTiles.le
          subst stepped
          refine ⟨seed, _, seeded, _, scanFrom_tiled seedTiles ?_ tiles rfl hFits isSeeded
            (by omega) (by omega)⟩
          simp only [split, List.append_assoc]

theorem run_tiled {head : Nat} {s s' : Venus} (replies : List VenusReply)
    (tiled : ∃ seed later seeded next, Tiled head s seed later seeded next)
    (fits : HeadsFit head replies) (ran : s.run replies = some s') : ∃ seed later seeded next,
    Tiled head s' seed later seeded next := by
  induction replies generalizing s with
  | nil =>
      simp only [run, Option.some.injEq] at ran
      rwa [← ran]
  | cons reply rest ih =>
      obtain ⟨mid, stepped, ran⟩ := Option.bind_eq_some_iff.mp ran
      obtain ⟨seed, later, seeded, next, tiled⟩ := tiled
      apply ih (step_tiled tiled fits.1 _ stepped) ⟨fits.1, _⟩ ran
      · intro h here
        exact fits.2 h (here ▸ List.mem_cons_self)
      · intro h member
        exact fits.2 h (List.mem_cons_of_mem _ member)

/-! ### The answers -/

theorem step_blockNumber {s s' : Venus} {answer : Option Nat}
    (stepped : s.step (.blockNumber answer) = some s') :
    s'.scans = s.scans ∧ s'.borrowers = s.borrowers := by
  cases atPhase : s.phase with
  | seed from_ head => simp [step, atPhase] at stepped
  | scan f h last => simp [step, atPhase] at stepped
  | idle last =>
      cases answer with
      | none =>
          simp only [step, atPhase, Option.some.injEq] at stepped
          rw [← stepped]
          exact ⟨rfl, rfl⟩
      | some h =>
          simp only [step, atPhase] at stepped
          split at stepped
          · injection stepped with stepped
            rw [← stepped]
            exact ⟨rfl, rfl⟩
          · injection stepped with stepped
            rw [← stepped]
            exact ⟨rfl, rfl⟩

/-- A step adds a scan that failed exactly if the query for logs did. -/
theorem step_scans {s s' : Venus} {reply : VenusReply} (stepped : s.step reply = some s') :
    (∀ scan ∈ s'.scans, scan.ok = true) ↔ (∀ scan ∈ s.scans, scan.ok = true) ∧
    VenusReply.logs none ≠ reply := by
  cases reply with
  | logs answer =>
      have added : ∃ from_ to_, s'.scans = s.scans ++ [⟨from_, to_, answer.isSome⟩] := by
        cases atPhase : s.phase with
        | idle last => simp [step, atPhase] at stepped
        | seed from_ head =>
            simp only [step, atPhase, Option.some.injEq] at stepped
            exact ⟨_, _, by rw [← stepped]⟩
        | scan f h last =>
            simp only [step, atPhase, Option.some.injEq] at stepped
            exact ⟨_, _, by rw [← stepped]⟩
      obtain ⟨from_, to_, scans⟩ := added
      rw [scans, List.forall_mem_append]
      cases answer <;> simp
  | blockNumber answer =>
      have same := (step_blockNumber stepped).1
      simp [same]

theorem run_scans {s s' : Venus} (replies : List VenusReply) (ran : s.run replies = some s') :
    (∀ scan ∈ s'.scans, scan.ok = true) ↔ (∀ scan ∈ s.scans, scan.ok = true) ∧
    VenusReply.logs none ∉ replies := by
  induction replies generalizing s with
  | nil =>
      simp only [run, Option.some.injEq] at ran
      simp [ran]
  | cons reply rest ih =>
      obtain ⟨mid, stepped, ran⟩ := Option.bind_eq_some_iff.mp ran
      rw [ih ran, step_scans stepped, List.mem_cons, not_or, and_assoc]

theorem mem_foldl_insert (found : List Trader.Address) (out : Finset Trader.Address)
    (a : Trader.Address) :
    a ∈ found.foldl (fun out a => insert a out) out ↔ a ∈ out ∨ a ∈ found := by
  induction found generalizing out with
  | nil => simp
  | cons b rest ih =>
      rw [List.foldl_cons, ih, Finset.mem_insert, List.mem_cons]
      tauto

/-- The borrowers known after a query are those known before and those of the logs it returned. -/
theorem mem_scanBorrows (reply : LogsReply) (out : Finset Trader.Address) (a : Trader.Address) :
    a ∈ scanBorrows reply out ↔ a ∈ out ∨ ∃ logs, reply = some logs ∧
    ∃ lg ∈ logs, lg.borrower = some a := by
  cases reply with
  | none => simp [scanBorrows]
  | some logs => simp [scanBorrows, mem_foldl_insert]

theorem step_borrowers {s s' : Venus} {reply : VenusReply} (stepped : s.step reply = some s')
    (a : Trader.Address) :
    a ∈ s'.borrowers ↔ a ∈ s.borrowers ∨ ∃ logs, reply = .logs (some logs) ∧
    ∃ lg ∈ logs, lg.borrower = some a := by
  cases reply with
  | logs answer =>
      have scanned : s'.borrowers = scanBorrows answer s.borrowers := by
        cases atPhase : s.phase with
        | idle last => simp [step, atPhase] at stepped
        | seed from_ head =>
            simp only [step, atPhase, Option.some.injEq] at stepped
            rw [← stepped]
        | scan f h last =>
            simp only [step, atPhase, Option.some.injEq] at stepped
            rw [← stepped]
      rw [scanned, mem_scanBorrows]
      simp only [VenusReply.logs.injEq]
  | blockNumber answer =>
      have same := (step_blockNumber stepped).2
      simp [same]

/-- The borrowers known are those of the logs the queries returned. -/
theorem run_borrowers {s s' : Venus} (replies : List VenusReply) (ran : s.run replies = some s')
    (a : Trader.Address) :
    a ∈ s'.borrowers ↔ a ∈ s.borrowers ∨
      ∃ logs, VenusReply.logs (some logs) ∈ replies ∧ ∃ lg ∈ logs, lg.borrower = some a := by
  induction replies generalizing s with
  | nil =>
      simp only [run, Option.some.injEq] at ran
      simp [ran]
  | cons reply rest ih =>
      obtain ⟨mid, stepped, ran⟩ := Option.bind_eq_some_iff.mp ran
      rw [ih ran, step_borrowers stepped]
      simp only [List.mem_cons, or_and_right, exists_or, or_assoc, eq_comm]

/-! ### Coverage -/

/-- Between two polls there are no holes exactly if all queries succeeded and the seed did not end
short of its head. -/
theorem noHoles_iff {head last : Nat} {s : Venus} {seed later : List Scan} {seeded next : Nat}
    (tiled : Tiled head s seed later seeded next) (idle : s.phase = .idle last) :
    NoHoles head last s ↔ (∀ scan ∈ s.scans, scan.ok = true) ∧ ¬ ShortOfHead head := by
  obtain ⟨split, seedTiles, laterTiles, phase⟩ := tiled
  rw [idle] at phase
  obtain ⟨rfl, above, lastFits, isSeeded⟩ := phase
  have inScan : ∀ b, (∃ scan ∈ s.scans, scan.from_ ≤ b ∧ b ≤ scan.to_) ↔
      (head - SEED_BLOCKS ≤ b ∧ b < seeded) ∨ (head + 1 ≤ b ∧ b < last + 1) := by
    intro b
    rw [← seedTiles.covers_iff b, ← laterTiles.covers_iff b, split]
    simp only [List.mem_append, or_and_right, exists_or]
  have seededLe : seeded ≤ head + 1 := by
    rw [isSeeded, seedEnd]
    split <;> omega
  constructor
  · intro noHoles
    constructor
    · intro scan member
      -- only the scan itself asks for its first block
      have unique : ∀ scan' ∈ s.scans, scan'.from_ ≤ scan.from_ ∧ scan.from_ ≤ scan'.to_ →
          scan' = scan := by
        intro scan' member' inside'
        rw [split, List.mem_append] at member member'
        rcases member with inSeed | inLater <;> rcases member' with inSeed' | inLater'
        · have own := (seedTiles.within inSeed).2.1
          exact seedTiles.unique inSeed' inSeed inside' ⟨le_rfl, own⟩
        · have own := seedTiles.within inSeed
          have other := laterTiles.within inLater'
          omega
        · have own := laterTiles.within inLater
          have other := seedTiles.within inSeed'
          omega
        · have own := (laterTiles.within inLater).2.1
          exact laterTiles.unique inLater' inLater inside' ⟨le_rfl, own⟩
      have bounds : head - SEED_BLOCKS ≤ scan.from_ ∧ scan.from_ ≤ last := by
        rw [split, List.mem_append] at member
        rcases member with inSeed | inLater
        · have own := seedTiles.within inSeed
          omega
        · have own := laterTiles.within inLater
          omega
      obtain ⟨scan', member', ok, inside'⟩ := noHoles scan.from_ bounds.1 bounds.2
      rw [← unique scan' member' inside']
      exact ok
    · intro short
      obtain ⟨scan, member, -, inside⟩ := noHoles head (Nat.sub_le _ _) above
      have covered := (inScan head).mp ⟨scan, member, inside⟩
      rw [isSeeded, seedEnd, if_pos short] at covered
      omega
  · rintro ⟨allOk, whole⟩ b fromStart upTo
    rw [seedEnd, if_neg whole] at isSeeded
    obtain ⟨scan, member, inside⟩ := (inScan b).mpr (by omega)
    exact ⟨scan, member, allOk scan member, inside⟩

/-- For every block number at the start and every sequence of answers after it (the numbers below
    2^64 - 5001): whenever the watcher is between two polls, there are no holes exactly if no query
    for logs failed and the seed did not end short of its head; and the borrowers it knows are those
    of the logs that were returned. -/
theorem discovery_complete_iff {blockNumber : Option Nat} {replies : List VenusReply} {s : Venus}
    {last : Nat}
    (fits : HeadsFit (blockNumber.getD 0) replies) (ran : (init blockNumber).run replies = some s)
    (idle : s.phase = .idle last) :
    (NoHoles (blockNumber.getD 0) last s ↔
      VenusReply.logs none ∉ replies ∧ ¬ ShortOfHead (blockNumber.getD 0)) ∧
    ∀ a, a ∈ s.borrowers ↔ ∃ logs, VenusReply.logs (some logs) ∈ replies ∧
      ∃ lg ∈ logs, lg.borrower = some a := by
  constructor
  · obtain ⟨seed, later, seeded, next, tiled⟩ :=
      run_tiled replies ⟨_, _, _, _, init_tiled fits.1⟩ fits ran
    have start : ∀ scan ∈ (init blockNumber).scans, scan.ok = true := by simp [init]
    rw [noHoles_iff tiled idle, run_scans replies ran, and_iff_right start]
  · intro a
    rw [run_borrowers replies ran]
    simp [init]

/-- A watcher that starts at block 7000 and polls at block 7001. -/
theorem discovery_complete_seven_thousand :
    ∃ s, (init (some 7000)).run [.logs (some []), .logs (some []), .blockNumber (some 7001),
      .logs (some [])] = some s ∧
      NoHoles 7000 7001 s := by
  refine ⟨_, rfl, ?_⟩
  have fits : HeadsFit 7000 [.logs (some []), .logs (some []), .blockNumber (some 7001),
      .logs (some [])] := by
    refine ⟨by decide, ?_⟩
    intro h member
    have only : h = 7001 := by simpa using member
    omega
  apply (@discovery_complete_iff (some 7000) _ _ _ fits rfl rfl).1.mpr
  exact ⟨by simp, by decide⟩

/-- At block 200000 the first of the twenty queries of the seed fails: block 100000 is never
    asked for again, whatever polls succeed after it; and at block 5001 all queries succeed and
    block 5001 is left out. -/
theorem discovery_has_holes :
    (∃ s, (init (some 200000)).run (.logs none :: List.replicate 19 (.logs (some [])) ++
        [.blockNumber (some 200001), .logs (some [])]) = some s ∧
      s.phase = .idle 200001 ∧ ¬ NoHoles 200000 200001 s) ∧
    ∃ s, (init (some 5001)).run [.logs (some []), .blockNumber (some 5002), .logs (some [])] =
      some s ∧
      s.phase = .idle 5002 ∧ ¬ NoHoles 5001 5002 s := by
  constructor
  · refine ⟨_, rfl, rfl, ?_⟩
    intro noHoles
    obtain ⟨scan, member, ok, inside⟩ := noHoles 100000 (by decide) (by decide)
    revert scan
    decide
  · refine ⟨_, rfl, rfl, ?_⟩
    intro noHoles
    obtain ⟨scan, member, ok, inside⟩ := noHoles 5001 (by decide) (by decide)
    revert scan
    decide

end Venus

end BscMempool.Watch
