/-
Module: BscMempool.Proofs.NonceManager
Layer: Proofs
Purpose: What the nonce manager guarantees while its calls interleave: when the nonces it hands out
  are pairwise distinct, and when a restart starts above all of them.
Trusted boundary: none
Main exports: safeCounter, reserve_distinct, LastWriteOfLargest, restart_above_iff
-/
import BscMempool.Concurrent.RelyGuarantee
import BscMempool.Proofs.Scenario

namespace BscMempool.Trader

open Concurrent (Tid Machine Outcome Contract)

/-! ### Distinct nonces -/

/-- What a step may do without endangering the counter: a `fetch_add` that does not wrap, and a
store of a resync that finds the counter where its load left it, or at most at the chain's value. -/
def safeCounter : Op → World → Bool
  | .nonce .fetchAdd, s => decide (s.nonce.current.toNat + 1 < 2 ^ 64)
  | .nonce (.store chain loaded), s =>
      decide (loaded = s.nonce.current) || decide (s.nonce.current ≤ chain)
  | _, _ => true

/-- The nonces handed out are distinct and below the counter. -/
structure Counting (n : NonceState) : Prop where
  below : ∀ m ∈ n.handedOut, m < n.current
  nodup : n.handedOut.Nodup

/-- Only the counter's own operations change the counter, the file and what they recorded. -/
theorem Op.exec_counter {i fresh : Tid} {o : Op} {a : o.Ans} {s : World}
    {out : Outcome World Task o.Res} (other : ∀ p, o ≠ .nonce p)
    (did : o.exec i fresh a s = some out) :
    out.shared.nonce.current = s.nonce.current ∧ out.shared.nonce.file = s.nonce.file ∧
      out.shared.nonce.handedOut = s.nonce.handedOut ∧
      out.shared.nonce.written = s.nonce.written := by
  cases o with
  | nonce p => exact absurd rfl (other p)
  | trade o =>
      obtain ⟨_, _, rfl⟩ := Option.map_eq_some_iff.1 did
      exact ⟨rfl, rfl, rfl, rfl⟩
  | env o =>
      obtain ⟨_, _, rfl⟩ := Option.map_eq_some_iff.1 did
      exact ⟨rfl, rfl, rfl, rfl⟩
  | sign tx => cases a <;> cases did <;> exact ⟨rfl, rfl, rfl, rfl⟩
  | _ =>
      cases did
      exact ⟨rfl, rfl, rfl, rfl⟩

/-- A safe operation of the counter does not move it down. -/
theorem NonceOp.current_le {p : NonceOp} {a : p.Ans} {s : World}
    (safe : safeCounter (.nonce p) s = true) : s.nonce.current ≤ (p.exec a s.nonce).2.current := by
  cases p with
  | fetchAdd =>
      have room : s.nonce.current.toNat + 1 < 2 ^ 64 := by simpa [safeCounter] using safe
      change s.nonce.current ≤ s.nonce.current + 1
      rw [UInt64.le_iff_toNat_le, UInt64.toNat_add]
      simp only [UInt64.toNat_one]
      omega
  | load => exact UInt64.le_refl _
  | store chain loaded =>
      simp only [safeCounter, Bool.or_eq_true, decide_eq_true_eq] at safe
      change s.nonce.current ≤ max chain loaded
      rw [UInt64.le_iff_toNat_le, toNat_max_u64]
      rcases safe with unmoved | ahead
      · rw [← unmoved]
        exact Nat.le_max_right _ _
      · exact Nat.le_trans (UInt64.le_iff_toNat_le.1 ahead) (Nat.le_max_left _ _)
  | write next => cases a <;> exact UInt64.le_refl _

/-- The successor of a counter that does not wrap. -/
theorem lt_succ_of_safe {s : World} (safe : safeCounter (.nonce .fetchAdd) s = true) :
    s.nonce.current < s.nonce.current + 1 := by
  have room : s.nonce.current.toNat + 1 < 2 ^ 64 := by simpa [safeCounter] using safe
  rw [UInt64.lt_iff_toNat_lt, UInt64.toNat_add]
  simp only [UInt64.toNat_one]
  omega

/-- A safe operation of the counter keeps the nonces distinct. -/
theorem Counting.exec {p : NonceOp} {a : p.Ans} {s : World} (counting : Counting s.nonce)
    (safe : safeCounter (.nonce p) s = true) : Counting (p.exec a s.nonce).2 := by
  have up := (NonceOp.current_le safe : _ ≤ (p.exec a s.nonce).2.current)
  cases p with
  | fetchAdd =>
      have next := lt_succ_of_safe safe
      refine ⟨?_, ?_⟩
      · intro m out
        rcases List.mem_append.1 out with old | new
        · exact UInt64.lt_trans (counting.below m old) next
        · rw [List.mem_singleton.1 new]
          exact next
      · refine List.nodup_append.2 ⟨counting.nodup, List.nodup_singleton _, ?_⟩
        rintro m old k new rfl
        exact UInt64.lt_irrefl _ (List.mem_singleton.1 new ▸ counting.below m old)
  | load => exact counting
  | store chain loaded =>
      exact ⟨fun m out => UInt64.lt_of_lt_of_le (counting.below m out) up, counting.nodup⟩
  | write next => cases a <;> exact ⟨counting.below, counting.nodup⟩

variable {w : TrailWatcher}

/-- One safe step of any task keeps the nonces distinct and does not move the counter down. -/
theorem Counting.step {i : Tid} {c c' : LiveConfig} (counting : Counting c.shared.nonce)
    (step : w.machine.Step (fun _ o _ s => safeCounter o s) i c c') :
    Counting c'.shared.nonce ∧ c.shared.nonce.current ≤ c'.shared.nonce.current := by
  cases step with
  | @mk t o next a out running ready meets did =>
    change Counting out.shared.nonce ∧ c.shared.nonce.current ≤ out.shared.nonce.current
    by_cases ours : ∃ p, o = .nonce p
    · obtain ⟨p, rfl⟩ := ours
      cases did
      exact ⟨counting.exec meets, NonceOp.current_le meets⟩
    · obtain ⟨current, _, handedOut, _⟩ := Op.exec_counter (fun p same => ours ⟨p, same⟩) did
      rw [current]
      refine ⟨⟨?_, ?_⟩, UInt64.le_refl _⟩
      · rw [handedOut, current]
        exact counting.below
      · rw [handedOut]
        exact counting.nodup

theorem Counting.run {c c' : LiveConfig} (counting : Counting c.shared.nonce)
    (run : w.machine.Run (fun _ o _ s => safeCounter o s) c c') :
    Counting c'.shared.nonce ∧ c.shared.nonce.current ≤ c'.shared.nonce.current := by
  induction run with
  | refl => exact ⟨counting, UInt64.le_refl _⟩
  | tail _ step ih =>
      obtain ⟨kept, up⟩ := ih.1.step step.choose_spec
      exact ⟨kept, UInt64.le_trans ih.2 up⟩

/-- In every interleaving whose steps are safe, of any tasks, the nonces handed out are pairwise
distinct and the counter never decreases. -/
theorem reserve_distinct (s : World) (tasks : List Task) (unused : s.nonce.handedOut = [])
    (c c' : LiveConfig) (first : w.machine.Run (fun _ o _ s => safeCounter o s)
      (w.machine.start s tasks) c)
    (more : w.machine.Run (fun _ o _ s => safeCounter o s) c c') :
    c'.shared.nonce.handedOut.Nodup ∧ c.shared.nonce.current ≤ c'.shared.nonce.current := by
  have counting : Counting (w.machine.start s tasks).shared.nonce := by
    refine ⟨?_, ?_⟩ <;> simp [Machine.start, unused]
  obtain ⟨kept, up⟩ := (counting.run first).1.run more
  exact ⟨kept.nodup, up⟩

/-- A resync that loads the counter before a `reserve` and stores it back after makes the next
`reserve` hand the same nonce out again. -/
theorem reserve_repeats :
    ∃ c, (scenario false).machine.Run (scenario false).machine.anyStep
        ((scenario false).machine.start (World.boot 5 none) [.resync, .reserve, .reserve]) c ∧
      ¬ c.shared.nonce.handedOut.Nodup := by
  let r : Replies := { pendingNonce := some 0 }
  exact Machine.exists_run_of_follow [(0, 2, r.ans), (1, 1, r.ans), (0, 1, r.ans), (2, 1, r.ans)]
    (by decide +kernel)

theorem reserve_distinct_three :
    ∃ c, (scenario false).machine.Run (fun _ o _ s => safeCounter o s)
        ((scenario false).machine.start (World.boot 5 none) [.resync, .reserve, .reserve]) c ∧
      c.shared.nonce.handedOut = [5, 6] ∧ c.shared.nonce.handedOut.Nodup ∧
        (5 : UInt64) ≤ c.shared.nonce.current := by
  let r : Replies := { pendingNonce := some 0 }
  obtain ⟨c, run, out⟩ : ∃ c, (scenario false).machine.Run (fun _ o _ s => safeCounter o s)
      ((scenario false).machine.start (World.boot 5 none) [.resync, .reserve, .reserve]) c ∧
      c.shared.nonce.handedOut = [5, 6] :=
    Machine.exists_run_of_follow [(0, 3, r.ans), (1, 1, r.ans), (2, 1, r.ans)] (by decide +kernel)
  obtain ⟨distinct, up⟩ :=
    reserve_distinct (World.boot 5 none) [.resync, .reserve, .reserve] rfl _ c
    .refl run
  exact ⟨c, run, out, distinct, up⟩

/-! ### Restarts -/

/-- The last write to complete is the one of the largest nonce handed out, and that
nonce has a successor. -/
def LastWriteOfLargest (n : NonceState) : Prop :=
  n.handedOut = [] ∨ ∃ m ∈ n.handedOut, (∀ k ∈ n.handedOut, k ≤ m) ∧ m.toNat + 1 < 2 ^ 64 ∧
    n.written.getLast? = some (m + 1)

/-- The file holds what was written last, and only successors of nonces handed out are written. -/
structure Persisting (n : NonceState) : Prop where
  last : n.written = [] ∨ n.file = n.written.getLast?
  known : ∀ v ∈ n.written, ∃ m ∈ n.handedOut, v = m + 1

/-- Calls of the nonce manager and the writes they start: a write persists the successor of a nonce
that was handed out. -/
def persistContract (w : TrailWatcher) : Contract w.machine where
  cond := w.machine.anyStep
  inv s := Persisting s.nonce
  guar _ s s' := ∀ n ∈ s.nonce.handedOut, n ∈ s'.nonce.handedOut
  pre t _ s :=
    match t with
    | .persistNonce n => n ∈ s.nonce.handedOut
    | .reserve | .resync => True
    | _ => False
  post _ _ _ _ := True

/-- An operation of the counter keeps the contract if it keeps the invariant. -/
theorem persist_triple (p : NonceOp) {i : Tid} {P : World → Prop}
    (kept : ∀ s, P s → ∀ a, Persisting s.nonce → Persisting (p.exec a s.nonce).2)
    {Q : p.Res → World → Prop}
    (then_ : ∀ s, P s → ∀ a, Q (p.exec a s.nonce).1 { s with nonce := (p.exec a s.nonce).2 }) :
    (persistContract w).Triple i P (.nonce p) Q := by
  intro s inv holds fresh _ a _ out did
  cases did
  refine ⟨.quiet (kept s holds a inv) ?_ rfl, then_ s holds a⟩
  intro n out
  cases p with
  | fetchAdd => exact List.mem_append_left _ out
  | write next => cases a <;> exact out
  | _ => exact out

theorem stable_handedOut {i : Tid} {n : UInt64} :
    (persistContract w).Stable i fun s => n ∈ s.nonce.handedOut :=
  fun _ _ _ _ _ _ guar out => guar n out

theorem persistNonce_wp {i : Tid} {n : UInt64} {s : World} (out : n ∈ s.nonce.handedOut) :
    (persistContract w).wp i (NonceManager.persistNonce n) (fun _ _ => True) s := by
  refine Contract.wp_call stable_handedOut ?_ out
  refine persist_triple (.write (n + 1)) (fun s out completed persisting => ?_) fun _ _ _ => trivial
  cases completed with
  | false => exact persisting
  | true =>
      refine ⟨.inr (by simp [NonceOp.exec]), ?_⟩
      intro v written
      rcases List.mem_append.1 written with old | new
      · exact persisting.known v old
      · exact ⟨n, out, List.mem_singleton.1 new⟩

theorem reserve_wp {i : Tid} {persist : Bool} {s : World} :
    (persistContract w).wp i (NonceManager.reserve persist) (fun _ _ => True) s := by
  refine Contract.wp_call_seq (fun n s => n ∈ s.nonce.handedOut) .true ?_ ?_ trivial
  · refine persist_triple .fetchAdd (fun s _ _ persisting => ⟨persisting.last, ?_⟩) fun s _ _ => ?_
    · intro v written
      obtain ⟨m, out, same⟩ := persisting.known v written
      exact ⟨m, List.mem_append_left _ out, same⟩
    · exact List.mem_append_right _ (List.mem_singleton_self _)
  · intro n s out
    cases persist with
    | false => exact trivial
    | true =>
        refine Contract.wp_call_seq (fun _ _ => True) stable_handedOut ?_ (fun _ _ _ => trivial) out
        intro s inv out fresh _ _ _ _ did
        cases did
        refine ⟨⟨inv, fun _ out => out, ?_⟩, trivial⟩
        intro j t started
        cases j with
        | zero =>
            cases started
            exact out
        | succ j => cases started

theorem resync_wp {i : Tid} {s : World} :
    (persistContract w).wp i NonceManager.resync (fun _ _ => True) s := by
  refine Contract.wp_call_seq (fun _ _ => True) .true ?_ ?_ trivial
  · intro s inv _ fresh _ _ _ _ did
    cases did
    exact ⟨.quiet inv (fun _ out => out) rfl, trivial⟩
  · intro reply s _
    cases reply with
    | none => exact trivial
    | some chain =>
        refine Contract.wp_call_seq (fun _ _ => True) .true ?_ ?_ trivial
        · exact persist_triple .load (fun _ _ _ persisting => persisting) fun _ _ _ => trivial
        · intro loaded s _
          refine Contract.wp_call_seq (fun _ _ => True) .true ?_ (fun _ _ _ => trivial) trivial
          exact persist_triple (.store chain loaded)
            (fun _ _ _ persisting => ⟨persisting.last, persisting.known⟩) fun _ _ _ => trivial

/-- Every task keeps the persistence contract. -/
theorem persist_bodies (t : Task) (i : Tid) (s : World) (pre : (persistContract w).pre t i s) :
    (persistContract w).wp i (w.body t) ((persistContract w).post t i) s := by
  cases t with
  | persistNonce n => exact Contract.wp_seq _ (persistNonce_wp pre) fun _ _ _ => trivial
  | reserve => exact Contract.wp_seq _ reserve_wp fun _ _ _ => trivial
  | resync => exact Contract.wp_seq _ resync_wp fun _ _ _ => trivial
  | _ => exact pre.elim

/-- A restart starts above every nonce handed out exactly if the file holds the
successor of the largest. -/
theorem Persisting.restart_iff {n : NonceState} (persisting : Persisting n)
    (completed : ∀ m ∈ n.handedOut, m + 1 ∈ n.written) :
    (∀ chain, ∀ m ∈ n.handedOut, m < (NonceManager.new chain n.file).current) ↔
      LastWriteOfLargest n := by
  have succ : ∀ m : UInt64, (m + 1).toNat = (m.toNat + 1) % 2 ^ 64 := fun m => UInt64.toNat_add m 1
  simp only [UInt64.lt_iff_toNat_lt, NonceManager.new, toNat_max_u64]
  constructor
  · intro above
    rcases List.eq_nil_or_concat n.written with none_ | ⟨before, v, some_⟩
    · refine .inl (List.eq_nil_iff_forall_not_mem.2 fun m out => ?_)
      have done := completed m out
      rw [none_] at done
      cases done
    · have last : n.written.getLast? = some v := by simp [some_]
      have file : n.file = some v := by
        rcases persisting.last with none_ | same
        · simp [none_] at last
        · exact same.trans last
      obtain ⟨m, out, rfl⟩ := persisting.known v (by simp [some_])
      have bound : ∀ k ∈ n.handedOut, k.toNat < (m + 1).toNat := by
        intro k handed
        simpa [file] using above 0 k handed
      -- the successor of `m` is above `m`, so it did not wrap
      have room : m.toNat + 1 < 2 ^ 64 := by
        have := bound m out
        have := m.toNat_lt
        rw [succ] at *
        omega
      refine .inr ⟨m, out, fun k handed => ?_, room, last⟩
      have := bound k handed
      rw [succ, Nat.mod_eq_of_lt room] at this
      rw [UInt64.le_iff_toNat_le]
      omega
  · rintro (none_ | ⟨m, _, largest, room, last⟩) chain k handed
    · rw [none_] at handed
      cases handed
    · have file : n.file = some (m + 1) := by
        rcases persisting.last with none_ | same
        · simp [none_] at last
        · exact same.trans last
      have le := UInt64.le_iff_toNat_le.1 (largest k handed)
      rw [file, Option.getD_some, succ, Nat.mod_eq_of_lt room]
      omega

/-- In every interleaving of `reserve` and `resync` calls, once the writes of all nonces handed out
have completed, a restart starts above every one of them, whatever the chain reports, exactly if the
last write to complete is the one of the largest. -/
theorem restart_above_iff (chain : UInt64) (file : Option UInt64) (tasks : List Task)
    (calls : ∀ t ∈ tasks, t = .reserve ∨ t = .resync) (c : LiveConfig)
    (run : w.machine.Run w.machine.anyStep (w.machine.start (World.boot chain file) tasks) c)
    (completed : ∀ n ∈ c.shared.nonce.handedOut, n + 1 ∈ c.shared.nonce.written) :
    (∀ chain, ∀ n ∈ c.shared.nonce.handedOut,
        n < (NonceManager.new chain c.shared.nonce.file).current) ↔
      LastWriteOfLargest c.shared.nonce := by
  have persisting : Persisting c.shared.nonce := by
    refine ((persistContract w).sound (fun t i s _ pre => persist_bodies t i s pre) ?_ ?_ run).inv
    · exact ⟨.inl rfl, fun v written => by cases written⟩
    · intro i t found
      rcases calls t (List.mem_of_getElem? found) with rfl | rfl <;> trivial
  exact persisting.restart_iff completed

/-- Two nonces are handed out and the write of the second completes before the write of the first: a
restart with a stale chain value starts at the second. -/
theorem restart_repeats :
    ∃ c, (scenario true).machine.Run (scenario true).machine.anyStep
        ((scenario true).machine.start (World.boot 5 none) [.reserve, .reserve]) c ∧
      c.Quiet ∧ (∀ n ∈ c.shared.nonce.handedOut, n + 1 ∈ c.shared.nonce.written) ∧
      ¬ ∀ n ∈ c.shared.nonce.handedOut, n < (NonceManager.new 5 c.shared.nonce.file).current := by
  let r : Replies := {}
  exact Machine.exists_run_of_follow [(0, 2, r.ans), (1, 2, r.ans), (3, 1, r.ans), (2, 1, r.ans)]
    (by decide +kernel)

theorem restart_above_two :
    ∃ c, (scenario true).machine.Run (scenario true).machine.anyStep
        ((scenario true).machine.start (World.boot 5 none) [.reserve, .reserve]) c ∧
      c.shared.nonce.file = some 7 ∧
      ((∀ chain, ∀ n ∈ c.shared.nonce.handedOut,
          n < (NonceManager.new chain c.shared.nonce.file).current) ↔
        LastWriteOfLargest c.shared.nonce) := by
  let r : Replies := {}
  obtain ⟨c, run, file, completed⟩ : ∃ c, (scenario true).machine.Run
      (scenario true).machine.anyStep
      ((scenario true).machine.start (World.boot 5 none) [.reserve, .reserve]) c ∧
      c.shared.nonce.file = some 7 ∧
      ∀ n ∈ c.shared.nonce.handedOut, n + 1 ∈ c.shared.nonce.written :=
    Machine.exists_run_of_follow [(0, 2, r.ans), (1, 2, r.ans), (2, 1, r.ans), (3, 1, r.ans)]
      (by decide +kernel)
  exact ⟨c, run, file, restart_above_iff 5 none [.reserve, .reserve] (by simp) c run completed⟩

end BscMempool.Trader
