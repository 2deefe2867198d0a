/-
Module: BscMempool.Proofs.HeldMirror
Layer: Proofs
Purpose: When the shared held-token set has the tokens of the paper trader's book, and a run in
  which it loses one because a close drops a token that was bought again since.
Trusted boundary: none
Main exports: keepsHeld, held_mirrors_book, held_set_loses_token
-/
import BscMempool.Proofs.PaperProtocol
import BscMempool.Proofs.PaperScenario

namespace BscMempool.Trader

open Concurrent (Tid Machine Outcome Protocol)
open PaperExecutor (phaseAt phaseAt_own phaseAt_other)

/-- Some other task has changed the book for a token and is still to set the held set. -/
def othersOn {x : PaperExecutor} (i : Tid) (token : Address) (h : List x.machine.Event) : Bool :=
  h.any fun e => decide (e.tid ≠ i ∧ (phaseAt e.tid h).errand = some token)

/-- The steps that keep the held set true to the book: a token is registered while a portfolio holds
it and dropped while none does, or another task is still to set it. -/
def keepsHeld {x : PaperExecutor} (i : Tid) (o : PaperOp) (_ : o.Ans)
    (s : PaperWorld × List x.machine.Event) : Bool :=
  match o with
  | .heldInsert token _ => s.1.book.holds token || othersOn i token s.2
  | .heldRemove token => !s.1.book.holds token || othersOn i token s.2
  | _ => true

instance {x : PaperExecutor} (i : Tid) (o : PaperOp) (a : x.machine.recording.Ans o)
    (s : PaperWorld × List x.machine.Event) : Decidable (keepsHeld i o a s = true) :=
  decEq (keepsHeld i o a s) true

/-- The held set has the tokens of the book, but for those that some task is still to set. -/
def Mirrored {x : PaperExecutor} (s : PaperWorld × List x.machine.Event) : Prop :=
  ∀ token, (∀ i, (phaseAt i s.2).errand ≠ some token) →
    (token ∈ s.1.held ↔ s.1.book.holds token = true)

namespace HeldMirror

variable {x : PaperExecutor} {i : Tid} {w : PaperWorld} {h : List x.machine.Event}

/-! ### The start -/

/-- The executor starts with the tokens of its book. -/
theorem mirrored_new (book : PositionBook) (budgets : KolBudgets) :
    Mirrored (x := x) (PaperExecutor.new book budgets, []) := by
  intro token _
  have built : ∀ (ps : List OpenPosition) (held : AList fun _ : Address => HeldMeta),
      token ∈ ps.foldl (fun held p => held.insert p.tokenAddress {
        kolName := p.kolName
        symbol := p.tokenSymbol
        enteredBlock := p.openedAtBlock
        enteredUnixNs := p.openedAtUnixNs
        bnbInWei := u128OfU256 p.bnbIn : HeldMeta }) held ↔
        token ∈ held ∨ ∃ p ∈ ps, p.tokenAddress = token := by
    intro ps
    induction ps with
    | nil => simp
    | cons p rest ih =>
        intro held
        rw [List.foldl_cons, ih]
        simp [AList.mem_insert, eq_comm, or_assoc, or_left_comm]
  refine (built book.snapshot ∅).trans ?_
  rw [PositionBook.holds_iff]
  constructor
  · rintro (none_ | ⟨p, member, own⟩)
    · exact absurd none_ (AList.notMem_empty _)
    · obtain ⟨⟨key, q⟩, there, rfl⟩ := List.mem_map.1 member
      have found : book.get key = some q := AList.mem_lookup_iff.2 there
      have keyed : q.key = key := PositionBook.key_of_get found
      refine ⟨key, ?_, Option.isSome_iff_exists.2 ⟨q, found⟩⟩
      rw [← keyed]
      exact own
  · rintro ⟨key, own, there⟩
    obtain ⟨p, found⟩ := Option.isSome_iff_exists.1 there
    have keyed : p.key = key := PositionBook.key_of_get found
    have member : p ∈ book.snapshot := List.mem_map.2 ⟨⟨key, p⟩, AList.mem_lookup_iff.1 found, rfl⟩
    refine .inr ⟨p, member, ?_⟩
    rw [← own, ← keyed]
    rfl

/-! ### Steps -/

/-- The operations that change neither which tokens are in the book nor the held set,
and begin no errand. -/
def steady : PaperOp → Prop
  | .openAll _ | .remove .. | .shrink .. | .heldInsert .. | .heldRemove _ => False
  | _ => True

theorem steady_exec {o : PaperOp} (kind : steady o) {a : o.Ans}
    {out : Outcome PaperWorld PaperTask o.Res}
    (did : o.exec i a w = some out) : out.shared.book = w.book ∧ out.shared.held = w.held := by
  have frame := (PaperOp.exec_frame did).1
  constructor
  · apply frame.book
    cases o <;> first | exact kind.elim | exact id
  · apply frame.held
    cases o <;> first | exact kind.elim | exact id

theorem steady_errand {o : PaperOp} (kind : steady o) (q : PaperPhase) (result : o.Res) :
    (x.order.next q o result).errand = q.errand := by
  cases o <;> first | rfl | exact kind.elim

/-- Buying a token changes no other token. -/
theorem holds_openAll {fill : Fill} {nowNs : Nat} {token : Address} (other : fill.token ≠ token) :
    (PortfolioMode.ALL.foldl (fun w mode => w.openIn fill nowNs i mode) w).book.holds token =
      w.book.holds token := by
  have opened : ∀ (modes : List PortfolioMode) (w : PaperWorld),
      (modes.foldl (fun w mode => w.openIn fill nowNs i mode) w).book.holds token =
        w.book.holds token := by
    intro modes
    induction modes with
    | nil => exact fun _ => rfl
    | cons mode rest ih =>
        intro w
        rw [List.foldl_cons, ih]
        apply PositionBook.holds_congr
        intro key own
        have ne : key ≠ ⟨mode, fill.kolName, fill.token⟩ := by
          rintro rfl
          exact other own
        simp [isSome_get_openIn, ne]
  exact opened _ w

theorem held_openAll {fill : Fill} {nowNs : Nat} :
    (PortfolioMode.ALL.foldl (fun w mode => w.openIn fill nowNs i mode) w).held = w.held := rfl

/-- A removal changes no other token, and none if some portfolio still holds the token. -/
theorem holds_remove {key : PositionKey} {token : Address}
    (kept : key.token = token → (w.book.remove key).holds token = true) :
    (w.book.remove key).holds token = w.book.holds token := by
  by_cases same : key.token = token
  · rw [kept same]
    obtain ⟨other, own, there⟩ := PositionBook.holds_iff.1 (kept same)
    rw [PositionBook.get_remove] at there
    split at there
    · cases there
    · exact (PositionBook.holds_iff.2 ⟨other, own, there⟩).symm
  · apply PositionBook.holds_congr
    rintro other rfl
    rw [PositionBook.get_remove, if_neg]
    rintro rfl
    exact same rfl

/-- A partial close leaves every position in the book. -/
theorem holds_shrink {key : PositionKey} {tokens bnb : U256} {token : Address} :
    (w.book.shrink key tokens bnb).holds token = w.book.holds token :=
  PositionBook.holds_congr fun _ _ => PositionBook.isSome_get_shrink

/-- What no task has left to set after a step, no task but perhaps the one that moved had before. -/
theorem free_before {token : Address} {o : PaperOp} {a : o.Ans} {res : o.Res}
    (free : ∀ j, (phaseAt j ((⟨i, o, a, res⟩ : x.machine.Event) :: h)).errand ≠ some token)
    (own : (phaseAt i h).errand ≠ some token) (j : Tid) : (phaseAt j h).errand ≠ some token := by
  by_cases same : j = i
  · rw [same]
    exact own
  · have later := free j
    rw [phaseAt_other same] at later
    exact later

/-- A task that is still to set a token has made an operation. -/
theorem not_othersOn {token : Address} :
    othersOn i token h = false ↔ ∀ j, j ≠ i → (phaseAt j h).errand ≠ some token := by
  simp only [othersOn, List.any_eq_false, decide_eq_true_eq, not_and]
  constructor
  · intro none_
    exact Protocol.forall_phase (R := fun j (q : PaperPhase) => j ≠ i → q.errand ≠ some token) none_
      fun _ _ errand => by cases errand
  · exact fun others e _ ne => others e.tid ne

/-- A step that keeps the held set true to the book. -/
theorem mirrored_step {o : PaperOp} {a : o.Ans} {out : Outcome PaperWorld PaperTask o.Res}
    (mirrored : Mirrored (w, h)) (allowed : x.order.allows (phaseAt i h) o)
    (keeps : keepsHeld i o a (w, h) = true) (did : o.exec i a w = some out) :
    Mirrored (x := x) (out.shared, ⟨i, o, a, out.res⟩ :: h) := by
  intro token free
  have later : (x.order.next (phaseAt i h) o out.res).errand ≠ some token := by
    have now := free i
    rw [phaseAt_own] at now
    exact now
  have others : ∀ j, j ≠ i → (phaseAt j h).errand ≠ some token := by
    intro j ne
    have now := free j
    rw [phaseAt_other ne] at now
    exact now
  cases o with
  | openAll fill =>
      cases did
      have ne : fill.token ≠ token := fun same => later (congrArg some same)
      have idle : (phaseAt i h).errand = none := allowed.1
      have before := mirrored token (free_before free (by rw [idle]; simp))
      dsimp only
      rw [holds_openAll ne, held_openAll]
      exact before
  | remove key sized =>
      cases did
      have idle : (phaseAt i h).errand = none := allowed
      have before := mirrored token (free_before free (by rw [idle]; simp))
      have kept : key.token = token → (w.book.remove key).holds token = true := by
        rintro rfl
        by_contra gone
        exact later (if_neg gone)
      dsimp only [PaperWorld.settled]
      rw [holds_remove kept]
      exact before
  | shrink key tokens bnb sized =>
      cases did
      have idle : (phaseAt i h).errand = none := allowed
      have before := mirrored token (free_before free (by rw [idle]; simp))
      dsimp only [PaperWorld.settled]
      rw [holds_shrink]
      exact before
  | heldInsert inserted info =>
      cases did
      have own : (phaseAt i h).errand = some inserted := allowed
      dsimp only
      rw [AList.mem_insert]
      by_cases same : token = inserted
      · subst same
        rw [keepsHeld, not_othersOn.2 others, Bool.or_false] at keeps
        simp [keeps]
      · have before := mirrored token (free_before free (by rw [own]; simpa using Ne.symm same))
        simp only [same, false_or]
        exact before
  | heldRemove removed =>
      cases did
      have own : (phaseAt i h).errand = some removed := allowed
      dsimp only
      rw [AList.mem_erase]
      by_cases same : token = removed
      · subst same
        rw [keepsHeld, not_othersOn.2 others, Bool.or_false, Bool.not_eq_true'] at keeps
        simp [keeps]
      · have before := mirrored token (free_before free (by rw [own]; simpa using Ne.symm same))
        simp only [ne_eq, same, not_false_eq_true, true_and]
        exact before
  | _ =>
      obtain ⟨book, held⟩ := steady_exec (by trivial) did
      rw [steady_errand (by trivial)] at later
      have before := mirrored token (free_before free later)
      dsimp only
      rw [book, held]
      exact before

/-- Any other step leaves the held set untrue to the book. -/
theorem not_mirrored_of_late {o : PaperOp} {a : o.Ans} {out : Outcome PaperWorld PaperTask o.Res}
    (late : keepsHeld i o a (w, h) = false) (did : o.exec i a w = some out) :
    ¬ Mirrored (x := x) (out.shared, ⟨i, o, a, out.res⟩ :: h) := by
  intro mirrored
  have free : ∀ {token : Address}, othersOn i token h = false →
      (x.order.next (phaseAt i h) o out.res).errand = none →
      ∀ j, (phaseAt j ((⟨i, o, a, out.res⟩ : x.machine.Event) :: h)).errand ≠ some token := by
    intro token none_ own j
    by_cases same : j = i
    · rw [same, phaseAt_own, own]
      simp
    · rw [phaseAt_other same]
      exact not_othersOn.1 none_ j same
  cases o with
  | heldInsert token info =>
      cases did
      simp only [keepsHeld, Bool.or_eq_false_iff] at late
      have both := mirrored token (free late.2 rfl)
      simp [late.1] at both
  | heldRemove token =>
      cases did
      simp only [keepsHeld, Bool.or_eq_false_iff, Bool.not_eq_false'] at late
      have both := mirrored token (free late.2 rfl)
      simp [late.1, AList.mem_erase] at both
  | _ => cases late

end HeldMirror

/-- In every run of consumers and sweepers whose steps keep the held set true to the book, the held
set has the tokens of the book: at every moment but for the tokens that some task is still to set,
and all of them once the tasks have returned. -/
theorem held_mirrors_book {x : PaperExecutor} (book : PositionBook) (budgets : KolBudgets)
    (tasks : List PaperTask) (c : x.PastConfig)
    (run : x.machine.recording.Run (fun i o a s => keepsHeld i o a s)
      (x.machine.recording.start (PaperExecutor.new book budgets, []) tasks) c) :
    Mirrored c.shared ∧
      (c.Quiet → ∀ token, token ∈ c.shared.1.held ↔ c.shared.1.book.holds token = true) := by
  have mirrored : Mirrored c.shared := by
    apply Machine.invariant_of_obeyed (I := Mirrored) PaperExecutor.body_obeys _ run
    · exact HeldMirror.mirrored_new book budgets
    · intro i fresh t o a s out mirrored _ allowed meets did
      exact HeldMirror.mirrored_step mirrored allowed meets did
  constructor
  · exact mirrored
  · intro quiet token
    apply mirrored token
    intro i
    rw [(PaperExecutor.idle_of_quiet (PaperExecutor.orderly_of_run run) quiet i).2]
    simp

theorem held_mirrors_book_bought :
    ∃ c, (paperScenario none).machine.recording.Run (fun i o a s => keepsHeld i o a s)
        ((paperScenario none).machine.recording.start (PaperExecutor.new .empty ∅, [])
          [.consumer [paperBuy, paperBuy], .sweeper 0 1]) c ∧
      c.Quiet ∧ 0x4444#160 ∈ c.shared.1.held := by
  let r : PaperReplies := { quote := v2Quote 1000, order := [paperKey] }
  obtain ⟨c, run, quiet, holds⟩ : ∃ c,
      (paperScenario none).machine.recording.Run (fun i o a s => keepsHeld i o a s)
        ((paperScenario none).machine.recording.start (PaperExecutor.new .empty ∅, [])
          [.consumer [paperBuy, paperBuy], .sweeper 0 1]) c ∧
      c.Quiet ∧ c.shared.1.book.holds 0x4444#160 = true :=
    Machine.exists_run_of_follow [(0, 11, r.ans), (1, 11, r.ans), (0, 11, r.ans)]
      (by decide +kernel)
  have mirrors := held_mirrors_book .empty ∅ _ c run
  exact ⟨c, run, quiet, (mirrors.2 quiet _).2 holds⟩

/-- The sweeper removes the last position on a token, the consumer buys the token
again and registers it, and the sweeper then drops it: the book holds a token that the
held set does not have. -/
theorem held_set_loses_token :
    ∃ c, (paperScenario none).machine.recording.Run (paperScenario none).machine.recording.anyStep
        ((paperScenario none).machine.recording.start (PaperExecutor.new .empty ∅, [])
          [.consumer [paperBuy, paperBuy], .sweeper 0 1]) c ∧
      c.Quiet ∧ c.shared.1.book.holds 0x4444#160 = true ∧ 0x4444#160 ∉ c.shared.1.held := by
  let r : PaperReplies := { quote := v2Quote 1000, order := [paperKey] }
  exact Machine.exists_run_of_follow (C := (paperScenario none).machine.recording.anyStep)
    [(0, 11, r.ans), (1, 9, r.ans), (0, 11, r.ans), (1, 2, r.ans)] (by decide +kernel)

end BscMempool.Trader
