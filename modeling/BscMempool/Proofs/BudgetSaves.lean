/-
Module: BscMempool.Proofs.BudgetSaves
Layer: Proofs
Purpose: When the budget file holds the newest map that was saved, whole, and a run in which an
  older map replaces a newer one because its save was overtaken.
Trusted boundary: none
Main exports: saves, newest, savesInOrder, budget_file_newest, older_budgets_persisted
-/
import BscMempool.Concurrent.Protocol
import BscMempool.Trader.KolBudgetFile

namespace BscMempool.Trader

open Concurrent (Tid Machine Outcome Proc Protocol Config)
open Concurrent.Proc
open Storage (Directory)

/-! ### The saves of a history -/

/-- A save that has taken its snapshot. -/
structure Save where
  tid : Tid
  map : KolBudgets
  completed : Bool

/-- The latest save of a task has renamed its file. -/
def complete (i : Tid) : List Save → List Save
  | [] => []
  | s :: rest => if s.tid = i then { s with completed := true } :: rest else s :: complete i rest

section History

variable {limits : KolBudgetBook} {json : BudgetJson}

/-- The saves, that with the latest snapshot first. -/
def saves : List (limits.machine json).Event → List Save
  | [] => []
  | ⟨i, .snapshot, _, map⟩ :: older => ⟨i, map, false⟩ :: saves older
  | ⟨i, .rename, _, renamed⟩ :: older =>
      if renamed = true then complete i (saves older) else saves older
  | _ :: older => saves older

/-- The save with the latest snapshot among those that were completed. -/
def newest (h : List (limits.machine json).Event) : Option Save := (saves h).find? Save.completed

/-- A save with a later snapshot than the latest of a task was completed. -/
def overtaken (i : Tid) : List Save → Bool
  | [] => false
  | s :: rest => if s.tid = i then false else s.completed || overtaken i rest

/-- How far a task's save is. -/
inductive SavePhase where
  | idle
  | snapped (map : KolBudgets)
  | encoded (map : KolBudgets) (text : List UInt8)
  | writing (map : KolBudgets) (text : List UInt8) (file done : Nat)

/-- A save is between the creation of the temporary file and its rename. -/
def SavePhase.isWriting : SavePhase → Bool
  | .writing .. => true
  | _ => false

/-- The map of the save that is under way. -/
def SavePhase.map : SavePhase → Option KolBudgets
  | .idle => none
  | .snapped map => some map
  | .encoded map _ => some map
  | .writing map _ _ _ => some map

/-- The text of the save that is under way, once there is one. -/
def SavePhase.text : SavePhase → Option (List UInt8)
  | .encoded _ text => some text
  | .writing _ text _ _ => some text
  | _ => none

/-- The order of a task's operations: a save writes its text in pieces, each on from the one before,
and renames the file when nothing is left. -/
def saveOrder : Protocol BudgetSig SavePhase where
  allows
    | .idle, .tryReserve _ => True
    | .idle, .creditClose .. => True
    | .idle, .snapshot => True
    | .snapped map, .toVecPretty snap => snap = map
    | .encoded _ _, .create => True
    | .writing _ text file done, .write handle offset bytes =>
        handle = file ∧ offset = done ∧ bytes = text.drop done
    | .writing _ text _ done, .rename => text.length ≤ done
    | _, _ => False
  next
    | _, .snapshot, map => .snapped map
    | .snapped map, .toVecPretty _, some text => .encoded map text
    | .encoded map text, .create, some file => .writing map text file 0
    | .writing map text file done, .write .., some (n + 1) =>
        .writing map text file (done + (n + 1))
    | q, .tryReserve _, _ => q
    | q, .creditClose .., _ => q
    | _, _, _ => .idle

/-- How far the save of the task at `i` is, by what it did. -/
def saveAt (i : Tid) (h : List (limits.machine json).Event) : SavePhase := saveOrder.phase i .idle h

/-- The steps that keep saves in order: the temporary file is created while no other save writes it,
for a snapshot that no completed save has overtaken. -/
def savesInOrder (i : Tid) (o : BudgetOp) (_ : o.Ans)
    (s : BudgetWorld × List (limits.machine json).Event) :
    Bool :=
  match o with
  | .create =>
      !(s.2.any fun e => decide (e.tid ≠ i) && (saveAt e.tid s.2).isWriting) && !overtaken i
        (saves s.2)
  | _ => true

instance (i : Tid) (o : BudgetOp) (a : (limits.machine json).recording.Ans o)
    (s : BudgetWorld × List (limits.machine json).Event) :
    Decidable (savesInOrder i o a s = true) :=
  decEq (savesInOrder i o a s) true

end History

namespace BudgetSaves

variable {limits : KolBudgetBook} {json : BudgetJson}

/-! ### Lists of saves -/

section Lists

variable {i j : Tid} {l : List Save}

theorem find_complete_other (ne : j ≠ i) :
    (complete i l).find? (fun s => decide (s.tid = j)) = l.find? fun s => decide (s.tid = j) := by
  induction l with
  | nil => rfl
  | cons s rest ih =>
      rw [complete]
      split
      · rename_i own
        have other : s.tid ≠ j := fun same => ne (same.symm.trans own)
        simp [other]
      · simp only [List.find?_cons, ih]

/-- A save that was not overtaken is the newest when it is completed. -/
theorem find_complete {map : KolBudgets}
    (latest : l.find? (fun s => decide (s.tid = i)) = some ⟨i, map, false⟩)
    (first : overtaken i l = false) :
    (complete i l).find? Save.completed = some ⟨i, map, true⟩ := by
  induction l with
  | nil => cases latest
  | cons s rest ih =>
      rw [overtaken] at first
      rw [complete]
      split
      · rename_i own
        simp only [List.find?_cons, own, decide_true, Option.some.injEq] at latest
        subst latest
        rfl
      · rename_i other
        simp only [if_neg other, Bool.or_eq_false_iff] at first
        simp only [List.find?_cons, other, decide_false] at latest
        simp only [List.find?_cons, first.1]
        exact ih latest first.2

end Lists

/-! ### The tasks keep to the order -/

/-- Bytes that are left are written on from where the last write stopped. -/
theorem writeAll_obeys (map : KolBudgets) (text : List UInt8) (file left done : Nat)
    (enough : text.length ≤ done + left) :
    (KolBudgetBook.writeAll file left done (text.drop done)).Obeys saveOrder
      (fun q (wrote : Bool) =>
      if wrote = true then ∃ done', text.length ≤ done' ∧ q = .writing map text file done'
      else q = .idle)
      (.writing map text file done) := by
  induction left generalizing done with
  | zero =>
      have nothing : text.drop done = [] := List.drop_eq_nil_of_le enough
      rw [nothing]
      exact ⟨done, enough, rfl⟩
  | succ left ih =>
      cases rest : text.drop done with
      | nil => exact ⟨done, List.drop_eq_nil_iff.1 rest, rfl⟩
      | cons byte bytes =>
          rw [KolBudgetBook.writeAll]
          have allowed : saveOrder.allows (.writing map text file done)
              (.write file done (byte :: bytes)) :=
            ⟨rfl, rfl, rest.symm⟩
          apply Obeys.call allowed
          intro written
          match written with
          | none => exact rfl
          | some 0 => exact rfl
          | some (n + 1) =>
              have more := ih (done + (n + 1)) (by omega)
              rw [← List.drop_drop, rest] at more
              exact more

theorem save_obeys : KolBudgetBook.save.Obeys saveOrder (fun q _ => q = .idle) .idle := by
  apply Obeys.call trivial
  intro snap
  apply Obeys.call rfl
  intro body
  cases body with
  | none => exact rfl
  | some body =>
      apply Obeys.call trivial
      intro opened
      cases opened with
      | none => exact rfl
      | some file =>
          have written := writeAll_obeys snap body file body.length 0 (Nat.le_add_left _ _)
          apply Obeys.bind written
          intro q wrote ended
          cases wrote with
          | false => exact ended
          | true =>
              obtain ⟨done, whole, rfl⟩ := ended
              exact Obeys.call (f := .ret) whole fun _ => rfl

theorem calls_obeys (t : List BudgetCall) :
    ((limits.machine json).body t).Obeys saveOrder (fun q _ => q = .idle) .idle := by
  change (KolBudgetBook.calls t).Obeys saveOrder (fun q _ => q = .idle) .idle
  induction t with
  | nil => exact rfl
  | cons first rest ih =>
      have one : (KolBudgetBook.call first).Obeys saveOrder (fun q _ => q = .idle) .idle := by
        cases first with
        | tryReserve kolName => exact Obeys.call trivial fun _ => rfl
        | creditClose kolName bnbIn bnbOut => exact Obeys.call (f := .ret) trivial fun _ => rfl
        | save => exact save_obeys.bind fun q _ ended => ended
      apply one.bind
      rintro q _ rfl
      exact ih

/-! ### What the saves keep -/

variable {i j : Tid} {w w' : BudgetWorld} {h : List (limits.machine json).Event} {l l' : List Save}
  {q : SavePhase} {initial : Option (List UInt8)}

/-- What is known of a save under way: its map is the latest that its task took and not completed,
its text is the map's, and once it writes, the temporary file is its own, holds what it has written,
and no completed save has overtaken it. -/
structure Underway (json : BudgetJson) (w : BudgetWorld) (l : List Save) (j : Tid) (q : SavePhase) :
    Prop where
  latest : ∀ map, q.map = some map → l.find? (fun s => decide (s.tid = j)) = some ⟨j, map, false⟩
  encodes : ∀ map text, q.map = some map → q.text = some text → json.toVecPretty map = some text
  written : ∀ map text file done, q = .writing map text file done → w.files.tmp = some file ∧
    w.files.contents[file]? = some (text.take done) ∧ done ≤ text.length ∧ overtaken j l = false

/-- The target holds the newest completed save, whole, or what it held at the start. -/
structure Persisted (json : BudgetJson) (initial : Option (List UInt8)) (w : BudgetWorld)
    (l : List Save) :
    Prop where
  whole : ∀ s, l.find? Save.completed = some s → (json.toVecPretty s.map).isSome = true ∧
    w.files.readTarget = json.toVecPretty s.map
  untouched : l.find? Save.completed = none → w.files.readTarget = initial

/-- What saves that are in order keep. -/
structure Kept (initial : Option (List UInt8))
    (s : BudgetWorld × List (limits.machine json).Event) : Prop where
  underway : ∀ j, Underway json s.1 (saves s.2) j (saveAt j s.2)
  alone : ∀ j k, (saveAt j s.2).isWriting = true → (saveAt k s.2).isWriting = true → j = k
  persisted : Persisted json initial s.1 (saves s.2)

theorem Underway.idle : Underway json w l j .idle where
  latest _ none_ := by cases none_
  encodes _ _ none_ := by cases none_
  written _ _ _ _ none_ := by cases none_

/-- A save that does not write does not depend on the files. -/
theorem Underway.elsewhere (under : Underway json w l j q) (still : q.isWriting = false) :
    Underway json w' l j q where
  latest := under.latest
  encodes := under.encodes
  written map text file done writing := by
    rw [writing] at still
    cases still

/-- Another task's snapshot changes nothing for a save. -/
theorem Underway.after_snapshot (under : Underway json w l j q) (ne : j ≠ i) {map : KolBudgets} :
    Underway json w (⟨i, map, false⟩ :: l) j q where
  latest m there := by
    simp only [List.find?_cons, Ne.symm ne, decide_false]
    exact under.latest m there
  encodes := under.encodes
  written m text file done writing := by
    obtain ⟨tmp, content, within, first⟩ := under.written m text file done writing
    refine ⟨tmp, content, within, ?_⟩
    simp [overtaken, Ne.symm ne, first]

/-- Another task's rename changes nothing for a save that does not write. -/
theorem Underway.after_rename (under : Underway json w l j q) (ne : j ≠ i)
    (still : q.isWriting = false) :
    Underway json w' (complete i l) j q where
  latest m there := by
    rw [find_complete_other ne]
    exact under.latest m there
  encodes := under.encodes
  written map text file done writing := by
    rw [writing] at still
    cases still

theorem saveAt_own {o : BudgetOp} {a : o.Ans} {res : o.Res} :
    saveAt i ((⟨i, o, a, res⟩ : (limits.machine json).Event) :: h) =
      saveOrder.next (saveAt i h) o res :=
  Protocol.phase_own rfl

theorem saveAt_other (ne : j ≠ i) {o : BudgetOp} {a : o.Ans} {res : o.Res} :
    saveAt j ((⟨i, o, a, res⟩ : (limits.machine json).Event) :: h) = saveAt j h :=
  Protocol.phase_other (Ne.symm ne)

/-- The step of one task, from what it means for the task and what for the others. -/
theorem Kept.of_step {o : BudgetOp} {a : o.Ans} {res : o.Res} (kept : Kept initial (w, h))
    (own : Underway json w' (saves ((⟨i, o, a, res⟩ : (limits.machine json).Event) :: h)) i
      (saveOrder.next (saveAt i h) o res))
    (others : ∀ j, j ≠ i →
      Underway json w' (saves ((⟨i, o, a, res⟩ : (limits.machine json).Event) :: h)) j (saveAt j h))
    (alone : (saveOrder.next (saveAt i h) o res).isWriting = true → ∀ j, j ≠ i →
      (saveAt j h).isWriting = false)
    (persisted :
    Persisted json initial w' (saves ((⟨i, o, a, res⟩ : (limits.machine json).Event) :: h))) :
    Kept initial (w', ⟨i, o, a, res⟩ :: h) := by
  constructor
  · intro j
    by_cases same : j = i
    · subst same
      rw [saveAt_own]
      exact own
    · rw [saveAt_other same]
      exact others j same
  · intro j k first second
    by_cases left : j = i <;> by_cases right : k = i
    · rw [left, right]
    · subst left
      rw [saveAt_own] at first
      rw [saveAt_other right, alone first k right] at second
      cases second
    · subst right
      rw [saveAt_own] at second
      rw [saveAt_other left, alone second j left] at first
      cases first
    · rw [saveAt_other left] at first
      rw [saveAt_other right] at second
      exact kept.alone j k first second
  · exact persisted

/-- While one task writes, no other does. -/
theorem Kept.others_still (kept : Kept initial (w, h)) (writing : (saveAt i h).isWriting = true)
    (ne : j ≠ i) :
    (saveAt j h).isWriting = false := by
  by_contra both
  exact ne (kept.alone j i (Bool.eq_true_of_not_eq_false both) writing)

/-- What changes neither the files nor the saves, for a task that writes nothing after it. -/
theorem Kept.quiet {o : BudgetOp} {a : o.Ans} {res : o.Res} (kept : Kept initial (w, h))
    (files : w'.files = w.files)
    (same : saves ((⟨i, o, a, res⟩ : (limits.machine json).Event) :: h) = saves h)
    (own : Underway json w (saves h) i (saveOrder.next (saveAt i h) o res))
    (still : (saveOrder.next (saveAt i h) o res).isWriting = false) :
    Kept initial (w', ⟨i, o, a, res⟩ :: h) := by
  apply kept.of_step
  · rw [same]
    exact own.elsewhere still
  · intro j _
    rw [same]
    constructor
    · exact (kept.underway j).latest
    · exact (kept.underway j).encodes
    · rw [files]
      exact (kept.underway j).written
  · intro writing
    rw [still] at writing
    cases writing
  · rw [same]
    constructor
    · rw [files]
      exact kept.persisted.whole
    · rw [files]
      exact kept.persisted.untouched

/-- A snapshot begins a save. -/
theorem kept_snapshot {a : Unit} (kept : Kept initial (w, h)) :
    Kept initial (w, (⟨i, .snapshot, a, w.inner⟩ : (limits.machine json).Event) :: h) := by
  apply kept.of_step
  · constructor
    · rintro map ⟨⟩
      simp [saves]
    · intro map text _ none_
      cases none_
    · intro map text file done none_
      cases none_
  · intro j ne
    exact (kept.underway j).after_snapshot ne
  · intro writing
    cases writing
  · exact ⟨kept.persisted.whole, kept.persisted.untouched⟩

/-- A text is written for the map of the snapshot. -/
theorem kept_toVecPretty {snap : KolBudgets} {a : Unit} (kept : Kept initial (w, h))
    (allowed : saveOrder.allows (saveAt i h) (.toVecPretty snap)) :
    Kept initial
      (w, (⟨i, .toVecPretty snap, a, json.toVecPretty snap⟩ : (limits.machine json).Event) ::
        h) := by
  have before := kept.underway i
  cases at_ : saveAt i h with
  | snapped map =>
      rw [at_] at allowed before
      obtain rfl : snap = map := allowed
      cases encoded : json.toVecPretty snap with
      | none =>
          apply kept.quiet rfl rfl
          · rw [at_]
            exact Underway.idle
          · rw [at_]
            rfl
      | some text =>
          apply kept.quiet rfl rfl
          · rw [at_]
            constructor
            · exact before.latest
            · rintro map t ⟨⟩ ⟨⟩
              exact encoded
            · intro map t file done none_
              cases none_
          · rw [at_]
            rfl
  | idle | encoded | writing =>
      rw [at_] at allowed
      exact allowed.elim

/-- The temporary file is empty when a save starts to write it, and no other save does. -/
theorem kept_create {a : Bool} (kept : Kept initial (w, h))
    (allowed : saveOrder.allows (saveAt i h) .create)
    (alone : ∀ j, j ≠ i → (saveAt j h).isWriting = false) (first : overtaken i (saves h) = false) :
    Kept initial ({ w with files := w.files.create.2 },
      (⟨i, .create, a, some w.files.create.1⟩ : (limits.machine json).Event) :: h) := by
  have before := kept.underway i
  cases at_ : saveAt i h with
  | encoded map text =>
      rw [at_] at before
      apply kept.of_step
      · rw [at_]
        constructor
        · exact before.latest
        · exact before.encodes
        · rintro m t file done ⟨⟩
          refine ⟨Directory.create_tmp, ?_, Nat.zero_le _, first⟩
          exact Directory.create_content
      · intro j ne
        exact (kept.underway j).elsewhere (alone j ne)
      · exact fun _ => alone
      · constructor
        · intro s found
          rw [Directory.readTarget_create]
          exact kept.persisted.whole s found
        · intro none_
          rw [Directory.readTarget_create]
          exact kept.persisted.untouched none_
  | idle | snapped | writing =>
      rw [at_] at allowed
      exact allowed.elim

/-- A piece of the text follows what was written. -/
theorem kept_write {file offset n : Nat} {bytes : List UInt8} {a : Option Nat}
    (kept : Kept initial (w, h))
    (allowed : saveOrder.allows (saveAt i h) (.write file offset bytes))
    (within : n ≤ bytes.length) :
    Kept initial ({ w with files := w.files.write 0 file offset (bytes.take n) },
      (⟨i, .write file offset bytes, a, some n⟩ : (limits.machine json).Event) :: h) := by
  have before := kept.underway i
  cases at_ : saveAt i h with
  | writing map text own done =>
      have writing : (saveAt i h).isWriting = true := by rw [at_]; rfl
      rw [at_] at allowed before
      obtain ⟨rfl, rfl, rfl⟩ := allowed
      obtain ⟨tmp, content, reached, first⟩ := before.written map text file offset rfl
      apply kept.of_step
      · rw [at_]
        cases n with
        | zero => exact Underway.idle
        | succ n =>
            constructor
            · exact before.latest
            · exact before.encodes
            · rintro m t own done ⟨⟩
              rw [List.length_drop] at within
              refine ⟨tmp, ?_, by omega, first⟩
              rw [← Storage.overwrite_take 0 text reached]
              exact Directory.write_content content
      · intro j ne
        exact (kept.underway j).elsewhere (kept.others_still writing ne)
      · exact fun _ j ne => kept.others_still writing ne
      · constructor
        · intro s found
          rw [Directory.readTarget_write tmp]
          exact kept.persisted.whole s found
        · intro none_
          rw [Directory.readTarget_write tmp]
          exact kept.persisted.untouched none_
  | idle | snapped | encoded =>
      rw [at_] at allowed
      exact allowed.elim

/-- A renamed file holds the whole text of a save that is the newest then. -/
theorem kept_rename {files : Directory UInt8} {a : Bool} (kept : Kept initial (w, h))
    (allowed : saveOrder.allows (saveAt i h) .rename) (renamed : w.files.rename = some files) :
    Kept initial ({ w with files := files },
      (⟨i, .rename, a, true⟩ : (limits.machine json).Event) :: h) := by
  have before := kept.underway i
  cases at_ : saveAt i h with
  | writing map text file done =>
      have writing : (saveAt i h).isWriting = true := by rw [at_]; rfl
      rw [at_] at allowed before
      obtain ⟨tmp, content, reached, first⟩ := before.written map text file done rfl
      have whole : text.take done = text := List.take_of_length_le allowed
      have encoded : json.toVecPretty map = some text := before.encodes map text rfl rfl
      have newest_ : (complete i (saves h)).find? Save.completed = some ⟨i, map, true⟩ :=
        find_complete (before.latest map rfl) first
      apply kept.of_step
      · rw [at_]
        exact Underway.idle
      · intro j ne
        exact (kept.underway j).after_rename ne (kept.others_still writing ne)
      · intro writes
        rw [at_] at writes
        cases writes
      · constructor
        · intro s found
          obtain rfl : ⟨i, map, true⟩ = s := Option.some.inj (newest_.symm.trans found)
          rw [(Directory.readTarget_rename tmp renamed).1, content, whole, encoded]
          exact ⟨rfl, rfl⟩
        · intro none_
          exact absurd (newest_.symm.trans none_) (by simp)
  | idle | snapped | encoded =>
      rw [at_] at allowed
      exact allowed.elim

/-- What leaves the files alone and no save of its task under way. -/
theorem Kept.ended {o : BudgetOp} {a : o.Ans} {res : o.Res} (kept : Kept initial (w, h))
    (files : w'.files = w.files)
    (same : saves ((⟨i, o, a, res⟩ : (limits.machine json).Event) :: h) = saves h)
    (ends : saveOrder.next (saveAt i h) o res = .idle) :
    Kept initial (w', (⟨i, o, a, res⟩ : (limits.machine json).Event) :: h) := by
  apply kept.quiet files same
  · rw [ends]
    exact Underway.idle
  · rw [ends]
    rfl

/-- A task that writes has made an operation. -/
theorem others_still
    (none_ : (h.any fun e => decide (e.tid ≠ i) && (saveAt e.tid h).isWriting) = false)
    (ne : j ≠ i) : (saveAt j h).isWriting = false := by
  have acted : ∀ e ∈ h, e.tid ≠ i → (saveAt e.tid h).isWriting = false := by
    intro e member other
    simpa [other] using List.any_eq_false.1 none_ e member
  exact Protocol.forall_phase (R := fun j (q : SavePhase) => j ≠ i → q.isWriting = false) acted
    (fun _ _ => rfl) j ne

/-- A step of a run that keeps saves in order. -/
theorem kept_step {o : BudgetOp} {a : o.Ans} {out : Outcome BudgetWorld (List BudgetCall) o.Res}
    (kept : Kept initial (w, h)) (allowed : saveOrder.allows (saveAt i h) o)
    (inOrder : savesInOrder i o a (w, h) = true) (did : o.exec limits json a w = some out) :
    Kept initial (out.shared, (⟨i, o, a, out.res⟩ : (limits.machine json).Event) :: h) := by
  cases o with
  | tryReserve kolName =>
      simp only [BudgetOp.exec, Option.some.injEq] at did
      have files : out.shared.files = w.files := by rw [← did]
      have same : saveOrder.next (saveAt i h) (.tryReserve kolName) out.res = .idle := by
        cases at_ : saveAt i h with
        | idle => rfl
        | snapped | encoded | writing =>
            rw [at_] at allowed
            exact allowed.elim
      exact kept.ended files rfl same
  | creditClose kolName bnbIn bnbOut =>
      cases did
      have same : saveOrder.next (saveAt i h) (.creditClose kolName bnbIn bnbOut) () = .idle := by
        cases at_ : saveAt i h with
        | idle => rfl
        | snapped | encoded | writing =>
            rw [at_] at allowed
            exact allowed.elim
      exact kept.ended rfl rfl same
  | snapshot =>
      cases did
      exact kept_snapshot kept
  | toVecPretty snap =>
      cases did
      exact kept_toVecPretty kept allowed
  | create =>
      simp only [BudgetOp.exec] at did
      split at did
      · cases did
        simp only [savesInOrder, Bool.and_eq_true, Bool.not_eq_true'] at inOrder
        exact kept_create kept allowed (fun j ne => others_still inOrder.1 ne) inOrder.2
      · cases did
        exact kept.ended rfl rfl (by cases saveAt i h <;> rfl)
  | write file offset bytes =>
      simp only [BudgetOp.exec] at did
      split at did
      · cases did
        exact kept.ended rfl rfl (by cases saveAt i h <;> rfl)
      · split at did
        · rename_i n within
          cases did
          exact kept_write kept allowed within
        · cases did
  | rename =>
      simp only [BudgetOp.exec] at did
      split at did
      · cases did
        exact kept.ended rfl rfl (by cases saveAt i h <;> rfl)
      · split at did
        · rename_i files renamed _
          cases did
          exact kept_rename kept allowed renamed
        · cases did
          exact kept.ended rfl rfl (by cases saveAt i h <;> rfl)

/-- At the start no save is under way, and the target holds what it held. -/
theorem kept_start (w : BudgetWorld) :
    Kept w.files.readTarget ((w, []) : BudgetWorld × List (limits.machine json).Event) := by
  constructor
  · exact fun j => Underway.idle
  · intro j k writing
    cases writing
  · constructor
    · intro s none_
      cases none_
    · exact fun _ => rfl

end BudgetSaves

/-- In every run of tasks that share a budget book and save in order: at every moment the file
holds the newest map that was saved, whole, or, before the first save, what it held at the
start; and where every save that was started has been completed, it is read back as the map of
the latest snapshot. -/
theorem budget_file_newest {limits : KolBudgetBook} {json : BudgetJson} (lawful : json.Lawful)
    (w : BudgetWorld) (tasks : List (List BudgetCall))
    (c : Config BudgetSig (BudgetWorld × List (limits.machine json).Event) (List BudgetCall) Unit)
    (run : (limits.machine json).recording.Run (fun i o a s => savesInOrder i o a s)
      ((limits.machine json).recording.start (w, []) tasks) c) :
    (∀ s, newest c.shared.2 = some s → (json.toVecPretty s.map).isSome = true ∧
        c.shared.1.files.readTarget = json.toVecPretty s.map) ∧
      (newest c.shared.2 = none → c.shared.1.files.readTarget = w.files.readTarget) ∧
      ((∀ s ∈ saves c.shared.2, s.completed = true) → ∀ s, (saves c.shared.2).head? = some s →
        ∀ kolName, (json.loadOrNew c.shared.1.files).lookup kolName = s.map.lookup kolName) := by
  have kept : BudgetSaves.Kept w.files.readTarget c.shared := by
    apply Machine.invariant_of_obeyed (I := BudgetSaves.Kept w.files.readTarget)
      BudgetSaves.calls_obeys _ run
    · exact BudgetSaves.kept_start w
    · intro i fresh t o a s out kept _ allowed meets did
      exact BudgetSaves.kept_step kept allowed meets did
  obtain ⟨whole, untouched⟩ := kept.persisted
  refine ⟨whole, untouched, ?_⟩
  intro all s head kolName
  have first : newest c.shared.2 = some s := by
    rw [newest]
    cases list : saves c.shared.2 with
    | nil =>
        rw [list] at head
        cases head
    | cons latest older =>
        rw [list] at head
        obtain rfl : latest = s := Option.some.inj head
        exact List.find?_cons_of_pos (all latest (by simp [list]))
  obtain ⟨encodes, holds⟩ := whole s first
  obtain ⟨text, encoded⟩ := Option.isSome_iff_exists.1 encodes
  obtain ⟨map, parsed, same⟩ := lawful s.map text encoded
  simp [BudgetJson.loadOrNew, holds, encoded, parsed, same]

/-! ### Two tasks that reserve and save -/

/-- The budget of the KOL "A" after some reservations of a tenth of the cash, from a million wei. -/
def reservedOnce : KolBudget :=
  { initialWei := 1000000, cashWei := 900000, committedWei := 100000, tradesTaken := 1 }

def reservedTwice : KolBudget :=
  { initialWei := 1000000, cashWei := 810000, committedWei := 190000, tradesTaken := 2 }

/-- The file that holds such a budget, as ASCII codes: `initial_wei` 1000000, the given `cash_wei`
and `committed_wei`, no `realized_pnl_wei`, the given `trades_taken` and zeros. -/
def budgetText (cashWei committedWei tradesTaken : List UInt8) : List UInt8 :=
  [123, 10, 32, 32, 34, 65, 34, 58, 32, 123, 10, 32, 32, 32, 32, 34, 105, 110, 105, 116, 105,
    97, 108,
    95, 119, 101, 105, 34, 58, 32, 49, 48, 48, 48, 48, 48, 48, 44, 10, 32, 32, 32, 32, 34, 99,
    97, 115,
    104, 95, 119, 101, 105, 34, 58, 32] ++
  cashWei ++
  [44, 10, 32, 32, 32, 32, 34, 99, 111, 109, 109, 105, 116, 116, 101, 100, 95, 119, 101,
    105, 34, 58,
    32] ++
  committedWei ++
  [44, 10, 32, 32, 32, 32, 34, 114, 101, 97, 108, 105, 122, 101, 100, 95, 112, 110, 108, 95,
    119, 101,
    105, 34, 58, 32, 48, 44, 10, 32, 32, 32, 32, 34, 116, 114, 97, 100, 101, 115, 95, 116, 97,
    107, 101,
    110, 34, 58, 32] ++
  tradesTaken ++
  [44, 10, 32, 32, 32, 32, 34, 116, 114, 97, 100, 101, 115, 95, 115, 107, 105, 112, 112, 101,
    100, 95,
    98, 117, 100, 103, 101, 116, 34, 58, 32, 48, 44, 10, 32, 32, 32, 32, 34, 108, 97, 115, 116,
    95, 117,
    112, 100, 97, 116, 101, 100, 95, 110, 115, 34, 58, 32, 48, 10, 32, 32, 125, 10, 125]

def onceText : List UInt8 := budgetText [57, 48, 48, 48, 48, 48] [49, 48, 48, 48, 48, 48] [49]
def twiceText : List UInt8 := budgetText [56, 49, 48, 48, 48, 48] [49, 57, 48, 48, 48, 48] [50]

/-- `serde_json` on these two maps. -/
def twoBudgetsJson : BudgetJson where
  toVecPretty map :=
    if map.entries = [⟨"A", reservedOnce⟩] then some onceText
    else if map.entries = [⟨"A", reservedTwice⟩] then some twiceText
    else none
  fromStr text :=
    if text = onceText then some (AList.singleton "A" reservedOnce)
    else if text = twiceText then some (AList.singleton "A" reservedTwice)
    else none

theorem twoBudgetsJson_lawful : twoBudgetsJson.Lawful := by
  intro map text encoded
  have apart : twiceText ≠ onceText := by decide +kernel
  simp only [twoBudgetsJson] at encoded ⊢
  split at encoded
  · rename_i once
    have same : onceText = text := Option.some.inj encoded
    subst same
    obtain rfl : map = AList.singleton "A" reservedOnce := AList.ext once
    exact ⟨_, if_pos rfl, fun _ => rfl⟩
  · split at encoded
    · rename_i twice
      have same : twiceText = text := Option.some.inj encoded
      subst same
      obtain rfl : map = AList.singleton "A" reservedTwice := AList.ext twice
      exact ⟨_, (if_neg apart).trans (if_pos rfl), fun _ => rfl⟩
    · cases encoded

/-- Every file operation succeeds, and a write takes all bytes. -/
def writesWhole : (o : BudgetOp) → o.Ans
  | .tryReserve _ => (0 : Nat)
  | .creditClose .. => (0 : Nat)
  | .snapshot => ()
  | .toVecPretty _ => ()
  | .create => true
  | .write _ _ bytes => some bytes.length
  | .rename => true

theorem budget_file_newest_twice :
    ∃ c, ((KolBudgetBook.mk 1000000 1000 1).machine twoBudgetsJson).recording.Run
        (fun i o a s => savesInOrder i o a s)
        (((KolBudgetBook.mk 1000000 1000 1).machine twoBudgetsJson).recording.start ({}, [])
          [[.tryReserve "A", .save], [.tryReserve "A", .save]]) c ∧
      (twoBudgetsJson.loadOrNew c.shared.1.files).lookup "A" = some reservedTwice := by
  obtain ⟨c, run, all, latest⟩ :
      ∃ c, ((KolBudgetBook.mk 1000000 1000 1).machine twoBudgetsJson).recording.Run
        (fun i o a s => savesInOrder i o a s)
        (((KolBudgetBook.mk 1000000 1000 1).machine twoBudgetsJson).recording.start ({}, [])
          [[.tryReserve "A", .save], [.tryReserve "A", .save]]) c ∧
      (∀ s ∈ saves c.shared.2, s.completed = true) ∧
      (saves c.shared.2).head?.map (fun s => s.map.lookup "A") = some (some reservedTwice) :=
    Machine.exists_run_of_follow [(0, 6, writesWhole), (1, 6, writesWhole)] (by decide +kernel)
  obtain ⟨s, head, map⟩ := Option.map_eq_some_iff.1 latest
  have read := (budget_file_newest twoBudgetsJson_lawful {} _ c run).2.2 all s head "A"
  exact ⟨c, run, read.trans map⟩

/-- The first task takes its snapshot, the second reserves, takes its own and completes
its save, and then the first completes its: both saves are completed, and the file is read
back as the older map. -/
theorem older_budgets_persisted :
    ∃ c, ((KolBudgetBook.mk 1000000 1000 1).machine twoBudgetsJson).recording.Run
        ((KolBudgetBook.mk 1000000 1000 1).machine twoBudgetsJson).recording.anyStep
        (((KolBudgetBook.mk 1000000 1000 1).machine twoBudgetsJson).recording.start ({}, [])
          [[.tryReserve "A", .save], [.tryReserve "A", .save]]) c ∧
      c.Quiet ∧ (∀ s ∈ saves c.shared.2, s.completed = true) ∧
      c.shared.1.inner.lookup "A" = some reservedTwice ∧
      (saves c.shared.2).head?.map (fun s => s.map.lookup "A") = some (some reservedTwice) ∧
      (twoBudgetsJson.loadOrNew c.shared.1.files).lookup "A" = some reservedOnce :=
  Machine.exists_run_of_follow
    (C := ((KolBudgetBook.mk 1000000 1000 1).machine twoBudgetsJson).recording.anyStep)
    [(0, 3, writesWhole), (1, 6, writesWhole), (0, 3, writesWhole)] (by decide +kernel)

end BscMempool.Trader
