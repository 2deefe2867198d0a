/-
Module: BscMempool.Concurrent.Broadcast
Layer: Concurrent
Purpose: A broadcast ring. It keeps the last messages that fit; every receiver reads at its own
  position, and one that fell behind is told how many messages it missed and goes on with the oldest
  one kept.
Trusted boundary: none
Main exports: Broadcast, Broadcast.send, Broadcast.recv, Received, Reads, Broadcast.Carries
-/
import Mathlib.Data.List.Basic

namespace BscMempool.Concurrent

/-- What a receiver is given. -/
inductive Received (α : Type) where
  | ok (message : α)
  | lagged (skipped : Nat)
deriving DecidableEq, Repr

/-- The ring.  Messages are numbered from zero on; `tail` is the number of the next one. -/
structure Broadcast (α : Type) where
  capacity : Nat
  tail : Nat
  /-- The messages that are kept, the oldest first. -/
  kept : List α
  /-- The number each receiver reads next; `none` for one that was dropped. -/
  cursors : List (Option Nat)
  full : kept.length = min capacity tail

namespace Broadcast

variable {α : Type}

def new (capacity : Nat) : Broadcast α where
  capacity := capacity
  tail := 0
  kept := []
  cursors := []
  full := (Nat.min_zero capacity).symm

/-- The number of the oldest message that is kept. -/
def oldest (b : Broadcast α) : Nat := b.tail - b.kept.length

def receiverCount (b : Broadcast α) : Nat := b.cursors.countP Option.isSome

/-- A new receiver reads what is sent from now on.  Its number is the length of `cursors` before. -/
def subscribe (b : Broadcast α) : Broadcast α := { b with cursors := b.cursors ++ [some b.tail] }

def cursor (b : Broadcast α) (i : Nat) : Option Nat := (b.cursors[i]?).getD none

def move (b : Broadcast α) (i : Nat) (position : Option Nat) : Broadcast α :=
  { b with cursors := b.cursors.set i position }

/-- Keep a message, and drop the oldest one where the ring is full. -/
def keep (b : Broadcast α) (message : α) : Broadcast α :=
  { b with
    tail := b.tail + 1
    kept := (b.kept ++ [message]).drop (b.kept.length + 1 - b.capacity)
    full := by
      have full := b.full
      rw [List.length_drop, List.length_append, List.length_singleton]
      omega }

/-- A message nobody receives is not kept. -/
def send (b : Broadcast α) (message : α) : Broadcast α :=
  if b.receiverCount = 0 then b else b.keep message

/-- What the receiver `i` is given next; `none` where it has read all. -/
def recv (b : Broadcast α) (i : Nat) : Option (Received α × Broadcast α) :=
  match b.cursor i with
  | none => none
  | some next =>
      if next < b.oldest then some (.lagged (b.oldest - next), b.move i (some b.oldest))
      else
        match b.kept[next - b.oldest]? with
        | none => none
        | some message => some (.ok message, b.move i (some (next + 1)))

def drop (b : Broadcast α) (i : Nat) : Broadcast α := b.move i none

@[simp] theorem oldest_move (b : Broadcast α) (i : Nat) (position : Option Nat) :
    (b.move i position).oldest = b.oldest := rfl

theorem cursor_move {b : Broadcast α} {i : Nat} {next : Nat} (there : b.cursor i = some next)
    (position : Option Nat) (j : Nat) :
    (b.move i position).cursor j = if j = i then position else b.cursor j := by
  have bound : i < b.cursors.length := by
    by_contra beyond
    rw [cursor, List.getElem?_eq_none (Nat.le_of_not_lt beyond)] at there
    cases there
  unfold cursor move
  by_cases same : j = i
  · subst same
    simp [List.getElem?_set_self bound]
  · simp [List.getElem?_set_ne (Ne.symm same), same]

theorem cursor_drop (b : Broadcast α) (i j : Nat) {next : Nat}
    (there : (b.drop i).cursor j = some next) :
    b.cursor j = some next := by
  unfold cursor drop move at *
  by_cases same : i = j
  · subst same
    by_cases bound : i < b.cursors.length
    · simp [List.getElem?_set_self bound] at there
    · rw [List.getElem?_eq_none (by simpa using bound)] at there
      cases there
  · rwa [List.getElem?_set_ne same] at there

/-- What a receive leaves as it was. -/
theorem recv_frame {b b' : Broadcast α} {i : Nat} {result : Received α}
    (given : b.recv i = some (result, b')) :
    b'.capacity = b.capacity ∧ ∃ next position, b.cursor i = some next ∧
    b' = b.move i (some position) := by
  cases there : b.cursor i with
  | none => simp [recv, there] at given
  | some next =>
      simp only [recv, there] at given
      split at given
      · cases given
        exact ⟨rfl, next, _, rfl, rfl⟩
      · split at given
        · cases given
        · cases given
          exact ⟨rfl, next, _, rfl, rfl⟩

/-- Who listens after a receive listened before it. -/
theorem cursor_of_recv {b b' : Broadcast α} {i j next : Nat} {result : Received α}
    (given : b.recv i = some (result, b')) (there : b'.cursor j = some next) :
    ∃ before, b.cursor j = some before := by
  obtain ⟨-, held, position, reading, rfl⟩ := recv_frame given
  rw [cursor_move reading] at there
  split at there
  · rename_i same
    exact ⟨held, same ▸ reading⟩
  · exact ⟨next, there⟩

/-- A receiver that is given nothing has read all. -/
theorem recv_none {b : Broadcast α} {i next : Nat} (there : b.cursor i = some next)
    (nothing : b.recv i = none) :
    b.tail ≤ next := by
  have full := b.full
  simp only [recv, there] at nothing
  split at nothing
  · cases nothing
  · rename_i behind
    split at nothing
    · rename_i past
      have beyond := List.getElem?_eq_none_iff.mp past
      unfold oldest at *
      omega
    · cases nothing

end Broadcast

/-! ### What a receiver has read -/

/-- Of the messages `sent` through a ring of a capacity, a receiver that starts at `start`
and is given `results`, one after the other, reads `next` next: it is given every message in
turn, it is told how many it missed, and it misses only what as many later messages were sent
after as the ring keeps. -/
inductive Reads {α : Type} (capacity : Nat) (sent : List α) (start : Nat) :
    List (Received α) → Nat → Prop where
  | nil : Reads capacity sent start [] start
  | ok {results : List (Received α)} {next : Nat} {message : α}
    (before : Reads capacity sent start results next)
      (here : sent[next]? = some message) :
      Reads capacity sent start (results ++ [.ok message]) (next + 1)
  | lagged {results : List (Received α)} {next skipped : Nat}
    (before : Reads capacity sent start results next)
      (some : 0 < skipped) (past : next + skipped + capacity ≤ sent.length) :
      Reads capacity sent start (results ++ [.lagged skipped]) (next + skipped)

/-- The messages among what a receiver was given. -/
def Received.messages {α : Type} (results : List (Received α)) : List α :=
  results.filterMap fun
    | .ok message => some message
    | .lagged _ => none

/-- How many messages it was told it missed. -/
def Received.missed {α : Type} : List (Received α) → Nat
  | [] => 0
  | .ok _ :: rest => Received.missed rest
  | .lagged skipped :: rest => skipped + Received.missed rest

theorem Received.missed_append {α : Type} (results more : List (Received α)) :
    Received.missed (results ++ more) = Received.missed results + Received.missed more := by
  induction results with
  | nil => simp [missed]
  | cons result rest ih =>
      cases result with
      | ok message => exact ih
      | lagged skipped =>
          rw [List.cons_append, missed, missed, ih]
          exact (Nat.add_assoc _ _ _).symm

namespace Reads

variable {α : Type} {capacity : Nat} {sent : List α} {start next : Nat}
  {results : List (Received α)}

theorem more (reads : Reads capacity sent start results next) (later : List α) :
    Reads capacity (sent ++ later) start results next := by
  induction reads with
  | nil => exact .nil
  | ok before here ih =>
      apply ih.ok
      obtain ⟨bound, -⟩ := List.getElem?_eq_some_iff.mp here
      rw [List.getElem?_append_left bound, here]
  | lagged before some past ih =>
      apply ih.lagged some
      rw [List.length_append]
      exact Nat.le_trans past (Nat.le_add_right _ _)

theorem start_le (reads : Reads capacity sent start results next) : start ≤ next := by
  induction reads with
  | nil => exact Nat.le_refl start
  | ok _ _ ih => exact Nat.le_succ_of_le ih
  | lagged _ _ _ ih => exact Nat.le_trans ih (Nat.le_add_right _ _)

/-- What was given and what was missed make up what was passed. -/
theorem count (reads : Reads capacity sent start results next) :
    start + (Received.messages results).length + Received.missed results = next := by
  induction reads with
  | nil => rfl
  | ok before here ih =>
      simp only [Received.messages] at *
      simp only [Received.missed_append, Received.missed, List.filterMap_append,
        List.filterMap_cons, List.filterMap_nil,
        List.length_append, List.length_cons, List.length_nil]
      omega
  | lagged before some past ih =>
      simp only [Received.messages] at *
      simp only [Received.missed_append, Received.missed, List.filterMap_append,
        List.filterMap_cons, List.filterMap_nil,
        List.length_append, List.length_nil]
      omega

/-- The messages are given in the order they were sent, and none of them twice. -/
theorem sublist (reads : Reads capacity sent start results next) :
    (Received.messages results).Sublist ((sent.take next).drop start) := by
  induction reads with
  | nil => exact List.nil_sublist _
  | @ok results next message before here ih =>
      obtain ⟨bound, at_⟩ := List.getElem?_eq_some_iff.mp here
      have grown : sent.take (next + 1) = sent.take next ++ [message] := by
        rw [List.take_add_one, here]
        rfl
      have held : start ≤ (sent.take next).length := by
        rw [List.length_take]
        exact Nat.le_min.mpr ⟨before.start_le, Nat.le_trans before.start_le (Nat.le_of_lt bound)⟩
      have messages : Received.messages (results ++ [.ok message]) = Received.messages results ++
          [message] := by
        simp [Received.messages]
      rw [messages, grown, List.drop_append_of_le_length held]
      exact ih.append (List.Sublist.refl _)
  | @lagged results next skipped before some past ih =>
      have messages : Received.messages (results ++ [.lagged skipped]) =
          Received.messages results := by
        simp [Received.messages]
      rw [messages]
      apply ih.trans
      apply List.Sublist.drop
      exact (List.take_prefix_take_left (Nat.le_add_right _ _)).sublist

/-- Who missed nothing was given everything. -/
theorem complete (reads : Reads capacity sent start results next)
    (none : Received.missed results = 0) :
    Received.messages results = (sent.take next).drop start := by
  apply reads.sublist.eq_of_length_le
  have count := reads.count
  rw [List.length_drop, List.length_take]
  omega

end Reads

namespace Broadcast

variable {α : Type}

/-- The ring carries the messages `sent`: it keeps the last of them, and each receiver `i`
has read `results i`. -/
structure Carries (b : Broadcast α) (sent : List α) (start : Nat → Nat)
    (results : Nat → List (Received α)) :
    Prop where
  tail_eq : b.tail = sent.length
  kept_eq : b.kept = sent.drop b.oldest
  reads : ∀ i next, b.cursor i = some next → Reads b.capacity sent (start i) (results i) next
  behind : ∀ i next, b.cursor i = some next → next ≤ b.tail

variable {b : Broadcast α} {sent : List α} {start : Nat → Nat} {results : Nat → List (Received α)}

theorem oldest_le (b : Broadcast α) : b.oldest ≤ b.tail := Nat.sub_le _ _

theorem Carries.keep (carries : b.Carries sent start results) (message : α) :
    (b.keep message).Carries (sent ++ [message]) start results := by
  have full := b.full
  have tail := carries.tail_eq
  constructor
  · simp [Broadcast.keep, tail]
  · have keptLen : b.kept.length ≤ b.tail := by omega
    have newer : (b.keep message).oldest = b.oldest + (b.kept.length + 1 - b.capacity) := by
      simp only [oldest, Broadcast.keep, List.length_drop, List.length_append,
        List.length_singleton]
      omega
    have whole : (sent ++ [message]).drop b.oldest = b.kept ++ [message] := by
      rw [List.drop_append_of_le_length (Nat.le_trans b.oldest_le (Nat.le_of_eq tail)),
        ← carries.kept_eq]
    rw [newer, ← List.drop_drop, whole]
    rfl
  · intro i next there
    exact (carries.reads i next there).more [message]
  · intro i next there
    exact Nat.le_succ_of_le (carries.behind i next there)

/-- What a receive does: it gives the message at the receiver's position, or the
distance to the oldest one. -/
theorem Carries.recv {b' : Broadcast α} {i : Nat} {result : Received α}
    (carries : b.Carries sent start results) (given : b.recv i = some (result, b')) :
    b'.Carries sent start (Function.update results i (results i ++ [result])) := by
  have full := b.full
  have tail := carries.tail_eq
  cases there : b.cursor i with
  | none => simp [Broadcast.recv, there] at given
  | some next =>
      have moved : ∀ position, ∃ c, c = b.move i (some position) ∧
          (Reads b.capacity sent (start i) (results i ++ [result]) position → position ≤ b.tail →
            c.Carries sent start (Function.update results i (results i ++ [result]))) := by
        intro position
        refine ⟨_, rfl, fun reads bound => ⟨tail, carries.kept_eq, ?_, ?_⟩⟩
        · intro j at_ reading
          rw [cursor_move there] at reading
          split at reading
          · rename_i same
            cases reading
            subst same
            rw [Function.update_self]
            exact reads
          · rename_i other
            rw [Function.update_of_ne other]
            exact carries.reads j at_ reading
        · intro j at_ reading
          rw [cursor_move there] at reading
          split at reading
          · cases reading
            exact bound
          · exact carries.behind j at_ reading
      have reads := carries.reads i next there
      have behind := carries.behind i next there
      simp only [Broadcast.recv, there] at given
      split at given
      · rename_i late
        cases given
        obtain ⟨_, rfl, carried⟩ := moved b.oldest
        apply carried _ b.oldest_le
        have sum : next + (b.oldest - next) = b.oldest := by omega
        -- the ring is full where something was overwritten
        have overwritten : next + (b.oldest - next) + b.capacity ≤ sent.length := by
          unfold oldest at *
          omega
        have lagging := reads.lagged (Nat.sub_pos_of_lt late) overwritten
        rwa [sum] at lagging
      · rename_i early
        split at given
        · cases given
        · rename_i message found
          cases given
          obtain ⟨_, rfl, carried⟩ := moved (next + 1)
          rw [carries.kept_eq, List.getElem?_drop] at found
          have sum : b.oldest + (next - b.oldest) = next := by omega
          rw [sum] at found
          obtain ⟨bound, -⟩ := List.getElem?_eq_some_iff.mp found
          apply carried (reads.ok found)
          omega

theorem Carries.drop (carries : b.Carries sent start results) (i : Nat) :
    (b.drop i).Carries sent start results := by
  constructor
  · exact carries.tail_eq
  · exact carries.kept_eq
  · intro j next there
    exact carries.reads j next (cursor_drop b i j there)
  · intro j next there
    exact carries.behind j next (cursor_drop b i j there)

end Broadcast

end BscMempool.Concurrent
