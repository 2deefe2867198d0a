/-
Module: BscMempool.Concurrent.Fifo
Layer: Concurrent
Purpose: Bounded queues between senders and the holders of the receiving end, as the atomic steps of
  a machine use them. While the queue is open, what was accepted is what was taken, followed by what
  waits.
Trusted boundary: none
Main exports: Fifo, Fifo.trySend, Fifo.recv, Fifo.await, Fifo.sendAwait, Fifo.dropReceiver,
  Fifo.dropSender, Fifo.Accounts
-/
import Mathlib.Data.List.Basic

namespace BscMempool.Concurrent

/-- A bounded queue.  A send needs room and a holder of the receiving end. -/
structure Fifo (α : Type) where
  capacity : Nat
  senders : Nat
  receivers : Nat
  queue : List α
  fits : queue.length ≤ capacity

namespace Fifo

variable {α : Type}

def new (capacity senders receivers : Nat) : Fifo α where
  capacity := capacity
  senders := senders
  receivers := receivers
  queue := []
  fits := Nat.zero_le _

def isOpen (c : Fifo α) : Bool := decide (0 < c.receivers)

/-- The queue with one more value; `none` where there is no room. -/
def push (c : Fifo α) (value : α) : Option (Fifo α) :=
  if room : c.queue.length < c.capacity then
    some { c with
      queue := c.queue ++ [value]
      fits := by
        rw [List.length_append, List.length_singleton]
        exact room }
  else none

/-- A send that does not wait.  It fails where the queue is full or closed. -/
def trySend (c : Fifo α) (value : α) : Option (Fifo α) := if c.isOpen then c.push value else none

/-- The oldest value, and the queue without it; `none` where the queue is empty. -/
def recv (c : Fifo α) : Option (α × Fifo α) :=
  match split : c.queue with
  | [] => none
  | value :: rest =>
      some (value, { c with
        queue := rest
        fits := by
          have fits := c.fits
          rw [split, List.length_cons] at fits
          exact Nat.le_of_succ_le fits })

/-- A receive that waits while the queue is empty and a sender is left. -/
def await (c : Fifo α) : Option (Option α × Fifo α) :=
  match c.recv with
  | some (value, rest) => some (some value, rest)
  | none => if c.senders = 0 then some (none, c) else none

/-- A send that waits for room.  It fails where the queue is closed. -/
def sendAwait (c : Fifo α) (value : α) : Option (Bool × Fifo α) :=
  if c.isOpen then (c.push value).map fun sent => (true, sent) else some (false, c)

/-- A holder of the receiving end drops it.  With the last one goes what waits. -/
def dropReceiver (c : Fifo α) : Fifo α :=
  if c.receivers ≤ 1 then { c with receivers := 0, queue := [], fits := Nat.zero_le _ }
  else { c with receivers := c.receivers - 1 }

def dropSender (c : Fifo α) : Fifo α := { c with senders := c.senders - 1 }

@[simp] theorem new_queue (capacity senders receivers : Nat) :
    (new capacity senders receivers : Fifo α).queue = [] := rfl

@[simp] theorem dropSender_queue (c : Fifo α) : c.dropSender.queue = c.queue := rfl

@[simp] theorem dropSender_isOpen (c : Fifo α) : c.dropSender.isOpen = c.isOpen := rfl

theorem push_some {c c' : Fifo α} {value : α} (pushed : c.push value = some c') :
    c'.queue = c.queue ++ [value] ∧ c'.isOpen = c.isOpen := by
  unfold push at pushed
  split at pushed
  · cases pushed
    exact ⟨rfl, rfl⟩
  · cases pushed

/-- What was accepted had room and a receiver, and went to the end of the queue. -/
theorem trySend_some {c c' : Fifo α} {value : α} (sent : c.trySend value = some c') :
    c'.queue = c.queue ++ [value] ∧ c'.isOpen = c.isOpen := by
  unfold trySend at sent
  split at sent
  · exact push_some sent
  · cases sent

theorem trySend_isOpen {c c' : Fifo α} {value : α} (sent : c.trySend value = some c') :
    c'.isOpen = true := by
  rw [(trySend_some sent).2]
  unfold trySend at sent
  split at sent
  · assumption
  · cases sent

/-- What is taken was the head of the queue. -/
theorem recv_some {c c' : Fifo α} {value : α} (taken : c.recv = some (value, c')) :
    c.queue = value :: c'.queue ∧ c'.isOpen = c.isOpen := by
  unfold recv at taken
  split at taken
  · cases taken
  · rename_i first rest split
    cases taken
    exact ⟨split, rfl⟩

theorem recv_none {c : Fifo α} (empty : c.recv = none) : c.queue = [] := by
  unfold recv at empty
  split at empty
  · assumption
  · cases empty

/-- A queue that is still open has lost nothing. -/
theorem dropReceiver_queue {c : Fifo α} (still : c.dropReceiver.isOpen = true) :
    c.dropReceiver.queue = c.queue ∧ c.isOpen = true := by
  unfold dropReceiver isOpen at *
  split at still
  · simp at still
  · rename_i more
    rw [if_neg more]
    exact ⟨rfl, decide_eq_true (by omega)⟩

/-- With the last holder of the receiving end went what waited. -/
theorem dropReceiver_closed {c : Fifo α} (shut : c.dropReceiver.isOpen = false) :
    c.dropReceiver.queue = [] := by
  unfold dropReceiver isOpen at *
  split at shut
  · rename_i last
    rw [if_pos last]
  · rename_i more
    simp only [decide_eq_false_iff_not] at shut
    omega

/-- What was accepted so far and what was taken account for the queue. -/
def Accounts (c : Fifo α) (accepted taken : List α) : Prop :=
  c.isOpen = true → accepted = taken ++ c.queue

variable {c c' : Fifo α} {accepted taken : List α} {value : α}

theorem accounts_new (capacity senders receivers : Nat) :
    (new capacity senders receivers : Fifo α).Accounts [] [] := fun _ => rfl

theorem Accounts.push (holds : c.Accounts accepted taken) (pushed : c.push value = some c') :
    c'.Accounts (accepted ++ [value]) taken := by
  obtain ⟨queue, same⟩ := push_some pushed
  intro still
  rw [holds (same ▸ still), queue, List.append_assoc]

theorem Accounts.trySend (holds : c.Accounts accepted taken) (sent : c.trySend value = some c') :
    c'.Accounts (accepted ++ [value]) taken := by
  obtain ⟨queue, same⟩ := trySend_some sent
  intro still
  rw [holds (same ▸ still), queue, List.append_assoc]

theorem Accounts.recv (holds : c.Accounts accepted taken) (took : c.recv = some (value, c')) :
    c'.Accounts accepted (taken ++ [value]) := by
  obtain ⟨queue, same⟩ := recv_some took
  intro still
  rw [holds (same ▸ still), queue, List.append_assoc, List.singleton_append]

theorem Accounts.await {got : Option α} (holds : c.Accounts accepted taken)
    (did : c.await = some (got, c')) :
    c'.Accounts accepted (taken ++ got.toList) := by
  unfold Fifo.await at did
  split at did
  · rename_i value rest took
    cases did
    exact holds.recv took
  · split at did
    · cases did
      rw [Option.toList_none, List.append_nil]
      exact holds
    · cases did

theorem Accounts.sendAwait {sent : Bool} (holds : c.Accounts accepted taken)
    (did : c.sendAwait value = some (sent, c')) :
    c'.Accounts (accepted ++ if sent then [value] else []) taken := by
  unfold Fifo.sendAwait at did
  split at did
  · obtain ⟨grown, pushed, same⟩ := Option.map_eq_some_iff.mp did
    cases same
    exact holds.push pushed
  · cases did
    rw [if_neg Bool.false_ne_true, List.append_nil]
    exact holds

/-- A queue that is open after a send was open before it, and took the value. -/
theorem sendAwait_open {sent : Bool} (did : c.sendAwait value = some (sent, c'))
    (still : c'.isOpen = true) :
    sent = true := by
  unfold sendAwait at did
  split at did
  · obtain ⟨grown, -, same⟩ := Option.map_eq_some_iff.mp did
    cases same
    rfl
  · rename_i closed
    cases did
    exact absurd still closed

theorem await_isOpen {got : Option α} (did : c.await = some (got, c')) : c'.isOpen = c.isOpen := by
  unfold await at did
  split at did
  · rename_i value rest took
    cases did
    exact (recv_some took).2
  · split at did
    · cases did
      rfl
    · cases did

/-- From an empty queue nothing is taken. -/
theorem await_empty {got : Option α} (did : c.await = some (got, c')) (empty : c.queue = []) :
    got = none ∧ c'.queue = [] := by
  unfold await at did
  split at did
  · rename_i value rest took
    rw [(recv_some took).1] at empty
    cases empty
  · split at did
    · cases did
      exact ⟨rfl, empty⟩
    · cases did

theorem sendAwait_isOpen {sent : Bool} (did : c.sendAwait value = some (sent, c')) :
    c'.isOpen = c.isOpen := by
  unfold sendAwait at did
  split at did
  · obtain ⟨grown, pushed, same⟩ := Option.map_eq_some_iff.mp did
    cases same
    exact (push_some pushed).2
  · cases did
    rfl

theorem Accounts.dropReceiver (holds : c.Accounts accepted taken) :
    c.dropReceiver.Accounts accepted taken := by
  intro still
  obtain ⟨queue, before⟩ := dropReceiver_queue still
  rw [queue]
  exact holds before

theorem Accounts.dropSender (holds : c.Accounts accepted taken) :
    c.dropSender.Accounts accepted taken := holds

end Fifo

end BscMempool.Concurrent
