/-
Module: BscMempool.Bus.Dedupe
Layer: Bus
Purpose: The dedupe stage's table of first-seen observations: the first observation of a hash makes
  an entry, later ones are merged into it, and a sweep drops the entries whose time to live is over.
Trusted boundary: human-reviewed translation of bsc-bus/src/dedupe.rs
Main exports: FirstSeen, Dedupe, DedupeOutcome, Dedupe.record, Dedupe.sweep, DedupeCall,
  Dedupe.after, FirstSeen.next, snapshot_call
-/
import BscMempool.Numeric.Saturating
import Mathlib.Data.List.AList

namespace BscMempool.Bus

open Numeric

abbrev TxHash := BitVec 256
abbrev SourceId := UInt8

/-- The entry of one hash: who saw it when, in the order of the calls. -/
structure FirstSeen where
  firstNs : UInt64
  sources : List (SourceId × UInt64)
  expiresAtNs : UInt64
deriving DecidableEq, Repr

structure Dedupe where
  map : AList fun _ : TxHash => FirstSeen
  ttlNs : UInt64

inductive DedupeOutcome where
  /-- First time this hash was seen anywhere. -/
  | fresh (entry : FirstSeen)
  /-- Already seen: the observation was added to the entry. -/
  | duplicate
deriving DecidableEq, Repr

/-- `DashMap::retain`. -/
def retain (m : AList fun _ : TxHash => FirstSeen) (keep : FirstSeen → Bool) :
    AList fun _ : TxHash => FirstSeen :=
  ⟨m.entries.filter fun entry => keep entry.2, m.nodupKeys.sublist List.filter_sublist⟩

/-- A hash that is retained keeps its entry. -/
@[simp] theorem lookup_retain (m : AList fun _ : TxHash => FirstSeen) (keep : FirstSeen → Bool)
    (hash : TxHash) : (retain m keep).lookup hash = (m.lookup hash).filter keep := by
  ext entry
  rw [Option.filter_eq_some_iff]
  constructor
  · intro found
    have member := List.of_mem_dlookup found
    simp only [retain, List.mem_filter] at member
    exact ⟨(List.mem_dlookup_iff m.nodupKeys).2 member.1, member.2⟩
  · rintro ⟨found, kept⟩
    apply (List.mem_dlookup_iff (retain m keep).nodupKeys).2
    simp only [retain, List.mem_filter]
    exact ⟨List.of_mem_dlookup found, kept⟩

namespace Dedupe

def new (ttlSecs : UInt64) : Dedupe :=
  { map := ∅
    ttlNs := satMulU64 ttlSecs 1000000000 }

def record (d : Dedupe) (hash : TxHash) (source : SourceId) (recvNs : UInt64) :
    DedupeOutcome × Dedupe :=
  match d.map.lookup hash with
  | none =>
      let entry : FirstSeen := {
        firstNs := recvNs
        sources := [(source, recvNs)]
        expiresAtNs := satAddU64 recvNs d.ttlNs }
      (.fresh entry, { d with map := d.map.insert hash entry })
  | some entry =>
      let merged := { entry with sources := entry.sources ++ [(source, recvNs)] }
      (.duplicate, { d with map := d.map.insert hash merged })

/-- What the table holds of a hash. -/
def snapshot (d : Dedupe) (hash : TxHash) : Option FirstSeen := d.map.lookup hash

def firstSeenNs (d : Dedupe) (hash : TxHash) : Option UInt64 :=
  (d.snapshot hash).map FirstSeen.firstNs

def len (d : Dedupe) : Nat := d.map.entries.length

/-- Drop entries whose time to live is over; how many. -/
def sweep (d : Dedupe) (nowNs : UInt64) : Nat × Dedupe :=
  let swept := { d with map := retain d.map fun entry => decide (nowNs ≤ entry.expiresAtNs) }
  (d.len - swept.len, swept)

end Dedupe

/-! ### Sequences of calls -/

inductive DedupeCall where
  | record (hash : TxHash) (source : SourceId) (recvNs : UInt64)
  | sweep (nowNs : UInt64)
deriving DecidableEq, Repr

namespace Dedupe

def call (d : Dedupe) : DedupeCall → Dedupe
  | .record hash source recvNs => (d.record hash source recvNs).2
  | .sweep nowNs => (d.sweep nowNs).2

/-- The table after a sequence of calls. -/
def after (d : Dedupe) (calls : List DedupeCall) : Dedupe := calls.foldl call d

@[simp] theorem after_nil (d : Dedupe) : d.after [] = d := rfl

@[simp] theorem after_cons (d : Dedupe) (c : DedupeCall) (rest : List DedupeCall) :
    d.after (c :: rest) = (d.call c).after rest := rfl

@[simp] theorem after_append (d : Dedupe) (calls rest : List DedupeCall) :
    d.after (calls ++ rest) = (d.after calls).after rest := List.foldl_append

@[simp] theorem call_ttlNs (d : Dedupe) (c : DedupeCall) : (d.call c).ttlNs = d.ttlNs := by
  cases c with
  | record hash source recvNs =>
      simp only [call, record]
      split <;> rfl
  | sweep nowNs => rfl

@[simp] theorem after_ttlNs (d : Dedupe) (calls : List DedupeCall) :
    (d.after calls).ttlNs = d.ttlNs := by
  induction calls generalizing d with
  | nil => rfl
  | cons c rest ih => simp [ih]

end Dedupe

/-! ### The life of one hash -/

/-- What a call does to the entry of one hash. -/
def FirstSeen.next (ttlNs : UInt64) (hash : TxHash) (entry : Option FirstSeen) :
    DedupeCall → Option FirstSeen
  | .record h source recvNs =>
      if h = hash then
        match entry with
        | none => some ⟨recvNs, [(source, recvNs)], satAddU64 recvNs ttlNs⟩
        | some e => some { e with sources := e.sources ++ [(source, recvNs)] }
      else entry
  | .sweep nowNs => entry.filter fun e => decide (nowNs ≤ e.expiresAtNs)

/-- The table acts on each hash alone. -/
theorem snapshot_call (d : Dedupe) (c : DedupeCall) (hash : TxHash) :
    (d.call c).snapshot hash = FirstSeen.next d.ttlNs hash (d.snapshot hash) c := by
  cases c with
  | sweep nowNs => exact lookup_retain _ _ _
  | record h source recvNs =>
      simp only [Dedupe.call, Dedupe.record, Dedupe.snapshot, FirstSeen.next]
      by_cases same : h = hash
      · subst same
        cases d.map.lookup h <;> simp
      · have other : hash ≠ h := Ne.symm same
        cases d.map.lookup h <;> simp [same, AList.lookup_insert_ne other]

/-- A hash the table holds nothing of is fresh. -/
theorem record_absent {d : Dedupe} {hash : TxHash} (absent : d.snapshot hash = none)
    (source : SourceId) (recvNs : UInt64) :
    (d.record hash source recvNs).1 =
      .fresh ⟨recvNs, [(source, recvNs)], satAddU64 recvNs d.ttlNs⟩ := by
  simp only [Dedupe.snapshot] at absent
  simp [Dedupe.record, absent]

/-- A hash the table holds an entry of is a duplicate. -/
theorem record_live {d : Dedupe} {hash : TxHash} {entry : FirstSeen}
    (live : d.snapshot hash = some entry)
    (source : SourceId) (recvNs : UInt64) : (d.record hash source recvNs).1 = .duplicate := by
  simp only [Dedupe.snapshot] at live
  simp [Dedupe.record, live]

end BscMempool.Bus
