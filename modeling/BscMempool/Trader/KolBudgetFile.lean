/-
Module: BscMempool.Trader.KolBudgetFile
Layer: Trader
Purpose: The budget book and its file: the tasks that share a book reserve, credit and save, and a
  save takes its snapshot under the lock, writes the temporary file piece by piece and renames it.
Trusted boundary: human-reviewed translation of KolBudgetBook::save and load_or_new
  (trader/kol_budget.rs). `tokio::fs::write` is `File::create` and `write_all`; `serde_json` is a
  parameter.
Main exports: BudgetJson, BudgetWorld, BudgetOp, BudgetOp.exec, KolBudgetBook.save,
  KolBudgetBook.machine, BudgetJson.loadOrNew
-/
import BscMempool.Concurrent.System
import BscMempool.Storage.Replace
import BscMempool.Trader.KolBudget

namespace BscMempool.Trader

open Concurrent (Machine Outcome Proc Sig Tid)
open Storage (Directory)

/-- `serde_json` on budget maps, and the text of the file as bytes. -/
structure BudgetJson where
  toVecPretty : KolBudgets → Option (List UInt8)
  fromStr : List UInt8 → Option KolBudgets

/-- What was written is read back as the same map. -/
def BudgetJson.Lawful (json : BudgetJson) : Prop :=
  ∀ map text, json.toVecPretty map = some text →
    ∃ map', json.fromStr text = some map' ∧ ∀ kolName, map'.lookup kolName = map.lookup kolName

/-- The map behind the lock, and the files. -/
structure BudgetWorld where
  inner : KolBudgets := ∅
  files : Directory UInt8 := .empty

/-- `load_or_new`: the map of the file, or an empty one. -/
def BudgetJson.loadOrNew (json : BudgetJson) (files : Directory UInt8) : KolBudgets :=
  (files.readTarget.bind json.fromStr).getD ∅

/-- The atomic steps of the book's methods. A file is written through the handle
that `create` gave. -/
inductive BudgetOp where
  | tryReserve (kolName : String)
  | creditClose (kolName : String) (bnbIn bnbOut : U256)
  | snapshot
  | toVecPretty (snap : KolBudgets)
  | create
  | write (file offset : Nat) (bytes : List UInt8)
  | rename

/-- `none` and `false` are errors. -/
abbrev BudgetOp.Res : BudgetOp → Type
  | .tryReserve _ => Option U256
  | .creditClose .. => Unit
  | .snapshot => KolBudgets
  | .toVecPretty _ => Option (List UInt8)
  | .create => Option Nat
  | .write .. => Option Nat
  | .rename => Bool

/-- The time where a step reads the clock, whether a file operation succeeds, and how many bytes are
written at once. -/
abbrev BudgetOp.Ans : BudgetOp → Type
  | .tryReserve _ => Nat
  | .creditClose .. => Nat
  | .create => Bool
  | .write .. => Option Nat
  | .rename => Bool
  | _ => Unit

abbrev BudgetSig : Sig := ⟨BudgetOp, BudgetOp.Res⟩

abbrev Budgeting (α : Type) := Proc BudgetSig α

def onBudgets (o : BudgetOp) : Budgeting o.Res := @Proc.call BudgetSig o

/-- The calls that the consumer and the sweeper make on the book. -/
inductive BudgetCall where
  | tryReserve (kolName : String)
  | creditClose (kolName : String) (bnbIn bnbOut : U256)
  | save
deriving DecidableEq, Repr

namespace KolBudgetBook

/-- `write_all`: as long as bytes are left, at least one is written at a time, so that there are at
most `left` writes. -/
def writeAll (file : Nat) : (left offset : Nat) → List UInt8 → Budgeting Bool
  | _, _, [] => return true
  | 0, _, _ :: _ => return false
  | left + 1, offset, byte :: rest => do
      match ← onBudgets (.write file offset (byte :: rest)) with
      | none => return false
      | some 0 => return false
      | some (n + 1) => writeAll file left (offset + (n + 1)) ((byte :: rest).drop (n + 1))

/-- `save`: whether it ended without an error. -/
def save : Budgeting Bool := do
  let snap ← onBudgets .snapshot
  match ← onBudgets (.toVecPretty snap) with
  | none => return false
  | some body =>
      match ← onBudgets .create with
      | none => return false
      | some file =>
          if ← writeAll file body.length 0 body then onBudgets .rename
          else return false

def call : BudgetCall → Budgeting Unit
  | .tryReserve kolName => do
      let _ ← onBudgets (.tryReserve kolName)
      return ()
  | .creditClose kolName bnbIn bnbOut => onBudgets (.creditClose kolName bnbIn bnbOut)
  | .save => do
      let _ ← save
      return ()

/-- The calls of one task, one after the other. -/
def calls : List BudgetCall → Budgeting Unit
  | [] => return ()
  | first :: rest => do
      call first
      calls rest

end KolBudgetBook

def BudgetOp.exec (limits : KolBudgetBook) (json : BudgetJson) :
    (o : BudgetOp) → o.Ans → BudgetWorld → Option (Outcome BudgetWorld (List BudgetCall) o.Res)
  | .tryReserve kolName, nowNs, w =>
      let (reserved, inner) := limits.tryReserve w.inner kolName nowNs
      some { res := reserved, shared := { w with inner := inner } }
  | .creditClose kolName bnbIn bnbOut, nowNs, w =>
      some {
        res := ()
        shared := { w with inner := KolBudgetBook.creditClose w.inner kolName bnbIn bnbOut nowNs } }
  | .snapshot, _, w => some { res := w.inner, shared := w }
  | .toVecPretty snap, _, w => some { res := json.toVecPretty snap, shared := w }
  | .create, opened, w =>
      if opened then
        some { res := some w.files.create.1, shared := { w with files := w.files.create.2 } }
      else some { res := none, shared := w }
  | .write file offset bytes, written, w =>
      match written with
      | none => some { res := none, shared := w }
      | some n =>
          if n ≤ bytes.length then
            some {
              res := some n
              shared := { w with files := w.files.write 0 file offset (bytes.take n) } }
          else none
  | .rename, renamed, w =>
      match w.files.rename with
      | none => some { res := false, shared := w }
      | some files =>
          if renamed then some { res := true, shared := { w with files := files } }
          else some { res := false, shared := w }

/-- The tasks that share a budget book, each with its calls. -/
def KolBudgetBook.machine (limits : KolBudgetBook) (json : BudgetJson) :
    Machine BudgetSig BudgetWorld (List BudgetCall) Unit where
  Ans := BudgetOp.Ans
  exec _ _ := BudgetOp.exec limits json
  waits _ := []
  body := KolBudgetBook.calls

end BscMempool.Trader
