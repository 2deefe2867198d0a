/-
Module: BscMempool.Watch.Venus
Layer: Watch
Purpose: The Venus watcher's discovery of borrowers: a seed scan of the blocks before the head at
  the start, then at each poll a scan of what came since. Each step takes one answer of the node; a
  run that is shut down ends early.
Trusted boundary: human-reviewed translation of venus.rs (run, scan_borrows, addr_from_word). The
  health poll, which only reads the set of borrowers, is left out; the data of a log are hexadecimal
  digits, in ASCII.
Main exports: Log, scanBorrows, Scan, Phase, Venus, Venus.init, Venus.step, Venus.run
-/
import BscMempool.Codec.Bytes
import BscMempool.Trader.Types
import Mathlib.Data.Finset.Insert

namespace BscMempool.Watch

open Trader (Address)

namespace Venus

def SEED_BLOCKS : Nat := 100000
def CHUNK : Nat := 5000

/-! ### One scan -/

structure Log where
  data : Option (List Char)
deriving DecidableEq

/-- `strip_prefix("0x").unwrap_or(s)`. -/
def strip0x : List Char → List Char
  | '0' :: 'x' :: rest => rest
  | s => s

/-- `char::to_digit(16)`. -/
def toDigit (c : Char) : Option Nat :=
  if '0' ≤ c ∧ c ≤ '9' then some (c.toNat - 48)
  else if 'a' ≤ c ∧ c ≤ 'f' then some (c.toNat - 87)
  else if 'A' ≤ c ∧ c ≤ 'F' then some (c.toNat - 55)
  else none

/-- `u8::from_str_radix(.., 16)` of two characters, the first of which may be a sign. -/
def hexByte (hi lo : Char) : Option UInt8 :=
  if hi = '+' then (toDigit lo).map UInt8.ofNat
  else (toDigit hi).bind fun h => (toDigit lo).map fun l => UInt8.ofNat (16 * h + l)

def hexBytes : List Char → Option (List UInt8)
  | hi :: lo :: rest => (hexByte hi lo).bind fun b => (hexBytes rest).map (b :: ·)
  | _ => some []

def addrFromWord (w : List Char) : Option Address :=
  let s := strip0x w
  if s.length < 40 then none
  else (hexBytes (s.drop (s.length - 40))).map fun bytes => BitVec.ofNat 160 (Codec.ofBeBytes bytes)

/-- The borrower of a Borrow event: the first data word, unless it is zero. -/
def Log.borrower (lg : Log) : Option Address :=
  lg.data.bind fun d =>
    let body := strip0x d
    if body.length ≥ 64 then (addrFromWord (body.take 64)).filter fun a => a ≠ 0 else none

/-- What `eth_getLogs` answered: `none` when the call failed or the result is no array. -/
abbrev LogsReply := Option (List Log)

def scanBorrows (reply : LogsReply) (out : Finset Address) : Finset Address :=
  match reply with
  | none => out
  | some logs => (logs.filterMap Log.borrower).foldl (fun out a => insert a out) out

end Venus

/-! ### The watcher -/

/-- A call of `scan_borrows`: the blocks it asks for, both ends included, and whether its
`eth_getLogs` succeeded. -/
structure Scan where
  from_ : Nat
  to_ : Nat
  ok : Bool
deriving DecidableEq, Repr

/-- Where the watcher is: in the seed scan up to the head, between two polls, or in the incremental
scan of a poll. -/
inductive Phase where
  | seed (from_ head : Nat)
  | idle (lastScanned : Nat)
  | scan (f h lastScanned : Nat)
deriving DecidableEq, Repr

structure Venus where
  phase : Phase
  borrowers : Finset Address
  /-- The calls of `scan_borrows` so far. -/
  scans : List Scan

/-- What the watcher waits for: the block number at a poll, the logs of a chunk within a scan. -/
inductive VenusReply where
  | blockNumber (head : Option Nat)
  | logs (reply : Venus.LogsReply)

namespace Venus

/-- `while from < head`. -/
def seedFrom (from_ head : Nat) : Phase := if from_ < head then .seed from_ head else .idle head

/-- `while f <= h`. -/
def scanFrom (f h lastScanned : Nat) : Phase := if f ≤ h then .scan f h lastScanned else .idle h

/-- The watcher at its start, given the block number if the node told one. -/
def init (blockNumber : Option Nat) : Venus :=
  let head := blockNumber.getD 0
  { phase := seedFrom (head - SEED_BLOCKS) head
    borrowers := ∅
    scans := [] }

def step (s : Venus) : VenusReply → Option Venus
  | .logs reply =>
      match s.phase with
      | .seed from_ head =>
          let to_ := min ((from_ + CHUNK) % 2 ^ 64) head
          some {
            phase := seedFrom ((to_ + 1) % 2 ^ 64) head
            borrowers := scanBorrows reply s.borrowers
            scans := s.scans ++ [⟨from_, to_, reply.isSome⟩] }
      | .scan f h lastScanned =>
          let t := min ((f + CHUNK) % 2 ^ 64) h
          some {
            phase := scanFrom ((t + 1) % 2 ^ 64) h lastScanned
            borrowers := scanBorrows reply s.borrowers
            scans := s.scans ++ [⟨f, t, reply.isSome⟩] }
      | .idle _ => none
  | .blockNumber head =>
      match s.phase with
      | .idle lastScanned =>
          match head with
          | none => some s
          | some h =>
              if h > lastScanned then
                some { s with phase := scanFrom ((lastScanned + 1) % 2 ^ 64) h lastScanned }
              else some s
      | _ => none

/-- The state after some answers, if each is one the watcher waits for. -/
def run (s : Venus) : List VenusReply → Option Venus
  | [] => some s
  | reply :: rest => (s.step reply).bind fun s => run s rest

end Venus

end BscMempool.Watch
