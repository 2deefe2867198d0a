/-
Module: BscMempool.Trader.LiveLedger
Layer: Trader
Purpose: The live ledger's file: how it is opened and given its header, the row that is appended for
  an entry, and how the trail watcher finds a token's BUY row in it.
Trusted boundary: human-reviewed translation of LiveLedger::new, append and csv_escape
  (trader/live_ledger.rs) and of the scan of init_state_from_ledger (trader/adaptive_trail.rs); the
  file system is a parameter of each call
Main exports: LiveLedger.CSV_HEADER, LiveLedger.Disk, LiveLedger.new, LiveLedger.row,
  LiveLedger.text, LiveLedger.passes, LiveLedger.buyRow
-/
import BscMempool.Codec.Bytes
import BscMempool.Codec.Csv
import BscMempool.Trader.LiveState

namespace BscMempool.Trader.LiveLedger

open Codec (FloatFormat asBytes decimal hex parseUnsigned)
open Codec.Csv (Field)

def CSV_HEADER : String :=
  "ts_unix_ns,phase,kol_name,visibility,token_address," ++
  "token_symbol,bnb_in_wei,gas_gwei,nonce,tx_hash,wallet_bnb,broadcast," ++
  "limit_skip_reason\n"

/-- The bytes are the UTF-8 encoding of some string. -/
def ValidUtf8 (b : List UInt8) : Prop := b.toByteArray.IsValidUTF8

instance (b : List UInt8) : Decidable (ValidUtf8 b) :=
  inferInstanceAs (Decidable b.toByteArray.IsValidUTF8)

/-! ### Opening -/

/-- How the file system answers one call of `new`.  `probe` and `backup` are the two reads: a file
that `exists` does not see counts as one that cannot be read.  A write that fails has written so
many bytes before. -/
structure Disk where
  mkdir : Bool := true
  probe : Bool := true
  backup : Bool := true
  create : Bool := true
  header : Option Nat := none
  existing : Option Nat := none
deriving DecidableEq, Repr

inductive NewError where
  | mkdir
  | create
  | writeHeader
  | writeExisting
deriving DecidableEq, Repr

/-- `read_to_string`: an error if the read fails, and for bytes that are not UTF-8. -/
def readToString (works : Bool) (content : List UInt8) : Option (List UInt8) :=
  if works = true ∧ ValidUtf8 content then some content else none

def startsWithHeader (s : List UInt8) : Bool := decide (asBytes CSV_HEADER <+: s)

/-- Whether `new` rewrites the file. -/
def needsHeader (disk : Disk) : Option (List UInt8) → Bool
  | some content => ((readToString disk.probe content).map fun s => !startsWithHeader s).getD true
  | none => true

/-- What `new` reads back before it rewrites the file. -/
def existing (disk : Disk) : Option (List UInt8) → List UInt8
  | some content => (readToString disk.backup content).getD []
  | none => []

/-- The writes to the file that was just emptied. -/
def rewrite (disk : Disk) (existing : List UInt8) : Except NewError Unit × Option (List UInt8) :=
  match disk.header with
  | some n => (.error .writeHeader, some ((asBytes CSV_HEADER).take n))
  | none =>
      if existing ≠ [] ∧ startsWithHeader existing = false then
        match disk.existing with
        | some n => (.error .writeExisting, some (asBytes CSV_HEADER ++ existing.take n))
        | none => (.ok (), some (asBytes CSV_HEADER ++ existing))
      else (.ok (), some (asBytes CSV_HEADER))

/-- Open the ledger file, which may not be there yet: the result, and what the
file holds afterwards. -/
def new (disk : Disk) (file : Option (List UInt8)) : Except NewError Unit × Option (List UInt8) :=
  if disk.mkdir = false then (.error .mkdir, file)
  else if needsHeader disk file = false then (.ok (), file)
  else if disk.create = false then (.error .create, file)
  else rewrite disk (existing disk file)

/-! ### Appending -/

def csvEscape (s : String) : List Char := Codec.Csv.quoteField s.toList

/-- The columns of an entry as they are written at `ts`. -/
def written (fmt : FloatFormat) (ts : Nat) (e : LiveEntry) : List (List Char) := [
  decimal ts,
  e.phase.toList,
  csvEscape e.kolName,
  e.visibility.toList,
  hex 40 e.tokenAddress.toNat,
  csvEscape e.tokenSymbol,
  decimal e.bnbInWei.toNat,
  decimal e.gasGwei,
  decimal e.nonce.toNat,
  hex 64 e.txHash.toNat,
  fmt.fixed 6 e.walletBnb,
  if e.broadcast then "true".toList else "false".toList,
  (e.limitSkipReason.getD "").toList]

/-- What `append` adds to the file. -/
def row (fmt : FloatFormat) (ts : Nat) (e : LiveEntry) : List Char :=
  Codec.Csv.line (written fmt ts e)

/-- The file after these appends to a new ledger, each with its time. -/
def text (fmt : FloatFormat) (rows : List (Nat × LiveEntry)) : List Char :=
  CSV_HEADER.toList ++ rows.flatMap fun r => row fmt r.1 r.2

/-! ### The trail watcher's scan -/

/-- The tests a line's parts must pass to be taken for a BUY row of `token`.  No character outside
ASCII has a lower case that occurs in the hexadecimal text, so that lower case is that of ASCII. -/
def passes (token : Address) (parts : List Field) : Bool :=
  decide (13 ≤ parts.length) &&
  decide (hex 40 token.toNat <:+: (parts.getD 4 []).map Char.toLower) &&
  parts.getD 3 [] != "exit".toList &&
  (parseUnsigned (2 ^ 128) (parts.getD 6 [])).getD 0 != 0

/-- The BUY row the scan ends with, split at its commas. -/
def buyRow (token : Address) (text : List Char) : Option (List Field) :=
  (((Codec.lines text).map fun line => line.splitOn ',').filter (passes token)).getLast?

end BscMempool.Trader.LiveLedger
