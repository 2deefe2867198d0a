/-
Module: BscMempool.Telemetry.Janitor
Layer: Telemetry
Purpose: The capture janitor's sweep of the capture directory: segments that are too old are
  removed, then the oldest of the others until the total size is within the retention.
Trusted boundary: human-reviewed translation of bsc-telemetry/src/capture.rs (sweep_directory);
  `removable` says of which files the removal succeeds, the rest is left in place without notice
Main exports: Directory, Directory.remove, isZst, listing, aged, oldestFirst, evict, sweepDirectory
-/
import Mathlib.Algebra.Order.Ring.Nat
import Mathlib.Data.List.Sort

namespace BscMempool.Telemetry

/-- What the metadata of a file say: its size, and when it was modified, in nanoseconds. -/
structure FileMeta where
  len : Nat
  modified : Int
deriving DecidableEq, Repr

structure DirEntry where
  name : List Char
  metadata : Except String FileMeta

/-- The entries of a directory, in the order in which they are read. -/
structure Directory where
  entries : List DirEntry
  distinct : (entries.map DirEntry.name).Nodup

namespace Directory

def remove (d : Directory) (name : List Char) : Directory where
  entries := d.entries.filter fun e => e.name ≠ name
  distinct := d.distinct.sublist (List.Sublist.map _ List.filter_sublist)

def exists_ (d : Directory) (name : List Char) : Bool := d.entries.any fun e => e.name == name

end Directory

/-- `Path::extension`: what follows the last dot, unless that is the first character. -/
def extension (name : List Char) : Option (List Char) :=
  let afterDot := name.reverse.takeWhile (· ≠ '.')
  if afterDot.length + 1 < name.length then some afterDot.reverse else none

def isZst (name : List Char) : Bool := extension name == some ['z', 's', 't']

/-- A listed segment. -/
structure SegmentFile where
  name : List Char
  len : Nat
  modified : Int
deriving DecidableEq, Repr

def DirEntry.segment (e : DirEntry) : Except String SegmentFile :=
  e.metadata.map fun md => ⟨e.name, md.len, md.modified⟩

/-- The segments of the directory; it fails with the first metadata that cannot be read. -/
def listing (d : Directory) : Except String (List SegmentFile) :=
  (d.entries.filter fun e => isZst e.name).mapM DirEntry.segment

/-- Modified longer ago than `maxAge`; a time in the future is not. -/
def aged (now : Int) (maxAge : Nat) (f : SegmentFile) : Bool :=
  decide (f.modified ≤ now ∧ (maxAge : Int) < now - f.modified)

/-- `u64::saturating_add`. -/
def saturatingAdd (a b : Nat) : Nat := min (a + b) (2 ^ 64 - 1)

/-- `sort_by_key` of the modification time, which keeps the order of equal ones. -/
def oldestFirst (files : List SegmentFile) : List SegmentFile :=
  files.insertionSort fun f g => f.modified ≤ g.modified

section
variable (removable : List Char → Bool)

/-- `let _ = fs::remove_file(..)`. -/
def removeFile (d : Directory) (name : List Char) : Directory :=
  if removable name then d.remove name else d

/-- The first loop: aged segments are removed, the sizes of the others added up. -/
def dropAged (now : Int) (maxAge : Nat) : List SegmentFile → Directory → Nat → Directory × Nat
  | [], d, total => (d, total)
  | f :: rest, d, total =>
      if aged now maxAge f then dropAged now maxAge rest (removeFile removable d f.name) total
      else dropAged now maxAge rest d (saturatingAdd total f.len)

/-- The second loop: segments are removed until the total is within the retention. -/
def evict (retentionBytes : Nat) : List SegmentFile → Directory → Nat → Directory
  | [], d, _ => d
  | f :: rest, d, total =>
      if total ≤ retentionBytes then d
      else evict retentionBytes rest (removeFile removable d f.name) (total - f.len)

def sweepDirectory (d : Directory) (now : Int) (retentionBytes maxAge : Nat) :
    Except String Directory := do
  let entries ← listing d
  let (swept, total) := dropAged removable now maxAge entries d 0
  if total > retentionBytes then
    let surviving := oldestFirst (entries.filter fun f => swept.exists_ f.name)
    return evict removable retentionBytes surviving swept total
  else return swept

end

end BscMempool.Telemetry
