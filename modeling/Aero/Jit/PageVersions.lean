import Aero.Types

namespace Aero

def pageShift : Nat := 12

def saturatingAdd (a b : Nat) : Nat :=
  min (a + b) (2 ^ 64 - 1)

structure PageVersionSnapshot where
  page : Nat
  version : U32
  deriving DecidableEq, Repr

-- The table is dense and of fixed length. Pages outside of it have version 0. A table that is owned
-- by the backend has the same contract, so there is one model for both.
structure PageVersionTracker where
  table : List U32
  generation : U64
  deriving DecidableEq, Repr

namespace PageVersionTracker

def maxTrackedPages : Nat := 4194304
def maxSnapshotPages : Nat := 4096

def new (maxPages : Nat) : PageVersionTracker where
  table := List.replicate (min maxPages maxTrackedPages) 0
  generation := 0

def versionsLen (t : PageVersionTracker) : Nat :=
  t.table.length

def version (t : PageVersionTracker) (page : Nat) : U32 :=
  t.table.getD page 0

-- The first and the last page of the range `[addr, addr + len)`, where the end saturates.
def startPage (addr : U64) : Nat :=
  addr.toNat / 2 ^ pageShift

def endPage (addr : U64) (len : Nat) : Nat :=
  saturatingAdd addr.toNat (len - 1) / 2 ^ pageShift

def bumpWrite (t : PageVersionTracker) (paddr : U64) (len : Nat) : PageVersionTracker :=
  if len = 0 ∨ t.versionsLen = 0 ∨ t.versionsLen ≤ startPage paddr then t
  else
    let endIdx := min (endPage paddr len) (t.versionsLen - 1)
    { t with
      table := t.table.mapIdx fun i v => if startPage paddr ≤ i ∧ i ≤ endIdx then v + 1 else v }

def snapshot (t : PageVersionTracker) (codePaddr : U64) (byteLen : U32) :
    List PageVersionSnapshot :=
  if byteLen = 0 then []
  else
    let pageCount := endPage codePaddr byteLen.toNat - startPage codePaddr + 1
    let clampedPages := min pageCount maxSnapshotPages
    (List.range clampedPages).map fun i =>
      { page := startPage codePaddr + i, version := t.version (startPage codePaddr + i) }

def reset (t : PageVersionTracker) : PageVersionTracker where
  table := t.table.map fun _ => 0
  generation := t.generation + 1

end PageVersionTracker

end Aero
