import Aero.Lib.BitSet
import Aero.Lib.ByteStore
import Aero.Snapshot.Ram

namespace Aero.Snapshot

structure DirtyBitmap where
  bits : List BitSet.Word
  pages : Nat
  pageSize : Nat

namespace DirtyBitmap

def new (memLen : U64) (pageSize : U32) : DirtyBitmap :=
  let rounded := memLen.toNat + (pageSize.toNat - 1)
  let pages := (if rounded < 2 ^ 64 then rounded else memLen.toNat) / pageSize.toNat
  { bits := List.replicate ((pages + 63) / 64) 0, pages := pages, pageSize := pageSize.toNat }

def setPage (bits : List BitSet.Word) (page : Nat) : List BitSet.Word :=
  (BitSet.set bits page true).getD bits

def markRange (self : DirtyBitmap) (start : U64) (len : Nat) : DirtyBitmap :=
  if len = 0 ∨ self.pages = 0 then self
  else
    let stop := min (start.toNat + len) (2 ^ 64 - 1) - 1
    let firstPage := start.toNat / self.pageSize
    let lastPage := stop / self.pageSize
    if firstPage ≥ self.pages then self
    else
      let lastPage := min lastPage (self.pages - 1)
      { self with bits := (List.range' firstPage (lastPage + 1 - firstPage)).foldl setPage self.bits }

def take (self : DirtyBitmap) : List U64 × DirtyBitmap :=
  (((BitSet.elems 0 self.bits).filter (· < self.pages)).map (BitVec.ofNat 64),
    { self with bits := self.bits.map fun _ => 0 })

end DirtyBitmap

-- Guest RAM behind the tracking wrapper. Whether the backend can hand out a slice for a range is up
-- to it.
structure DirtyGuestMemory where
  size : U64
  ram : Nat → U8
  contiguous : Nat → Nat → Bool
  bitmap : DirtyBitmap

inductive Access
  | writeFrom (paddr : U64) (src : List U8)
  | sliceMut (paddr : U64) (contents : List U8)

namespace DirtyGuestMemory

def new (size : U64) (ram : Nat → U8) (contiguous : Nat → Nat → Bool) (pageSize : U32) :
    DirtyGuestMemory :=
  ⟨size, ram, contiguous, DirtyBitmap.new size pageSize⟩

def inRange (self : DirtyGuestMemory) (paddr len : Nat) : Bool :=
  paddr + len ≤ self.size.toNat

def readInto (self : DirtyGuestMemory) (paddr len : Nat) : Except SnapshotError (List U8) :=
  if self.inRange paddr len then .ok (ByteStore.read self.ram paddr len) else .error (.ram 0)

def store (self : DirtyGuestMemory) (paddr : U64) (bytes : List U8) : DirtyGuestMemory :=
  { self with
    ram := ByteStore.write self.ram paddr.toNat bytes
    bitmap := self.bitmap.markRange paddr bytes.length }

def access (self : DirtyGuestMemory) : Access → DirtyGuestMemory
  | .writeFrom paddr src =>
    if self.inRange paddr.toNat src.length then self.store paddr src else self
  | .sliceMut paddr contents =>
    if self.inRange paddr.toNat contents.length ∧
        self.contiguous paddr.toNat contents.length then
      self.store paddr contents
    else
      self

def takeDirtyPages (self : DirtyGuestMemory) : List U64 × DirtyGuestMemory :=
  let (pages, bitmap) := self.bitmap.take
  (pages, { self with bitmap := bitmap })

def saveRam (lz : Lz4) (self : DirtyGuestMemory) (pageSize : U32) (opts : RamWriteOptions) :
    Except SnapshotError (List U8 × DirtyGuestMemory) :=
  if opts.mode = .dirty ∧ opts.pageSize ≠ pageSize then
    .error (.dirtyPageSizeMismatch opts.pageSize pageSize)
  else do
    let (dirtyPages, taken) := self.takeDirtyPages
    let bytes ← saveRamSection lz self.readInto self.size opts (some dirtyPages)
    .ok (bytes, taken)

def saveChain (lz : Lz4) (pageSize : U32) : DirtyGuestMemory → List (List Access × RamWriteOptions) →
    Except SnapshotError (List (List U8) × DirtyGuestMemory)
  | self, []                         => .ok ([], self)
  | self, (accesses, opts) :: rounds => do
    let (bytes, self) ← saveRam lz (accesses.foldl access self) pageSize opts
    let (sections, self) ← saveChain lz pageSize self rounds
    .ok (bytes :: sections, self)

end DirtyGuestMemory

-- The writes of the decoder are applied to the RAM that is there.
def restoreRam (lz : Lz4) (size : U64) (ram : Nat → U8) (bytes : List U8) :
    Except SnapshotError (Nat → U8) :=
  match (decodeRamSectionInto lz (fun _ => .ok ()) size).run ⟨bytes, [], []⟩ with
  | .ok _ s    => .ok (s.writes.foldl (fun ram w => ByteStore.write ram w.1 w.2) ram)
  | .error e _ => .error e

def restoreChain (lz : Lz4) (size : U64) (ram : Nat → U8) (sections : List (List U8)) :
    Except SnapshotError (Nat → U8) :=
  sections.foldlM (restoreRam lz size) ram

end Aero.Snapshot
