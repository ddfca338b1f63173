import Aero.Lib.Intervals
import Aero.Types

namespace Aero.Storage

-- The offsets from `start` up to `stop`, the field `end` of the source.
structure ByteRange where
  start : Nat
  stop : Nat
  deriving DecidableEq, Repr

namespace ByteRange

def len (r : ByteRange) : Nat :=
  r.stop - r.start

def isEmpty (r : ByteRange) : Bool :=
  r.stop ≤ r.start

def overlapsOrAdjacent (r other : ByteRange) : Bool :=
  r.start ≤ other.stop && other.start ≤ r.stop

def merge (r other : ByteRange) : ByteRange :=
  ⟨min r.start other.start, max r.stop other.stop⟩

end ByteRange

structure RangeSet where
  ranges : List ByteRange
  deriving DecidableEq, Repr

namespace RangeSet

def new : RangeSet := ⟨[]⟩

def totalLen (s : RangeSet) : Nat :=
  (s.ranges.map ByteRange.len).sum % 2 ^ 64

-- The comparison never answers `Equal`: the search ends behind the ranges that are `Less`.
def containsRange (s : RangeSet) (start stop : Nat) : Bool :=
  if stop ≤ start then true
  else
    match s.ranges[Intervals.partitionPoint (fun r => r.stop ≤ start) s.ranges]? with
    | none   => false
    | some r => r.start ≤ start && stop ≤ r.stop

def insertLoop (new : ByteRange) (inserted : Bool) : List ByteRange → List ByteRange
  | []      => if inserted then [] else [new]
  | r :: rs =>
    if r.stop < new.start then r :: insertLoop new inserted rs
    else if new.stop < r.start then
      if inserted then r :: insertLoop new inserted rs else new :: r :: insertLoop new true rs
    else
      insertLoop (new.merge r) inserted rs

def compactLoop (cur : ByteRange) : List ByteRange → List ByteRange
  | []      => [cur]
  | r :: rs =>
    if cur.overlapsOrAdjacent r then compactLoop (cur.merge r) rs else cur :: compactLoop r rs

def compactAdjacent (s : RangeSet) : RangeSet :=
  if s.ranges.length ≤ 1 then s
  else
    match s.ranges.mergeSort fun a b => a.start ≤ b.start with
    | []      => s
    | r :: rs => ⟨compactLoop r rs⟩

def insert (s : RangeSet) (start stop : Nat) : RangeSet :=
  let new : ByteRange := ⟨start, stop⟩
  if new.isEmpty then s else compactAdjacent ⟨insertLoop new false s.ranges⟩

def remainders (remove r : ByteRange) : List ByteRange :=
  if r.stop ≤ remove.start ∨ remove.stop ≤ r.start then [r]
  else
    (if r.start < remove.start then [⟨r.start, remove.start⟩] else []) ++
      (if remove.stop < r.stop then [⟨remove.stop, r.stop⟩] else [])

def remove (s : RangeSet) (start stop : Nat) : RangeSet :=
  let remove : ByteRange := ⟨start, stop⟩
  if remove.isEmpty then s else compactAdjacent ⟨s.ranges.flatMap (remainders remove)⟩

inductive Op
  | insert (start stop : U64)
  | remove (start stop : U64)

def step (s : RangeSet) : Op → RangeSet
  | .insert start stop => s.insert start.toNat stop.toNat
  | .remove start stop => s.remove start.toNat stop.toNat

end RangeSet

end Aero.Storage
