import Aero.Jit.PageVersions
import Mathlib.Data.List.AList

namespace Aero

structure CounterEntry where
  count : Nat
  lastHit : Nat
  deriving DecidableEq, Repr

structure HotnessProfile where
  threshold : Nat
  capacity : Nat
  clock : Nat
  counters : AList fun _ : U64 => CounterEntry
  requested : Finset U64

namespace HotnessProfile

def minCapacity : Nat := 256
def maxCapacity : Nat := 262144
def cacheBlocksMultiplier : Nat := 4

def newWithCapacity (threshold capacity : Nat) : HotnessProfile where
  threshold := threshold
  capacity := max capacity 1
  clock := 0
  counters := ∅
  requested := ∅

def recommendedCapacity (cacheMaxBlocks : Nat) : Nat :=
  min (max (cacheMaxBlocks * cacheBlocksMultiplier) minCapacity) maxCapacity

variable (p : HotnessProfile)

def clearRequested (entryRip : U64) : HotnessProfile :=
  { p with requested := p.requested.erase entryRip }

def bumpClock : HotnessProfile :=
  { p with clock := saturatingAdd p.clock 1 }

def victimLt (a b : Nat × Nat × U64) : Bool :=
  a.1 < b.1 || (a.1 == b.1 &&
    (a.2.1 < b.2.1 || (a.2.1 == b.2.1 && a.2.2.toNat < b.2.2.toNat)))

-- One iteration of the loop of `pick_victim`.
def betterVictim (allowRequested : Bool) (victim : Option (Nat × Nat × U64))
    (e : (_ : U64) × CounterEntry) : Option (Nat × Nat × U64) :=
  if !allowRequested && e.1 ∈ p.requested then victim
  else
    let key := (e.2.count, e.2.lastHit, e.1)
    match victim with
    | none   => some key
    | some v => if victimLt key v then some key else victim

def pickVictim (allowRequested : Bool) : Option U64 :=
  (p.counters.entries.foldl (p.betterVictim allowRequested) none).map (·.2.2)

def evict (entryRip : U64) : HotnessProfile :=
  { p with counters := p.counters.erase entryRip, requested := p.requested.erase entryRip }

def ensureSpaceForNewCounterEntry : Bool × HotnessProfile :=
  if p.counters.keys.length < p.capacity then (true, p)
  else
    match p.pickVictim false with
    | none        => (false, p)
    | some victim => (true, p.evict victim)

def ensureSpaceForNewRequestedEntry : HotnessProfile :=
  if p.counters.keys.length < p.capacity then p
  else
    match p.pickVictim false with
    | some victim => p.evict victim
    | none        =>
      match p.pickVictim true with
      | some victim => p.evict victim
      | none        => p

def ensureEntry (entryRip : U64) (minCount : Nat) : HotnessProfile :=
  let p := p.bumpClock
  match p.counters.lookup entryRip with
  | some e => { p with counters := p.counters.insert entryRip { e with lastHit := p.clock } }
  | none   =>
    let now := p.clock
    let p := p.ensureSpaceForNewRequestedEntry
    { p with counters := p.counters.insert entryRip { count := minCount, lastHit := now } }

def markRequested (entryRip : U64) : HotnessProfile :=
  let p := p.ensureEntry entryRip (max p.threshold 1)
  { p with requested := insert entryRip p.requested }

-- The part of `record_hit` behind the update of the counter.
def requestIfHot (entryRip : U64) (counter : Nat) (hasCompiledBlock : Bool) :
    Bool × HotnessProfile :=
  if !hasCompiledBlock && p.threshold ≤ counter && entryRip ∉ p.requested then
    (true, { p with requested := insert entryRip p.requested })
  else
    (false, p)

def recordHit (entryRip : U64) (hasCompiledBlock : Bool) : Bool × HotnessProfile :=
  let p := p.bumpClock
  let now := p.clock
  match p.counters.lookup entryRip with
  | some e =>
    let count := min (e.count + 1) (2 ^ 32 - 1)
    let p := { p with counters := p.counters.insert entryRip { count, lastHit := now } }
    p.requestIfHot entryRip count hasCompiledBlock
  | none =>
    match p.ensureSpaceForNewCounterEntry with
    | (false, p) => (false, p)
    | (true, p)  =>
      let p := { p with counters := p.counters.insert entryRip { count := 1, lastHit := now } }
      p.requestIfHot entryRip 1 hasCompiledBlock

def reset : HotnessProfile :=
  { p with clock := 0, counters := ∅, requested := ∅ }

end HotnessProfile

end Aero
