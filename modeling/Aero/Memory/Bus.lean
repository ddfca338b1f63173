import Aero.Lib.Intervals
import Aero.Lib.LeBytes
import Aero.Memory.Phys

namespace Aero.Memory

open GuestMemory LeBytes

def saturatingAdd (a b : Nat) : Nat := min (a + b) (2 ^ 64 - 1)

def wrappingAdd (a b : Nat) : Nat := (a + b) % 2 ^ 64

-- `size` is the number of bytes. A read returns the value and the handler's next state.
class MmioHandler (σ : Type*) where
  read  : σ → (offset size : Nat) → U64 × σ
  write : σ → (offset size : Nat) → U64 → σ

structure RomRegion where
  start : Nat
  data  : List U8

def RomRegion.stop (r : RomRegion) : Nat :=
  saturatingAdd r.start r.data.length

structure MmioRegion (σ : Type*) where
  start   : Nat
  stop    : Nat
  handler : σ

inductive MapError
  | addressOverflow
  | overlap
  deriving DecidableEq

-- One call of a handler. The loops below return their calls in order; nothing reads them back.
structure Access where
  region : Nat
  offset : Nat
  size   : Nat
  value  : U64
  deriving DecidableEq

structure PhysicalMemoryBus (M σ : Type*) where
  ram          : M
  romRegions   : List RomRegion
  mmioRegions  : List (MmioRegion σ)
  ramSize      : Nat
  maxRomEnd    : Nat
  minMmioStart : Nat

inductive Chunk
  | mmio (k offset len : Nat)
  | rom (r : RomRegion) (offset len : Nat)
  | ram (len : Nat)
  | unmapped (len : Nat)

def Chunk.len : Chunk → Nat
  | mmio _ _ n | rom _ _ n | ram n | unmapped n => n

def accessSize (addr remaining : Nat) : Nat :=
  ([8, 4, 2, 1].find? fun c => remaining ≥ c ∧ addr % c = 0).getD 1

def cutAt (next : Option Nat) (stop : Nat) : Nat :=
  match next with
  | some s => if s < stop then s else stop
  | none   => stop

namespace PhysicalMemoryBus

variable {M σ : Type*} [GuestMemory M]

def new (ram : M) : PhysicalMemoryBus M σ where
  ram          := ram
  romRegions   := []
  mmioRegions  := []
  ramSize      := (size ram).toNat
  maxRomEnd    := 0
  minMmioStart := 2 ^ 64 - 1

def mapRom (bus : PhysicalMemoryBus M σ) (start : U64) (data : List U8) :
    Except MapError (PhysicalMemoryBus M σ) :=
  let stop := start.toNat + data.length
  if stop < 2 ^ 64 then
    match Intervals.insert RomRegion.start RomRegion.stop bus.romRegions ⟨start.toNat, data⟩ with
    | none   => .error .overlap
    | some l => .ok { bus with romRegions := l, maxRomEnd := max bus.maxRomEnd stop }
  else
    .error .addressOverflow

def mapMmio (bus : PhysicalMemoryBus M σ) (start len : U64) (handler : σ) :
    Except MapError (PhysicalMemoryBus M σ) :=
  let stop := start.toNat + len.toNat
  if stop < 2 ^ 64 then
    match Intervals.insert MmioRegion.start MmioRegion.stop bus.mmioRegions
        ⟨start.toNat, stop, handler⟩ with
    | none   => .error .overlap
    | some l => .ok { bus with mmioRegions := l, minMmioStart := min bus.minMmioStart start.toNat }
  else
    .error .addressOverflow

def findMmioRegionIndex (bus : PhysicalMemoryBus M σ) (addr : Nat) : Option Nat :=
  Intervals.findIndex MmioRegion.start MmioRegion.stop bus.mmioRegions addr

def findRomRegionIndex (bus : PhysicalMemoryBus M σ) (addr : Nat) : Option Nat :=
  Intervals.findIndex RomRegion.start RomRegion.stop bus.romRegions addr

def nextMmioStartAfter (bus : PhysicalMemoryBus M σ) (addr : Nat) : Option Nat :=
  Intervals.nextStart MmioRegion.start bus.mmioRegions addr

def nextRomStartAfter (bus : PhysicalMemoryBus M σ) (addr : Nat) : Option Nat :=
  Intervals.nextStart RomRegion.start bus.romRegions addr

def ramNoRegionOverlap (bus : PhysicalMemoryBus M σ) (paddr stop : Nat) : Bool :=
  if paddr ≥ bus.maxRomEnd ∧ stop ≤ bus.minMmioStart then true
  else
    let mi := Intervals.partitionPoint (fun r => decide (r.stop ≤ paddr)) bus.mmioRegions
    let ri := Intervals.partitionPoint (fun r => decide (r.stop ≤ paddr)) bus.romRegions
    !bus.mmioRegions[mi]?.any (fun r => r.start < stop) &&
      !bus.romRegions[ri]?.any (fun r => r.start < stop)

def ramFastRange (bus : PhysicalMemoryBus M σ) (paddr len : Nat) : Option Nat :=
  let stop := paddr + len
  if stop < 2 ^ 64 ∧ stop ≤ bus.ramSize ∧ bus.ramNoRegionOverlap paddr stop then some stop
  else none

def nextChunk (bus : PhysicalMemoryBus M σ) (addr rem : Nat) : Chunk :=
  let mmio := (bus.findMmioRegionIndex addr).bind fun k => bus.mmioRegions[k]?.map (k, ·)
  let rom := (bus.findRomRegionIndex addr).bind fun k => bus.romRegions[k]?
  let nextMmio := bus.nextMmioStartAfter addr
  let nextRom := bus.nextRomStartAfter addr
  let reqEnd := saturatingAdd addr rem
  match mmio, rom with
  | some (k, r), _ => .mmio k (addr - r.start) (min r.stop reqEnd - addr)
  | none, some r => .rom r (addr - r.start) (min (cutAt nextMmio r.stop) reqEnd - addr)
  | none, none =>
    if addr < bus.ramSize then .ram (min (cutAt nextRom (cutAt nextMmio bus.ramSize)) reqEnd - addr)
    else
      match nextMmio, nextRom with
      | none, none     => .unmapped rem
      | some e, none   => .unmapped (min (e - addr) rem)
      | none, some e   => .unmapped (min (e - addr) rem)
      | some e, some f => .unmapped (min (min e f - addr) rem)

variable [MmioHandler σ]

-- The loops consume at least one byte in each round, so that the number of bytes is enough fuel.
def readMmioChunk (k : Nat) :
    (fuel : Nat) → PhysicalMemoryBus M σ → (addr remaining : Nat) →
    Option (List U8 × PhysicalMemoryBus M σ × List Access)
  | _, bus, _, 0 => some ([], bus, [])
  | 0, _, _, _ + 1 => none
  | fuel + 1, bus, addr, remaining + 1 =>
    let n := accessSize addr (remaining + 1)
    bus.mmioRegions[k]?.bind fun r => do
      let (value, h) := MmioHandler.read r.handler addr n
      let bus := { bus with mmioRegions := bus.mmioRegions.set k { r with handler := h } }
      let (bytes, bus, log) ← readMmioChunk k fuel bus (wrappingAdd addr n) (remaining + 1 - n)
      some ((toLe 8 value.toNat).take n ++ bytes, bus, ⟨k, addr, n, value⟩ :: log)

def writeMmioChunk (k : Nat) :
    (fuel : Nat) → PhysicalMemoryBus M σ → (addr : Nat) → (src : List U8) →
    Option (PhysicalMemoryBus M σ × List Access)
  | _, bus, _, [] => some (bus, [])
  | 0, _, _, _ :: _ => none
  | fuel + 1, bus, addr, b :: src =>
    let n := accessSize addr (src.length + 1)
    let value : U64 := BitVec.ofNat 64 (ofLe ((b :: src).take n))
    bus.mmioRegions[k]?.bind fun r => do
      let h := MmioHandler.write r.handler addr n value
      let bus := { bus with mmioRegions := bus.mmioRegions.set k { r with handler := h } }
      let (bus, log) ← writeMmioChunk k fuel bus (wrappingAdd addr n) ((b :: src).drop n)
      some (bus, ⟨k, addr, n, value⟩ :: log)

def readChunk (bus : PhysicalMemoryBus M σ) (addr : Nat) :
    Chunk → Option (List U8 × PhysicalMemoryBus M σ × List Access)
  | .mmio k offset n => readMmioChunk k n bus offset n
  | .rom r offset n  => some ((r.data.drop offset).take n, bus, [])
  | .ram n           =>
    some ((readInto bus.ram (BitVec.ofNat 64 addr) n).getD (List.replicate n 0xFF), bus, [])
  | .unmapped n      => some (List.replicate n 0xFF, bus, [])

def readLoop :
    (fuel : Nat) → PhysicalMemoryBus M σ → (addr rem : Nat) →
    Option (List U8 × PhysicalMemoryBus M σ × List Access)
  | _, bus, _, 0 => some ([], bus, [])
  | 0, _, _, _ + 1 => none
  | fuel + 1, bus, addr, rem + 1 =>
    if addr < 2 ^ 64 then do
      let chunk := bus.nextChunk addr (rem + 1)
      let (bytes, bus, log) ← bus.readChunk addr chunk
      let (bytes', bus, log') ← readLoop fuel bus (addr + chunk.len) (rem + 1 - chunk.len)
      some (bytes ++ bytes', bus, log ++ log')
    else
      some (List.replicate (rem + 1) 0xFF, bus, [])

def readPhysical (bus : PhysicalMemoryBus M σ) (paddr : U64) (len : Nat) :
    Option (List U8 × PhysicalMemoryBus M σ × List Access) :=
  if len ≠ 0 ∧ (bus.ramFastRange paddr.toNat len).isSome then
    match getSlice bus.ram paddr len, readInto bus.ram paddr len with
    | some bytes, _    => some (bytes, bus, [])
    | none, some bytes => some (bytes, bus, [])
    | none, none       => readLoop len bus paddr.toNat len
  else
    readLoop len bus paddr.toNat len

def writeChunk (bus : PhysicalMemoryBus M σ) (addr : Nat) (src : List U8) :
    Chunk → Option (PhysicalMemoryBus M σ × List Access)
  | .mmio k offset n => writeMmioChunk k n bus offset (src.take n)
  | .rom _ _ _       => some (bus, [])
  | .ram n           =>
    some ({ bus with ram := writeFrom bus.ram (BitVec.ofNat 64 addr) (src.take n) }, [])
  | .unmapped _      => some (bus, [])

def writeLoop :
    (fuel : Nat) → PhysicalMemoryBus M σ → (addr : Nat) → (src : List U8) →
    Option (PhysicalMemoryBus M σ × List Access)
  | _, bus, _, [] => some (bus, [])
  | 0, _, _, _ :: _ => none
  | fuel + 1, bus, addr, b :: src =>
    if addr < 2 ^ 64 then do
      let chunk := bus.nextChunk addr (src.length + 1)
      let (bus, log) ← bus.writeChunk addr (b :: src) chunk
      let (bus, log') ← writeLoop fuel bus (addr + chunk.len) ((b :: src).drop chunk.len)
      some (bus, log ++ log')
    else
      some (bus, [])

def writePhysical (bus : PhysicalMemoryBus M σ) (paddr : U64) (src : List U8) :
    Option (PhysicalMemoryBus M σ × List Access) :=
  writeLoop src.length bus paddr.toNat src

end PhysicalMemoryBus

end Aero.Memory
