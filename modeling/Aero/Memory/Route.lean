import Aero.Memory.Bus

namespace Aero.Memory

open GuestMemory LeBytes

inductive Target
  | mmio (k : Nat)
  | rom (k : Nat)
  | ram
  | open
  deriving DecidableEq

def Access.offsets (x : Access) : List Nat :=
  List.range' x.offset x.size

variable {M σ : Type*} [GuestMemory M]

inductive Served (step : σ → Access → σ → Prop) :
    List (MmioRegion σ) → List Access → List (MmioRegion σ) → Prop
  | nil : Served step l [] l
  | cons : l[x.region]? = some r → step r.handler x h →
      Served step (l.set x.region { r with handler := h }) log l' → Served step l (x :: log) l'

def reads [MmioHandler σ] (h : σ) (x : Access) (h' : σ) : Prop :=
  MmioHandler.read h x.offset x.size = (x.value, h')

def writes [MmioHandler σ] (h : σ) (x : Access) (h' : σ) : Prop :=
  MmioHandler.write h x.offset x.size x.value = h'

-- The states of a handler that has served some of the accesses of a log.
inductive Replays [MmioHandler σ] : σ → List Access → σ → Prop
  | nil : Replays h [] h
  | skip : Replays h log h' → Replays h (x :: log) h'
  | serve : reads h x h₁ ∨ writes h x h₁ → Replays h₁ log h' → Replays h (x :: log) h'

structure MmioRegion.After [MmioHandler σ] (log : List Access) (r r' : MmioRegion σ) : Prop where
  start   : r'.start = r.start
  stop    : r'.stop = r.stop
  handler : Replays r.handler log r'.handler

-- A successful call of `map_rom` or `map_mmio`.
inductive Mapping (σ : Type*)
  | rom (start : U64) (data : List U8)
  | mmio (start len : U64) (handler : σ)

def Mapping.romRegion : Mapping σ → Option RomRegion
  | rom start data => some ⟨start.toNat, data⟩
  | mmio ..        => none

def Mapping.mmioRegion : Mapping σ → Option (MmioRegion σ)
  | rom ..                 => none
  | mmio start len handler => some ⟨start.toNat, start.toNat + len.toNat, handler⟩

namespace PhysicalMemoryBus

def route (bus : PhysicalMemoryBus M σ) (a : Nat) : Target :=
  match bus.mmioRegions.findIdx? (fun r => r.start ≤ a ∧ a < r.stop),
      bus.romRegions.findIdx? (fun r => r.start ≤ a ∧ a < r.start + r.data.length) with
  | some k, _    => .mmio k
  | none, some k => .rom k
  | none, none   => if a < (size bus.ram).toNat then .ram else .open

def mmioOffset (bus : PhysicalMemoryBus M σ) (k a : Nat) : Option Nat :=
  if bus.route a = .mmio k then bus.mmioRegions[k]?.map (a - ·.start) else none

-- Each access is aligned, and those to one handler run through the requested offsets once and in
-- ascending order.
structure Accesses (bus : PhysicalMemoryBus M σ) (a n : Nat) (log : List Access) : Prop where
  size    : ∀ x ∈ log, x.size ∈ [1, 2, 4, 8]
  aligned : ∀ x ∈ log, x.size ∣ x.offset
  cover   : ∀ k, (log.filter (·.region = k)).flatMap Access.offsets =
    (List.range' a n).filterMap (bus.mmioOffset k)

-- `b` is the byte at `a` of an access in `log`.
def Carried (bus : PhysicalMemoryBus M σ) (log : List Access) (k a : Nat) (b : U8) : Prop :=
  ∃ x ∈ log, x.region = k ∧ ∃ j < x.size, bus.mmioOffset k a = some (x.offset + j) ∧
    (toLe 8 x.value.toNat)[j]? = some b

def ReadByte (bus : PhysicalMemoryBus M σ) (log : List Access) (a : Nat) (b : U8) : Prop :=
  match bus.route a with
  | .mmio k => bus.Carried log k a b
  | .rom k  => ∃ r, bus.romRegions[k]? = some r ∧ r.data[a - r.start]? = some b
  | .ram    => b = byte bus.ram a
  | .open   => b = 0xFF

def WriteByte (bus : PhysicalMemoryBus M σ) (log : List Access) (a : Nat) (b : U8) : Prop :=
  ∀ k, bus.route a = .mmio k → bus.Carried log k a b

def putRam (bus : PhysicalMemoryBus M σ) (m : M) (p : Nat × U8) : M :=
  if bus.route p.1 = .ram then put m p else m

variable [MmioHandler σ]

structure ReadSpec (bus : PhysicalMemoryBus M σ) (a n : Nat) (bytes : List U8)
    (bus' : PhysicalMemoryBus M σ) (log : List Access) : Prop where
  bytes    : List.Forall₂ (bus.ReadByte log) (List.range' a n) bytes
  accesses : bus.Accesses a n log
  served   : Served reads bus.mmioRegions log bus'.mmioRegions
  frame    : bus' = { bus with mmioRegions := bus'.mmioRegions }

structure WriteSpec (bus : PhysicalMemoryBus M σ) (a : Nat) (src : List U8)
    (bus' : PhysicalMemoryBus M σ) (log : List Access) : Prop where
  ram      : bus'.ram = ((List.range' a src.length).zip src).foldl bus.putRam bus.ram
  bytes    : List.Forall₂ (bus.WriteByte log) (List.range' a src.length) src
  padded   : ∀ x ∈ log, x.value.toNat < 256 ^ x.size
  accesses : bus.Accesses a src.length log
  served   : Served writes bus.mmioRegions log bus'.mmioRegions
  frame    : bus' = { bus with ram := bus'.ram, mmioRegions := bus'.mmioRegions }

-- The buses that a machine can build and use, with the RAM, the calls that mapped a region, and the
-- accesses that handlers have served.
inductive Reachable : M → List (Mapping σ) → List Access → PhysicalMemoryBus M σ → Prop
  | new (mem : M) : Reachable mem [] [] (new mem)
  | mapRom : Reachable mem calls log bus → bus.mapRom start data = .ok bus' →
      Reachable mem (.rom start data :: calls) log bus'
  | mapMmio : Reachable mem calls log bus → bus.mapMmio start len handler = .ok bus' →
      Reachable mem (.mmio start len handler :: calls) log bus'
  | read : Reachable mem calls log bus → bus.readPhysical paddr len = some (bytes, bus', log') →
      Reachable mem calls (log ++ log') bus'
  | write : Reachable mem calls log bus → bus.writePhysical paddr src = some (bus', log') →
      Reachable (((List.range' paddr.toNat src.length).zip src).foldl bus.putRam mem) calls
        (log ++ log') bus'

-- The region lists of the bus are the mapped regions with their data and their handlers.
structure Maps (mem : M) (calls : List (Mapping σ)) (log : List Access)
    (bus : PhysicalMemoryBus M σ) : Prop where
  ram   : bus.ram = mem
  roms  : bus.romRegions.Perm (calls.filterMap Mapping.romRegion)
  mmios : ∃ devices, devices.Perm (calls.filterMap Mapping.mmioRegion) ∧
    List.Forall₂ (MmioRegion.After log) devices bus.mmioRegions

end PhysicalMemoryBus

end Aero.Memory
