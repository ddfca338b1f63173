import Aero.Types
import Aero.Lib.ByteStore
import Aero.Lib.LeBytes
import Aero.Lib.SegmentRing

namespace Aero.Usb

-- Guest memory. The segments of the ring are RAM, so that reads answer what was written.
abbrev Mem := Nat → U8

namespace Mem

def readU64 (mem : Mem) (paddr : Nat) : Nat :=
  LeBytes.ofLe (ByteStore.read mem paddr 8)

def readU32 (mem : Mem) (paddr : Nat) : Nat :=
  LeBytes.ofLe (ByteStore.read mem paddr 4)

end Mem

def trbLen : Nat := 16

structure Trb where
  parameter : U64
  status : U32
  control : U32
  deriving DecidableEq, Repr

namespace Trb

def fromDwords (d0 d1 d2 d3 : U32) : Trb where
  parameter := d1.setWidth 64 <<< 32 ||| d0.setWidth 64
  status := d2
  control := d3

def dword0 (self : Trb) : U32 := self.parameter.setWidth 32

def dword1 (self : Trb) : U32 := (self.parameter >>> 32).setWidth 32

def dword2 (self : Trb) : U32 := self.status

def dword3 (self : Trb) : U32 := self.control

def dwordAt (bytes : List U8) (i : Nat) : U32 :=
  BitVec.ofNat 32 (LeBytes.ofLe ((bytes.drop (4 * i)).take 4))

def fromBytes (bytes : List U8) : Trb :=
  fromDwords (dwordAt bytes 0) (dwordAt bytes 1) (dwordAt bytes 2) (dwordAt bytes 3)

def toBytes (self : Trb) : List U8 :=
  LeBytes.toLe 4 self.dword0.toNat ++ LeBytes.toLe 4 self.dword1.toNat ++
    LeBytes.toLe 4 self.dword2.toNat ++ LeBytes.toLe 4 self.dword3.toNat

def readFrom (mem : Mem) (paddr : Nat) : Trb :=
  fromBytes (ByteStore.read mem paddr trbLen)

def writeTo (self : Trb) (mem : Mem) (paddr : Nat) : Mem :=
  ByteStore.write mem paddr self.toBytes

def controlCycleBit : U32 := 1

def cycle (self : Trb) : Bool :=
  self.control &&& controlCycleBit != 0

def setCycle (self : Trb) (on : Bool) : Trb :=
  { self with control := self.control &&& ~~~controlCycleBit ||| (BitVec.ofBool on).setWidth 32 }

end Trb

def imanIp : U32 := 1

-- The registers of interrupter 0 that take part in the delivery of events. `& !0x0f` and the other
-- masks of low bits are written with remainders.
structure InterrupterRegs where
  iman : U32
  erstsz : Nat
  erstba : Nat
  erdp : Nat
  erstGen : U64
  erdpGen : U64
  deriving Repr

namespace InterrupterRegs

def setInterruptPending (self : InterrupterRegs) (pending : Bool) : InterrupterRegs :=
  { self with iman := if pending then self.iman ||| imanIp else self.iman &&& ~~~imanIp }

def erdpPtr (self : InterrupterRegs) : Nat :=
  self.erdp - self.erdp % 16

-- Bit 3 of the value is the event handler busy bit. It acknowledges the interrupt and is not kept.
def writeErdp (self : InterrupterRegs) (value : Nat) : InterrupterRegs :=
  let ptr := value - value % 16
  let flags := value % 16
  let self := { self with erdpGen := self.erdpGen + 1 }
  if value / 8 % 2 = 1 then { self with iman := self.iman &&& ~~~imanIp, erdp := ptr + flags % 8 }
  else { self with erdp := ptr + flags }

end InterrupterRegs

def erstScanLimit : Nat := 1024

abbrev RingPos := SegmentRing.Pos

structure ErstEntry where
  base : Nat
  sizeTrbs : Nat
  deriving DecidableEq, Repr

def ErstEntry.read (mem : Mem) (erstba idx : Nat) : Option ErstEntry :=
  let paddr := erstba + idx * 16
  if 2 ^ 64 ≤ paddr then none
  else
    let baseRaw := mem.readU64 paddr
    let size := mem.readU32 (paddr + 8) % 0x10000
    if size ≠ 0 ∧ (baseRaw = 0 ∨ baseRaw % 16 ≠ 0) then none
    else some ⟨baseRaw - baseRaw % 16, size⟩

inductive EnqueueError
  | notConfigured
  | ringFull
  | invalidConfig
  deriving DecidableEq, Repr

structure EventRingProducer where
  erstsz : Nat := 0
  erstba : Nat := 0
  lastErstGen : U64 := 0
  prodPos : RingPos := ⟨0, 0⟩
  prodCycle : Bool := true
  consPos : RingPos := ⟨0, 0⟩
  consCycle : Bool := true
  lastErdpGen : U64 := 0
  ready : Bool := false
  deriving Repr

namespace EventRingProducer

def isConfigured (self : EventRingProducer) (intr : InterrupterRegs) : Bool :=
  self.erstsz != 0 && self.erstba != 0 && intr.erdpPtr != 0

def isFull (self : EventRingProducer) : Bool :=
  self.ready && self.prodPos == self.consPos && self.prodCycle != self.consCycle

def posToPaddr (self : EventRingProducer) (mem : Mem) (pos : RingPos) : Except EnqueueError Nat :=
  match ErstEntry.read mem self.erstba pos.seg with
  | none => .error .invalidConfig
  | some entry =>
    if entry.sizeTrbs = 0 then .error .invalidConfig
    else if entry.sizeTrbs ≤ pos.off then .error .invalidConfig
    else if 2 ^ 64 ≤ entry.base + pos.off * trbLen then .error .invalidConfig
    else .ok (entry.base + pos.off * trbLen)

def mapPtrFrom (self : EventRingProducer) (mem : Mem) (ptr : Nat) : (n seg : Nat) → Option RingPos
  | 0,     _   => none
  | n + 1, seg =>
    if erstScanLimit < seg + 1 then none
    else
      match ErstEntry.read mem self.erstba seg with
      | none => none
      | some entry =>
        if entry.sizeTrbs = 0 then mapPtrFrom self mem ptr n (seg + 1)
        else if 2 ^ 64 ≤ entry.base + entry.sizeTrbs * trbLen then none
        else if ptr < entry.base ∨ entry.base + entry.sizeTrbs * trbLen ≤ ptr then
          mapPtrFrom self mem ptr n (seg + 1)
        else if (ptr - entry.base) % trbLen ≠ 0 then none
        else
          some ⟨seg, (ptr - entry.base) / trbLen⟩

def mapPtrToPos (self : EventRingProducer) (mem : Mem) (ptr : Nat) : Option RingPos :=
  self.mapPtrFrom mem ptr self.erstsz 0

def adopt (self : EventRingProducer) (intr : InterrupterRegs) : EventRingProducer :=
  if intr.erstGen ≠ self.lastErstGen ∨ intr.erstsz ≠ self.erstsz ∨ intr.erstba ≠ self.erstba then
    { lastErstGen := intr.erstGen
      erstsz := intr.erstsz
      erstba := intr.erstba
      ready := false
      prodPos := ⟨0, 0⟩
      consPos := ⟨0, 0⟩
      prodCycle := true
      consCycle := true
      lastErdpGen := 0 }
  else
    self

def observe (self : EventRingProducer) (newPos : RingPos) (sawErdpWrite : Bool) :
    EventRingProducer :=
  let consCycle :=
    if newPos.Before self.consPos then !self.consCycle
    else if newPos = self.consPos ∧ sawErdpWrite ∧ self.isFull then !self.consCycle
    else self.consCycle
  let self := { self with consCycle := consCycle, consPos := newPos }
  if self.ready then self
  else { self with prodPos := self.consPos, prodCycle := self.consCycle, ready := true }

def refresh (self : EventRingProducer) (mem : Mem) (intr : InterrupterRegs) : EventRingProducer :=
  let self := self.adopt intr
  if !self.isConfigured intr then { self with ready := false }
  else
    let sawErdpWrite := intr.erdpGen != self.lastErdpGen
    if !sawErdpWrite && self.ready then self
    else
      -- without a write the generations are equal already
      let self := { self with lastErdpGen := intr.erdpGen }
      match self.mapPtrToPos mem intr.erdpPtr with
      | none => { self with ready := false }
      | some newPos => self.observe newPos sawErdpWrite

def advanceProducer (self : EventRingProducer) (mem : Mem) :
    EventRingProducer × Except EnqueueError Unit :=
  match ErstEntry.read mem self.erstba self.prodPos.seg with
  | none => (self, .error .invalidConfig)
  | some entry =>
    if entry.sizeTrbs = 0 then (self, .error .invalidConfig)
    else if self.prodPos.off + 1 < entry.sizeTrbs then
      ({ self with prodPos := ⟨self.prodPos.seg, self.prodPos.off + 1⟩ }, .ok ())
    else if self.erstsz ≤ self.prodPos.seg + 1 then
      ({ self with prodPos := ⟨0, 0⟩, prodCycle := !self.prodCycle }, .ok ())
    else
      ({ self with prodPos := ⟨self.prodPos.seg + 1, 0⟩ }, .ok ())

def writeEvent (self : EventRingProducer) (mem : Mem) (trb : Trb) :
    EventRingProducer × Mem × Except EnqueueError Unit :=
  if self.isFull then (self, mem, .error .ringFull)
  else
    match self.posToPaddr mem self.prodPos with
    | .error e => (self, mem, .error e)
    | .ok paddr =>
      let trb := trb.setCycle self.prodCycle
      let mem := trb.writeTo mem paddr
      -- the write is read back
      if ByteStore.read mem paddr trbLen ≠ trb.toBytes then (self, mem, .error .invalidConfig)
      else
        let (self, result) := self.advanceProducer mem
        (self, mem, result)

def tryEnqueue (self : EventRingProducer) (mem : Mem) (intr : InterrupterRegs) (trb : Trb) :
    EventRingProducer × Mem × Except EnqueueError Unit :=
  if !self.isConfigured intr then (self, mem, .error .notConfigured)
  else if self.ready then self.writeEvent mem trb
  else
    let self := self.refresh mem intr
    if !self.ready then (self, mem, .error .invalidConfig)
    else self.writeEvent mem trb

end EventRingProducer

def maxPendingEvents : Nat := 1024

-- The part of the controller that queues events and fills the event ring with them.
structure XhciController where
  interrupter0 : InterrupterRegs
  eventRing : EventRingProducer
  pendingEvents : List Trb
  droppedEventTrbs : Nat
  hostControllerError : Bool
  deriving Repr

namespace XhciController

def postEvent (self : XhciController) (trb : Trb) : XhciController :=
  if maxPendingEvents ≤ self.pendingEvents.length then
    { self with
      pendingEvents := self.pendingEvents.tail ++ [trb]
      droppedEventTrbs := self.droppedEventTrbs + 1 }
  else
    { self with pendingEvents := self.pendingEvents ++ [trb] }

def drainEvents (self : XhciController) (mem : Mem) : (budget : Nat) → XhciController × Mem × Nat
  | 0          => (self, mem, 0)
  | budget + 1 =>
    match self.pendingEvents with
    | []          => (self, mem, 0)
    | trb :: rest =>
      match self.eventRing.tryEnqueue mem self.interrupter0 trb with
      | (ring, mem, .ok ()) =>
        let next := { self with
          eventRing := ring
          pendingEvents := rest
          interrupter0 := self.interrupter0.setInterruptPending true }
        let (self, mem, written) := drainEvents next mem budget
        (self, mem, written + 1)
      | (ring, mem, .error .invalidConfig) =>
        ({ self with eventRing := ring, hostControllerError := true }, mem, 0)
      | (ring, mem, .error _) => ({ self with eventRing := ring }, mem, 0)

def serviceEventRingBudgeted (self : XhciController) (mem : Mem) (dmaEnabled : Bool)
    (budget : Nat) : XhciController × Mem × Nat :=
  if !dmaEnabled then (self, mem, 0)
  else if self.hostControllerError then (self, mem, 0)
  else
    let self := { self with eventRing := self.eventRing.refresh mem self.interrupter0 }
    self.drainEvents mem budget

end XhciController

end Aero.Usb
