import Aero.Usb.EventRing
import Aero.Lib.Runs

namespace Aero.Usb

open SegmentRing

-- A segment table that the controller can use: it is in the address space and fits into the scan
-- limit, its segments are not empty, and they share no byte with each other or with the table.
structure SegmentTable where
  erstba : Nat
  count : Nat
  base : Nat → Nat
  size : Nat → Nat
  erstba_pos : 0 < erstba
  table_end : erstba + 16 * count ≤ 2 ^ 64
  count_pos : 0 < count
  count_le : count ≤ erstScanLimit
  size_pos : ∀ i, i < count → 0 < size i
  size_lt : ∀ i, i < count → size i < 0x10000
  base_pos : ∀ i, i < count → 0 < base i
  base_aligned : ∀ i, i < count → base i % 16 = 0
  segment_end : ∀ i, i < count → base i + size i * trbLen < 2 ^ 64
  disjoint : ∀ i j, i < count → j < count → i ≠ j →
    base i + size i * trbLen ≤ base j ∨ base j + size j * trbLen ≤ base i
  table_disjoint : ∀ i, i < count →
    erstba + 16 * count ≤ base i ∨ base i + size i * trbLen ≤ erstba

namespace SegmentTable

variable (t : SegmentTable)

def total : Nat := first t.size t.count

def addr (p : RingPos) : Nat := t.base p.seg + p.off * trbLen

def Stored (mem : Mem) : Prop :=
  ∀ i, i < t.count →
    mem.readU64 (t.erstba + i * 16) = t.base i ∧
      mem.readU32 (t.erstba + i * 16 + 8) % 0x10000 = t.size i

def place (c : Cursor) : Nat → Cursor
  | 0     => c
  | i + 1 => advance t.size t.count (place c i)

end SegmentTable

structure EventDriver where
  next : Cursor
  events : List Trb
  deriving Repr

namespace EventDriver

variable (t : SegmentTable)

def entry (self : EventDriver) (mem : Mem) : Trb :=
  Trb.readFrom mem (t.addr self.next.pos)

def seesEvent (self : EventDriver) (mem : Mem) : Bool :=
  (self.entry t mem).cycle == self.next.cycle

def poll (self : EventDriver) (mem : Mem) : EventDriver :=
  if self.seesEvent t mem then
    { next := advance t.size t.count self.next, events := self.events ++ [self.entry t mem] }
  else
    self

end EventDriver

-- `posted` are the events of the controller, `enqueued` are those that were written to the ring, and
-- `acked` is the number of events which the driver had read when it last wrote ERDP. They only
-- observe.
structure EventSystem where
  mem : Mem
  xhci : XhciController
  driver : EventDriver
  posted : List Trb
  enqueued : List Trb
  acked : Nat

inductive EventOp
  | post (trb : Trb)
  | service (dmaEnabled : Bool) (budget : Nat)
  | poll
  | writeErdp (flags : Fin 16)
  deriving DecidableEq, Repr

namespace EventSystem

variable (t : SegmentTable)

def service (s : EventSystem) (dmaEnabled : Bool) (budget : Nat) : EventSystem :=
  let (xhci, mem, written) := s.xhci.serviceEventRingBudgeted s.mem dmaEnabled budget
  { s with
    xhci := xhci
    mem := mem
    enqueued := s.enqueued ++ s.xhci.pendingEvents.take written }

def writeErdp (s : EventSystem) (flags : Nat) : EventSystem :=
  let interrupter0 := s.xhci.interrupter0.writeErdp (t.addr s.driver.next.pos + flags)
  { s with
    xhci := { s.xhci with interrupter0 := interrupter0 }
    acked := s.driver.events.length }

def step (s : EventSystem) : EventOp → EventSystem
  | .post trb => { s with xhci := s.xhci.postEvent trb, posted := s.posted ++ [trb] }
  | .service dmaEnabled budget => s.service dmaEnabled budget
  | .poll => { s with driver := s.driver.poll t s.mem }
  | .writeErdp flags => s.writeErdp t flags

-- The driver has set up the ring and the controller has not looked at it yet. ERDP is the place
-- `start` at which the driver begins to read, and no entry of the ring looks like an event in the
-- driver's first lap.
structure Start (start : RingPos) (s : EventSystem) : Prop where
  stored : t.Stored s.mem
  erstsz : s.xhci.interrupter0.erstsz = t.count
  erstba : s.xhci.interrupter0.erstba = t.erstba
  unseen : s.xhci.interrupter0.erstGen ≠ s.xhci.eventRing.lastErstGen ∨
    s.xhci.interrupter0.erstsz ≠ s.xhci.eventRing.erstsz ∨
      s.xhci.interrupter0.erstba ≠ s.xhci.eventRing.erstba
  valid : Valid t.size t.count start
  erdp : s.xhci.interrupter0.erdpPtr = t.addr start
  driver : s.driver = ⟨⟨start, true⟩, []⟩
  blank : ∀ i, i < t.total →
    (Trb.readFrom s.mem (t.addr (t.place ⟨start, true⟩ i).pos)).cycle =
      !(t.place ⟨start, true⟩ i).cycle
  posted : s.posted = s.xhci.pendingEvents
  enqueued : s.enqueued = []
  acked : s.acked = 0

-- The controller does not have to drop an event.
def HasRoom (s : EventSystem) : EventOp → Prop
  | .post _ => s.xhci.pendingEvents.length < maxPendingEvents
  | _       => True

-- The events of the controller are in the ring or wait for it, in their order.
def Accounted (s : EventSystem) : Prop :=
  s.posted = s.enqueued ++ s.xhci.pendingEvents

-- What a driver can rely on when it began at `start`. The cycle bit is the ring's own and is not
-- compared.
structure Delivers (start : RingPos) (s : EventSystem) : Prop where
  -- the driver has read the enqueued events, in their order
  inOrder : s.driver.events.map (·.setCycle false) <+: s.enqueued.map (·.setCycle false)
  -- it sees an event as long as there is one that it has not read
  complete : s.driver.seesEvent t s.mem = true ↔ s.driver.events.length < s.enqueued.length
  -- and an event stays in memory until ERDP has moved past it
  kept : ∀ i trb, s.acked ≤ i → s.enqueued[i]? = some trb →
    (Trb.readFrom s.mem (t.addr (t.place ⟨start, true⟩ i).pos)).setCycle false =
      trb.setCycle false

-- The controller looks at ERDP in a service that finds the ring full and the pointer unchanged
-- only when the driver has written it after reading all of the ring.
def Progress (s : EventSystem) : EventOp → Prop
  | .service true _ =>
    s.xhci.eventRing.isFull = true →
      s.xhci.interrupter0.erdpGen ≠ s.xhci.eventRing.lastErdpGen →
        s.xhci.interrupter0.erdpPtr = t.addr s.xhci.eventRing.consPos →
          s.acked = s.enqueued.length
  | _ => True

end EventSystem

end Aero.Usb
