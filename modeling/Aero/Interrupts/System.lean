import Aero.Interrupts.IoApic

namespace Aero.Interrupts

-- What reaches the IOAPIC: its lines, its register window, and the EOIs. `ack` stands between the
-- delivery of an interrupt and its EOI.
inductive IoOp
  | setIrqLevel (gsi : Nat) (level : Bool)
  | mmioWrite (offset size : Nat) (value : U64)
  | ack (cpu : Nat) (vector : U8)
  | eoi (cpu : Nat)
  | notifyEoi (vector : U8)

inductive Op
  | io (op : IoOp)
  | lapicMmioWrite (cpu offset : Nat) (data : List U8)
  | lapicInject (cpu : Nat) (vector : U8)
  | lapicPoll (cpu : Nat)
  | lapicReset (cpu : Nat)

namespace Fabric

variable {n : Nat}

def stepIo (f : Fabric n) : Nat × IoOp → Fabric n
  | (now, .setIrqLevel gsi level)       => f.setIrqLevel now gsi level
  | (now, .mmioWrite offset size value) => f.mmioWrite now offset size value
  | (now, .ack cpu vector)              => f.lapicAck now cpu vector
  | (now, .eoi cpu)                     => f.lapicEoi now cpu
  | (now, .notifyEoi vector)            => f.notifyEoi now vector

def step (f : Fabric n) : Nat × Op → Fabric n
  | (now, .io op)                          => f.stepIo (now, op)
  | (now, .lapicMmioWrite cpu offset data) => (f.lapicMmioWrite now cpu offset data).1
  | (now, .lapicInject cpu vector)         => f.lapicInject now cpu vector
  | (now, .lapicPoll cpu)                  => f.lapicPoll now cpu
  | (_, .lapicReset cpu)                   => f.lapicReset cpu

-- An IOAPIC as it is built, with LAPICs in any state as its sinks.
def start (n : Nat) (id : U8) (lapics : List LapicState) : Fabric n where
  ioapic := .withEntries n id
  lapics
  routed := true

end Fabric

end Aero.Interrupts
