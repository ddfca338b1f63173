import Aero.Interrupts.Router
import Aero.Interrupts.Nesting

namespace Aero.Interrupts

def Pic8259.commandRead (pic : Pic8259) : U8 :=
  if pic.readIsr then pic.isr else pic.irr

def Pic8259.dataRead (pic : Pic8259) : U8 :=
  pic.imr

def DualPic8259.portReadU8 (pic : DualPic8259) (port : Nat) : U8 :=
  if port = masterCmd then
    if pic.master.readIsr then pic.master.isr
    else
      match pic.cascadeLine with
      | some line =>
        if pic.slave.pendingIrq.isSome then pic.master.irr ||| Pic8259.bit line else pic.master.irr
      | none => pic.master.irr
  else if port = masterData then pic.master.dataRead
  else if port = slaveCmd then pic.slave.commandRead
  else if port = slaveData then pic.slave.dataRead
  else 0xff

namespace RedirectionEntry

def flag (b : Bool) (shift : Nat) : U32 :=
  (BitVec.ofBool b).setWidth 32 <<< shift

def readLow (e : RedirectionEntry) : U32 :=
  e.vector.setWidth 32 ||| (e.deliveryMode &&& 7).setWidth 32 <<< 8 ||| flag e.destinationMode 11 |||
    flag e.polarityLow 13 ||| flag e.remoteIrr 14 ||| flag (e.triggerMode = .level) 15 |||
    flag e.mask 16

def readHigh (e : RedirectionEntry) : U32 :=
  e.destination.setWidth 32 <<< 24

end RedirectionEntry

def IoApic.readRegister {n : Nat} (a : IoApic n) (reg : U8) : U32 :=
  if reg = 0x00 ∨ reg = 0x02 then (a.id &&& 0x0f).setWidth 32 <<< 24
  else if reg = 0x01 then 0x11 ||| BitVec.ofNat 32 (n - 1) <<< 16
  else if 0x10 ≤ reg then
    let idx := reg.toNat - 0x10
    if h : idx / 2 < n then
      let entry := a.redirection ⟨idx / 2, h⟩
      if idx % 2 = 0 then entry.readLow else entry.readHigh
    else 0
  else 0

namespace PlatformInterrupts

def getPendingForCpu (s : PlatformInterrupts) (cpu : Nat) : Option U8 :=
  match s.mode with
  | .legacyPic => if cpu ≠ 0 then none else s.pic.inner.getPendingVector
  | .apic      => s.fabric.lapics[cpu]?.bind fun lapic => (lapic.getPendingVector s.lapicClock).2

-- The LAPICs and the lists of pending events are reset in place.
def reset (s : PlatformInterrupts) : PlatformInterrupts where
  mode := .legacyPic
  isaIrqToGsi := defaultIsaIrqToGsi
  gsiLevel _ := false
  gsiRestoreBaseline _ := false
  gsiAssertCount _ := 0
  pic := newPic
  fabric :=
    { ioapic := .withEntries numGsis 0
      lapics := s.fabric.lapics.map fun lapic =>
        (lapic.resetState.mmioWrite 0 Reg.svr (u32LeBytes 0x1ff)).state
      routed := false }
  lapicClock := 0
  pendingInit := s.pendingInit.map fun _ => false
  pendingSipi := s.pendingSipi.map fun _ => none
  imcrSelect := 0
  imcr := 0

def setIsaIrqOverride (s : PlatformInterrupts) (isaIrq : U8) (gsi : Nat) : PlatformInterrupts :=
  if h : isaIrq.toNat < 16 then
    { s with isaIrqToGsi := Function.update s.isaIrqToGsi ⟨isaIrq.toNat, h⟩ gsi }
  else s

def takePendingInit (s : PlatformInterrupts) (cpu : Nat) : PlatformInterrupts × Bool :=
  ({ s with pendingInit := s.pendingInit.set cpu false }, s.pendingInit[cpu]?.getD false)

def takePendingSipi (s : PlatformInterrupts) (cpu : Nat) : PlatformInterrupts × Option U8 :=
  ({ s with pendingSipi := s.pendingSipi.set cpu none }, s.pendingSipi[cpu]?.join)

-- The PICs may be initialised again on the way.
inductive Reachable (cpuCount : U8) : PlatformInterrupts → Prop
  | new : Reachable cpuCount (newWithCpuCount cpuCount)
  | step (h : Reachable cpuCount s) (op : RouterOp) : Reachable cpuCount (s.step op)
  | picPortWrite (h : Reachable cpuCount s) (port : Nat) (value : U8) :
    Reachable cpuCount (s.picPortWrite port value)
  | setIsaIrqOverride (h : Reachable cpuCount s) (isaIrq : U8) (gsi : Nat) :
    Reachable cpuCount (s.setIsaIrqOverride isaIrq gsi)
  | takePendingInit (h : Reachable cpuCount s) (cpu : Nat) :
    Reachable cpuCount (s.takePendingInit cpu).1
  | takePendingSipi (h : Reachable cpuCount s) (cpu : Nat) :
    Reachable cpuCount (s.takePendingSipi cpu).1
  | reset (h : Reachable cpuCount s) : Reachable cpuCount s.reset

-- What can be observed of the platform.
structure View where
  mode : PlatformInterruptMode
  picPortRead : Nat → U8
  ioregsel : U8
  ioapicRead : U8 → U32
  lapicRead : Nat → Nat → Option U32
  pending : Nat → Option U8
  ipiTargets : U8 → Icr → List Nat

def view (s : PlatformInterrupts) : View where
  mode := s.mode
  picPortRead := s.pic.inner.portReadU8
  ioregsel := s.fabric.ioapic.ioregsel
  ioapicRead := s.fabric.ioapic.readRegister
  lapicRead cpu offset := s.fabric.lapics[cpu]?.map fun lapic => lapic.readU32 s.lapicClock offset
  pending := s.getPendingForCpu
  ipiTargets := s.ipiTargets

end PlatformInterrupts

end Aero.Interrupts
