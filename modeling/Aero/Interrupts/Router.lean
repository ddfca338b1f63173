import Aero.Interrupts.Pic
import Aero.Interrupts.IoApic

namespace Aero.Interrupts

inductive PlatformInterruptMode
  | legacyPic
  | apic
  deriving DecidableEq, Repr

inductive InterruptInput
  | isaIrq (irq : U8)
  | gsi (gsi : Nat)
  deriving DecidableEq, Repr

def imcrSelectPort : Nat := 0x22
def imcrDataPort : Nat := 0x23
def imcrIndex : U8 := 0x70

abbrev numGsis : Nat := 24

structure PlatformInterrupts where
  mode : PlatformInterruptMode
  isaIrqToGsi : Fin 16 → Nat
  gsiLevel : Fin numGsis → Bool
  gsiRestoreBaseline : Fin numGsis → Bool
  gsiAssertCount : Fin numGsis → Nat
  pic : PlatformPic
  -- the IOAPIC, the LAPICs, and `apic_enabled` as the gate of the sinks
  fabric : Fabric numGsis
  lapicClock : Nat
  pendingInit : List Bool
  pendingSipi : List (Option U8)
  imcrSelect : U8
  imcr : U8

def q35LegacyPicIrqForGsi (gsi : Nat) : Option Nat :=
  if 20 ≤ gsi ∧ gsi ≤ 23 then some (gsi - 20 + 10) else none

def u32LeBytes (v : U32) : List U8 :=
  [v.extractLsb' 0 8, v.extractLsb' 8 8, v.extractLsb' 16 8, v.extractLsb' 24 8]

def enableLapicSoftware (now : Nat) (lapic : LapicState) : LapicState :=
  let lapic := lapic.pollTimer now
  (lapic.mmioWrite now Reg.svr (u32LeBytes (lapic.svr ||| 0x100))).state

namespace PlatformInterrupts

-- ISA IRQ 0 is GSI 2, as the firmware tables publish it.
def defaultIsaIrqToGsi (irq : Fin 16) : Nat :=
  if irq = 0 then 2 else irq.val

def newPic : PlatformPic :=
  ((PlatformPic.new 0x08 0x70).portWriteU8 DualPic8259.masterData 0xff).portWriteU8
    DualPic8259.slaveData 0xff

def newWithCpuCount (cpuCount : U8) : PlatformInterrupts :=
  let cpuCount := max cpuCount.toNat 1
  { mode := .legacyPic
    isaIrqToGsi := defaultIsaIrqToGsi
    gsiLevel := fun _ => false
    gsiRestoreBaseline := fun _ => false
    gsiAssertCount := fun _ => 0
    pic := newPic
    fabric :=
      { ioapic := .withEntries numGsis 0
        lapics := (List.range cpuCount).map fun apicId =>
          ((LapicState.new (BitVec.ofNat 8 apicId)).mmioWrite 0 Reg.svr (u32LeBytes 0x1ff)).state
        routed := false }
    lapicClock := 0
    pendingInit := List.replicate cpuCount false
    pendingSipi := List.replicate cpuCount none
    imcrSelect := 0
    imcr := 0 }

variable (s : PlatformInterrupts)

def ipiTargets (srcApicId : U8) (icr : Icr) : List Nat :=
  let lapics := s.fabric.lapics
  match icr.destinationShorthand with
  | .none             => (lapics.findIdx? fun lapic => lapic.id == icr.destination).toList
  | .selfOnly         => (lapics.findIdx? fun lapic => lapic.id == srcApicId).toList
  | .allIncludingSelf => List.range lapics.length
  | .allExcludingSelf =>
    (List.range lapics.length).filter fun cpu => lapics[cpu]?.any fun lapic => lapic.id != srcApicId

def modifyLapic (cpu : Nat) (g : LapicState → LapicState) : PlatformInterrupts :=
  { s with fabric := { s.fabric with lapics := s.fabric.lapics.modify cpu g } }

def apicIdOf (cpu : Nat) : Nat :=
  ((s.fabric.lapics[cpu]?.map fun lapic => lapic.id.toNat)).getD cpu

-- INIT resets the LAPIC; it stays enabled as long as the platform is in APIC mode.
def resetLapicAt (cpu : Nat) : PlatformInterrupts :=
  let s := s.modifyLapic cpu LapicState.resetState
  if s.fabric.routed then s.modifyLapic cpu (enableLapicSoftware s.lapicClock) else s

def handleIcrIpi (srcApicId : U8) (icr : Icr) : PlatformInterrupts :=
  let targets := s.ipiTargets srcApicId icr
  match icr.deliveryMode with
  | .fixed =>
    targets.foldl (fun s cpu => s.modifyLapic cpu fun lapic =>
      lapic.injectFixedInterrupt s.lapicClock icr.vector) s
  | .init =>
    if icr.levelAssert then
      targets.foldl (fun s cpu =>
        { s with pendingInit := s.pendingInit.set (s.apicIdOf cpu) true }.resetLapicAt cpu) s
    else s
  | .startup =>
    targets.foldl (fun s cpu =>
      { s with pendingSipi := s.pendingSipi.set (s.apicIdOf cpu) (some icr.vector) }) s
  | _ => s

def clearRemoteIrr : PlatformInterrupts :=
  { s with fabric := { s.fabric with ioapic := s.fabric.ioapic.clearRemoteIrr } }

def syncIoapic : PlatformInterrupts :=
  { s with
    fabric := (List.finRange numGsis).foldl
      (fun f (gsi : Fin numGsis) => f.setIrqLevel s.lapicClock gsi.val (s.gsiLevel gsi)) s.fabric }

-- Nothing is shown to the PIC on the way back.
def setMode (mode : PlatformInterruptMode) : PlatformInterrupts :=
  let prev := s.mode
  let s := { s with mode, fabric := { s.fabric with routed := decide (mode = .apic) } }
  if prev ≠ .apic ∧ mode = .apic then
    let lapics := s.fabric.lapics.map (enableLapicSoftware s.lapicClock)
    { s with fabric := { s.fabric with lapics } }.clearRemoteIrr.syncIoapic
  else s

def gsiOf (input : InterruptInput) : Nat :=
  match input with
  | .isaIrq irq => if h : irq.toNat < 16 then s.isaIrqToGsi ⟨irq.toNat, h⟩ else irq.toNat
  | .gsi gsi    => gsi

-- An ISA IRQ that is mapped to the GSI comes first, then the identity.
def legacyPicIrqForGsi (gsi : Nat) : Option Nat :=
  match q35LegacyPicIrqForGsi gsi with
  | some irq => some irq
  | none     =>
    if 16 ≤ gsi then none
    else
      match (List.finRange 16).find? fun irq => s.isaIrqToGsi irq == gsi with
      | some irq => some irq.val
      | none     => some gsi

def driveGsiEffectiveLevel (gsi : Nat) (level : Bool) : PlatformInterrupts :=
  match s.mode with
  | .legacyPic =>
    match s.legacyPicIrqForGsi gsi with
    | some irq => { s with pic := if level then s.pic.raiseIrq irq else s.pic.lowerIrq irq }
    | none     => s
  | .apic => { s with fabric := s.fabric.setIrqLevel s.lapicClock gsi level }

-- A count that saturates; `none` for a deassertion of a line that is not asserted.
def nextAssertCount (count : Nat) (asserted : Bool) : Option Nat :=
  if asserted then some (min (count + 1) (2 ^ 32 - 1))
  else if 0 < count then some (count - 1)
  else none

def updateGsiAssertCount (gsi : Nat) (asserted : Bool) : PlatformInterrupts :=
  if h : gsi < numGsis then
    let idx : Fin numGsis := ⟨gsi, h⟩
    match nextAssertCount (s.gsiAssertCount idx) asserted with
    | none       => s
    | some count =>
      let s := { s with gsiAssertCount := Function.update s.gsiAssertCount idx count }
      let desiredLevel := s.gsiRestoreBaseline idx || decide (0 < count)
      if desiredLevel = s.gsiLevel idx then s
      else
        { s with
          gsiLevel := Function.update s.gsiLevel idx desiredLevel }.driveGsiEffectiveLevel gsi
          desiredLevel
  else s

def raiseIrq (input : InterruptInput) : PlatformInterrupts :=
  s.updateGsiAssertCount (s.gsiOf input) true

def lowerIrq (input : InterruptInput) : PlatformInterrupts :=
  s.updateGsiAssertCount (s.gsiOf input) false

-- The guest enters symmetric I/O mode by enabling a redirection entry.
def ioapicMmioWrite (offset : Nat) (value : U32) : PlatformInterrupts :=
  let s := { s with fabric := s.fabric.mmioWrite s.lapicClock offset 4 (value.setWidth 64) }
  if s.mode = .apic then s
  else
    let s := s.clearRemoteIrr
    if s.fabric.ioapic.hasUnmaskedRedirectionEntry then s.setMode .apic else s

def lapicMmioWriteForCpu (cpu offset : Nat) (data : List U8) : PlatformInterrupts :=
  let (fabric, icrEvents) := s.fabric.lapicMmioWrite s.lapicClock cpu offset data
  icrEvents.foldl (fun s icr => s.handleIcrIpi (BitVec.ofNat 8 cpu) icr) { s with fabric }

def lapicMmioWriteForApic (apicId : U8) (offset : Nat) (data : List U8) : PlatformInterrupts :=
  match s.fabric.lapics.findIdx? fun lapic => lapic.id == apicId with
  | some cpu => s.lapicMmioWriteForCpu cpu offset data
  | none     => s

def imcrPortWrite (port : Nat) (value : U8) : PlatformInterrupts :=
  if port = imcrSelectPort then { s with imcrSelect := value }
  else if port = imcrDataPort then
    if s.imcrSelect = imcrIndex then
      let imcr := value &&& 1
      { s with imcr }.setMode (if imcr ≠ 0 then .apic else .legacyPic)
    else s
  else s

-- The legacy PIC reaches the bootstrap processor only.
def acknowledgeForCpu (cpu : Nat) (vector : U8) : PlatformInterrupts :=
  match s.mode with
  | .legacyPic => if cpu ≠ 0 then s else { s with pic := s.pic.acknowledge vector }
  | .apic      => { s with fabric := s.fabric.lapicAck s.lapicClock cpu vector }

def eoiForCpu (cpu : Nat) (vector : U8) : PlatformInterrupts :=
  match s.mode with
  | .legacyPic => if cpu ≠ 0 then s else { s with pic := s.pic.eoi vector }
  | .apic      => { s with fabric := s.fabric.lapicEoi s.lapicClock cpu }

def picPortWrite (port : Nat) (value : U8) : PlatformInterrupts :=
  { s with pic := s.pic.portWriteU8 port value }

def tick (deltaNs : Nat) : PlatformInterrupts :=
  let lapicClock := (s.lapicClock + deltaNs) % 2 ^ 64
  let lapics := s.fabric.lapics.map fun lapic => lapic.pollTimer lapicClock
  { s with lapicClock, fabric := { s.fabric with lapics } }

end PlatformInterrupts

def Reinitialises (port : Nat) (value : U8) : Prop :=
  (port = DualPic8259.masterCmd ∨ port = DualPic8259.slaveCmd) ∧ Pic8259.isIcw1 value

-- What devices and the guest do to the router. The PICs are not initialised again.
inductive RouterOp
  | raiseIrq (input : InterruptInput)
  | lowerIrq (input : InterruptInput)
  | setMode (mode : PlatformInterruptMode)
  | imcrPortWrite (port : Nat) (value : U8)
  | ioapicMmioWrite (offset : Nat) (value : U32)
  | lapicMmioWriteForCpu (cpu offset : Nat) (data : List U8)
  | lapicMmioWriteForApic (apicId : U8) (offset : Nat) (data : List U8)
  | picPortWrite (port : Nat) (value : U8) (h : ¬ Reinitialises port value)
  | acknowledgeForCpu (cpu : Nat) (vector : U8)
  | eoiForCpu (cpu : Nat) (vector : U8)
  | tick (deltaNs : Nat)

def PlatformInterrupts.step (s : PlatformInterrupts) : RouterOp → PlatformInterrupts
  | .raiseIrq input                           => s.raiseIrq input
  | .lowerIrq input                           => s.lowerIrq input
  | .setMode mode                             => s.setMode mode
  | .imcrPortWrite port value                 => s.imcrPortWrite port value
  | .ioapicMmioWrite offset value             => s.ioapicMmioWrite offset value
  | .lapicMmioWriteForCpu cpu offset data     => s.lapicMmioWriteForCpu cpu offset data
  | .lapicMmioWriteForApic apicId offset data => s.lapicMmioWriteForApic apicId offset data
  | .picPortWrite port value _                => s.picPortWrite port value
  | .acknowledgeForCpu cpu vector             => s.acknowledgeForCpu cpu vector
  | .eoiForCpu cpu vector                     => s.eoiForCpu cpu vector
  | .tick deltaNs                             => s.tick deltaNs

end Aero.Interrupts
