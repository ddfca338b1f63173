import Aero.Types

namespace Aero.Interrupts

inductive InitState
  | none
  | icw2
  | icw3
  | icw4
  deriving DecidableEq, Repr

structure Pic8259 where
  imr : U8
  irr : U8
  isr : U8
  lineLevel : U8
  vectorBase : U8
  icw3 : U8
  readIsr : Bool
  levelTriggered : Bool
  autoEoi : Bool
  single : Bool
  initState : InitState
  expectIcw4 : Bool
  lowestPriority : U8
  deriving DecidableEq, Repr

namespace Pic8259

def newPowerOn : Pic8259 where
  imr := 0xff
  irr := 0
  isr := 0
  lineLevel := 0
  vectorBase := 0
  icw3 := 0
  readIsr := false
  levelTriggered := false
  autoEoi := false
  single := true
  initState := .none
  expectIcw4 := false
  lowestPriority := 7

def bit (irq : Nat) : U8 :=
  1#8 <<< irq

def irqPriorityOrder (pic : Pic8259) : List Nat :=
  (List.range 8).map fun i => ((pic.lowestPriority &&& 7).toNat + (i + 1)) % 8

def highestInService (pic : Pic8259) : Option Nat :=
  pic.irqPriorityOrder.find? fun irq => pic.isr &&& bit irq != 0

def refreshLevelTriggeredIrr (pic : Pic8259) : Pic8259 :=
  let irr := pic.irr ||| (pic.lineLevel &&& ~~~pic.isr)
  { pic with irr := irr &&& (pic.lineLevel ||| pic.isr) }

def refreshIfLevelTriggered (pic : Pic8259) : Pic8259 :=
  if pic.levelTriggered then pic.refreshLevelTriggeredIrr else pic

def endOfInterrupt (pic : Pic8259) (val : U8) : Pic8259 :=
  let cleared := if val &&& 0x40 ≠ 0 then some (val &&& 7).toNat else pic.highestInService
  let pic := match cleared with
    | some level =>
      let pic := { pic with isr := pic.isr &&& ~~~bit level }
      if val &&& 0x80 ≠ 0 then { pic with lowestPriority := BitVec.ofNat 8 level &&& 7 } else pic
    | none => pic
  pic.refreshIfLevelTriggered

def isIcw1 (val : U8) : Prop :=
  val &&& 0x10 ≠ 0

instance decidableIsIcw1 (val : U8) : Decidable (isIcw1 val) :=
  inferInstanceAs (Decidable (val &&& 0x10 ≠ 0))

def writeCommand (pic : Pic8259) (val : U8) : Pic8259 :=
  if isIcw1 val then
    { pic with
      initState := .icw2
      expectIcw4 := val &&& 0x01 != 0
      single := val &&& 0x02 != 0
      levelTriggered := val &&& 0x08 != 0
      isr := 0
      irr := 0
      lineLevel := 0
      readIsr := false
      autoEoi := false
      lowestPriority := 7
      imr := 0 }
  else if val &&& 0x08 ≠ 0 then
    if val &&& 0x02 ≠ 0 then { pic with readIsr := val &&& 0x01 != 0 } else pic
  else if val &&& 0x20 ≠ 0 then pic.endOfInterrupt val
  else if val &&& 0xc0 = 0xc0 then { pic with lowestPriority := val &&& 7 }
  else pic

def writeData (pic : Pic8259) (val : U8) : Pic8259 :=
  match pic.initState with
  | .icw2 =>
    { pic with
      vectorBase := val &&& 0xf8
      initState := if pic.single then (if pic.expectIcw4 then .icw4 else .none) else .icw3 }
  | .icw3 => { pic with icw3 := val, initState := if pic.expectIcw4 then .icw4 else .none }
  | .icw4 => { pic with autoEoi := val &&& 0x02 != 0, initState := .none }
  | .none => { pic with imr := val }

def setIrqLevel (pic : Pic8259) (irq : Nat) (level : Bool) : Pic8259 :=
  if level then
    let rising := pic.lineLevel &&& bit irq = 0 ∧ pic.levelTriggered = false
    let pic := if rising then { pic with irr := pic.irr ||| bit irq } else pic
    { pic with lineLevel := pic.lineLevel ||| bit irq }.refreshIfLevelTriggered
  else
    { pic with lineLevel := pic.lineLevel &&& ~~~bit irq }.refreshIfLevelTriggered

-- The loop of `pending_irq_with_extra_irr`: a request behind what is in service has to wait.
def scanPending (pending : U8) (highestInService : Option Nat) : List Nat → Option Nat
  | []          => none
  | irq :: irqs =>
    if some irq = highestInService then none
    else if pending &&& bit irq ≠ 0 then some irq
    else scanPending pending highestInService irqs

def pendingIrqWithExtraIrr (pic : Pic8259) (extraIrr : U8) : Option Nat :=
  let pending := (pic.irr ||| extraIrr) &&& ~~~pic.imr
  if pending = 0 then none
  else scanPending pending pic.highestInService pic.irqPriorityOrder

def pendingIrq (pic : Pic8259) : Option Nat :=
  pic.pendingIrqWithExtraIrr 0

def isIrqRequested (pic : Pic8259) (irq : Nat) : Bool :=
  pic.irr &&& bit irq != 0

-- `none` if nothing was requested.
def acknowledgeIrq (pic : Pic8259) (irq : Nat) : Option Pic8259 :=
  if pic.irr &&& bit irq = 0 then none
  else
    let pic := { pic with irr := pic.irr &&& ~~~bit irq }
    let pic := if pic.autoEoi then pic else { pic with isr := pic.isr ||| bit irq }
    some pic.refreshIfLevelTriggered

def forceInService (pic : Pic8259) (irq : Nat) : Pic8259 :=
  if pic.autoEoi then pic
  else { pic with isr := pic.isr ||| bit irq }.refreshIfLevelTriggered

end Pic8259

structure DualPic8259 where
  master : Pic8259
  slave : Pic8259
  deriving DecidableEq, Repr

namespace DualPic8259

def masterCmd : Nat := 0x20
def masterData : Nat := 0x21
def slaveCmd : Nat := 0xa0
def slaveData : Nat := 0xa1

def new : DualPic8259 where
  master := .newPowerOn
  slave := .newPowerOn

def lowestSetBit (val : U8) : Option Nat :=
  (List.range 8).find? fun i => val.getLsbD i

def cascadeLine (pic : DualPic8259) : Option Nat :=
  if pic.master.single || pic.slave.single || pic.master.icw3 == 0 then none
  else
    let slaveId := (pic.slave.icw3 &&& 7).toNat
    if pic.master.icw3 &&& Pic8259.bit slaveId ≠ 0 then some slaveId
    else lowestSetBit pic.master.icw3

-- The line of the slave on the master, its bit if the slave has a request, and that request.
def cascade (pic : DualPic8259) : Nat × U8 × Option Nat :=
  match pic.cascadeLine with
  | some line =>
    let pending := pic.slave.pendingIrq
    (line, if pending.isSome then Pic8259.bit line else 0, pending)
  | none => (0, 0, none)

def getPendingVector (pic : DualPic8259) : Option U8 :=
  let (cascadeLine, cascadeBit, slavePending) := pic.cascade
  match pic.master.pendingIrqWithExtraIrr cascadeBit with
  | none           => none
  | some masterIrq =>
    if cascadeBit ≠ 0 ∧ masterIrq = cascadeLine then
      match slavePending with
      | some slaveIrq => some (pic.slave.vectorBase ||| BitVec.ofNat 8 slaveIrq)
      | none          => some (pic.master.vectorBase ||| BitVec.ofNat 8 masterIrq)
    else some (pic.master.vectorBase ||| BitVec.ofNat 8 masterIrq)

-- The slave is tried first. The second component is the acknowledged IRQ.
def acknowledge (pic : DualPic8259) (vector : U8) : DualPic8259 × Option Nat :=
  let irq := (vector &&& 7).toNat
  if vector &&& 0xf8 = pic.slave.vectorBase then
    let cascadeLine := pic.cascadeLine.getD 2
    match pic.slave.acknowledgeIrq irq with
    | some slave =>
      let master := pic.master.forceInService cascadeLine
      ({ master := { master with irr := master.irr &&& ~~~Pic8259.bit cascadeLine }, slave },
        some (8 + irq))
    | none =>
      -- a spurious IRQ15 still occupies the cascade line
      (if irq = 7 then { pic with master := pic.master.forceInService cascadeLine } else pic, none)
  else if vector &&& 0xf8 = pic.master.vectorBase then
    if irq = 7 ∧ pic.master.isIrqRequested 7 = false then (pic, none)
    else
      match pic.master.acknowledgeIrq irq with
      | some master => ({ pic with master }, some irq)
      | none        => (pic, none)
  else (pic, none)

def setIrqLevel (pic : DualPic8259) (irq : Nat) (level : Bool) : DualPic8259 :=
  if irq < 8 then { pic with master := pic.master.setIrqLevel irq level }
  else if irq < 16 then { pic with slave := pic.slave.setIrqLevel (irq - 8) level }
  else pic

def raiseIrq (pic : DualPic8259) (irq : Nat) : DualPic8259 :=
  pic.setIrqLevel irq true

def lowerIrq (pic : DualPic8259) (irq : Nat) : DualPic8259 :=
  pic.setIrqLevel irq false

def portWriteU8 (pic : DualPic8259) (port : Nat) (val : U8) : DualPic8259 :=
  if port = masterCmd then { pic with master := pic.master.writeCommand val }
  else if port = masterData then { pic with master := pic.master.writeData val }
  else if port = slaveCmd then { pic with slave := pic.slave.writeCommand val }
  else if port = slaveData then { pic with slave := pic.slave.writeData val }
  else pic

end DualPic8259

structure PlatformPic where
  inner : DualPic8259
  masterBase : U8
  slaveBase : U8
  deriving DecidableEq, Repr

namespace PlatformPic

def setOffsets (pic : PlatformPic) (masterBase slaveBase : U8) : PlatformPic :=
  let inner := pic.inner.portWriteU8 DualPic8259.masterCmd 0x11
  let inner := inner.portWriteU8 DualPic8259.masterData masterBase
  let inner := inner.portWriteU8 DualPic8259.masterData 0x04
  let inner := inner.portWriteU8 DualPic8259.masterData 0x01
  let inner := inner.portWriteU8 DualPic8259.slaveCmd 0x11
  let inner := inner.portWriteU8 DualPic8259.slaveData slaveBase
  let inner := inner.portWriteU8 DualPic8259.slaveData 0x02
  let inner := inner.portWriteU8 DualPic8259.slaveData 0x01
  { inner, masterBase := masterBase &&& 0xf8, slaveBase := slaveBase &&& 0xf8 }

def new (masterBase slaveBase : U8) : PlatformPic :=
  { inner := .new, masterBase, slaveBase : PlatformPic }.setOffsets masterBase slaveBase

def raiseIrq (pic : PlatformPic) (irq : Nat) : PlatformPic :=
  { pic with inner := pic.inner.raiseIrq irq }

def lowerIrq (pic : PlatformPic) (irq : Nat) : PlatformPic :=
  { pic with inner := pic.inner.lowerIrq irq }

def acknowledge (pic : PlatformPic) (vector : U8) : PlatformPic :=
  { pic with inner := (pic.inner.acknowledge vector).1 }

def vectorToIrq (pic : PlatformPic) (vector : U8) : Option Nat :=
  if pic.masterBase ≤ vector ∧ vector < pic.masterBase + 8 then some (vector - pic.masterBase).toNat
  else if pic.slaveBase ≤ vector ∧ vector < pic.slaveBase + 8 then
    some (8 + (vector - pic.slaveBase).toNat)
  else none

def portWriteU8 (pic : PlatformPic) (port : Nat) (val : U8) : PlatformPic :=
  { pic with inner := pic.inner.portWriteU8 port val }

-- Specific EOIs; a slave IRQ ends the cascade line of the master as well.
def eoi (pic : PlatformPic) (vector : U8) : PlatformPic :=
  match pic.vectorToIrq vector with
  | none     => pic
  | some irq =>
    if irq < 8 then pic.portWriteU8 DualPic8259.masterCmd (0x60 ||| (BitVec.ofNat 8 irq &&& 7))
    else
      (pic.portWriteU8 DualPic8259.slaveCmd (0x60 ||| (BitVec.ofNat 8 (irq - 8) &&& 7))).portWriteU8
        DualPic8259.masterCmd (0x60 ||| 0x02)

end PlatformPic

end Aero.Interrupts
