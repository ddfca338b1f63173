import Aero.Lib.LeBytes
import Aero.Types

namespace Aero.Devices

def pitCh0 : Nat := 0x40
def pitCh1 : Nat := 0x41
def pitCh2 : Nat := 0x42
def pitCmd : Nat := 0x43

def pitHz : Nat := 1193182

def nsPerSec : Nat := 1000000000

inductive AccessMode
  | latchCount | lobyteOnly | hibyteOnly | lobyteHibyte
  deriving DecidableEq, Repr

namespace AccessMode

def fromBits (bits : Nat) : AccessMode :=
  match bits % 4 with
  | 0 => latchCount
  | 1 => lobyteOnly
  | 2 => hibyteOnly
  | _ => lobyteHibyte

def statusBits : AccessMode → Nat
  | latchCount   => 0
  | lobyteOnly   => 1
  | hibyteOnly   => 2
  | lobyteHibyte => 3

end AccessMode

inductive BytePhase
  | low | high
  deriving DecidableEq, Repr

structure LatchedValue where
  value : Nat
  phase : BytePhase
  deriving DecidableEq, Repr

structure Channel where
  mode : Nat
  bcd : Bool
  accessMode : AccessMode
  writePhase : BytePhase
  readPhase : BytePhase
  writeLatchLow : Nat
  nullCount : Bool
  -- zero before the first count is written
  reload : Nat
  phaseTicks : Nat
  latchedCount : Option LatchedValue
  latchedStatus : Option Nat
  deriving DecidableEq, Repr

namespace Channel

def default : Channel :=
  ⟨0, false, .lobyteHibyte, .low, .low, 0, true, 0, 0, none, none⟩

def effectiveReload (self : Channel) : Option Nat :=
  if self.reload = 0 then none else some self.reload

def setMode (self : Channel) (accessMode : AccessMode) (modeBits : Nat) (bcd : Bool) : Channel :=
  { self with
    accessMode := accessMode
    mode := if modeBits = 6 then 2 else if modeBits = 7 then 3 else modeBits
    bcd := bcd
    nullCount := true
    writePhase := .low
    readPhase := .low
    latchedCount := none
    latchedStatus := none
    phaseTicks := 0 }

def loadCountRaw (self : Channel) (raw : Nat) : Channel :=
  { self with
    reload := if raw = 0 then 65536 else raw
    phaseTicks := 0
    nullCount := false }

-- The period of the square wave.
def squareReload (reload : Nat) : Nat :=
  if reload = 1 then 2 else reload

def currentOut (self : Channel) : Bool :=
  match self.effectiveReload, self.mode with
  | some reload, 2 => self.phaseTicks != reload - 1
  | some reload, 3 => self.phaseTicks < (squareReload reload + 1) / 2
  | _,           _ => true

def currentCountRaw (self : Channel) : Nat :=
  match self.effectiveReload, self.mode with
  | some reload, 2 => (reload - self.phaseTicks) % 65536
  | some reload, 3 =>
    let highTicks := (squareReload reload + 1) / 2
    let lowTicks := squareReload reload / 2
    let remainingTicks :=
      if self.phaseTicks < highTicks then highTicks - self.phaseTicks
      else max lowTicks 1 - (self.phaseTicks - highTicks)
    min (remainingTicks * 2) (2 ^ 32 - 1) % 65536
  | _,           _ => 0

def latchCount (self : Channel) : Channel :=
  if self.latchedCount.isSome then self
  else { self with latchedCount := some ⟨self.currentCountRaw, .low⟩, readPhase := .low }

def latchStatus (self : Channel) : Channel :=
  if self.latchedStatus.isSome then self
  else
    let status := self.currentOut.toNat * 128 + self.nullCount.toNat * 64 +
      self.accessMode.statusBits * 16 + self.mode % 8 * 2 + self.bcd.toNat
    { self with latchedStatus := some status, readPhase := .low }

def advanceTicks (self : Channel) (ticks : Nat) : Channel × Nat :=
  match self.effectiveReload with
  | none => (self, 0)
  | some reload =>
    if self.mode = 2 ∨ self.mode = 3 then
      let reload := if self.mode = 3 then squareReload reload else reload
      let total := self.phaseTicks + ticks
      ({ self with phaseTicks := total % reload }, total / reload)
    else
      (self, 0)

def readData (self : Channel) : Channel × Nat :=
  match self.latchedStatus with
  | some status => ({ self with latchedStatus := none, readPhase := .low }, status)
  | none =>
    let raw := (self.latchedCount.map (·.value)).getD self.currentCountRaw
    match self.accessMode with
    | .lobyteHibyte =>
      match self.readPhase with
      | .low =>
        ({ self with
          readPhase := .high
          latchedCount := self.latchedCount.map fun latched => { latched with phase := .high } },
          raw % 256)
      | .high => ({ self with readPhase := .low, latchedCount := none }, raw / 256 % 256)
    | .hibyteOnly => ({ self with readPhase := .low, latchedCount := none }, raw / 256 % 256)
    | _ => ({ self with readPhase := .low, latchedCount := none }, raw % 256)

def writeData (self : Channel) (val : Nat) : Channel :=
  match self.accessMode with
  | .latchCount => self.loadCountRaw val
  | .lobyteOnly => self.loadCountRaw (self.reload / 256 % 256 * 256 + val)
  | .hibyteOnly => self.loadCountRaw (self.reload % 256 + val * 256)
  | .lobyteHibyte =>
    match self.writePhase with
    | .low => { self with writeLatchLow := val, writePhase := .high }
    | .high => { self.loadCountRaw (self.writeLatchLow + val * 256) with writePhase := .low }

end Channel

structure Pit8254 where
  channels : Fin 3 → Channel
  nsRemainder : Nat
  irq0Pulses : Nat

namespace Pit8254

def new : Pit8254 :=
  ⟨fun _ => .default, 0, 0⟩

def modify (self : Pit8254) (channel : Fin 3) (f : Channel → Channel) : Pit8254 :=
  { self with channels := Function.update self.channels channel (f (self.channels channel)) }

def takeIrq0Pulses (self : Pit8254) : Pit8254 × Nat :=
  ({ self with irq0Pulses := 0 }, self.irq0Pulses)

-- Without ticks the source returns at once, and this changes nothing.
def advanceTicks (self : Pit8254) (ticks : Nat) : Pit8254 × Nat :=
  let pulses := ((self.channels 0).advanceTicks ticks).2
  ({ self with
    channels := fun channel => ((self.channels channel).advanceTicks ticks).1
    irq0Pulses := min (self.irq0Pulses + pulses) (2 ^ 64 - 1) }, pulses)

def advanceNs (self : Pit8254) (ns : Nat) : Pit8254 × Nat :=
  let total := self.nsRemainder + ns * pitHz
  { self with nsRemainder := total % nsPerSec }.advanceTicks (total / nsPerSec)

def writeControl (self : Pit8254) (val : Nat) : Pit8254 :=
  if h : val / 64 % 4 < 3 then
    let access := AccessMode.fromBits (val / 16)
    if access = .latchCount then self.modify ⟨_, h⟩ Channel.latchCount
    else self.modify ⟨_, h⟩ (·.setMode access (val / 2 % 8) (val % 2 == 1))
  else
    -- the read-back command
    { self with
      channels := fun channel =>
        if val.testBit (channel + 1) then self.channels channel
        else
          let latched :=
            if val.testBit 5 then self.channels channel else (self.channels channel).latchCount
          if val.testBit 4 then latched else latched.latchStatus }

def channelOf (port : Nat) : Option (Fin 3) :=
  if port = pitCh0 then some 0 else if port = pitCh1 then some 1
  else if port = pitCh2 then some 2 else none

def portReadU8 (self : Pit8254) (port : Nat) : Pit8254 × U8 :=
  match channelOf port with
  | some channel => (self.modify channel (·.readData.1), BitVec.ofNat 8 (self.channels channel).readData.2)
  | none => (self, if port = pitCmd then 0 else 0xff)

def portWriteU8 (self : Pit8254) (port : Nat) (val : U8) : Pit8254 :=
  match channelOf port with
  | some channel => self.modify channel (·.writeData val.toNat)
  | none => if port = pitCmd then self.writeControl val.toNat else self

def accesses (size : Nat) : Nat :=
  match size with
  | 0 => 0
  | 2 => 2
  | 4 => 4
  | _ => 1

def readBytes (self : Pit8254) (port : Nat) : Nat → Pit8254 × List U8
  | 0     => (self, [])
  | n + 1 =>
    let (self, byte) := self.portReadU8 port
    let (self, bytes) := self.readBytes port n
    (self, byte :: bytes)

def portRead (self : Pit8254) (port size : Nat) : Pit8254 × Nat :=
  let (self, bytes) := self.readBytes port (accesses size)
  (self, LeBytes.ofLe bytes)

def portWrite (self : Pit8254) (port size : Nat) (val : U32) : Pit8254 :=
  (LeBytes.toLe (accesses size) val.toNat).foldl (·.portWriteU8 port ·) self

inductive Op
  | read (port size : Nat)
  | write (port size : Nat) (val : U32)
  | advance (ns : Nat)
  | takePulses
  | reset
  deriving DecidableEq, Repr

def step (self : Pit8254) : Op → Pit8254
  | .read port size      => (self.portRead port size).1
  | .write port size val => self.portWrite port size val
  | .advance ns          => (self.advanceNs ns).1
  | .takePulses          => self.takeIrq0Pulses.1
  | .reset               => new

def run (ops : List Op) : Pit8254 :=
  ops.foldl step new

end Pit8254

end Aero.Devices
