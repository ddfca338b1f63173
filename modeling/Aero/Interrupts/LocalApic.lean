import Aero.Types

namespace Aero.Interrupts

def saturatingAdd (a b : Nat) : Nat :=
  min (a + b) (2 ^ 64 - 1)

def saturatingMul (a b : Nat) : Nat :=
  min (a * b) (2 ^ 64 - 1)

abbrev Bitmap := BitVec 256

namespace Bitmap

def isSet (bitmap : Bitmap) (vector : U8) : Bool :=
  bitmap.getLsbD vector.toNat

def set (bitmap : Bitmap) (vector : U8) : Bitmap :=
  bitmap ||| 1#256 <<< vector.toNat

def clear (bitmap : Bitmap) (vector : U8) : Bitmap :=
  bitmap &&& ~~~(1#256 <<< vector.toNat)

def highestSetBit (bitmap : Bitmap) : Option U8 :=
  ((List.range 256).reverse.map (BitVec.ofNat 8)).find? fun vector => bitmap.isSet vector

def word (bitmap : Bitmap) (idx : Nat) : U32 :=
  bitmap.extractLsb' (32 * idx) 32

end Bitmap

def vectorPriorityClass (vector : U8) : U8 :=
  vector &&& 0xf0

namespace Reg

def id : Nat := 0x20
def version : Nat := 0x30
def tpr : Nat := 0x80
def ppr : Nat := 0xa0
def eoi : Nat := 0xb0
def ldr : Nat := 0xd0
def dfr : Nat := 0xe0
def svr : Nat := 0xf0
def isrBase : Nat := 0x100
def irrBase : Nat := 0x200
def icrLow : Nat := 0x300
def icrHigh : Nat := 0x310
def lvtTimer : Nat := 0x320
def initialCount : Nat := 0x380
def currentCount : Nat := 0x390
def divideConfig : Nat := 0x3e0

end Reg

def lapicMmioSize : Nat := 0x1000

inductive DeliveryMode
  | fixed
  | lowestPriority
  | smi
  | remoteRead
  | nmi
  | init
  | startup
  | extInt
  deriving DecidableEq, Repr

def DeliveryMode.fromBits (bits : U32) : DeliveryMode :=
  match (bits &&& 7).toNat with
  | 0 => .fixed
  | 1 => .lowestPriority
  | 2 => .smi
  | 3 => .remoteRead
  | 4 => .nmi
  | 5 => .init
  | 6 => .startup
  | _ => .extInt

inductive DestinationShorthand
  | none
  | selfOnly
  | allIncludingSelf
  | allExcludingSelf
  deriving DecidableEq, Repr

def DestinationShorthand.fromBits (bits : U32) : DestinationShorthand :=
  match (bits &&& 3).toNat with
  | 0 => .none
  | 1 => .selfOnly
  | 2 => .allIncludingSelf
  | _ => .allExcludingSelf

structure Icr where
  vector : U8
  deliveryMode : DeliveryMode
  destinationMode : Bool
  -- `Level::Assert`
  levelAssert : Bool
  destinationShorthand : DestinationShorthand
  destination : U8
  deriving DecidableEq, Repr

def Icr.decode (icrLow icrHigh : U32) : Icr where
  vector := icrLow.setWidth 8
  deliveryMode := .fromBits (icrLow >>> 8)
  destinationMode := icrLow.getLsbD 11
  levelAssert := icrLow.getLsbD 14
  destinationShorthand := .fromBits (icrLow >>> 18)
  destination := (icrHigh >>> 24).setWidth 8

inductive TimerMode
  | oneShot
  | periodic
  deriving DecidableEq, Repr

structure LapicState where
  id : U8
  tpr : U8
  ldr : U32
  dfr : U32
  svr : U32
  icrLow : U32
  icrHigh : U32
  irr : Bitmap
  isr : Bitmap
  lvtTimer : U32
  divideConfig : U32
  initialCount : U32
  nextTimerDeadlineNs : Option Nat
  deriving DecidableEq, Repr

namespace LapicState

def new (id : U8) : LapicState where
  id
  tpr := 0
  ldr := 0
  dfr := 0xffff_ffff
  -- the software enable bit is clear
  svr := 0xff
  icrLow := 0
  icrHigh := 0
  irr := 0
  isr := 0
  lvtTimer := 1 <<< 16
  divideConfig := 0
  initialCount := 0
  nextTimerDeadlineNs := none

-- The logical ID of `LDR`, or one bit for the APIC ID as long as the register was never programmed.
def logicalId (s : LapicState) : U8 :=
  let ldrBits : U8 := (s.ldr >>> 24).setWidth 8
  if ldrBits ≠ 0 then ldrBits
  else if s.id < 8 then 1#8 <<< s.id.toNat
  else 0

def matchesLogicalDest (s : LapicState) (dest : U8) : Bool :=
  if dest = 0xff then true else dest &&& s.logicalId != 0

def enabled (s : LapicState) : Bool :=
  s.svr.getLsbD 8

def ppr (s : LapicState) : U8 :=
  let tpr := s.tpr &&& 0xf0
  let isrClass := (s.isr.highestSetBit.map vectorPriorityClass).getD 0
  if tpr ≤ isrClass then isrClass else tpr

def ack (s : LapicState) (vector : U8) : LapicState :=
  if s.enabled = false then s
  else if s.irr.isSet vector = false then s
  else if vectorPriorityClass vector ≤ s.ppr then s
  else { s with irr := s.irr.clear vector, isr := s.isr.set vector }

def eoi (s : LapicState) : LapicState × Option U8 :=
  match s.isr.highestSetBit with
  | some vector => ({ s with isr := s.isr.clear vector }, some vector)
  | none        => (s, none)

def injectFixedInterruptInner (s : LapicState) (vector : U8) : LapicState :=
  if s.enabled then { s with irr := s.irr.set vector } else s

def timerMode (s : LapicState) : TimerMode :=
  if (s.lvtTimer >>> 17) &&& 3 = 1 then .periodic else .oneShot

def timerMasked (s : LapicState) : Bool :=
  s.lvtTimer.getLsbD 16

def timerVector (s : LapicState) : U8 :=
  s.lvtTimer.setWidth 8

def timerDivisor (s : LapicState) : Nat :=
  match (s.divideConfig &&& 0x0b).toNat with
  | 0x0 => 2
  | 0x1 => 4
  | 0x2 => 8
  | 0x3 => 16
  | 0x8 => 32
  | 0x9 => 64
  | 0xa => 128
  | 0xb => 1
  | _   => 2

def timerTickNs (s : LapicState) : Nat :=
  s.timerDivisor

def currentCountAt (s : LapicState) (now : Nat) : Nat :=
  match s.nextTimerDeadlineNs with
  | none          => 0
  | some deadline =>
    if s.initialCount = 0 then 0
    else if deadline ≤ now then 0
    else min ((deadline - now + s.timerTickNs - 1) / s.timerTickNs) (2 ^ 32 - 1)

def pollTimer (s : LapicState) (now : Nat) : LapicState :=
  match s.nextTimerDeadlineNs with
  | none          => s
  | some deadline =>
    if s.initialCount = 0 then { s with nextTimerDeadlineNs := none }
    else if now < deadline then s
    else
      let periodNs := saturatingMul s.initialCount.toNat s.timerTickNs
      if periodNs = 0 then { s with nextTimerDeadlineNs := none }
      else
        let s :=
          if s.enabled && !s.timerMasked then s.injectFixedInterruptInner s.timerVector else s
        match s.timerMode with
        | .oneShot  => { s with nextTimerDeadlineNs := none }
        | .periodic =>
          let periods := (now - deadline) / periodNs + 1
          { s with
            nextTimerDeadlineNs := some (saturatingAdd deadline (saturatingMul periods periodNs)) }

def writeDivideConfig (s : LapicState) (now : Nat) (value : U32) : LapicState :=
  let s := s.pollTimer now
  let remainingTicks := s.currentCountAt now
  let s := { s with divideConfig := value }
  if remainingTicks = 0 then s
  else
    { s with
      nextTimerDeadlineNs := some (saturatingAdd now (saturatingMul remainingTicks s.timerTickNs)) }

def writeInitialCount (s : LapicState) (now : Nat) (value : U32) : LapicState :=
  let s := { s.pollTimer now with initialCount := value }
  if value = 0 then { s with nextTimerDeadlineNs := none }
  else
    { s with
      nextTimerDeadlineNs := some (saturatingAdd now (saturatingMul value.toNat s.timerTickNs)) }

def isApicArrayRegister (offset base : Nat) : Prop :=
  base ≤ offset ∧ offset < base + 0x80 ∧ (offset - base) % 0x10 = 0

instance decidableIsApicArrayRegister (offset base : Nat) :
    Decidable (isApicArrayRegister offset base) :=
  inferInstanceAs (Decidable (_ ∧ _))

def apicArrayIndex (offset base : Nat) : Nat :=
  (offset - base) / 0x10

def readU32 (s : LapicState) (now offset : Nat) : U32 :=
  if offset = Reg.id then s.id.setWidth 32 <<< 24
  else if offset = Reg.version then 0x0006_0014
  else if offset = Reg.tpr then s.tpr.setWidth 32
  else if offset = Reg.ppr then s.ppr.setWidth 32
  else if offset = Reg.eoi then 0
  else if offset = Reg.ldr then s.ldr
  else if offset = Reg.dfr then s.dfr
  else if offset = Reg.svr then s.svr
  else if offset = Reg.icrLow then s.icrLow
  else if offset = Reg.icrHigh then s.icrHigh
  else if offset = Reg.lvtTimer then s.lvtTimer
  else if offset = Reg.initialCount then s.initialCount
  else if offset = Reg.currentCount then BitVec.ofNat 32 (s.currentCountAt now)
  else if offset = Reg.divideConfig then s.divideConfig
  else if isApicArrayRegister offset Reg.isrBase then s.isr.word (apicArrayIndex offset Reg.isrBase)
  else if isApicArrayRegister offset Reg.irrBase then s.irr.word (apicArrayIndex offset Reg.irrBase)
  else 0

-- Only the EOI register has a result, the vector that it has ended.
def writeU32 (s : LapicState) (now offset : Nat) (value : U32) : LapicState × Option U8 :=
  if offset = Reg.id then ({ s with id := (value >>> 24).setWidth 8 }, none)
  else if offset = Reg.tpr then ({ s with tpr := value.setWidth 8 }, none)
  else if offset = Reg.eoi then s.eoi
  else if offset = Reg.ldr then ({ s with ldr := value &&& 0xff00_0000 }, none)
  else if offset = Reg.dfr then ({ s with dfr := value &&& 0xf000_0000 ||| 0x0fff_ffff }, none)
  else if offset = Reg.svr then ({ s with svr := value }, none)
  else if offset = Reg.icrLow then ({ s with icrLow := value }, none)
  else if offset = Reg.icrHigh then ({ s with icrHigh := value }, none)
  else if offset = Reg.lvtTimer then ({ s with lvtTimer := value }, none)
  else if offset = Reg.divideConfig then (s.writeDivideConfig now value, none)
  else if offset = Reg.initialCount then (s.writeInitialCount now value, none)
  else (s, none)

-- The ID of the LAPIC survives a reset.
def resetState (s : LapicState) : LapicState :=
  new s.id

def injectFixedInterrupt (s : LapicState) (now : Nat) (vector : U8) : LapicState :=
  (s.pollTimer now).injectFixedInterruptInner vector

def setTprFromCr8 (s : LapicState) (cr8 : U64) : LapicState :=
  { s with tpr := (cr8.setWidth 8 &&& 0x0f) <<< 4 }

end LapicState

structure MmioWrite where
  state : LapicState
  eoiVectors : List U8
  icrEvents : List Icr
  deriving DecidableEq, Repr

namespace MmioWrite

def wordOffset (off : Nat) : Nat :=
  off - off % 4

def setByte (word : U32) (byteIdx : Nat) (b : U8) : U32 :=
  (word &&& ~~~(0xff#32 <<< (byteIdx * 8))) ||| (b.setWidth 32 <<< (byteIdx * 8))

-- The bytes that go into one word, and those that are left. A word does not cross the end of the
-- page, so that the two other exits of the loop are never taken.
def mergeBytes (word : U32) : Nat → List U8 → U32 × List U8
  | _,       []      => (word, [])
  | byteIdx, b :: bs =>
    if byteIdx < 4 then mergeBytes (setByte word byteIdx b) (byteIdx + 1) bs else (word, b :: bs)

def writeWord (w : MmioWrite) (now offset : Nat) (word : U32) : MmioWrite :=
  let (state, vector) := w.state.writeU32 now offset word
  { state
    eoiVectors := w.eoiVectors ++ vector.toList
    icrEvents :=
      if offset = Reg.icrLow then w.icrEvents ++ [.decode word state.icrHigh] else w.icrEvents }

-- `off` is the offset of the first byte of `data`. Every round takes a byte at least.
def writeWords (now : Nat) : Nat → Nat → List U8 → MmioWrite → MmioWrite
  | 0,          _,   _,    w => w
  | _ + 1,      _,   [],   w => w
  | rounds + 1, off, b :: bs, w =>
    if lapicMmioSize ≤ off then writeWords now rounds ((off + 1) % 2 ^ 64) bs w
    else
      let word := w.state.readU32 now (wordOffset off)
      let (word, rest) := mergeBytes word (off % 4) (b :: bs)
      writeWords now rounds ((off + ((b :: bs).length - rest.length)) % 2 ^ 64) rest
        (w.writeWord now (wordOffset off) word)

end MmioWrite

def LapicState.mmioWrite (s : LapicState) (now offset : Nat) (data : List U8) : MmioWrite :=
  if data = [] then { state := s, eoiVectors := [], icrEvents := [] }
  else
    MmioWrite.writeWords now data.length offset data
      { state := s.pollTimer now, eoiVectors := [], icrEvents := [] }

def LapicState.mmioRead (s : LapicState) (now offset len : Nat) : LapicState × List U8 :=
  if len = 0 then (s, [])
  else
    let s := s.pollTimer now
    (s, (List.range len).map fun idx =>
      let off := (offset + idx) % 2 ^ 64
      if lapicMmioSize ≤ off then 0
      else (s.readU32 now (MmioWrite.wordOffset off) >>> (off % 4 * 8)).setWidth 8)

end Aero.Interrupts
