import Aero.Interrupts.LocalApic
import Mathlib.Data.List.MinMax

namespace Aero.Interrupts

inductive TriggerMode
  | edge
  | level
  deriving DecidableEq, Repr

inductive MaskTransition
  | unchanged
  | masked
  | unmasked
  deriving DecidableEq, Repr

structure RedirectionEntry where
  vector : U8 := 0
  deliveryMode : U8 := 0
  destinationMode : Bool := false
  polarityLow : Bool := false
  triggerMode : TriggerMode := .edge
  mask : Bool := true
  destination : U8 := 0
  remoteIrr : Bool := false
  deriving DecidableEq, Repr

namespace RedirectionEntry

def interpretLevel (e : RedirectionEntry) (rawLevel : Bool) : Bool :=
  if e.polarityLow then !rawLevel else rawLevel

def writeLow (e : RedirectionEntry) (v : U32) : RedirectionEntry :=
  { e with
    vector := v.setWidth 8
    deliveryMode := ((v >>> 8) &&& 7).setWidth 8
    destinationMode := v.getLsbD 11
    polarityLow := v.getLsbD 13
    triggerMode := if v.getLsbD 15 then .level else .edge
    mask := v.getLsbD 16 }

def maskTransition (oldMask mask : Bool) : MaskTransition :=
  match oldMask, mask with
  | true, false => .unmasked
  | false, true => .masked
  | _, _        => .unchanged

def writeHigh (e : RedirectionEntry) (v : U32) : RedirectionEntry :=
  { e with destination := (v >>> 24).setWidth 8 }

-- The closure `matches_destination` of a delivery.
def matchesDestination (e : RedirectionEntry) (lapic : LapicState) : Bool :=
  if e.destination = 0xff then true
  else if e.destinationMode then lapic.matchesLogicalDest e.destination
  else e.destination == lapic.id

end RedirectionEntry

structure IoApic (n : Nat) where
  id : U8
  ioregsel : U8
  redirection : Fin n → RedirectionEntry
  pinActiveLow : Fin n → Bool
  pinLevel : Fin n → Bool

namespace IoApic

variable {n : Nat}

-- The SCI and the lines of the PCI window are wired active-low.
def wiring (gsi : Fin n) : Bool :=
  gsi.val == 9 || decide (16 ≤ gsi.val)

def withEntries (n : Nat) (id : U8) : IoApic n where
  id
  ioregsel := 0
  redirection _ := {}
  pinActiveLow := wiring
  pinLevel := wiring

def hasUnmaskedRedirectionEntry (a : IoApic n) : Bool :=
  (List.finRange n).any fun gsi => !(a.redirection gsi).mask

def clearRemoteIrr (a : IoApic n) : IoApic n :=
  { a with redirection := fun gsi => { a.redirection gsi with remoteIrr := false } }

def setEntry (a : IoApic n) (gsi : Fin n) (e : RedirectionEntry) : IoApic n :=
  { a with redirection := Function.update a.redirection gsi e }

def setPin (a : IoApic n) (gsi : Fin n) (raw : Bool) : IoApic n :=
  { a with pinLevel := Function.update a.pinLevel gsi raw }

def asserted (a : IoApic n) (gsi : Fin n) : Bool :=
  (a.redirection gsi).interpretLevel (a.pinLevel gsi)

end IoApic

-- An IOAPIC with the LAPICs that its sinks lead to. `routed` is what `RoutedLapicSink` asks for before
-- it injects; it is true of sinks that are LAPICs themselves.
structure Fabric (n : Nat) where
  ioapic : IoApic n
  lapics : List LapicState
  routed : Bool

namespace Fabric

variable {n : Nat}

def injectExternalInterrupt (routed : Bool) (now : Nat) (vector : U8) (lapic : LapicState) :
    LapicState :=
  if routed then lapic.injectFixedInterrupt now vector else lapic

def priorityKey (lapic : LapicState) : Nat :=
  (lapic.ppr &&& 0xf0).toNat * 256 + lapic.id.toNat

-- The first of the least receivers of a lowest-priority interrupt.
def lowestPriority (e : RedirectionEntry) (lapics : List LapicState) : Option Nat :=
  ((List.range lapics.length).filter fun cpu => lapics[cpu]?.any e.matchesDestination).argmin
    fun cpu => (lapics[cpu]?.map priorityKey).getD 0

def injectAll (f : Fabric n) (now : Nat) (e : RedirectionEntry) : List LapicState × Bool :=
  let inject := injectExternalInterrupt f.routed now e.vector
  if e.deliveryMode = 1 then
    match lowestPriority e f.lapics with
    | some cpu => (f.lapics.modify cpu inject, true)
    | none     => (f.lapics, false)
  else
    (f.lapics.map fun lapic => if e.matchesDestination lapic then inject lapic else lapic,
      f.lapics.any e.matchesDestination)

def deliver (f : Fabric n) (now : Nat) (gsi : Fin n) : Fabric n :=
  let entry := f.ioapic.redirection gsi
  if 1 < entry.deliveryMode then f
  else
    let (lapics, delivered) := f.injectAll now entry
    let f := { f with lapics }
    if delivered ∧ entry.triggerMode = .level then
      { f with ioapic := f.ioapic.setEntry gsi { entry with remoteIrr := true } }
    else f

def maybeDeliverLevel (f : Fabric n) (now : Nat) (gsi : Fin n) : Fabric n :=
  let entry := f.ioapic.redirection gsi
  if entry.triggerMode ≠ .level then f
  else if entry.mask || entry.remoteIrr || !f.ioapic.asserted gsi then f
  else f.deliver now gsi

def setIrqLevel (f : Fabric n) (now gsi : Nat) (level : Bool) : Fabric n :=
  if h : gsi < n then
    let gsi : Fin n := ⟨gsi, h⟩
    let entry := f.ioapic.redirection gsi
    let newRaw := level != f.ioapic.pinActiveLow gsi
    let prev := entry.interpretLevel (f.ioapic.pinLevel gsi)
    let asserted := entry.interpretLevel newRaw
    let f := { f with ioapic := f.ioapic.setPin gsi newRaw }
    match entry.triggerMode with
    | .edge =>
      if entry.mask then f
      else if !prev && asserted then f.deliver now gsi else f
    | .level =>
      if entry.mask then f
      else if asserted then f.maybeDeliverLevel now gsi else f
  else f

def ends (vector : U8) (e : RedirectionEntry) : Prop :=
  e.triggerMode = .level ∧ e.remoteIrr = true ∧ e.vector = vector

instance decidableEnds (vector : U8) (e : RedirectionEntry) : Decidable (ends vector e) :=
  inferInstanceAs (Decidable (_ ∧ _))

def endAll (a : IoApic n) (vector : U8) : IoApic n :=
  { a with
    redirection := fun gsi =>
      let e := a.redirection gsi
      if ends vector e then { e with remoteIrr := false } else e }

def pendingRedelivery (a : IoApic n) (vector : U8) : List (Fin n) :=
  (List.finRange n).filter fun gsi =>
    decide (ends vector (a.redirection gsi)) && (a.asserted gsi && !(a.redirection gsi).mask)

-- Remote-IRR is cleared on all the entries before the first one is delivered again.
def notifyEoi (f : Fabric n) (now : Nat) (vector : U8) : Fabric n :=
  (pendingRedelivery f.ioapic vector).foldl (fun f gsi => f.deliver now gsi)
    { f with ioapic := endAll f.ioapic vector }

def writeEntryLow (f : Fabric n) (now : Nat) (gsi : Fin n) (v : U32) : Fabric n :=
  let entry := f.ioapic.redirection gsi
  let f := { f with ioapic := f.ioapic.setEntry gsi (entry.writeLow v) }
  if RedirectionEntry.maskTransition entry.mask (entry.writeLow v).mask = .unmasked then
    f.maybeDeliverLevel now gsi
  else f

def writeEntryHigh (f : Fabric n) (gsi : Fin n) (v : U32) : Fabric n :=
  { f with ioapic := f.ioapic.setEntry gsi ((f.ioapic.redirection gsi).writeHigh v) }

def writeRegister (f : Fabric n) (now : Nat) (reg : U8) (v : U32) : Fabric n :=
  if reg = 0 then { f with ioapic := { f.ioapic with id := ((v >>> 24) &&& 0x0f).setWidth 8 } }
  else if 0x10 ≤ reg.toNat then
    let idx := reg.toNat - 0x10
    if h : idx / 2 < n then
      if idx % 2 = 0 then f.writeEntryLow now ⟨idx / 2, h⟩ v else f.writeEntryHigh ⟨idx / 2, h⟩ v
    else f
  else f

def mmioWrite (f : Fabric n) (now offset size : Nat) (value : U64) : Fabric n :=
  if size ≠ 4 then f
  else
    let v : U32 := value.setWidth 32
    if offset = 0x00 then { f with ioapic := { f.ioapic with ioregsel := v.setWidth 8 } }
    else if offset = 0x10 then f.writeRegister now f.ioapic.ioregsel v
    else f

-- The operations of one LAPIC, with the IOAPIC as its EOI notifier.

def lapicAck (f : Fabric n) (now cpu : Nat) (vector : U8) : Fabric n :=
  { f with lapics := f.lapics.modify cpu fun lapic => (lapic.pollTimer now).ack vector }

def lapicInject (f : Fabric n) (now cpu : Nat) (vector : U8) : Fabric n :=
  { f with lapics := f.lapics.modify cpu fun lapic => lapic.injectFixedInterrupt now vector }

def lapicReset (f : Fabric n) (cpu : Nat) : Fabric n :=
  { f with lapics := f.lapics.modify cpu LapicState.resetState }

def lapicPoll (f : Fabric n) (now cpu : Nat) : Fabric n :=
  { f with lapics := f.lapics.modify cpu fun lapic => lapic.pollTimer now }

def notifyEois (f : Fabric n) (now : Nat) (vectors : List U8) : Fabric n :=
  vectors.foldl (fun f vector => f.notifyEoi now vector) f

def lapicEoi (f : Fabric n) (now cpu : Nat) : Fabric n :=
  match f.lapics[cpu]? with
  | none       => f
  | some lapic =>
    let (lapic, vector) := (lapic.pollTimer now).eoi
    { f with lapics := f.lapics.set cpu lapic }.notifyEois now vector.toList

-- The send requests are left to the caller.
def lapicMmioWrite (f : Fabric n) (now cpu offset : Nat) (data : List U8) :
    Fabric n × List Icr :=
  match f.lapics[cpu]? with
  | none       => (f, [])
  | some lapic =>
    let w := lapic.mmioWrite now offset data
    ({ f with lapics := f.lapics.set cpu w.state }.notifyEois now w.eoiVectors, w.icrEvents)

end Fabric

end Aero.Interrupts
