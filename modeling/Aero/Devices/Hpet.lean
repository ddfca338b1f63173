import Aero.Lib.RaisedLines
import Aero.IoSnapshot.Tlv

namespace Aero.Devices

abbrev GsiEvent := RaisedLines.Event U32

def hpetMmioSize : Nat := 0x400

def regGeneralCapId : Nat := 0x000
def regGeneralConfig : Nat := 0x010
def regGeneralIntStatus : Nat := 0x020
def regMainCounter : Nat := 0x0f0
def regTimer0Base : Nat := 0x100
def timerStride : Nat := 0x20
def regTimerConfig : Nat := 0x00
def regTimerComparator : Nat := 0x08
def regTimerFsbRoute : Nat := 0x10

def genConfEnable : U64 := 1 <<< 0
def genConfLegacyRoute : U64 := 1 <<< 1

def legacyTimerGsi : U32 := 2
def legacyRtcGsi : U32 := 8

def applyLegacyReplacementRoute (legacy : Bool) (timerIndex : Nat) (programmedRoute : U32) : U32 :=
  if ¬legacy then programmedRoute
  else
    match timerIndex with
    | 0 => legacyTimerGsi
    | 1 => legacyRtcGsi
    | _ => programmedRoute

def timerCfgIntLevel : U64 := 1 <<< 1
def timerCfgIntEnable : U64 := 1 <<< 2
def timerCfgPeriodic : U64 := 1 <<< 3
def timerCapPeriodic : U64 := 1 <<< 4
def timerCapSize64 : U64 := 1 <<< 5
def timerCfgSetval : U64 := 1 <<< 6
def timerCfg32mode : U64 := 1 <<< 8
def timerCfgIntRouteMask : U64 := 0x1f <<< 9
def timerCfgFsbEnable : U64 := 1 <<< 14

def timerWritableMask : U64 :=
  timerCfgIntLevel ||| timerCfgIntEnable ||| timerCfgPeriodic ||| timerCfgSetval |||
    timerCfg32mode ||| timerCfgIntRouteMask ||| timerCfgFsbEnable

def u32Max : U64 := 0xffffffff

structure HpetCapabilities where
  vendorId : U16
  revisionId : U8
  counterSize64 : Bool
  legacyRouteCapable : Bool
  numTimers : Nat
  counterClkPeriodFs : U32
  deriving DecidableEq, Repr

structure HpetTimer where
  capBits : U64
  config : U64
  comparator : U64
  deadline : U64
  period : U64
  fsbRoute : U64
  armed : Bool
  irqAsserted : Bool
  deriving DecidableEq, Repr

namespace HpetTimer

def new (routeCapMask : U32) (defaultRoute : U8) (periodicCapable : Bool) : HpetTimer where
  capBits := routeCapMask.setWidth 64 <<< 32 |||
    (if periodicCapable then timerCapPeriodic else 0) ||| timerCapSize64
  config := (defaultRoute.setWidth 64 <<< 9) &&& timerCfgIntRouteMask
  comparator := 0
  deadline := 0
  period := 0
  fsbRoute := 0
  armed := false
  irqAsserted := false

def fullConfig (self : HpetTimer) : U64 := self.capBits ||| self.config

def isPeriodic (self : HpetTimer) : Bool := self.config &&& timerCfgPeriodic != 0

def intEnabled (self : HpetTimer) : Bool := self.config &&& timerCfgIntEnable != 0

def isLevelTriggered (self : HpetTimer) : Bool := self.config &&& timerCfgIntLevel != 0

def is32Mode (self : HpetTimer) : Bool := self.config &&& timerCfg32mode != 0

def route (self : HpetTimer) : U32 :=
  ((self.config &&& timerCfgIntRouteMask) >>> 9).setWidth 32

def comparatorDeadline (self : HpetTimer) (mainCounter : U64) : U64 :=
  if ¬self.is32Mode then self.comparator
  else
    let deadline := (mainCounter &&& ~~~u32Max) ||| (self.comparator &&& u32Max)
    if deadline < mainCounter then deadline + (1 <<< 32) else deadline

def comparatorOf (self : HpetTimer) (deadline : U64) : U64 :=
  if self.is32Mode then deadline &&& u32Max else deadline

def gsi (self : HpetTimer) (legacy : Bool) (idx : Nat) : U32 :=
  applyLegacyReplacementRoute legacy idx self.route

def driveLevel (self : HpetTimer) (gsi : U32) (assert : Bool) : HpetTimer × List GsiEvent :=
  match assert, self.irqAsserted with
  | true,  false => ({ self with irqAsserted := true }, [.raise gsi])
  | false, true  => ({ self with irqAsserted := false }, [.lower gsi])
  | _,     _     => (self, [])

def fire (self : HpetTimer) (gsi : U32) : HpetTimer × List GsiEvent :=
  if self.isLevelTriggered then
    if self.irqAsserted then (self, []) else ({ self with irqAsserted := true }, [.raise gsi])
  else
    (self, [.raise gsi, .lower gsi])

def rearm (self : HpetTimer) (mainCounter : U64) : HpetTimer :=
  if self.isPeriodic ∧ self.period ≠ 0 then
    let delta := mainCounter - self.deadline
    let skips := delta / self.period + 1
    let deadline := self.deadline + self.period * skips
    { self with deadline := deadline, comparator := self.comparatorOf deadline }
  else
    { self with armed := false }

def lowerIfAsserted (self : HpetTimer) (gsi : U32) : HpetTimer × List GsiEvent :=
  if self.irqAsserted then ({ self with irqAsserted := false }, [.lower gsi]) else (self, [])

end HpetTimer

structure Hpet where
  capabilities : HpetCapabilities
  generalConfig : U64
  generalIntStatus : U64
  mainCounter : U64
  lastUpdateNs : U64
  remainderFs : U64
  timers : List HpetTimer
  deriving DecidableEq, Repr

-- `1u64 << idx`, where the amount of the shift wraps.
def statusBit (idx : Nat) : U64 := 1#64 <<< (idx % 64)

-- A loop over the timers in order, from the index `idx` on.
def forTimers (f : Nat → HpetTimer → HpetTimer × List GsiEvent) :
    Nat → List HpetTimer → List HpetTimer × List GsiEvent
  | _,   []              => ([], [])
  | idx, timer :: timers =>
    let (timer, evs) := f idx timer
    let (timers, evs') := forTimers f (idx + 1) timers
    (timer :: timers, evs ++ evs')

namespace Hpet

def new (now : U64) (capabilities : HpetCapabilities) : Hpet where
  capabilities := capabilities
  generalConfig := 0
  generalIntStatus := 0
  mainCounter := 0
  lastUpdateNs := now
  remainderFs := 0
  timers := (List.range capabilities.numTimers).map fun timerIdx =>
    let defaultRoute : U8 :=
      match timerIdx with
      | 0 => 2
      | 1 => 8
      | _ => 10
    HpetTimer.new 0x00ffffff defaultRoute true

def enabled (self : Hpet) : Bool := self.generalConfig &&& genConfEnable != 0

def legacy (self : Hpet) : Bool := self.generalConfig &&& genConfLegacyRoute != 0

def updateMainCounter (self : Hpet) (now : U64) : Hpet :=
  if self.enabled then
    let elapsedNs := now - self.lastUpdateNs
    let elapsedFs := elapsedNs.toNat * 1000000 + self.remainderFs.toNat
    let periodFs := self.capabilities.counterClkPeriodFs.toNat
    if periodFs = 0 then { self with lastUpdateNs := now }
    else
      { self with
        lastUpdateNs := now
        remainderFs := BitVec.ofNat 64 (elapsedFs % periodFs)
        mainCounter := self.mainCounter + BitVec.ofNat 64 (elapsedFs / periodFs) }
  else
    self

def serviceTimer (legacy : Bool) (mainCounter : U64) (idx : Nat) (status : U64) (timer : HpetTimer) :
    U64 × HpetTimer × List GsiEvent :=
  let gsi := timer.gsi legacy idx
  let (timer, evs) :=
    if timer.isLevelTriggered ∧ timer.intEnabled then
      timer.driveLevel gsi (status &&& statusBit idx != 0)
    else
      (timer, [])
  if ¬timer.intEnabled then (status, timer, evs)
  else if ¬timer.armed then (status, timer, evs)
  else if mainCounter < timer.deadline then (status, timer, evs)
  else
    let (timer, evs') := timer.fire gsi
    (status ||| statusBit idx, timer.rearm mainCounter, evs ++ evs')

def serviceFrom (legacy : Bool) (mainCounter : U64) :
    Nat → U64 → List HpetTimer → U64 × List HpetTimer × List GsiEvent
  | _,   status, []              => (status, [], [])
  | idx, status, timer :: timers =>
    let (status, timer, evs) := serviceTimer legacy mainCounter idx status timer
    let (status, timers, evs') := serviceFrom legacy mainCounter (idx + 1) status timers
    (status, timer :: timers, evs ++ evs')

def serviceTimers (self : Hpet) : Hpet × List GsiEvent :=
  if self.enabled then
    let (status, timers, evs) :=
      serviceFrom self.legacy self.mainCounter 0 self.generalIntStatus self.timers
    ({ self with generalIntStatus := status, timers := timers }, evs)
  else
    (self, [])

def poll (self : Hpet) (now : U64) : Hpet × List GsiEvent :=
  (self.updateMainCounter now).serviceTimers

def capabilitiesReg (self : Hpet) : U64 :=
  self.capabilities.revisionId.setWidth 64 |||
    BitVec.ofNat 64 (self.capabilities.numTimers - 1) <<< 8 |||
    (if self.capabilities.counterSize64 then 1 <<< 13 else 0) |||
    (if self.capabilities.legacyRouteCapable then 1 <<< 15 else 0) |||
    self.capabilities.vendorId.setWidth 64 <<< 16 |||
    self.capabilities.counterClkPeriodFs.setWidth 64 <<< 32

def readAlignedU64 (self : Hpet) (offset : Nat) : U64 :=
  if offset = regGeneralCapId then self.capabilitiesReg
  else if offset = regGeneralConfig then self.generalConfig
  else if offset = regGeneralIntStatus then self.generalIntStatus
  else if offset = regMainCounter then self.mainCounter
  else if offset ≥ regTimer0Base then
    let reg := (offset - regTimer0Base) % timerStride
    match self.timers[(offset - regTimer0Base) / timerStride]? with
    | none => 0
    | some timer =>
      if reg = regTimerConfig then timer.fullConfig
      else if reg = regTimerComparator then timer.comparator
      else if reg = regTimerFsbRoute then timer.fsbRoute
      else 0
  else 0

def merge (before value writeMask : U64) : U64 :=
  (before &&& ~~~writeMask) ||| (value &&& writeMask)

def moveLine (beforeLegacy afterLegacy : Bool) (idx : Nat) (timer : HpetTimer) :
    HpetTimer × List GsiEvent :=
  let beforeGsi := timer.gsi beforeLegacy idx
  let afterGsi := timer.gsi afterLegacy idx
  if timer.irqAsserted ∧ beforeGsi ≠ afterGsi then (timer, [.lower beforeGsi, .raise afterGsi])
  else (timer, [])

def writeGeneralConfig (self : Hpet) (now value writeMask : U64) : Hpet × List GsiEvent :=
  let before := self
  let self : Hpet := { self with
    generalConfig := merge before.generalConfig value writeMask &&&
      (genConfEnable ||| genConfLegacyRoute) }
  let self : Hpet :=
    if ¬before.enabled ∧ self.enabled then
      { self with
        lastUpdateNs := now
        remainderFs := 0
        timers := self.timers.map fun timer =>
          if timer.armed then { timer with deadline := timer.comparatorDeadline self.mainCounter }
          else timer }
    else
      self
  if before.enabled ∧ ¬self.enabled then
    let (timers, evs) :=
      forTimers (fun idx timer => timer.lowerIfAsserted (timer.gsi before.legacy idx)) 0 self.timers
    ({ self with timers := timers }, evs)
  else if before.legacy ≠ self.legacy then
    let (timers, evs) := forTimers (moveLine before.legacy self.legacy) 0 self.timers
    ({ self with timers := timers }, evs)
  else
    (self, [])

def clearStatus (legacy : Bool) (cleared : U64) (idx : Nat) (timer : HpetTimer) :
    HpetTimer × List GsiEvent :=
  if cleared &&& statusBit idx = 0 then (timer, [])
  else if timer.isLevelTriggered then timer.lowerIfAsserted (timer.gsi legacy idx)
  else (timer, [])

def writeGeneralIntStatus (self : Hpet) (value writeMask : U64) : Hpet × List GsiEvent :=
  let clear := value &&& writeMask
  let cleared := self.generalIntStatus &&& clear
  let (timers, evs) := forTimers (clearStatus self.legacy cleared) 0 self.timers
  ({ self with generalIntStatus := self.generalIntStatus &&& ~~~clear, timers := timers }, evs)

def writeMainCounter (self : Hpet) (now value writeMask : U64) : Hpet :=
  { self with
    mainCounter := merge self.mainCounter value writeMask
    lastUpdateNs := now
    remainderFs := 0 }

def redirect (before timer : HpetTimer) (beforeGsi afterGsi : U32) : HpetTimer × List GsiEvent :=
  if timer.irqAsserted then
    if before.intEnabled ∧ ¬timer.intEnabled ∨ before.isLevelTriggered ∧ ¬timer.isLevelTriggered then
      ({ timer with irqAsserted := false }, [.lower beforeGsi])
    else if beforeGsi ≠ afterGsi then
      if timer.isLevelTriggered then (timer, [.lower beforeGsi, .raise afterGsi])
      else ({ timer with irqAsserted := false }, [.lower beforeGsi])
    else
      (timer, [])
  else
    (timer, [])

def configure (mainCounter value writeMask : U64) (before : HpetTimer) : HpetTimer :=
  let new := merge before.config value writeMask &&& timerWritableMask &&& ~~~timerCfgFsbEnable
  let timer := { before with config := (before.config &&& ~~~timerWritableMask) ||| new }
  let timer :=
    if timer.is32Mode then
      { timer with comparator := timer.comparator &&& u32Max, period := timer.period &&& u32Max }
    else
      timer
  if timer.armed then { timer with deadline := timer.comparatorDeadline mainCounter } else timer

def writeTimerConfig (legacy : Bool) (mainCounter : U64) (idx : Nat) (value writeMask : U64)
    (before : HpetTimer) : HpetTimer × List GsiEvent :=
  let timer := configure mainCounter value writeMask before
  let (timer, evs) := redirect before timer (before.gsi legacy idx) (timer.gsi legacy idx)
  (if ¬timer.isPeriodic then { timer with period := 0 } else timer, evs)

def writeTimerComparator (mainCounter value writeMask : U64) (timer : HpetTimer) : HpetTimer :=
  let effectiveWriteMask := if timer.is32Mode then writeMask &&& u32Max else writeMask
  let newValue := merge timer.comparator value effectiveWriteMask
  let timer :=
    if timer.isPeriodic then
      if timer.config &&& timerCfgSetval ≠ 0 ∨ timer.period = 0 then
        let deadline := mainCounter + newValue
        { timer with
          period := newValue
          deadline := deadline
          comparator := timer.comparatorOf deadline
          config := timer.config &&& ~~~timerCfgSetval }
      else
        let timer := { timer with comparator := newValue }
        { timer with deadline := timer.comparatorDeadline mainCounter }
    else
      let timer := { timer with period := 0, comparator := newValue }
      { timer with deadline := timer.comparatorDeadline mainCounter }
  { timer with armed := true }

def writeTimer (self : Hpet) (idx reg : Nat) (value writeMask : U64) : Hpet × List GsiEvent :=
  match self.timers[idx]? with
  | none => (self, [])
  | some timer =>
    if reg = regTimerConfig then
      let (timer, evs) := writeTimerConfig self.legacy self.mainCounter idx value writeMask timer
      ({ self with timers := self.timers.set idx timer }, evs)
    else if reg = regTimerComparator then
      let timer := writeTimerComparator self.mainCounter value writeMask timer
      ({ self with timers := self.timers.set idx timer }, [])
    else if reg = regTimerFsbRoute then
      let timer := { timer with fsbRoute := merge timer.fsbRoute value writeMask }
      ({ self with timers := self.timers.set idx timer }, [])
    else
      (self, [])

def writeAlignedU64 (self : Hpet) (now : U64) (offset : Nat) (value writeMask : U64) :
    Hpet × List GsiEvent :=
  if offset = regGeneralConfig then self.writeGeneralConfig now value writeMask
  else if offset = regGeneralIntStatus then self.writeGeneralIntStatus value writeMask
  else if offset = regMainCounter then (self.writeMainCounter now value writeMask, [])
  else if offset ≥ regTimer0Base then
    self.writeTimer ((offset - regTimer0Base) / timerStride)
      ((offset - regTimer0Base) % timerStride) value writeMask
  else (self, [])

def accessMask (size : Nat) : U64 :=
  if size = 8 then U64.max else (1#64 <<< (size * 8)) - 1

def mmioRead (self : Hpet) (now : U64) (offset size : Nat) : Hpet × List GsiEvent × U64 :=
  let (self, evs) := self.poll now
  let aligned := offset - offset % 8
  let shift := offset % 8 * 8
  (self, evs, (self.readAlignedU64 aligned >>> shift) &&& accessMask size)

def mmioWrite (self : Hpet) (now : U64) (offset size : Nat) (value : U64) : Hpet × List GsiEvent :=
  let (self, evs) := self.poll now
  let aligned := offset - offset % 8
  let shift := offset % 8 * 8
  let (self, evs') := self.writeAlignedU64 now aligned ((value &&& accessMask size) <<< shift)
    (accessMask size <<< shift)
  let (self, evs'') := self.serviceTimers
  (self, evs ++ evs' ++ evs'')

end Hpet

-- The accesses that `mmio_read` and `mmio_write` do not refuse with a panic.
def ValidAccess (offset size : Nat) : Prop :=
  (size = 1 ∨ size = 2 ∨ size = 4 ∨ size = 8) ∧ offset < hpetMmioSize ∧ (size = 8 → offset % 8 = 0)

instance decidableValidAccess (offset size : Nat) : Decidable (ValidAccess offset size) :=
  inferInstanceAs (Decidable (_ ∧ _ ∧ _))

inductive Op
  | read (now : U64) (offset size : Nat)
  | write (now : U64) (offset size : Nat) (value : U64)
  | poll (now : U64)
  deriving DecidableEq, Repr

structure Output where
  events : List GsiEvent
  value : Option U64
  deriving DecidableEq, Repr

def Hpet.step (self : Hpet) : Op → Hpet × Output
  | .read now offset size =>
    if ValidAccess offset size then
      let (self, evs, value) := self.mmioRead now offset size
      (self, ⟨evs, some value⟩)
    else
      (self, ⟨[], none⟩)
  | .write now offset size value =>
    if ValidAccess offset size then
      let (self, evs) := self.mmioWrite now offset size value
      (self, ⟨evs, none⟩)
    else
      (self, ⟨[], none⟩)
  | .poll now =>
    let (self, evs) := self.poll now
    (self, ⟨evs, none⟩)

end Aero.Devices
