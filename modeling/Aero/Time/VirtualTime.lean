import Aero.IoSnapshot.Tlv
import Aero.Time.Timers

namespace Aero.Time

open LeBytes IoSnapshot

def tagNowNs : U16 := 1
def tagTimerScheduler : U16 := 2

def timerKindNone : U8 := 0
def timerKindOneShot : U8 := 1
def timerKindPeriodic : U8 := 2
def timerKindPeriodicRational : U8 := 3

def maxSnapshotTimers : Nat := 4096

def encodeTimer (timer : TimerState) : List U8 :=
  toLe 8 timer.timerId ++
    match timer.kind with
    | none => [timerKindNone]
    | some (.oneShot deadlineNs) => timerKindOneShot :: toLe 8 deadlineNs
    | some (.periodic nextDeadlineNs periodNs) =>
      timerKindPeriodic :: (toLe 8 nextDeadlineNs ++ toLe 8 periodNs)
    | some (.periodicRational baseDeadlineNs nextIndex periodNumNs periodDenom) =>
      timerKindPeriodicRational ::
        (toLe 8 baseDeadlineNs ++ toLe 8 nextIndex ++ toLe 8 periodNumNs ++ toLe 8 periodDenom)

def encodeTimerSchedulerState (state : TimerSchedulerState) : Except Panic (List U8) :=
  if state.timers.length < 2 ^ 32 then
    .ok (toLe 8 state.nextTimerId ++ toLe 4 state.timers.length ++ state.timers.flatMap encodeTimer)
  else
    .error (.overflow "timer count exceeded u32::MAX")

def decodeTimerKind (tag : U8) : Decode (Option TimerKindState) :=
  if tag = timerKindNone then pure none
  else if tag = timerKindOneShot then do
    let deadlineNs ← decodeU64
    pure (some (.oneShot deadlineNs.toNat))
  else if tag = timerKindPeriodic then do
    let nextDeadlineNs ← decodeU64
    let periodNs ← decodeU64
    if periodNs = 0 then throw (.invalidFieldEncoding "period_ns")
    else pure (some (.periodic nextDeadlineNs.toNat periodNs.toNat))
  else if tag = timerKindPeriodicRational then do
    let baseDeadlineNs ← decodeU64
    let nextIndex ← decodeU64
    let periodNumNs ← decodeU64
    let periodDenom ← decodeU64
    if periodNumNs = 0 ∨ periodDenom = 0 then throw (.invalidFieldEncoding "period_rational")
    else
      pure (some (.periodicRational baseDeadlineNs.toNat nextIndex.toNat periodNumNs.toNat
        periodDenom.toNat))
  else
    throw (.invalidFieldEncoding "timer_kind")

def decodeTimer : Decode TimerState := do
  let timerId ← decodeU64
  let tag ← decodeU8
  let kind ← decodeTimerKind tag
  pure ⟨timerId.toNat, kind⟩

def decodeTimers : Nat → Decode (List TimerState)
  | 0         => pure []
  | count + 1 => do
    let timer ← decodeTimer
    let timers ← decodeTimers count
    pure (timer :: timers)

def decodeState : Decode TimerSchedulerState := do
  let nextTimerId ← decodeU64
  let timerCount ← decodeU32
  if timerCount.toNat > maxSnapshotTimers then throw (.invalidFieldEncoding "timer_count")
  else do
    let timers ← decodeTimers timerCount.toNat
    decodeFinish
    pure ⟨nextTimerId.toNat, timers⟩

def decodeTimerSchedulerState (bytes : List U8) : Except SnapshotError TimerSchedulerState :=
  (decodeState.run bytes).map (·.1)

structure VirtualTime where
  nowNs : U64
  timers : TimerScheduler

namespace VirtualTime

def new : VirtualTime := ⟨0, .new⟩

def deviceId : List U8 := [0x56, 0x54, 0x49, 0x4d]
def deviceVersion : SnapshotVersion := ⟨1, 0⟩

def saveState (v : VirtualTime) : Except Panic (List U8) := do
  let timers ← encodeTimerSchedulerState v.timers.saveState
  .ok (((SnapshotWriter.new deviceId deviceVersion).fieldU64 tagNowNs v.nowNs).fieldBytes
    tagTimerScheduler timers).finish

-- The state after a load that fails is the one that has been reached.
def loadState (v : VirtualTime) (bytes : List U8) :
    Except Panic (Except SnapshotError Unit × VirtualTime) :=
  match do
    let r ← SnapshotReader.parse bytes deviceId
    r.ensureDeviceMajor deviceVersion.major
    pure r with
  | .error e => .ok (.error e, v)
  | .ok r =>
    match r.u64 tagNowNs with
    | .error e   => .ok (.error e, new)
    | .ok nowNs =>
      let v := { new with nowNs := nowNs.getD 0 }
      match r.bytes tagTimerScheduler with
      | none     => .ok (.ok (), v)
      | some buf =>
        match decodeTimerSchedulerState buf with
        | .error e  => .ok (.error e, v)
        | .ok state => do
          let timers ← TimerScheduler.restoreState state
          .ok (.ok (), { v with timers })

end VirtualTime

end Aero.Time
