import Aero.Timers.TimerQueue
import Mathlib.Algebra.Order.Floor.Div

namespace Aero.Timers

def u64Max : Nat := 2 ^ 64 - 1

def saturatingAdd (a b : Nat) : Nat :=
  min (a + b) u64Max

def nsPerSec : Nat := 1_000_000_000

def ticksFromNs (freqHz guestNs : Nat) : Nat :=
  guestNs * freqHz / nsPerSec % 2 ^ 64

def nsFromTicksCeil (freqHz ticks : Nat) : Nat :=
  if freqHz = 0 then u64Max else min (ticks * nsPerSec ⌈/⌉ freqHz) u64Max

structure Tsc where
  freqHz : Nat
  baseGuestNs : Nat
  baseTsc : Nat

namespace Tsc

def read (s : Tsc) (guestNowNs : Nat) : Nat :=
  let deltaNs := guestNowNs - s.baseGuestNs
  (s.baseTsc + deltaNs * s.freqHz / nsPerSec % 2 ^ 64) % 2 ^ 64

def guestNsForTsc (s : Tsc) (targetTsc : Nat) : Option Nat :=
  if targetTsc < s.baseTsc then none
  else if s.freqHz = 0 then none
  else
    let deltaNs := (targetTsc - s.baseTsc) * nsPerSec ⌈/⌉ s.freqHz
    some (saturatingAdd s.baseGuestNs (min deltaNs u64Max))

end Tsc

inductive DeviceTimer
  | pitChannel0
  | hpetTimer0
  | localApicTimer
  deriving DecidableEq, Repr

structure HpetTimerConfig where
  enabled : Bool

structure HpetTimer where
  cfg : HpetTimerConfig
  comparator : Nat
  timerId : Option Nat

structure Hpet where
  freqHz : Nat
  enabled : Bool
  counterBase : Nat
  counterAnchorNs : Nat
  timer0 : HpetTimer

namespace Hpet

def counterTicks (s : Hpet) (guestNowNs : Nat) : Nat :=
  if !s.enabled then s.counterBase
  else (s.counterBase + ticksFromNs s.freqHz (guestNowNs - s.counterAnchorNs)) % 2 ^ 64

def setTimerId (s : Hpet) (timerId : Option Nat) : Hpet :=
  { s with timer0 := { s.timer0 with timerId } }

def deadlineNs (s : Hpet) (guestNowNs : Nat) : Nat :=
  let target := s.timer0.comparator
  if target ≤ s.counterTicks guestNowNs ∨ target < s.counterBase then guestNowNs
  else saturatingAdd s.counterAnchorNs (nsFromTicksCeil s.freqHz (target - s.counterBase))

def rescheduleTimer0 (s : Hpet) (guestNowNs : Nat) (queue : TimerQueue DeviceTimer) :
    Hpet × TimerQueue DeviceTimer :=
  let queue := queue.cancelTaken s.timer0.timerId
  if !s.enabled || !s.timer0.cfg.enabled then (s.setTimerId none, queue)
  else
    let (queue, id) := queue.schedule (s.deadlineNs guestNowNs) .hpetTimer0
    (s.setTimerId (some id), queue)

end Hpet

end Aero.Timers
