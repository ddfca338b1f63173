import Aero.Types
import Mathlib.Data.List.AList
import Mathlib.Data.List.MinMax
import Mathlib.Data.Prod.Lex

namespace Aero.Time

-- `unfinished` is not a panic of the source: a loop has not come to its end.
inductive Panic
  | overflow (message : String)
  | timerIdCollision (timerId : Nat)
  | unfinished
  deriving DecidableEq, Repr

def checkedAdd (a b : Nat) (message : String) : Except Panic Nat :=
  if a + b < 2 ^ 64 then .ok (a + b) else .error (.overflow message)

def rationalDeadlineNs (baseDeadlineNs periodNumNs periodDenom index : Nat) : Except Panic Nat :=
  let offsetNs := index * periodNumNs / periodDenom
  if offsetNs < 2 ^ 64 then checkedAdd baseDeadlineNs offsetNs "timer deadline overflowed u64::MAX"
  else .error (.overflow "timer rational offset exceeded u64::MAX")

structure TimerEvent where
  timerId : Nat
  deadlineNs : Nat
  deriving DecidableEq, Repr

inductive TimerError
  | unknownTimer (timerId : Nat)
  | invalidPeriodNs
  | invalidRationalPeriod
  deriving DecidableEq, Repr

inductive TimerKindState
  | oneShot (deadlineNs : Nat)
  | periodic (nextDeadlineNs periodNs : Nat)
  | periodicRational (baseDeadlineNs nextIndex periodNumNs periodDenom : Nat)
  deriving DecidableEq, Repr

structure TimerSlot where
  generation : U64
  kind : Option TimerKindState
  deriving DecidableEq

structure QueueEntry where
  deadlineNs : Nat
  timerId : Nat
  generation : U64
  deriving DecidableEq

def QueueEntry.key (e : QueueEntry) : ℕ ×ₗ ℕ ×ₗ ℕ :=
  toLex (e.deadlineNs, toLex (e.timerId, e.generation.toNat))

namespace TimerKindState

-- The deadline of the firing, and the state with its deadline if the timer stays armed.
def fire : TimerKindState → Except Panic (Nat × Option (TimerKindState × Nat))
  | .oneShot deadlineNs => .ok (deadlineNs, none)
  | .periodic nextDeadlineNs periodNs => do
    let newDeadline ← checkedAdd nextDeadlineNs periodNs "timer deadline overflowed u64::MAX"
    .ok (nextDeadlineNs, some (.periodic newDeadline periodNs, newDeadline))
  | .periodicRational base nextIndex num denom => do
    let expectedDeadlineNs ← rationalDeadlineNs base num denom nextIndex
    let newIndex ← checkedAdd nextIndex 1 "periodic timer index overflowed u64::MAX"
    let newDeadline ← rationalDeadlineNs base num denom newIndex
    .ok (expectedDeadlineNs, some (.periodicRational base newIndex num denom, newDeadline))

def deadlineNs : TimerKindState → Except Panic Nat
  | .oneShot deadlineNs                          => .ok deadlineNs
  | .periodic nextDeadlineNs _                   => .ok nextDeadlineNs
  | .periodicRational base nextIndex num denom => rationalDeadlineNs base num denom nextIndex

def firingsUntil (now : Nat) : TimerKindState → Nat
  | .oneShot _                                 => 1
  | .periodic nextDeadlineNs _                 => now + 1 - nextDeadlineNs
  | .periodicRational base nextIndex num denom => (now + 1 - base) * denom - nextIndex * num

end TimerKindState

structure TimerState where
  timerId : Nat
  kind : Option TimerKindState
  deriving DecidableEq

structure TimerSchedulerState where
  nextTimerId : Nat
  timers : List TimerState
  deriving DecidableEq

-- The queue is a heap; only its smallest entry is ever seen.
structure TimerScheduler where
  nextTimerId : Nat
  timers : AList fun _ : Nat => TimerSlot
  queue : List QueueEntry

namespace TimerScheduler

def new : TimerScheduler := ⟨0, ∅, []⟩

def peek (s : TimerScheduler) : Option QueueEntry :=
  s.queue.argmin QueueEntry.key

def pop (s : TimerScheduler) (entry : QueueEntry) : TimerScheduler :=
  { s with queue := s.queue.erase entry }

def push (s : TimerScheduler) (entry : QueueEntry) : TimerScheduler :=
  { s with queue := entry :: s.queue }

def setSlot (s : TimerScheduler) (timerId : Nat) (slot : TimerSlot) : TimerScheduler :=
  { s with timers := s.timers.insert timerId slot }

def allocTimer (s : TimerScheduler) : Except Panic (Nat × TimerScheduler) := do
  let id ← checkedAdd s.nextTimerId 1 "timer id overflowed u64::MAX"
  if (s.timers.lookup id).isSome then .error (.timerIdCollision id)
  else .ok (id, { s with nextTimerId := id }.setSlot id ⟨0, none⟩)

-- What the functions that arm a timer have in common. The deadline is computed for a known timer.
def arm (s : TimerScheduler) (timerId : Nat) (kind : TimerKindState) :
    Except Panic (Except TimerError TimerScheduler) :=
  match s.timers.lookup timerId with
  | none => .ok (.error (.unknownTimer timerId))
  | some slot => do
    let deadlineNs ← kind.deadlineNs
    .ok (.ok ((s.setSlot timerId ⟨slot.generation + 1, some kind⟩).push
      ⟨deadlineNs, timerId, slot.generation + 1⟩))

def armOneShot (s : TimerScheduler) (timerId deadlineNs : Nat) :
    Except Panic (Except TimerError TimerScheduler) :=
  s.arm timerId (.oneShot deadlineNs)

def armPeriodic (s : TimerScheduler) (timerId firstDeadlineNs periodNs : Nat) :
    Except Panic (Except TimerError TimerScheduler) :=
  if periodNs = 0 then .ok (.error .invalidPeriodNs)
  else s.arm timerId (.periodic firstDeadlineNs periodNs)

def armPeriodicRationalFromBaseNs (s : TimerScheduler)
    (timerId baseNs firstIndex periodNumNs periodDenom : Nat) :
    Except Panic (Except TimerError TimerScheduler) :=
  if periodNumNs = 0 ∨ periodDenom = 0 then .ok (.error .invalidRationalPeriod)
  else s.arm timerId (.periodicRational baseNs firstIndex periodNumNs periodDenom)

def armPeriodicRationalNs (s : TimerScheduler)
    (timerId firstDeadlineNs periodNumNs periodDenom : Nat) :
    Except Panic (Except TimerError TimerScheduler) :=
  s.armPeriodicRationalFromBaseNs timerId firstDeadlineNs 0 periodNumNs periodDenom

def armPeriodicRationalFromNowNs (s : TimerScheduler) (timerId nowNs periodNumNs periodDenom : Nat) :
    Except Panic (Except TimerError TimerScheduler) :=
  s.armPeriodicRationalFromBaseNs timerId nowNs 1 periodNumNs periodDenom

def disarm (s : TimerScheduler) (timerId : Nat) : Except TimerError TimerScheduler :=
  match s.timers.lookup timerId with
  | none      => .error (.unknownTimer timerId)
  | some slot => .ok (s.setSlot timerId ⟨slot.generation + 1, none⟩)

-- An entry that has been popped. Without an event the entry is stale.
def dispatch (s : TimerScheduler) (entry : QueueEntry) :
    Except Panic (Option TimerEvent × TimerScheduler) :=
  match s.timers.lookup entry.timerId with
  | none => .ok (none, s)
  | some slot =>
    if slot.generation ≠ entry.generation then .ok (none, s)
    else
      match slot.kind with
      | none => .ok (none, s)
      | some kind => do
        let (deadlineNs, rearmed) ← kind.fire
        let event : TimerEvent := ⟨entry.timerId, deadlineNs⟩
        match rearmed with
        | none => .ok (some event, s.setSlot entry.timerId ⟨slot.generation + 1, none⟩)
        | some (newKind, newDeadline) =>
          .ok (some event, (s.setSlot entry.timerId ⟨slot.generation, some newKind⟩).push
            ⟨newDeadline, entry.timerId, slot.generation⟩)

def advanceLoop (nowNs : Nat) : Nat → TimerScheduler → Except Panic (List TimerEvent × TimerScheduler)
  | 0,        _ => .error .unfinished
  | fuel + 1, s =>
    match s.peek with
    | none       => .ok ([], s)
    | some entry =>
      if entry.deadlineNs > nowNs then .ok ([], s)
      else do
        let (event, s) ← (s.pop entry).dispatch entry
        let (events, s) ← advanceLoop nowNs fuel s
        .ok (event.toList ++ events, s)

def rounds (s : TimerScheduler) (nowNs : Nat) (entry : QueueEntry) : Nat :=
  1 + ((s.timers.lookup entry.timerId).bind TimerSlot.kind).elim 0 (·.firingsUntil nowNs)

def advanceTo (s : TimerScheduler) (nowNs : Nat) : Except Panic (List TimerEvent × TimerScheduler) :=
  advanceLoop nowNs ((s.queue.map (s.rounds nowNs)).sum + 1) s

def saveState (s : TimerScheduler) : TimerSchedulerState where
  nextTimerId := s.nextTimerId
  timers := (s.timers.entries.map fun e => ⟨e.1, e.2.kind⟩).mergeSort
    fun a b => a.timerId ≤ b.timerId

def restoreTimer (s : TimerScheduler) (timer : TimerState) : Except Panic TimerScheduler :=
  let s := { s with nextTimerId := max s.nextTimerId timer.timerId }
  match timer.kind with
  | none => .ok (s.setSlot timer.timerId ⟨0, none⟩)
  | some kind => do
    let deadlineNs ← kind.deadlineNs
    .ok ((s.push ⟨deadlineNs, timer.timerId, 0⟩).setSlot timer.timerId ⟨0, some kind⟩)

def restoreState (state : TimerSchedulerState) : Except Panic TimerScheduler :=
  state.timers.foldlM restoreTimer ⟨state.nextTimerId, ∅, []⟩

end TimerScheduler

end Aero.Time
