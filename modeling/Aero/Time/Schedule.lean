import Aero.Lib.Firing
import Aero.Time.Timers

namespace Aero.Time

inductive Arming
  | oneShot (deadlineNs : Nat)
  | periodic (firstDeadlineNs periodNs : Nat)
  | periodicRational (baseNs firstIndex periodNumNs periodDenom : Nat)
  deriving DecidableEq

namespace Arming

def time : Arming → Nat → Nat
  | .oneShot deadlineNs, _                                        => deadlineNs
  | .periodic firstDeadlineNs periodNs, k                         => firstDeadlineNs + k * periodNs
  | .periodicRational baseNs firstIndex periodNumNs periodDenom, k =>
    baseNs + (firstIndex + k) * periodNumNs / periodDenom

def has : Arming → Nat → Bool
  | .oneShot _, k => k = 0
  | _, _          => true

def remaining (a : Arming) (n : Nat) : Option (Arming × Nat) :=
  if a.has n then some (a, n) else none

def state : Arming → Nat → TimerKindState
  | .oneShot deadlineNs, _                => .oneShot deadlineNs
  | .periodic firstDeadlineNs periodNs, n => .periodic (firstDeadlineNs + n * periodNs) periodNs
  | .periodicRational baseNs firstIndex periodNumNs periodDenom, n =>
    .periodicRational baseNs (firstIndex + n) periodNumNs periodDenom

def next (a : Arming) (n : Nat) : Except Panic (Option (Arming × Nat)) :=
  match a with
  | .oneShot _ => .ok none
  | .periodic .. =>
    if a.time (n + 1) < 2 ^ 64 then .ok (some (a, n + 1))
    else .error (.overflow "timer deadline overflowed u64::MAX")
  | .periodicRational baseNs firstIndex periodNumNs periodDenom =>
    if firstIndex + n + 1 < 2 ^ 64 then
      (rationalDeadlineNs baseNs periodNumNs periodDenom (firstIndex + n + 1)).map fun _ =>
        some (a, n + 1)
    else
      .error (.overflow "periodic timer index overflowed u64::MAX")

theorem time_mono (a : Arming) (n : Nat) : a.time n ≤ a.time (n + 1) := by
  cases a
  case oneShot => exact le_rfl
  case periodic => exact Nat.add_le_add_left (Nat.mul_le_mul_right _ (Nat.le_succ n)) _
  case periodicRational =>
    exact Nat.add_le_add_left (Nat.div_le_div_right (Nat.mul_le_mul_right _ (by omega))) _

theorem next_eq_ok {p : Arming × Nat} (h : a.next n = .ok (some p)) : p = (a, n + 1) := by
  cases a <;> rw [next] at h
  case oneShot => cases h
  case periodic =>
    split at h
    · cases h
      rfl
    · cases h
  case periodicRational base index num denom =>
    split at h
    · cases hd : rationalDeadlineNs base num denom (index + n + 1) <;> rw [hd] at h <;> cases h
      rfl
    · cases h

end Arming

def source : Firing.Source (Arming × Nat) Panic where
  deadline p := p.1.time p.2
  next p := p.1.next p.2
  deadline_le_next h := by
    rw [Arming.next_eq_ok h]
    exact Arming.time_mono ..

inductive Op
  | allocTimer
  | armOneShot (timerId deadlineNs : U64)
  | armPeriodic (timerId firstDeadlineNs periodNs : U64)
  | armPeriodicRationalNs (timerId firstDeadlineNs periodNumNs periodDenom : U64)
  | armPeriodicRationalFromBaseNs (timerId baseNs firstIndex periodNumNs periodDenom : U64)
  | armPeriodicRationalFromNowNs (timerId nowNs periodNumNs periodDenom : U64)
  | disarm (timerId : U64)
  | advanceTo (nowNs : U64)

inductive Result
  | timer (timerId : Nat)
  | done (result : Except TimerError Unit)
  | events (events : List TimerEvent)

namespace TimerScheduler

-- A failed operation leaves the scheduler as it is.
def settle (s : TimerScheduler) : Except TimerError TimerScheduler → Result × TimerScheduler
  | .ok s'   => (.done (.ok ()), s')
  | .error e => (.done (.error e), s)

def step (s : TimerScheduler) : Op → Except Panic (Result × TimerScheduler)
  | .allocTimer =>
    s.allocTimer.map fun r => (.timer r.1, r.2)
  | .armOneShot timerId deadlineNs =>
    (s.armOneShot timerId.toNat deadlineNs.toNat).map s.settle
  | .armPeriodic timerId firstDeadlineNs periodNs =>
    (s.armPeriodic timerId.toNat firstDeadlineNs.toNat periodNs.toNat).map s.settle
  | .armPeriodicRationalNs timerId firstDeadlineNs periodNumNs periodDenom =>
    (s.armPeriodicRationalNs timerId.toNat firstDeadlineNs.toNat periodNumNs.toNat
      periodDenom.toNat).map s.settle
  | .armPeriodicRationalFromBaseNs timerId baseNs firstIndex periodNumNs periodDenom =>
    (s.armPeriodicRationalFromBaseNs timerId.toNat baseNs.toNat firstIndex.toNat periodNumNs.toNat
      periodDenom.toNat).map s.settle
  | .armPeriodicRationalFromNowNs timerId nowNs periodNumNs periodDenom =>
    (s.armPeriodicRationalFromNowNs timerId.toNat nowNs.toNat periodNumNs.toNat
      periodDenom.toNat).map s.settle
  | .disarm timerId => .ok (s.settle (s.disarm timerId.toNat))
  | .advanceTo nowNs => (s.advanceTo nowNs.toNat).map fun r => (.events r.1, r.2)

def run (s : TimerScheduler) : List Op → Except Panic (List Result × TimerScheduler)
  | []        => .ok ([], s)
  | op :: ops => do
    let (result, s) ← s.step op
    let (results, s) ← s.run ops
    .ok (result :: results, s)

end TimerScheduler

def Op.arming : Op → Option (Nat × Except TimerError Arming)
  | .armOneShot timerId deadlineNs => some (timerId.toNat, .ok (.oneShot deadlineNs.toNat))
  | .armPeriodic timerId firstDeadlineNs periodNs =>
    some (timerId.toNat,
      if periodNs.toNat = 0 then .error .invalidPeriodNs
      else .ok (.periodic firstDeadlineNs.toNat periodNs.toNat))
  | .armPeriodicRationalNs timerId firstDeadlineNs periodNumNs periodDenom =>
    some (timerId.toNat, rational firstDeadlineNs.toNat 0 periodNumNs.toNat periodDenom.toNat)
  | .armPeriodicRationalFromBaseNs timerId baseNs firstIndex periodNumNs periodDenom =>
    some (timerId.toNat,
      rational baseNs.toNat firstIndex.toNat periodNumNs.toNat periodDenom.toNat)
  | .armPeriodicRationalFromNowNs timerId nowNs periodNumNs periodDenom =>
    some (timerId.toNat, rational nowNs.toNat 1 periodNumNs.toNat periodDenom.toNat)
  | _ => none
where
  rational (baseNs firstIndex periodNumNs periodDenom : Nat) : Except TimerError Arming :=
    if periodNumNs = 0 ∨ periodDenom = 0 then .error .invalidRationalPeriod
    else .ok (.periodicRational baseNs firstIndex periodNumNs periodDenom)

-- What the timers are armed for, after a number of calls.
@[ext]
structure Schedule where
  calls : Nat
  nextTimerId : Nat
  known : Nat → Bool
  armed : Nat → Option (Arming × Nat)

namespace Schedule

def new : Schedule := ⟨0, 0, fun _ => false, fun _ => none⟩

def call (σ : Schedule) : Schedule :=
  { σ with calls := σ.calls + 1 }

-- What an operation does to the timers, told from its result.
def record (σ : Schedule) (op : Op) : Result → Schedule
  | .timer timerId   => { σ with nextTimerId := timerId, known := Function.update σ.known timerId true }
  | .done (.error _) => σ
  | .done (.ok ())   =>
    match op, op.arming with
    | _, some (timerId, .ok arming) =>
      { σ with armed := Function.update σ.armed timerId (some (arming, 0)) }
    | .disarm timerId, _ => { σ with armed := Function.update σ.armed timerId.toNat none }
    | _, _ => σ
  | .events events =>
    { σ with armed := fun timerId => (σ.armed timerId).bind fun p =>
      p.1.remaining (p.2 + (events.filter (·.timerId = timerId)).length) }

def observe (σ : Schedule) (op : Op) (result : Result) : Schedule :=
  σ.call.record op result

def observeAll : Schedule → List Op → List Result → Schedule
  | σ, op :: ops, result :: results => (σ.observe op result).observeAll ops results
  | σ, _, _                         => σ

structure Due (σ : Schedule) (nowNs : Nat) (events : List TimerEvent) : Prop where
  sorted : events.Pairwise fun a b =>
    a.deadlineNs < b.deadlineNs ∨ (a.deadlineNs = b.deadlineNs ∧ a.timerId ≤ b.timerId)
  none_of_disarmed : ∀ event ∈ events, (σ.armed event.timerId).isSome
  firings : ∀ timerId a n, σ.armed timerId = some (a, n) → ∃ count,
    (events.filter (·.timerId = timerId)).map (·.deadlineNs) = (List.range' n count).map a.time ∧
    ∀ k, n ≤ k → (k < n + count ↔ a.has k ∧ a.time k ≤ nowNs)

end Schedule

end Aero.Time
