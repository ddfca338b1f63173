import Aero.Interrupts.LocalApic

namespace Aero.Interrupts.LapicState

variable {s : LapicState} {t d : Nat}

def periodNs (s : LapicState) : Nat :=
  s.initialCount.toNat * s.timerTickNs

def firedIrr (s : LapicState) : Bitmap :=
  if s.enabled && !s.timerMasked then s.irr.set s.timerVector else s.irr

-- The state behind a deadline, with the next one.
def fired (s : LapicState) (next : Option Nat) : LapicState :=
  { s with irr := s.firedIrr, nextTimerDeadlineNs := next }

def nextDeadline (s : LapicState) (d now : Nat) : Option Nat :=
  match s.timerMode with
  | .oneShot  => none
  | .periodic => some (d + ((now - d) / s.periodNs + 1) * s.periodNs)

theorem periodNs_pos (h : s.initialCount ≠ 0) : 0 < s.periodNs := by
  have htick : 0 < s.timerTickNs := by
    rw [timerTickNs, timerDivisor]
    split <;> decide
  exact Nat.mul_pos (Nat.pos_of_ne_zero fun hz => h (BitVec.eq_of_toNat_eq hz)) htick

theorem pollTimer_of_none (h : s.nextTimerDeadlineNs = none) : s.pollTimer now = s := by
  rw [pollTimer, h]

theorem pollTimer_of_zero (hd : s.nextTimerDeadlineNs = some d) (h : s.initialCount = 0) :
    s.pollTimer now = { s with nextTimerDeadlineNs := none } := by
  simp [pollTimer, hd, h]

theorem pollTimer_of_lt (hd : s.nextTimerDeadlineNs = some d) (h : s.initialCount ≠ 0)
    (hlt : now < d) : s.pollTimer now = s := by
  simp only [pollTimer, hd, h, hlt, if_true, if_false]

theorem fire_eq : (if s.enabled && !s.timerMasked then s.injectFixedInterruptInner s.timerVector
    else s) = { s with irr := s.firedIrr } := by
  rw [firedIrr]
  split
  case isTrue h =>
    rw [injectFixedInterruptInner, if_pos (Bool.and_eq_true_iff.mp h).1]
  case isFalse => rfl

theorem pollTimer_of_le (hd : s.nextTimerDeadlineNs = some d) (h : s.initialCount ≠ 0)
    (hle : d ≤ now) (hsat : now + s.periodNs < 2 ^ 64) :
    s.pollTimer now = s.fired (s.nextDeadline d now) := by
  have hpos := periodNs_pos h
  have hperiod : saturatingMul s.initialCount.toNat s.timerTickNs = s.periodNs :=
    Nat.min_eq_left (by rw [← periodNs]; omega)
  have hmul : ((now - d) / s.periodNs + 1) * s.periodNs ≤ now - d + s.periodNs := by
    rw [Nat.add_mul, Nat.one_mul]
    exact Nat.add_le_add_right (Nat.div_mul_le_self ..) _
  have hnext : saturatingAdd d (saturatingMul ((now - d) / s.periodNs + 1) s.periodNs) =
      d + ((now - d) / s.periodNs + 1) * s.periodNs := by
    rw [saturatingMul, Nat.min_eq_left (by omega), saturatingAdd, Nat.min_eq_left (by omega)]
  simp only [pollTimer, hd, h, Nat.not_lt.mpr hle, hperiod, hpos.ne', fire_eq, hnext]
  rw [nextDeadline]
  change (match s.timerMode with | .oneShot => _ | .periodic => _) = _
  cases s.timerMode <;> rfl

theorem fired_fired : (s.fired next).fired next' = s.fired next' := by
  have hirr : (s.fired next).firedIrr = s.firedIrr := by
    change (if s.enabled && !s.timerMasked then s.firedIrr.set s.timerVector else s.firedIrr) = _
    split
    case isTrue h =>
      rw [firedIrr, if_pos h, Bitmap.set, Bitmap.set, BitVec.or_assoc, BitVec.or_self]
    case isFalse => rfl
  rw [fired, hirr]
  rfl

-- Catching up with the periods in two steps is catching up at once.
theorem catch_up {p x y : Nat} (hp : 0 < p) (hxy : x ≤ y) :
    if y < (x / p + 1) * p then x / p = y / p
    else (x / p + 1) * p + ((y - (x / p + 1) * p) / p + 1) * p = (y / p + 1) * p := by
  split
  case isTrue h =>
    have hlt := (Nat.div_lt_iff_lt_mul hp).mpr h
    have hle := Nat.div_le_div_right (c := p) hxy
    omega
  case isFalse h =>
    have hle := (Nat.le_div_iff_mul_le hp).mpr (Nat.not_lt.mp h)
    rw [Nat.mul_comm (x / p + 1), Nat.sub_mul_div, Nat.mul_comm p, ← Nat.add_mul]
    congr 1
    omega

theorem pollTimer_pollTimer (hle : t ≤ now) (hsat : now + s.periodNs < 2 ^ 64) :
    (s.pollTimer t).pollTimer now = s.pollTimer now := by
  cases hd : s.nextTimerDeadlineNs
  case none => rw [show s.pollTimer t = s from pollTimer_of_none hd]
  case some d =>
    by_cases hcount : s.initialCount = 0
    case pos =>
      rw [pollTimer_of_zero hd hcount, pollTimer_of_zero hd hcount]
      exact pollTimer_of_none rfl
    case neg =>
      by_cases hdue : t < d
      case pos => rw [pollTimer_of_lt hd hcount hdue]
      case neg =>
        rw [Nat.not_lt] at hdue
        rw [pollTimer_of_le hd hcount hdue (by omega),
          pollTimer_of_le hd hcount (hdue.trans hle) hsat, nextDeadline, nextDeadline]
        cases hmode : s.timerMode
        case oneShot => exact pollTimer_of_none rfl
        case periodic =>
          have hcatch := catch_up (periodNs_pos hcount) (show t - d ≤ now - d by omega)
          split at hcatch
          case isTrue hlt =>
            rw [← hcatch]
            exact pollTimer_of_lt rfl hcount (by omega)
          case isFalse hge =>
            have hpoll := pollTimer_of_le (s := s.fired _) rfl hcount
              (show d + ((t - d) / s.periodNs + 1) * s.periodNs ≤ now by omega) hsat
            rw [hpoll, fired_fired, ← hcatch, ← Nat.add_assoc, Nat.sub_sub]
            simp only [nextDeadline, show (s.fired _).timerMode = _ from hmode]
            rfl

inductive TimerAccess
  | poll (now : Nat)
  | read (now offset len : Nat)

def TimerAccess.now : TimerAccess → Nat
  | poll now     => now
  | read now _ _ => now

def access (s : LapicState) : TimerAccess → LapicState
  | .poll now            => s.pollTimer now
  | .read now offset len => (s.mmioRead now offset len).1

theorem access_cases (s : LapicState) (a : TimerAccess) :
    s.access a = s ∨ s.access a = s.pollTimer a.now := by
  cases a
  case poll => exact .inr rfl
  case read now offset len =>
    rw [access, mmioRead]
    split
    · exact .inl rfl
    · exact .inr rfl

theorem pollTimer_periodNs : (s.pollTimer t).periodNs = s.periodNs := by
  have fire : (if s.enabled && !s.timerMasked then s.injectFixedInterruptInner s.timerVector
      else s).periodNs = s.periodNs := by
    rw [fire_eq]
    rfl
  rw [pollTimer]
  split
  case h_1 => rfl
  case h_2 =>
    split
    · rfl
    split
    · rfl
    dsimp only
    split
    · rfl
    split
    · exact fire
    · exact fire

-- What is seen at a time does not depend on the accesses before it.
theorem timer_ignores_accesses (s : LapicState) (accesses : List TimerAccess) (now : Nat)
    (hle : ∀ a ∈ accesses, a.now ≤ now) (hsat : now + s.periodNs < 2 ^ 64) :
    (accesses.foldl access s).pollTimer now = s.pollTimer now ∧
      ∀ offset len,
        ((accesses.foldl access s).mmioRead now offset len).2 = (s.mmioRead now offset len).2 := by
  have hpoll : (accesses.foldl access s).pollTimer now = s.pollTimer now := by
    induction accesses generalizing s
    case nil => rfl
    case cons a as ih =>
      obtain ⟨ha, has⟩ := List.forall_mem_cons.mp hle
      rw [List.foldl_cons]
      rcases access_cases s a with heq | heq
      · rw [heq, ih s has hsat]
      · rw [heq, ih _ has (by rwa [pollTimer_periodNs]), pollTimer_pollTimer ha hsat]
  refine ⟨hpoll, fun offset len => ?_⟩
  rw [mmioRead, mmioRead, hpoll]
  split <;> rfl

def periodicTimer : LapicState :=
  { new 0 with
    svr := 0x1ff, lvtTimer := 0x20040, initialCount := 10, nextTimerDeadlineNs := some 20 }

theorem periodicTimer_ignores_accesses :
    ([.poll 15, .read 25 Reg.currentCount 4, .poll 47].foldl access periodicTimer).pollTimer 90 =
      periodicTimer.pollTimer 90 :=
  (timer_ignores_accesses periodicTimer _ 90 (by decide) (by decide)).1

end Aero.Interrupts.LapicState
