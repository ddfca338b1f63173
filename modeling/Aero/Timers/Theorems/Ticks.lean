import Aero.Timers.Devices

namespace Aero.Timers

-- The counter that a clock has at a time, before it is cut to 64 bits.
def ticksAt (base anchorNs freqHz ns : Nat) : Nat :=
  base + (ns - anchorNs) * freqHz / nsPerSec

-- The first time at which the counter has reached the target.
def reachedAt (base anchorNs freqHz target : Nat) : Nat :=
  anchorNs + (target - base) * nsPerSec ⌈/⌉ freqHz

section

variable {base anchorNs freqHz target ns : Nat}

-- Forward the ticks are rounded down, backward the time is rounded up.
theorem le_ticksAt_iff (hf : 0 < freqHz) (htarget : base ≤ target)
    (h : anchorNs ≤ ns ∨ base < target) :
    target ≤ ticksAt base anchorNs freqHz ns ↔ reachedAt base anchorNs freqHz target ≤ ns := by
  have hticks : target - base ≤ (ns - anchorNs) * freqHz / nsPerSec ↔
      (target - base) * nsPerSec ⌈/⌉ freqHz ≤ ns - anchorNs := by
    rw [ceilDiv_le_iff_le_mul hf, Nat.le_div_iff_mul_le (by decide), Nat.mul_comm freqHz]
  -- before the anchor the counter stands still
  have hstill (hns : ns ≤ anchorNs) : (ns - anchorNs) * freqHz / nsPerSec = 0 := by
    rw [Nat.sub_eq_zero_of_le hns, Nat.zero_mul, Nat.zero_div]
  rw [ticksAt, reachedAt]
  omega

theorem ticksAt_mono (h : ns ≤ ns') :
    ticksAt base anchorNs freqHz ns ≤ ticksAt base anchorNs freqHz ns' :=
  Nat.add_le_add_left (Nat.div_le_div_right (Nat.mul_le_mul_right _ (by omega))) _

theorem read_eq_ticksAt (h : ticksAt base anchorNs freqHz ns < 2 ^ 64) :
    (base + (ns - anchorNs) * freqHz / nsPerSec % 2 ^ 64) % 2 ^ 64 =
      ticksAt base anchorNs freqHz ns := by
  rw [Nat.add_mod_mod, ← ticksAt, Nat.mod_eq_of_lt h]

end

theorem Tsc.guestNsForTsc_isLeast {s : Tsc} (hf : 0 < s.freqHz) (htarget : s.baseTsc ≤ target)
    (htime : reachedAt s.baseTsc s.baseGuestNs s.freqHz target < 2 ^ 64)
    (hcount : ticksAt s.baseTsc s.baseGuestNs s.freqHz
      (reachedAt s.baseTsc s.baseGuestNs s.freqHz target) < 2 ^ 64) :
    ∃ ns, s.guestNsForTsc target = some ns ∧
      IsLeast {ns | s.baseGuestNs ≤ ns ∧ target ≤ s.read ns} ns := by
  have hbase : s.baseGuestNs ≤ reachedAt s.baseTsc s.baseGuestNs s.freqHz target :=
    Nat.le_add_right ..
  refine ⟨_, ?_, ⟨hbase, ?_⟩, ?_⟩
  · rw [reachedAt] at htime
    simp only [guestNsForTsc, if_neg htarget.not_gt, if_neg hf.ne', saturatingAdd, u64Max]
    rw [Nat.min_eq_left (by omega), Nat.min_eq_left (by omega), reachedAt]
  · rw [read, read_eq_ticksAt hcount]
    exact (le_ticksAt_iff hf htarget (.inl hbase)).mpr le_rfl
  · rintro ns ⟨hns, hread⟩
    by_contra hlt
    have hle := Nat.le_of_not_le hlt
    rw [read, read_eq_ticksAt ((ticksAt_mono hle).trans_lt hcount)] at hread
    exact hlt ((le_ticksAt_iff hf htarget (.inl hns)).mp hread)

namespace Hpet

variable {s : Hpet}

-- The first time at which the comparator is reached.
def dueNs (s : Hpet) : Nat :=
  reachedAt s.counterBase s.counterAnchorNs s.freqHz s.timer0.comparator

theorem counterTicks_eq (h : s.enabled = true)
    (hcount : ticksAt s.counterBase s.counterAnchorNs s.freqHz ns < 2 ^ 64) :
    s.counterTicks ns = ticksAt s.counterBase s.counterAnchorNs s.freqHz ns := by
  rw [counterTicks, h]
  exact read_eq_ticksAt hcount

theorem deadlineNs_isLeast (hf : 0 < s.freqHz) (he : s.enabled = true) (htime : s.dueNs < 2 ^ 64)
    (hcount : ticksAt s.counterBase s.counterAnchorNs s.freqHz (max now s.dueNs) < 2 ^ 64) :
    IsLeast {ns | now ≤ ns ∧ s.timer0.comparator ≤ s.counterTicks ns} (s.deadlineNs now) := by
  have hread ns (h : ns ≤ max now s.dueNs) :=
    counterTicks_eq he ((ticksAt_mono h).trans_lt hcount)
  rw [deadlineNs]
  split
  case isTrue hreached =>
    refine ⟨⟨le_rfl, ?_⟩, fun ns h => h.1⟩
    rcases hreached with h | h
    · exact h
    · rw [hread now (Nat.le_max_left ..)]
      exact h.le.trans (Nat.le_add_right ..)
  case isFalse hlater =>
    rw [not_or, Nat.not_le, Nat.not_lt, hread now (Nat.le_max_left ..)] at hlater
    obtain ⟨hnow, htarget⟩ := hlater
    have hdue : saturatingAdd s.counterAnchorNs (nsFromTicksCeil s.freqHz
        (s.timer0.comparator - s.counterBase)) = s.dueNs := by
      rw [dueNs, reachedAt] at htime ⊢
      rw [saturatingAdd, nsFromTicksCeil, if_neg hf.ne', u64Max]
      omega
    have hiff ns : s.timer0.comparator ≤
        ticksAt s.counterBase s.counterAnchorNs s.freqHz ns ↔ s.dueNs ≤ ns :=
      le_ticksAt_iff hf htarget (.inr ((Nat.le_add_right ..).trans_lt hnow))
    rw [hdue]
    refine ⟨⟨?_, ?_⟩, ?_⟩
    · have := hiff now
      omega
    · rw [hread _ (Nat.le_max_right ..)]
      exact (hiff _).mpr le_rfl
    · rintro ns ⟨-, h⟩
      by_contra hlt
      rw [hread ns (by omega)] at h
      exact hlt ((hiff ns).mp h)

end Hpet

-- Neither the TSC nor the HPET wakes the guest too early, or later than needed. A value below the
-- base of the TSC has no time.
theorem deadlines_exact :
    (∀ (s : Tsc) (target : Nat), 0 < s.freqHz →
      (target < s.baseTsc → s.guestNsForTsc target = none) ∧
      (s.baseTsc ≤ target →
        reachedAt s.baseTsc s.baseGuestNs s.freqHz target < 2 ^ 64 →
        ticksAt s.baseTsc s.baseGuestNs s.freqHz
          (reachedAt s.baseTsc s.baseGuestNs s.freqHz target) < 2 ^ 64 →
        ∃ ns, s.guestNsForTsc target = some ns ∧
          IsLeast {ns | s.baseGuestNs ≤ ns ∧ target ≤ s.read ns} ns)) ∧
    (∀ (s : Hpet) (now : Nat) (queue : TimerQueue DeviceTimer), 0 < s.freqHz → s.enabled = true →
      s.timer0.cfg.enabled = true → s.dueNs < 2 ^ 64 →
      ticksAt s.counterBase s.counterAnchorNs s.freqHz (max now s.dueNs) < 2 ^ 64 →
      ∃ id deadlineNs, (s.rescheduleTimer0 now queue).1.timer0.timerId = some id ∧
        ⟨id, deadlineNs, .hpetTimer0⟩ ∈ (s.rescheduleTimer0 now queue).2.heap ∧
        IsLeast {ns | now ≤ ns ∧ s.timer0.comparator ≤ s.counterTicks ns} deadlineNs) := by
  refine ⟨fun s target hf => ⟨fun hlt => if_pos hlt, Tsc.guestNsForTsc_isLeast hf⟩,
    fun s now queue hf he hcfg htime hcount => ?_⟩
  refine ⟨(queue.cancelTaken s.timer0.timerId).nextId, _, ?_, ?_,
    Hpet.deadlineNs_isLeast hf he htime hcount⟩
  · rw [Hpet.rescheduleTimer0, he, hcfg]
    rfl
  · rw [Hpet.rescheduleTimer0, he, hcfg]
    exact (List.mem_orderedInsert ..).mpr (.inl rfl)

-- A clock of 3 GHz and a counter of 3 Hz: neither divides the nanoseconds.
theorem deadlines_exact_three :
    (∃ ns, (Tsc.mk 3_000_000_000 7 5).guestNsForTsc 15 = some ns ∧
      IsLeast {ns | 7 ≤ ns ∧ 15 ≤ (Tsc.mk 3_000_000_000 7 5).read ns} ns) ∧
    (Tsc.mk 3_000_000_000 7 5).guestNsForTsc 3 = none ∧
    ∃ id deadlineNs,
      ((Hpet.mk 3 true 0 0 ⟨⟨true⟩, 1, none⟩).rescheduleTimer0 0 .new).1.timer0.timerId = some id ∧
      ⟨id, deadlineNs, .hpetTimer0⟩ ∈
        ((Hpet.mk 3 true 0 0 ⟨⟨true⟩, 1, none⟩).rescheduleTimer0 0 .new).2.heap ∧
      IsLeast {ns | 0 ≤ ns ∧ 1 ≤ (Hpet.mk 3 true 0 0 ⟨⟨true⟩, 1, none⟩).counterTicks ns} deadlineNs :=
  ⟨(deadlines_exact.1 _ _ (by decide)).2 (by decide) (by decide) (by decide),
    (deadlines_exact.1 _ _ (by decide)).1 (by decide),
    deadlines_exact.2 _ _ _ (by decide) rfl rfl (by decide) (by decide)⟩

-- At its base the TSC already reads more than the target, and nothing wraps.
theorem guestNsForTsc_below_base :
    (Tsc.mk 1_000_000_000 7 5).guestNsForTsc 3 = none ∧
    IsLeast {ns | 7 ≤ ns ∧ 3 ≤ (Tsc.mk 1_000_000_000 7 5).read ns} 7 :=
  ⟨rfl, ⟨le_rfl, by decide⟩, fun _ h => h.1⟩

end Aero.Timers
