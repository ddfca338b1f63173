import Aero.Time.Theorems.VirtualTime

namespace Aero.Time

open TimerScheduler

-- Everything that is due, and what follows it, is in the range of the machine.
def Schedule.InRange (σ : Schedule) (nowNs : Nat) : Prop :=
  ∀ id a n k, σ.armed id = some (a, n) → n ≤ k → a.has k → a.time k ≤ nowNs → a.has (k + 1) →
    a.Fits (k + 1)

theorem Schedule.InRange.mono {σ : Schedule} (h : σ.InRange t₂) (hle : t₁ ≤ t₂) : σ.InRange t₁ :=
  fun id a n k hp hk hhas htime => h id a n k hp hk hhas (htime.trans hle)

-- The two schedulers cannot be told apart by so many calls.
def TimerScheduler.SameAnswers (s t : TimerScheduler) (calls : Nat) : Prop :=
  ∀ ops, ops.length < calls → (s.run ops).map (·.1) = (t.run ops).map (·.1)

namespace Refines

theorem sameAnswers (h : Refines s σ) (ht : Refines t σ) : s.SameAnswers t (2 ^ 63 - σ.calls) :=
  fun ops hlt => h.run_congr ht ops (by omega)

theorem advanceTo_ok (h : Refines s σ) (hrange : σ.InRange now) :
    ∃ events armed s', Firing.Advances source now σ.armed (.ok (events, armed)) ∧
      s.advanceTo now = .ok (events.map fun p => ⟨p.1, p.2⟩, s') ∧ Refines s' { σ with armed } := by
  obtain ⟨r, hadv, hsim⟩ := h.advanceTo now
  generalize hc : s.advanceTo now = c at hsim
  cases hsim
  case error e =>
    obtain ⟨-, id, a, n, k, hp, hk, hhas, htime, hhas', hnot⟩ := h.overflow_of_advances hadv
    exact absurd (hrange id a n k hp hk hhas htime hhas') hnot
  case ok s' events armed hs => exact ⟨events, armed, s', hadv, rfl, hs⟩

theorem advanceTo_due (h : Refines s σ) (hrange : σ.InRange now) :
    ∃ events s', s.advanceTo now = .ok (events, s') ∧ σ.Due now events := by
  obtain ⟨events, armed, s', hadv, hadvance, -⟩ := h.advanceTo_ok hrange
  exact ⟨_, s', hadvance, h.due_of_advances hadv⟩

theorem advanceTo_trans (h : Refines s σ) (hle : t₁ ≤ t₂) (hrange : σ.InRange t₂) :
    ∃ events₁ s₁ events₂ s₂ t, s.advanceTo t₁ = .ok (events₁, s₁) ∧
      s₁.advanceTo t₂ = .ok (events₂, s₂) ∧ s.advanceTo t₂ = .ok (events₁ ++ events₂, t) ∧
      t.SameAnswers s₂ (2 ^ 63 - σ.calls) := by
  obtain ⟨events₁, armed₁, s₁, hadv₁, heq₁, hs₁⟩ := h.advanceTo_ok (hrange.mono hle)
  obtain ⟨events, armed, t, hadv, heq, ht⟩ := h.advanceTo_ok hrange
  obtain ⟨r, hadv₂, hsim⟩ := hs₁.advanceTo t₂
  have hr := (hadv₁.trans hle hadv₂).unique hadv
  generalize hc : s₁.advanceTo t₂ = c at hsim
  cases hsim
  case error => cases hr
  case ok s₂ events₂ armed₂ hs₂ =>
    cases hr
    rw [List.map_append] at heq
    exact ⟨_, s₁, _, s₂, t, heq₁, hc, heq, ht.sameAnswers hs₂⟩

end Refines

-- The timers that a scheduler has after a run fire as they are armed, and a scheduler that is saved
-- and restored answers as the one that went on. No generation wraps in the calls.
theorem timers_fire_as_armed (ops : List Op) (hcalls : ops.length < 2 ^ 63)
    (hoverflow : ∀ message, new.run ops ≠ .error (.overflow message)) :
    ∃ results s, new.run ops = .ok (results, s) ∧
      (∀ now, (Schedule.new.observeAll ops results).InRange now →
        ∃ events s', s.advanceTo now = .ok (events, s') ∧
          (Schedule.new.observeAll ops results).Due now events) ∧
      (∀ t₁ t₂, t₁ ≤ t₂ → (Schedule.new.observeAll ops results).InRange t₂ →
        ∃ events₁ s₁ events₂ s₂ t, s.advanceTo t₁ = .ok (events₁, s₁) ∧
          s₁.advanceTo t₂ = .ok (events₂, s₂) ∧ s.advanceTo t₂ = .ok (events₁ ++ events₂, t) ∧
          t.SameAnswers s₂ (2 ^ 63 - ops.length)) ∧
      (∃ t, restoreState s.saveState = .ok t ∧ t.SameAnswers s (2 ^ 63 - ops.length)) ∧
      (s.timers.entries.length ≤ maxSnapshotTimers → ∀ nowNs, ∀ v : VirtualTime,
        ∃ bytes t, (⟨nowNs, s⟩ : VirtualTime).saveState = .ok bytes ∧
          v.loadState bytes = .ok (.ok (), ⟨nowNs, t⟩) ∧
            t.SameAnswers s (2 ^ 63 - ops.length)) := by
  have hstart : Schedule.new.calls + ops.length < 2 ^ 63 := by rwa [Schedule.new, Nat.zero_add]
  cases hrun : new.run ops
  case error e =>
    obtain ⟨message, rfl⟩ := Refines.new.run_error hstart hrun
    exact absurd hrun (hoverflow message)
  case ok p =>
    obtain ⟨results, s⟩ := p
    obtain ⟨hs, hcount⟩ := Refines.new.run hstart hrun
    rw [Schedule.new, Nat.zero_add] at hcount
    rw [← hcount]
    refine ⟨results, s, rfl, fun now hrange => hs.advanceTo_due hrange,
      fun t₁ t₂ hle hrange => hs.advanceTo_trans hle hrange, ?_, fun hcount nowNs v => ?_⟩
    · obtain ⟨t, hrestore, ht⟩ := hs.restoreState hs.saved
      exact ⟨t, hrestore, ht.sameAnswers hs⟩
    · obtain ⟨bytes, t, hsave, hload, ht⟩ := hs.loadState hcount nowNs v
      exact ⟨bytes, t, hsave, hload, ht.sameAnswers hs⟩

theorem timers_fire_as_armed_periodic :
    ∃ results s t, new.run
        [.allocTimer, .armPeriodic 1 10 5, .advanceTo 12, .armPeriodic 1 30 7] = .ok (results, s) ∧
      restoreState s.saveState = .ok t ∧ t.SameAnswers s (2 ^ 63 - 4) := by
  have hoverflow : ∀ message, new.run
      [.allocTimer, .armPeriodic 1 10 5, .advanceTo 12, .armPeriodic 1 30 7] ≠
      .error (.overflow message) := by
    intro message h
    cases h
  obtain ⟨results, s, hrun, -, -, ⟨t, hrestore, ht⟩, -⟩ := timers_fire_as_armed _ (by decide) hoverflow
  exact ⟨results, s, t, hrun, hrestore, ht⟩

end Aero.Time
