import Aero.Lib.Except
import Aero.Time.Schedule

namespace Aero.Time

open TimerKindState Nat Arming

theorem checkedAdd_of_lt (h : a + b < 2 ^ 64) : checkedAdd a b message = .ok (a + b) := if_pos h

theorem checkedAdd_eq_ok_iff : checkedAdd a b message = .ok c ↔ a + b < 2 ^ 64 ∧ c = a + b := by
  rw [checkedAdd]
  split_ifs with h
  · rw [Except.ok.injEq]
    exact ⟨fun hc => ⟨h, hc.symm⟩, fun hc => hc.2.symm⟩
  · exact ⟨nofun, fun hc => absurd hc.1 h⟩

theorem rationalDeadlineNs_eq_ok_iff :
    rationalDeadlineNs base num denom index = .ok d ↔
      base + index * num / denom < 2 ^ 64 ∧ d = base + index * num / denom := by
  rw [rationalDeadlineNs]
  split_ifs with h
  · exact checkedAdd_eq_ok_iff
  · exact ⟨nofun, fun hd => absurd hd.1 (by omega)⟩

-- The panics that the source has for numbers beyond `u64`.
def Panic.IsOverflow (p : Panic) : Prop := ∃ message, p = .overflow message

theorem checkedAdd_error (h : checkedAdd a b message = .error e) : e.IsOverflow := by
  rw [checkedAdd] at h
  split_ifs at h
  cases h
  exact ⟨_, rfl⟩

theorem rationalDeadlineNs_error (h : rationalDeadlineNs base num denom index = .error e) :
    e.IsOverflow := by
  rw [rationalDeadlineNs] at h
  split_ifs at h
  · exact checkedAdd_error h
  · cases h
    exact ⟨_, rfl⟩

theorem deadlineNs_error {kind : TimerKindState} (h : kind.deadlineNs = .error e) :
    e.IsOverflow := by
  cases kind
  case oneShot => cases h
  case periodic => cases h
  case periodicRational => exact rationalDeadlineNs_error h

namespace Arming

structure Fits (a : Arming) (n : Nat) : Prop where
  time_lt : a.time n < 2 ^ 64
  has : a.has n
  index_lt : ∀ base first num denom, a = .periodicRational base first num denom →
    first + n < 2 ^ 64

def Proper : Arming → Prop
  | .oneShot deadlineNs                    => deadlineNs < 2 ^ 64
  | .periodic _ periodNs                   => 0 < periodNs ∧ periodNs < 2 ^ 64
  | .periodicRational baseNs _ num denom =>
    baseNs < 2 ^ 64 ∧ 0 < num ∧ num < 2 ^ 64 ∧ 0 < denom ∧ denom < 2 ^ 64

variable {a : Arming}

theorem deadlineNs_state (h : a.Fits n) : (a.state n).deadlineNs = .ok (a.time n) := by
  cases a
  case oneShot => rfl
  case periodic => rfl
  case periodicRational => exact rationalDeadlineNs_eq_ok_iff.mpr ⟨h.time_lt, rfl⟩

theorem remaining_of_fits (h : a.Fits n) : a.remaining n = some (a, n) := if_pos h.has

theorem next_of_fits (h : a.next n = .ok o) (hfits : a.Fits n) :
    o = a.remaining (n + 1) ∧ ∀ p, o = some p → p = (a, n + 1) ∧ a.Fits (n + 1) := by
  cases a
  case oneShot =>
    cases h
    exact ⟨rfl, fun p hp => by cases hp⟩
  case periodic f p =>
    rw [next] at h
    split_ifs at h with hlt
    cases h
    refine ⟨rfl, fun p hp => ?_⟩
    cases hp
    exact ⟨rfl, hlt, rfl, fun _ _ _ _ ha => by cases ha⟩
  case periodicRational base first num denom =>
    rw [next] at h
    split_ifs at h with hlt
    cases hd : rationalDeadlineNs base num denom (first + n + 1) <;> rw [hd] at h <;> cases h
    refine ⟨rfl, fun p hp => ?_⟩
    cases hp
    refine ⟨rfl, (rationalDeadlineNs_eq_ok_iff.mp hd).1, rfl, fun _ _ _ _ ha => ?_⟩
    cases ha
    exact hlt

theorem next_error (h : a.next n = .error e) : e.IsOverflow ∧ a.has (n + 1) ∧ ¬a.Fits (n + 1) := by
  cases a
  case oneShot => cases h
  case periodic f p =>
    rw [next] at h
    split_ifs at h with hlt
    cases h
    exact ⟨⟨_, rfl⟩, rfl, fun hf => hlt hf.time_lt⟩
  case periodicRational base first num denom =>
    rw [next] at h
    split_ifs at h with hlt
    · cases hd : rationalDeadlineNs base num denom (first + n + 1) <;> rw [hd] at h <;> cases h
      refine ⟨rationalDeadlineNs_error hd, rfl, fun hf => ?_⟩
      have hok := rationalDeadlineNs_eq_ok_iff.mpr ⟨hf.time_lt, rfl⟩
      rw [← add_assoc, hd] at hok
      cases hok
    · cases h
      exact ⟨⟨_, rfl⟩, rfl, fun hf => hlt (hf.index_lt _ _ _ _ rfl)⟩

theorem fire_state (h : a.Fits n) :
    (a.state n).fire = (a.next n).map fun o =>
      (a.time n, o.map fun p => (p.1.state p.2, p.1.time p.2)) := by
  cases a
  case oneShot => rfl
  case periodic f p =>
    have heq : f + n * p + p = f + (n + 1) * p := by
      rw [add_assoc, succ_mul]
    by_cases hlt : f + (n + 1) * p < 2 ^ 64
    · have hnext : (periodic f p).next n = .ok (some (.periodic f p, n + 1)) := if_pos hlt
      rw [hnext]
      simp only [state, fire, checkedAdd, heq, if_pos hlt]
      rfl
    · have hnext : (periodic f p).next n = .error _ := if_neg hlt
      rw [hnext]
      simp only [state, fire, checkedAdd, heq, if_neg hlt]
      rfl
  case periodicRational base first num denom =>
    have hnow := rationalDeadlineNs_eq_ok_iff.mpr ⟨h.time_lt, rfl⟩
    by_cases hlt : first + n + 1 < 2 ^ 64
    · simp only [state, fire, next, hnow, checkedAdd, if_pos hlt]
      cases hd : rationalDeadlineNs base num denom (first + n + 1)
      case error => simp [bind, Except.bind, Except.map, hd]
      case ok d =>
        obtain ⟨-, rfl⟩ := rationalDeadlineNs_eq_ok_iff.mp hd
        simp [bind, Except.bind, Except.map, hd, time, ← add_assoc]
    · simp only [state, fire, next, hnow, checkedAdd, if_neg hlt]
      rfl

theorem firingsUntil_lt (ha : a.Proper) (hdue : a.time n ≤ now) :
    ((a.remaining (n + 1)).elim 0 fun p => (p.1.state p.2).firingsUntil now) <
      (a.state n).firingsUntil now := by
  cases a
  case oneShot => exact one_pos
  case periodic f p =>
    have hp := ha.1
    simp only [time] at hdue
    simp only [remaining, has, if_true, Option.elim_some, state, firingsUntil, succ_mul]
    omega
  case periodicRational base first num denom =>
    obtain ⟨-, hnum, -, hdenom, -⟩ := ha
    simp only [time] at hdue
    have hlt : (first + n) * num < (now + 1 - base) * denom := by
      rw [← div_lt_iff_lt_mul hdenom]
      omega
    have hnext : (first + (n + 1)) * num = (first + n) * num + num := by
      rw [← add_assoc, succ_mul]
    simp only [remaining, has, if_true, Option.elim_some, state, firingsUntil]
    omega

theorem monotone_time (a : Arming) : Monotone a.time := monotone_nat_of_le_succ a.time_mono

theorem not_has_of_le (h : ¬a.has n) (hk : n ≤ k) : ¬a.has k := by
  cases a
  case oneShot =>
    simp only [has, decide_eq_true_eq] at h ⊢
    omega
  case periodic => exact absurd rfl h
  case periodicRational => exact absurd rfl h

end Arming

theorem fires_range (h : Firing.Fires source now p ts o) {a : Arming} (hp : p = a.remaining n)
    (hfits : a.has n → a.Fits n) :
    ts = (List.range' n ts.length).map a.time ∧ o = a.remaining (n + ts.length) ∧
      ∀ k, n ≤ k → (k < n + ts.length ↔ a.has k ∧ a.time k ≤ now) := by
  induction h generalizing n
  case stop o hstop =>
    refine ⟨rfl, hp, fun k hk => ⟨fun hlt => absurd hlt (by simpa using hk), fun hdue => ?_⟩⟩
    by_cases hn : a.has n
    · rw [remaining, if_pos hn] at hp
      have hlt : now < a.time n := hstop _ hp
      have hle := a.monotone_time hk
      omega
    · exact absurd hdue.1 (not_has_of_le hn hk)
  case fire q o o' ts hdue hnext _ ih =>
    by_cases hn : a.has n
    case neg =>
      rw [remaining, if_neg hn] at hp
      cases hp
    rw [remaining, if_pos hn, Option.some.injEq] at hp
    subst hp
    obtain ⟨ho, hsome⟩ := next_of_fits hnext (hfits hn)
    have hfits' (hn' : a.has (n + 1)) : a.Fits (n + 1) := by
      rw [remaining, if_pos hn'] at ho
      exact (hsome _ ho).2
    obtain ⟨hts, ho', hk⟩ := ih ho hfits'
    refine ⟨?_, ?_, fun k hnk => ?_⟩
    · rw [List.length_cons, List.range'_succ, List.map_cons, ← hts]
      rfl
    · rw [ho', List.length_cons, add_right_comm, add_assoc]
    · rw [List.length_cons]
      rcases eq_or_lt_of_le hnk with rfl | hlt
      · exact ⟨fun _ => ⟨hn, hdue⟩, fun _ => by omega⟩
      · rw [← hk k hlt]
        omega

end Aero.Time
