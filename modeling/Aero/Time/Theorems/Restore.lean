import Aero.IoSnapshot.Theorems.Tlv
import Aero.Time.Theorems.Run
import Aero.Time.VirtualTime

namespace Aero.Time

open TimerScheduler List

variable {s : TimerScheduler} {σ : Schedule}

structure Saved (state : TimerSchedulerState) (σ : Schedule) : Prop where
  nextTimerId : state.nextTimerId = σ.nextTimerId
  nodup : (state.timers.map (·.timerId)).Nodup
  known : ∀ id, id ∈ state.timers.map (·.timerId) ↔ σ.known id
  kind : ∀ timer ∈ state.timers,
    timer.kind = (σ.armed timer.timerId).map fun p => p.1.state p.2

theorem Refines.saved (h : Refines s σ) : Saved s.saveState σ := by
  have hperm : s.saveState.timers.Perm (s.timers.entries.map fun e => ⟨e.1, e.2.kind⟩) :=
    mergeSort_perm ..
  have hids : (s.saveState.timers.map (·.timerId)).Perm s.timers.keys := by
    have hmap := hperm.map (·.timerId)
    rwa [map_map] at hmap
  refine ⟨h.nextTimerId, ?nodup, ?known, ?kind⟩
  case nodup => exact hids.nodup_iff.mpr s.timers.nodupKeys
  case known =>
    intro id
    rw [hids.mem_iff, ← h.known, AList.lookup_isSome]
    rfl
  case kind =>
    intro timer htimer
    obtain ⟨⟨id, slot⟩, hmem, rfl⟩ := mem_map.mp (hperm.mem_iff.mp htimer)
    exact h.kind id slot (AList.mem_lookup_iff.mpr hmem)

def Schedule.restored (σ : Schedule) (ids : List Nat) (τ : Schedule) : Schedule :=
  ids.foldl (fun τ id => τ.set id (σ.armed id)) τ

theorem restoreTimer_eq (h : timer.timerId ≤ s.nextTimerId) :
    s.restoreTimer timer = match timer.kind with
      | none => .ok (s.setSlot timer.timerId ⟨0, none⟩)
      | some kind => kind.deadlineNs.map fun d =>
        (s.setSlot timer.timerId ⟨0, some kind⟩).push ⟨d, timer.timerId, 0⟩ := by
  rw [restoreTimer, Nat.max_eq_left h]
  cases timer.kind
  case none => rfl
  case some kind => cases hd : kind.deadlineNs <;> simp only [hd] <;> rfl

theorem Refines.restoreTimer (h : Refines s σ) (ht : Refines t τ)
    (hnew : τ.known timer.timerId = false) (hnext : τ.nextTimerId = σ.nextTimerId)
    (hcalls : τ.calls = σ.calls) (hknown : σ.known timer.timerId)
    (hkind : timer.kind = (σ.armed timer.timerId).map fun p => p.1.state p.2) :
    ∃ t', t.restoreTimer timer = .ok t' ∧
      Refines t' (τ.set timer.timerId (σ.armed timer.timerId)) := by
  have hid := hnext ▸ h.known_le _ hknown
  have hg : ∀ e ∈ t.queue, e.timerId = timer.timerId → e.generation.toNat < (0 : U64).toNat :=
    fun e he heq => absurd heq (ht.not_mem_of_not_known hnew he)
  rw [restoreTimer_eq (ht.nextTimerId ▸ hid), hkind]
  cases hp : σ.armed timer.timerId
  case none => exact ⟨_, rfl, ht.clear hid (Nat.zero_le _) hg⟩
  case some p =>
    obtain ⟨a, n⟩ := p
    obtain ⟨ha, hn⟩ := h.armed_fits _ a n hp
    have hd := Arming.deadlineNs_state hn
    obtain ⟨slot, hslot⟩ := h.lookup_of_known hknown
    have hgen := h.generation _ slot hslot
    rw [hp, ← hcalls] at hgen
    refine ⟨_, ?_, ht.arm hid (Nat.le_trans (Nat.le_add_left ..) hgen) hg ha hn⟩
    simp only [Option.map_some, hd]
    rfl

theorem Refines.restoreTimers (h : Refines s σ) {timers : List TimerState} (ht : Refines t τ)
    (hnext : τ.nextTimerId = σ.nextTimerId) (hcalls : τ.calls = σ.calls) (hnodup : (timers.map (·.timerId)).Nodup)
    (hnew : ∀ timer ∈ timers, τ.known timer.timerId = false)
    (hknown : ∀ timer ∈ timers, σ.known timer.timerId)
    (hkind : ∀ timer ∈ timers, timer.kind = (σ.armed timer.timerId).map fun p => p.1.state p.2) :
    ∃ t', timers.foldlM TimerScheduler.restoreTimer t = .ok t' ∧
      Refines t' (σ.restored (timers.map (·.timerId)) τ) := by
  induction timers generalizing t τ
  case nil => exact ⟨t, rfl, ht⟩
  case cons timer timers ih =>
    rw [map_cons, nodup_cons] at hnodup
    rw [forall_mem_cons] at hnew hknown hkind
    obtain ⟨t₁, hstep, ht₁⟩ := h.restoreTimer ht hnew.1 hnext hcalls hknown.1 hkind.1
    have hnew₁ : ∀ timer' ∈ timers, (τ.set timer.timerId (σ.armed timer.timerId)).known
        timer'.timerId = false := by
      intro timer' hmem
      have hne : timer'.timerId ≠ timer.timerId := fun heq =>
        hnodup.1 (heq ▸ mem_map_of_mem hmem)
      exact (Function.update_of_ne hne ..).trans (hnew.2 timer' hmem)
    obtain ⟨t', hrest, ht'⟩ := ih ht₁ hnext hcalls hnodup.2 hnew₁ hknown.2 hkind.2
    refine ⟨t', ?_, ht'⟩
    rw [foldlM_cons, hstep]
    exact hrest

theorem Schedule.restored_eq (ids : List Nat) (τ : Schedule) :
    σ.restored ids τ = ⟨τ.calls, τ.nextTimerId, fun id => decide (id ∈ ids) || τ.known id,
      fun id => if id ∈ ids then σ.armed id else τ.armed id⟩ := by
  induction ids generalizing τ
  case nil => simp [restored]
  case cons id ids ih =>
    refine (ih _).trans ?_
    simp only [set, mk.injEq, true_and]
    refine ⟨funext fun j => ?_, funext fun j => ?_⟩
    · by_cases hj : j = id
      · simp [hj]
      · simp [hj]
    · by_cases hj : j = id
      · subst hj
        simp
      · simp [hj]

theorem Refines.restoreState (h : Refines s σ) (hstate : Saved state σ) :
    ∃ t, TimerScheduler.restoreState state = .ok t ∧ Refines t σ := by
  have hnew : Refines .new { Schedule.new with calls := σ.calls } :=
    { new with calls_lt := h.calls_lt, generation := nofun }
  have hempty : Refines ⟨state.nextTimerId, ∅, []⟩
      { Schedule.new with calls := σ.calls, nextTimerId := σ.nextTimerId } :=
    hstate.nextTimerId ▸ hnew.setNextTimerId (Nat.zero_le _)
      (hstate.nextTimerId ▸ h.nextTimerId_lt)
  have hknown : ∀ timer ∈ state.timers, σ.known timer.timerId :=
    fun timer hmem => (hstate.known _).mp (mem_map_of_mem hmem)
  obtain ⟨t, ht, href⟩ := h.restoreTimers hempty rfl rfl hstate.nodup (fun _ _ => rfl) hknown hstate.kind
  refine ⟨t, ht, ?_⟩
  have hσ : σ.restored (state.timers.map (·.timerId))
      { Schedule.new with calls := σ.calls, nextTimerId := σ.nextTimerId } = σ := by
    rw [Schedule.restored_eq]
    refine Schedule.ext rfl rfl (funext fun id => ?_) (funext fun id => ?_)
    · simp [Schedule.new, hstate.known]
    · simp only [hstate.known]
      split_ifs with hk
      · rfl
      · exact (h.armed_of_not_known (Bool.eq_false_of_not_eq_true hk)).symm
  rwa [hσ] at href

end Aero.Time
