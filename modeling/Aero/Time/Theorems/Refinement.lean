import Aero.Time.Theorems.Arming

namespace Aero.Time

open List Function Option

-- The scheduler is in a state of the schedule. The entries of the queue that count are those with
-- the generation of their timer.
structure Refines (s : TimerScheduler) (σ : Schedule) : Prop where
  nextTimerId : s.nextTimerId = σ.nextTimerId
  nextTimerId_lt : σ.nextTimerId < 2 ^ 64
  known : ∀ id, (s.timers.lookup id).isSome = σ.known id
  known_le : ∀ id, σ.known id → id ≤ σ.nextTimerId
  kind : ∀ id slot, s.timers.lookup id = some slot →
    slot.kind = (σ.armed id).map fun p => p.1.state p.2
  armed_known : ∀ id p, σ.armed id = some p → σ.known id
  armed_fits : ∀ id a n, σ.armed id = some (a, n) → a.Proper ∧ a.Fits n
  calls_lt : σ.calls < 2 ^ 63
  -- a call arms or disarms a timer, and an armed timer may be disarmed when it fires
  generation : ∀ id slot, s.timers.lookup id = some slot →
    slot.generation.toNat + (σ.armed id).isSome.toNat ≤ 2 * σ.calls
  queue : ∀ e ∈ s.queue, ∃ slot, s.timers.lookup e.timerId = some slot ∧
    e.generation.toNat ≤ slot.generation.toNat ∧ (e.generation = slot.generation →
      ∃ a n, σ.armed e.timerId = some (a, n) ∧ e.deadlineNs = a.time n)
  live : ∀ id a n slot, σ.armed id = some (a, n) → s.timers.lookup id = some slot →
    s.queue.count ⟨a.time n, id, slot.generation⟩ = 1

def Schedule.set (σ : Schedule) (id : Nat) (o : Option (Arming × Nat)) : Schedule :=
  { σ with known := Function.update σ.known id true, armed := Function.update σ.armed id o }

theorem ne_of_toNat_lt {g g' : U64} (h : g.toNat < g'.toNat) : g ≠ g' :=
  fun heq => h.ne (congrArg BitVec.toNat heq)

namespace Refines

open TimerScheduler

variable {id : Nat} {g : U64}

theorem new : Refines .new .new where
  nextTimerId := rfl
  nextTimerId_lt := by decide
  known _ := rfl
  known_le := nofun
  kind := nofun
  armed_known := nofun
  armed_fits := nofun
  calls_lt := by decide
  generation := nofun
  queue := nofun
  live := nofun

section

variable (h : Refines s σ)
include h

theorem lookup_of_known (hk : σ.known id) : ∃ slot, s.timers.lookup id = some slot := by
  rw [← h.known, isSome_iff_exists] at hk
  exact hk

theorem lookup_of_not_known (hk : σ.known id = false) : s.timers.lookup id = none := by
  rw [← h.known, isSome_eq_false_iff] at hk
  exact isNone_iff_eq_none.mp hk

theorem next_generation (hslot : s.timers.lookup id = some slot) :
    (slot.generation + 1).toNat = slot.generation.toNat + 1 := by
  have hcalls := h.calls_lt
  have hle := Nat.le_trans (Nat.le_add_right ..) (h.generation id slot hslot)
  bv_omega

theorem fresh_generation (hslot : s.timers.lookup id = some slot) :
    (slot.generation + 1).toNat + 1 ≤ 2 * σ.call.calls ∧
      ∀ e ∈ s.queue, e.timerId = id → e.generation.toNat < (slot.generation + 1).toNat := by
  rw [h.next_generation hslot]
  refine ⟨Nat.add_le_add_right (Nat.le_trans (Nat.le_add_right ..) (h.generation id slot hslot)) 2,
    fun e he hid => ?_⟩
  obtain ⟨slot', hslot', hle, -⟩ := h.queue e he
  rw [hid, hslot] at hslot'
  cases hslot'
  exact Nat.lt_succ_of_le hle

theorem not_mem_of_not_known (hk : σ.known id = false) (he : e ∈ s.queue) : e.timerId ≠ id := by
  obtain ⟨slot, hslot, -⟩ := h.queue e he
  rintro rfl
  rw [h.lookup_of_not_known hk] at hslot
  cases hslot

theorem set (hid : id ≤ σ.nextTimerId) {queue : List QueueEntry}
    (hkind : slot.kind = o.map fun p => p.1.state p.2)
    (hfits : ∀ a n, o = some (a, n) → a.Proper ∧ a.Fits n)
    (hgen : slot.generation.toNat + o.isSome.toNat ≤ 2 * σ.calls)
    (hother : ∀ e : QueueEntry, e.timerId ≠ id → queue.count e = s.queue.count e)
    (hown : ∀ e ∈ queue, e.timerId = id → e.generation.toNat ≤ slot.generation.toNat ∧
      (e.generation = slot.generation → ∃ a n, o = some (a, n) ∧ e.deadlineNs = a.time n))
    (hlive : ∀ a n, o = some (a, n) → queue.count ⟨a.time n, id, slot.generation⟩ = 1) :
    Refines { s with timers := s.timers.insert id slot, queue } (σ.set id o) where
  __ := h
  known j := by
    by_cases hj : j = id
    · subst hj
      simp [Schedule.set]
    · simpa [Schedule.set, hj] using h.known j
  known_le j hk := by
    by_cases hj : j = id
    · exact hj ▸ hid
    · exact h.known_le j (by simpa [Schedule.set, hj] using hk)
  kind j slot' hslot := by
    by_cases hj : j = id
    · subst hj
      rw [AList.lookup_insert, some.injEq] at hslot
      simp [← hslot, Schedule.set, hkind]
    · rw [AList.lookup_insert_ne hj] at hslot
      simpa [Schedule.set, hj] using h.kind j slot' hslot
  armed_known j p hp := by
    by_cases hj : j = id
    · simp [Schedule.set, hj]
    · simp only [Schedule.set, update_of_ne hj] at hp ⊢
      exact h.armed_known j p hp
  armed_fits j a n hp := by
    by_cases hj : j = id
    · exact hfits a n (by simpa [Schedule.set, hj] using hp)
    · simp only [Schedule.set, update_of_ne hj] at hp
      exact h.armed_fits j a n hp
  generation j slot' hslot := by
    by_cases hj : j = id
    · subst hj
      rw [AList.lookup_insert, some.injEq] at hslot
      simpa [← hslot, Schedule.set] using hgen
    · rw [AList.lookup_insert_ne hj] at hslot
      simpa [Schedule.set, hj] using h.generation j slot' hslot
  queue e he := by
    by_cases hj : e.timerId = id
    · obtain ⟨hle, harmed⟩ := hown e he hj
      refine ⟨slot, by rw [hj, AList.lookup_insert], hle, fun hg => ?_⟩
      simpa [Schedule.set, hj] using harmed hg
    · have he' : e ∈ s.queue := by
        rw [← count_pos_iff] at he ⊢
        rwa [← hother e hj]
      simpa [Schedule.set, hj] using h.queue e he'
  live j a n slot' hp hslot := by
    by_cases hj : j = id
    · subst hj
      rw [AList.lookup_insert, some.injEq] at hslot
      rw [← hslot]
      exact hlive a n (by simpa [Schedule.set] using hp)
    · rw [AList.lookup_insert_ne hj] at hslot
      simp only [Schedule.set, update_of_ne hj] at hp
      exact (hother _ hj).trans (h.live j a n slot' hp hslot)

theorem clear (hid : id ≤ σ.nextTimerId) (hgen : g.toNat ≤ 2 * σ.calls)
    (hg : ∀ e ∈ s.queue, e.timerId = id → e.generation.toNat < g.toNat) :
    Refines (s.setSlot id ⟨g, none⟩) (σ.set id none) :=
  h.set hid rfl nofun hgen (fun _ _ => rfl)
    (fun e he hj => ⟨(hg e he hj).le, fun heq => absurd heq (ne_of_toNat_lt (hg e he hj))⟩) nofun

theorem arm (hid : id ≤ σ.nextTimerId) (hgen : g.toNat + 1 ≤ 2 * σ.calls)
    (hg : ∀ e ∈ s.queue, e.timerId = id → e.generation.toNat < g.toNat) (ha : a.Proper) (hn : a.Fits n) :
    Refines ((s.setSlot id ⟨g, some (a.state n)⟩).push ⟨a.time n, id, g⟩)
      (σ.set id (some (a, n))) := by
  refine h.set hid rfl ?fits hgen ?other ?own ?live
  case fits =>
    rintro _ _ ⟨⟩
    exact ⟨ha, hn⟩
  case other =>
    intro e he
    exact count_cons_of_ne (fun heq => he (congrArg QueueEntry.timerId heq).symm)
  case own =>
    intro e he hj
    rcases mem_cons.mp he with rfl | he
    · exact ⟨le_rfl, fun _ => ⟨a, n, rfl, rfl⟩⟩
    · exact ⟨(hg e he hj).le, fun heq => absurd heq (ne_of_toNat_lt (hg e he hj))⟩
  case live =>
    rintro _ _ ⟨⟩
    have hnot : (⟨a.time n, id, g⟩ : QueueEntry) ∉ s.queue :=
      fun hmem => (hg _ hmem rfl).ne rfl
    rw [count_cons_self]
    exact congrArg (· + 1) (count_eq_zero.mpr hnot)

theorem pop
    (he : ∀ a n slot, σ.armed e.timerId = some (a, n) → s.timers.lookup e.timerId = some slot →
      e.generation ≠ slot.generation) : Refines (s.pop e) σ where
  __ := h
  queue f hf := h.queue f (mem_of_mem_erase hf)
  live id a n slot hp hslot := by
    have hne : (⟨a.time n, id, slot.generation⟩ : QueueEntry) ≠ e := by
      rintro rfl
      exact he a n slot hp hslot rfl
    rw [TimerScheduler.pop, count_erase_of_ne hne]
    exact h.live id a n slot hp hslot

end

section Fired

section

variable (h : Refines s σ) (hp : σ.armed id = some (a, n))
include h hp

-- The entry of an armed timer is the only one of its generation.
theorem generation_lt_of_mem_erase (hslot : s.timers.lookup id = some slot) :
    ∀ f ∈ s.queue.erase ⟨a.time n, id, slot.generation⟩, f.timerId = id →
      f.generation.toNat < slot.generation.toNat := by
  intro f hf hid
  obtain ⟨slot', hslot', hle, harmed⟩ := h.queue f (mem_of_mem_erase hf)
  rw [hid, hslot] at hslot'
  cases hslot'
  refine lt_of_le_of_ne hle fun hg => ?_
  have hg := BitVec.eq_of_toNat_eq hg
  obtain ⟨b, m, hp', hd⟩ := harmed hg
  rw [hid, hp] at hp'
  cases hp'
  have heq : f = ⟨a.time n, id, slot.generation⟩ := by
    rw [← hd, ← hid, ← hg]
  have hcount := h.live id a n slot hp hslot
  rw [heq, ← count_pos_iff, count_erase_self] at hf
  omega

theorem id_le : id ≤ σ.nextTimerId :=
  h.known_le id (h.armed_known id _ hp)

theorem exhaust (hslot : s.timers.lookup id = some slot) :
    Refines ((s.pop ⟨a.time n, id, slot.generation⟩).setSlot id ⟨slot.generation + 1, none⟩)
      (σ.set id none) := by
  have hnext := h.next_generation hslot
  have hgen := h.generation id slot hslot
  rw [hp] at hgen
  refine h.set (h.id_le hp) rfl nofun (hnext.trans_le hgen) ?other ?own nofun
  case other =>
    intro e he
    exact count_erase_of_ne fun heq => he (congrArg QueueEntry.timerId heq)
  case own =>
    intro e he hj
    have hlt := h.generation_lt_of_mem_erase hp hslot e he hj
    have hlt' := (Nat.lt_succ_of_lt hlt).trans_eq hnext.symm
    exact ⟨hlt'.le, fun heq => absurd heq (ne_of_toNat_lt hlt')⟩

theorem rearm (hslot : s.timers.lookup id = some slot) (hn : a.Fits (n + 1)) :
    Refines (((s.pop ⟨a.time n, id, slot.generation⟩).setSlot id
      ⟨slot.generation, some (a.state (n + 1))⟩).push ⟨a.time (n + 1), id, slot.generation⟩)
      (σ.set id (some (a, n + 1))) := by
  have hlt := h.generation_lt_of_mem_erase hp hslot
  have hgen := h.generation id slot hslot
  rw [hp] at hgen
  refine h.set (h.id_le hp) rfl ?fits hgen ?other ?own ?live
  case fits =>
    rintro _ _ ⟨⟩
    exact ⟨(h.armed_fits id a n hp).1, hn⟩
  case other =>
    intro e he
    have hne (b : Arming) m : e ≠ ⟨b.time m, id, slot.generation⟩ :=
      fun heq => he (congrArg QueueEntry.timerId heq)
    exact (count_cons_of_ne (hne a (n + 1)).symm).trans (count_erase_of_ne (hne a n))
  case own =>
    intro e he hj
    rcases mem_cons.mp he with rfl | he
    · exact ⟨le_rfl, fun _ => ⟨a, n + 1, rfl, rfl⟩⟩
    · exact ⟨(hlt e he hj).le, fun heq => absurd heq (ne_of_toNat_lt (hlt e he hj))⟩
  case live =>
    rintro _ _ ⟨⟩
    have hnot : (⟨a.time (n + 1), id, slot.generation⟩ : QueueEntry) ∉
        s.queue.erase ⟨a.time n, id, slot.generation⟩ := fun hmem => (hlt _ hmem rfl).ne rfl
    rw [count_cons_self]
    exact congrArg (· + 1) (count_eq_zero.mpr hnot)

end

end Fired

end Refines

end Aero.Time
