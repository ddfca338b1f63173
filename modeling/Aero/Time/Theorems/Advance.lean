import Aero.Time.Theorems.Refinement
import Mathlib.Algebra.Order.BigOperators.Group.List
import Mathlib.Algebra.Order.Group.Nat

namespace Aero.Time

open TimerScheduler List Arming

variable {s : TimerScheduler} {σ : Schedule} {now : Nat} {e : QueueEntry}

-- The first entry of the queue.

theorem mem_of_peek (h : s.peek = some e) : e ∈ s.queue := argmin_mem h

theorem peek_le (h : s.peek = some e) (hf : f ∈ s.queue) :
    Firing.Before (e.timerId, e.deadlineNs) (f.timerId, f.deadlineNs) := by
  have hle := le_of_mem_argmin hf h
  simp only [QueueEntry.key, Prod.Lex.toLex_le_toLex] at hle
  rcases hle with hlt | ⟨heq, hlt | ⟨hid, -⟩⟩
  · exact .inl hlt
  · exact .inr ⟨heq, hlt.le⟩
  · exact .inr ⟨heq, hid.le⟩

namespace Refines

theorem mem_queue (h : Refines s σ) {id n : Nat} (hp : σ.armed id = some (a, n)) :
    ∃ slot, s.timers.lookup id = some slot ∧ ⟨a.time n, id, slot.generation⟩ ∈ s.queue := by
  obtain ⟨slot, hslot⟩ := h.lookup_of_known (h.armed_known id _ hp)
  have hcount := h.live id a n slot hp hslot
  exact ⟨slot, hslot, count_pos_iff.mp (by omega)⟩

theorem before_of_peek (h : Refines s σ) (hpeek : s.peek = some e) {id : Nat}
    (hp : σ.armed id = some p) :
    Firing.Before (e.timerId, e.deadlineNs) (id, source.deadline p) := by
  obtain ⟨slot, -, hmem⟩ := h.mem_queue hp
  exact peek_le hpeek hmem

theorem stop_of_peek_none (h : Refines s σ) (hpeek : s.peek = none) :
    ∀ id p, σ.armed id = some p → now < source.deadline p := by
  intro id p hp
  obtain ⟨slot, -, hmem⟩ := h.mem_queue hp
  rw [argmin_eq_none.mp hpeek] at hmem
  cases hmem

theorem stop_of_peek (h : Refines s σ) (hpeek : s.peek = some e) (hlt : now < e.deadlineNs) :
    ∀ id p, σ.armed id = some p → now < source.deadline p := by
  intro id p hp
  exact hlt.trans_le (h.before_of_peek hpeek hp).time_le

end Refines

def TimerScheduler.roundsLeft (s : TimerScheduler) (now : Nat) : Nat :=
  (s.queue.map (s.rounds now)).sum

theorem roundsLeft_erase (he : e ∈ s.queue) :
    s.rounds now e + ((s.queue.erase e).map (s.rounds now)).sum = s.roundsLeft now :=
  sum_map_erase _ he

theorem roundsLeft_pop (he : e ∈ s.queue) : (s.pop e).roundsLeft now < s.roundsLeft now := by
  rw [← roundsLeft_erase he, rounds]
  show ((s.queue.erase e).map (s.rounds now)).sum < _
  omega

theorem rounds_setSlot {d id : Nat} {g : U64} :
    (s.setSlot id slot).rounds now ⟨d, id, g⟩ = 1 + slot.kind.elim 0 (·.firingsUntil now) := by
  rw [rounds, setSlot, AList.lookup_insert, Option.bind_some]

theorem sum_rounds_set {id : Nat} (queue : List QueueEntry) (hslot : s.timers.lookup id = some slot)
    (hlt : (slot'.kind.elim 0 (·.firingsUntil now)) ≤ slot.kind.elim 0 (·.firingsUntil now)) :
    (queue.map ((s.setSlot id slot').rounds now)).sum ≤ (queue.map (s.rounds now)).sum := by
  refine sum_le_sum fun f _ => ?_
  rw [rounds, rounds, setSlot]
  by_cases hj : f.timerId = id
  · rw [hj, AList.lookup_insert, hslot]
    exact Nat.add_le_add_left hlt 1
  · rw [AList.lookup_insert_ne hj]

inductive Dispatches (now : Nat) (s : TimerScheduler) (σ : Schedule) (e : QueueEntry) : Prop
  | stale (h : (s.pop e).dispatch e = .ok (none, s.pop e)) (href : Refines (s.pop e) σ)
    (hrounds : (s.pop e).roundsLeft now < s.roundsLeft now)
  | fail {p : Arming × Nat} {error : Panic} (he : Firing.Earliest source σ.armed e.timerId p)
    (hdue : source.deadline p ≤ now) (hnext : source.next p = .error error)
    (h : (s.pop e).dispatch e = .error error)
  | fire {p : Arming × Nat} {o : Option (Arming × Nat)} {s' : TimerScheduler}
    (he : Firing.Earliest source σ.armed e.timerId p)
    (hdue : source.deadline p ≤ now) (hnext : source.next p = .ok o)
    (h : (s.pop e).dispatch e = .ok (some ⟨e.timerId, source.deadline p⟩, s'))
    (href : Refines s' { σ with armed := Function.update σ.armed e.timerId o })
    (hrounds : s'.roundsLeft now < s.roundsLeft now)

theorem Schedule.set_of_known {id : Nat} (h : σ.known id) :
    σ.set id o = { σ with armed := Function.update σ.armed id o } := by
  rw [set, ← h, Function.update_eq_self]

theorem dispatch_stale (hslot : s.timers.lookup e.timerId = some slot)
    (h : slot.generation ≠ e.generation) : s.dispatch e = .ok (none, s) := by
  rw [dispatch, hslot]
  dsimp only
  rw [if_pos h]

theorem dispatch_armed (hslot : s.timers.lookup e.timerId = some slot)
    (hg : slot.generation = e.generation) (hkind : slot.kind = some kind) :
    s.dispatch e = kind.fire.map fun r => (some ⟨e.timerId, r.1⟩,
      match r.2 with
      | none => s.setSlot e.timerId ⟨slot.generation + 1, none⟩
      | some (newKind, newDeadline) =>
        (s.setSlot e.timerId ⟨slot.generation, some newKind⟩).push
          ⟨newDeadline, e.timerId, slot.generation⟩) := by
  rw [dispatch, hslot]
  dsimp only
  rw [if_neg (not_not.mpr hg), hkind]
  dsimp only
  cases kind.fire
  case error => rfl
  case ok r => rcases r with ⟨d, _ | ⟨newKind, newDeadline⟩⟩ <;> rfl

theorem rounds_lt {id n : Nat} {a : Arming} (hslot : s.timers.lookup id = some slot)
    (hkind : slot.kind = some (a.state n)) (hmem : ⟨a.time n, id, slot.generation⟩ ∈ s.queue)
    (slot' : TimerSlot)
    (hlt : (slot'.kind.elim 0 (·.firingsUntil now)) < (a.state n).firingsUntil now) :
    1 + slot'.kind.elim 0 (·.firingsUntil now) +
      ((s.pop ⟨a.time n, id, slot.generation⟩).setSlot id slot').roundsLeft now <
      s.roundsLeft now := by
  have hle : slot'.kind.elim 0 (·.firingsUntil now) ≤ slot.kind.elim 0 (·.firingsUntil now) := by
    rw [hkind]
    exact hlt.le
  have hsum := sum_rounds_set (s.queue.erase ⟨a.time n, id, slot.generation⟩) hslot hle
  rw [← roundsLeft_erase hmem, rounds, hslot, Option.bind_some, hkind]
  exact add_lt_add_of_lt_of_le (Nat.add_lt_add_left hlt 1) hsum

theorem Refines.dispatches (h : Refines s σ) (hpeek : s.peek = some e) (hdue : e.deadlineNs ≤ now) :
    Dispatches now s σ e := by
  have hmem := mem_of_peek hpeek
  obtain ⟨slot, hslot, hle, harmed⟩ := h.queue e hmem
  by_cases hg : e.generation = slot.generation
  case neg =>
    refine .stale (dispatch_stale hslot (Ne.symm hg)) (h.pop fun a n slot' _ hslot' => ?_)
      (roundsLeft_pop hmem)
    rw [hslot] at hslot'
    cases hslot'
    exact hg
  obtain ⟨a, n, hp, hd⟩ := harmed hg
  obtain ⟨ha, hfits⟩ := h.armed_fits _ a n hp
  obtain ⟨d, id, g⟩ := e
  subst hd hg
  have hknown := h.armed_known id _ hp
  have hkind : slot.kind = some (a.state n) := by
    rw [h.kind id slot hslot, hp]
    rfl
  have hearliest : Firing.Earliest source σ.armed id (a, n) :=
    ⟨hp, fun j q hq => h.before_of_peek hpeek hq⟩
  have hdispatch := dispatch_armed (s := s.pop ⟨a.time n, id, slot.generation⟩)
    hslot rfl hkind
  rw [fire_state hfits] at hdispatch
  cases hnext : a.next n
  case error error =>
    rw [hnext] at hdispatch
    exact .fail hearliest hdue hnext hdispatch
  case ok o =>
    rw [hnext] at hdispatch
    obtain ⟨ho, hsome⟩ := next_of_fits hnext hfits
    have hfirings := ho ▸ firingsUntil_lt ha hdue
    cases o
    case none =>
      refine .fire hearliest hdue hnext hdispatch ?_ ?_
      · exact Schedule.set_of_known hknown ▸ h.exhaust hp hslot
      · have hlt := rounds_lt hslot hkind hmem ⟨slot.generation + 1, none⟩ hfirings
        exact (Nat.le_add_left _ _).trans_lt hlt
    case some p =>
      obtain ⟨rfl, hfits'⟩ := hsome p rfl
      refine .fire hearliest hdue hnext hdispatch ?_ ?_
      · exact Schedule.set_of_known hknown ▸ h.rearm hp hslot hfits'
      · have hlt := rounds_lt hslot hkind hmem
          ⟨slot.generation, some (a.state (n + 1))⟩ hfirings
        rw [← rounds_setSlot (d := a.time (n + 1))] at hlt
        exact hlt

-- How the result of the loop and the firing of everything that is due belong together.
inductive Simulates (σ : Schedule) : Except Panic (List TimerEvent × TimerScheduler) →
    Except Panic (List (Nat × Nat) × (Nat → Option (Arming × Nat))) → Prop
  | error (e : Panic) : Simulates σ (.error e) (.error e)
  | ok {s : TimerScheduler} (events : List (Nat × Nat)) {armed : Nat → Option (Arming × Nat)}
    (h : Refines s { σ with armed }) :
    Simulates σ (.ok (events.map fun p => ⟨p.1, p.2⟩, s)) (.ok (events, armed))

-- By induction on the fuel, of which every round leaves enough.
theorem Refines.advanceLoop (h : Refines s σ) (hfuel : s.roundsLeft now < fuel) :
    ∃ r, Firing.Advances source now σ.armed r ∧ Simulates σ (advanceLoop now fuel s) r := by
  induction fuel generalizing s σ
  case zero => omega
  case succ fuel ih =>
    rw [advanceLoop]
    cases hpeek : s.peek
    case none => exact ⟨_, .stop (h.stop_of_peek_none hpeek), .ok [] h⟩
    case some e =>
      dsimp only
      by_cases hdue : e.deadlineNs > now
      · rw [if_pos hdue]
        exact ⟨_, .stop (h.stop_of_peek hpeek hdue), .ok [] h⟩
      · rw [if_neg hdue]
        cases h.dispatches hpeek (Nat.le_of_not_lt hdue) with
        | stale hdispatch href hrounds =>
          obtain ⟨r, hadv, hsim⟩ := ih href (by omega)
          refine ⟨r, hadv, ?_⟩
          rw [hdispatch]
          generalize hloop : advanceLoop now fuel _ = c at hsim
          simp only [bind, Except.bind, hloop]
          cases hsim
          case error => exact .error _
          case ok events armed hs => exact .ok events hs
        | fail he hdue hnext hdispatch =>
          refine ⟨_, .fail he hdue hnext, ?_⟩
          rw [hdispatch]
          exact .error _
        | fire he hdue hnext hdispatch href hrounds =>
          obtain ⟨r, hadv, hsim⟩ := ih href (by omega)
          refine ⟨_, .fire he hdue hnext hadv, ?_⟩
          rw [hdispatch]
          generalize hloop : advanceLoop now fuel _ = c at hsim
          simp only [bind, Except.bind, hloop]
          cases hsim
          case error => exact .error _
          case ok events armed hs => exact .ok ((_, _) :: events) hs

theorem Refines.advanceTo (h : Refines s σ) (now : Nat) :
    ∃ r, Firing.Advances source now σ.armed r ∧ Simulates σ (s.advanceTo now) r :=
  h.advanceLoop (Nat.lt_succ_self _)

theorem Refines.armed_of_advances (h : Refines s σ)
    (hadv : Firing.Advances source now σ.armed (.ok (events, armed))) (id : Nat) :
    armed id = (σ.armed id).bind fun p =>
      p.1.remaining (p.2 + (events.filter (·.1 = id)).length) := by
  have hfires := hadv.fires id
  cases hp : σ.armed id
  case none =>
    rw [hp] at hfires
    exact hfires.of_none.2
  case some p =>
    obtain ⟨a, n⟩ := p
    have hfits := (h.armed_fits id a n hp).2
    have hrange := fires_range hfires (hp.trans (remaining_of_fits hfits).symm) fun _ => hfits
    rw [length_map] at hrange
    exact hrange.2.1

theorem Refines.due_of_advances (h : Refines s σ)
    (hadv : Firing.Advances source now σ.armed (.ok (events, armed))) :
    σ.Due now (events.map fun p => ⟨p.1, p.2⟩) where
  sorted := pairwise_map.mpr hadv.sorted
  none_of_disarmed := by
    intro event hevent
    obtain ⟨p, hp, rfl⟩ := mem_map.mp hevent
    have hfires := hadv.fires p.1
    cases harmed : σ.armed p.1
    case some => rfl
    case none =>
      rw [harmed] at hfires
      have hmem : p.2 ∈ (events.filter (·.1 = p.1)).map (·.2) :=
        mem_map_of_mem (mem_filter.mpr ⟨hp, by simp⟩)
      rw [hfires.of_none.1] at hmem
      cases hmem
  firings := by
    intro id a n hp
    have hfits := (h.armed_fits id a n hp).2
    have hrange := fires_range (hadv.fires id) (hp.trans (remaining_of_fits hfits).symm)
      fun _ => hfits
    refine ⟨_, ?_, hrange.2.2⟩
    rw [filter_map, map_map]
    exact hrange.1

theorem Refines.overflow_of_advances (h : Refines s σ) {e : Panic}
    (hadv : Firing.Advances source now σ.armed (.error e)) :
    e.IsOverflow ∧ ∃ id a n k, σ.armed id = some (a, n) ∧ n ≤ k ∧ a.has k ∧ a.time k ≤ now ∧
      a.has (k + 1) ∧ ¬a.Fits (k + 1) := by
  obtain ⟨id, p, hp, hbreaks⟩ := hadv.breaks rfl
  obtain ⟨a, n⟩ := p
  suffices hk : e.IsOverflow ∧ ∃ k, n ≤ k ∧ a.has k ∧ a.time k ≤ now ∧ a.has (k + 1) ∧
      ¬a.Fits (k + 1) by
    obtain ⟨he, k, hk⟩ := hk
    exact ⟨he, id, a, n, k, hp, hk⟩
  have hfits := (h.armed_fits id a n hp).2
  clear hp hadv
  generalize hq : (a, n) = q at hbreaks
  induction hbreaks generalizing n
  case here hdue hnext =>
    subst hq
    obtain ⟨he, hhas, hnot⟩ := next_error hnext
    exact ⟨he, n, le_rfl, hfits.has, hdue, hhas, hnot⟩
  case later hdue hnext _ ih =>
    subst hq
    obtain ⟨-, hsome⟩ := next_of_fits hnext hfits
    obtain ⟨rfl, hfits'⟩ := hsome _ rfl
    obtain ⟨he, k, hk, hrest⟩ := ih (n + 1) hfits' rfl
    exact ⟨he, k, by omega, hrest⟩

end Aero.Time
