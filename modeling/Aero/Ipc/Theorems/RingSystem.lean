import Aero.Ipc.Theorems.RingConsumer
import Aero.Ipc.Theorems.RingProducers
import Aero.Ipc.Theorems.RingSolo

namespace Aero.Ipc

open LeBytes CircularLog RingBuffer

namespace System

variable {ι : Type*}

variable {c h : Nat} {s : System ι}

theorem Inv.init {ring : RingBuffer} (hring : new c = some ring) :
    Inv c (System.init ring : System ι) 0 := by
  rw [new] at hring
  split at hring
  case isFalse => cases hring
  case isTrue =>
    cases hring
    exact {
      cap := rfl
      head := rfl
      tailReserve := rfl
      tailCommit := rfl
      reserved := rfl
      shape := by simp [System.init]
      fits := by simp [System.init, payloads]
      commits := le_rfl
      popped := List.nil_prefix
      popped_le := le_rfl
      atHead := .inl rfl
      window := Nat.zero_le _
      intact := by simp [System.init]
      producers := fun _ => trivial
      tickets := by simp [System.init]
      consumer := trivial
    }

theorem Inv.copy_position (hc : Capacity c) (hi : Inv c s h)
    (hp : s.producers p = .copy t tail newTail (w :: todo)) :
    ∃ x, w.1 = x % c ∧ s.place c t ≤ x ∧ x < s.place c (t + 1) ∧ s.Pending c p t newTail := by
  have hs := hi.producers p
  rw [hp] at hs
  obtain ⟨hpend, -, q, copied, rest, hq, hw, htodo, -⟩ := hs
  cases rest
  case nil => simp at htodo
  case cons v rest =>
    rw [List.map_cons, List.cons.injEq] at htodo
    have hb := hc.writes_bounds (w := v) (four_dvd_place hc s t) (by rw [hw]; simp)
    have hn : next c recordSize (s.place c t) q = s.place c (t + 1) := (place_succ hq).symm
    exact ⟨v.1, by rw [htodo.1]; rfl, hb.1, hn ▸ hb.2, hpend⟩

theorem Inv.head_le_record (hi : Inv c s h) (hji : s.popped.length ≤ i)
    (hr : s.reservations[i]? = some r) : h ≤ r.start + r.padding := by
  obtain ⟨hstart, hpad, -⟩ := hi.shape i r hr
  have hq := payloads_getElem? hr
  rw [hstart, hpad]
  rcases hi.atHead with rfl | ⟨q, hlt, hq', rfl⟩
  · exact (place_mono hji).trans (Nat.le_add_right ..)
  · by_cases hij : i = s.popped.length
    · subst hij
      rw [hq', Option.some.injEq] at hq
      rw [hq, start]
    · have h₁ : s.place c (s.popped.length + 1) ≤ s.place c i := place_mono (by omega)
      rw [place_succ hq'] at h₁
      omega

theorem Inv.safe (hc : Capacity c) (hi : Inv c s h) : s.Safe where
  popped := hi.popped
  committed := by
    rintro p t tail newTail w todo hp i r hji hic hr ⟨k, hk, hkp, hcell⟩
    obtain ⟨x, hx, htx, hxt, hpend⟩ := hi.copy_position hc hp
    obtain ⟨hstart, hpad, hreserve⟩ := hi.shape i r hr
    have hsucc := place_succ (c := c) (payloads_getElem? hr)
    have hrec := hi.head_le_record hji hr
    have h₁ : s.place c (i + 1) ≤ s.place c s.commits := place_mono hic
    have h₂ : s.place c s.commits ≤ s.place c t := place_mono hpend.1
    have h₃ : s.place c (t + 1) ≤ s.place c s.reservations.length := place_mono hpend.lt
    have h₄ := hi.window
    rw [start] at hsucc
    rw [hi.cap, hc.counter_toNat, hx] at hcell
    exact cell_ne (h := h) (by omega) (by omega) (by omega) (by omega) (by omega) hcell
  pending := by
    rintro p t tail newTail w todo hp i r hci hr hne ⟨k, hk, hcell⟩
    obtain ⟨x, hx, htx, hxt, hpend⟩ := hi.copy_position hc hp
    obtain ⟨hstart, hpad, hreserve⟩ := hi.shape i r hr
    have hsucc := place_succ (c := c) (payloads_getElem? hr)
    have hlt := (List.getElem?_eq_some_iff.mp hr).1
    have hit : i ≠ t := by
      rintro rfl
      obtain ⟨-, -, r', hr', ho⟩ := hpend
      rw [hr, Option.some.injEq] at hr'
      exact hne (hr' ▸ ho)
    have h₁ : s.place c (i + 1) ≤ s.place c s.reservations.length := place_mono hlt
    have h₂ : s.place c s.commits ≤ s.place c t := place_mono hpend.1
    have h₃ : s.place c (t + 1) ≤ s.place c s.reservations.length := place_mono hpend.lt
    have h₄ : s.place c s.commits ≤ s.place c i := place_mono hci
    have h₅ := hi.head_le
    have h₆ := hi.window
    have hxne : r.start + k ≠ x := by
      rcases Nat.lt_or_gt_of_ne hit with hlt' | hgt
      · have : s.place c (i + 1) ≤ s.place c t := place_mono hlt'
        rw [start] at hsucc
        omega
      · have : s.place c (t + 1) ≤ s.place c i := place_mono hgt
        omega
    rw [start] at hsucc
    rw [hi.cap, hc.counter_toNat, hx] at hcell
    exact cell_ne (h := h) (by omega) (by omega) (by omega) (by omega) hxne hcell
  corrupt := by
    intro he
    have hs := hi.consumer
    rw [he] at hs
    exact hs rfl

theorem Inv.step [DecidableEq ι] (hc : Capacity c) (hi : Inv c s h) (hfew : s.FewSinceHead a) :
    ∃ h', Inv c (s.step a) h' := by
  cases a
  case push p payload =>
    obtain ⟨hnew, htick⟩ := hi.beginPush hc payload
    rw [System.step]
    split
    case h_1 hp => exact ⟨h, hi.setProducer hnew (htick.trans (by rw [hp]; rfl))⟩
    case h_2 hp => exact ⟨h, hi.setProducer hnew (htick.trans (by rw [hp]; rfl))⟩
    case h_3 => exact ⟨h, hi⟩
  case producer p => exact ⟨h, hi.stepProducer hc hfew⟩
  case pop =>
    rw [System.step]
    split
    case h_1 => exact ⟨h, hi.setConsumer trivial⟩
    case h_2 => exact ⟨h, hi.setConsumer trivial⟩
    case h_3 => exact ⟨h, hi⟩
  case consumer => exact hi.stepConsumer hc

theorem reachable_safe [DecidableEq ι] {capacityBytes : Nat} {ring : RingBuffer}
    (hring : new capacityBytes = some ring) (hdvd : capacityBytes ∣ 2 ^ 32) {s : System ι}
    (hs : Reachable FewSinceHead ring s) : s.Safe := by
  have hc : Capacity capacityBytes := by
    rw [new] at hring
    split at hring
    case isFalse => cases hring
    case isTrue hok => exact ⟨hok.1, Nat.dvd_of_mod_eq_zero hok.2.1, hdvd, by omega⟩
  have hinv : ∃ h, Inv capacityBytes s h := by
    induction hs
    case start => exact ⟨0, Inv.init hring⟩
    case step a _ hfew ih =>
      obtain ⟨h, hi⟩ := ih
      exact hi.step hc hfew
  obtain ⟨h, hi⟩ := hinv
  exact hi.safe hc

theorem reachable_safe_two_producers : ∃ ring, new 16 = some ring ∧ 16 ∣ 2 ^ 32 ∧
    ([.push false [1], .push true [2], .producer false, .producer true, .producer false,
      .producer true, .producer false].foldl step (init ring : System Bool)).Safe := by
  have hring : new 16 = some ⟨16, 0, 0, 0, fun _ => 0⟩ := rfl
  refine ⟨_, hring, by decide, reachable_safe hring (by decide) ?_⟩
  have hfew : 0 - 0 < 2 ^ 32 - 16 := by decide
  exact .step (.producer false) (.step (.producer true) (.step (.producer false)
    (.step (.producer true) (.step (.producer false) (.step (.push true [2])
    (.step (.push false [1]) .start trivial) trivial) trivial) trivial) trivial) trivial) hfew

-- Between the two loads of a producer the tail goes once around the range of the counters, to the
-- value of the old head. The ring is full, and the producer takes it for empty.
theorem reachable_unsafe : ∃ ring, new 4 = some ring ∧ 4 ∣ 2 ^ 32 ∧
    ∃ s : System Bool, Reachable FewSinceTail ring s ∧ ¬s.Safe := by
  refine ⟨_, rfl, by decide, ?_⟩
  obtain ⟨s₀, h₀⟩ := waiting_start rfl
  obtain ⟨n, hn⟩ : ∃ n, n = 2 ^ 30 - 1 := ⟨_, rfl⟩
  obtain ⟨s, h⟩ := h₀.rounds (n := n) (by omega)
  obtain ⟨pushed, ring', hpush, -, -, hcap, hhead, htail⟩ := h.idle.round (by decide) (by decide)
    (by decide) ⟨n, rfl⟩ (by omega) 0
  have h₁ := h.push ⟨n, rfl⟩ hpush
  have htail0 : pushed.tailReserve = 0 := by
    rw [htail, hn]
    rfl
  have hwaits : (s.solo true [] 0 4 pushed).producers false = .loadTail [] 4 0 0 :=
    (solo_producers_of_ne (by decide)).trans h.waits
  obtain ⟨full, hfull⟩ : ∃ t, t = s.solo true [] 0 4 pushed := ⟨_, rfl⟩
  have hring : full.ring = pushed := by rw [hfull]; rfl
  rw [← hfull] at h₁ hwaits
  have h₂ := h₁.next (.producer false)
    (full.setProducer false (.exchange [] 4 0 0 false 4 0 full.reserved))
    (by rw [FewSinceTail, hwaits]; trivial) (by
      simp only [step, stepProducer, hwaits, afterLoads, hring, hcap, htail0]
      rfl)
  have h₃ := h₂.next (.producer false) (full.reserve false [] 0 0 false 4)
    (by simp [FewSinceTail, setProducer]) (by
      simp [step, stepProducer, setProducer, hring, htail0, reserve])
  refine ⟨_, h₃, fun hsafe => ?_⟩
  -- the first byte that it copies is a byte of the record that waits for the consumer
  have hcopy : (full.reserve false [] 0 0 false 4).producers false =
      .copy full.reservations.length 0 4 [(0, 0), (1, 0), (2, 0), (3, 0)] := by
    rfl
  have hlast : (full.reserve false [] 0 0 false 4).reservations[s.commits]? =
      some ⟨true, [], s.reserved, 0, 4⟩ := by
    simp only [reserve, hfull, solo, List.append_assoc]
    rw [List.getElem?_append_right h.commits.le, h.commits, Nat.sub_self]
    rfl
  refine hsafe.committed _ _ _ _ _ _ hcopy s.commits _ ?_ ?_ hlast ⟨0, Nat.succ_pos 3, le_rfl, ?_⟩
  · rw [hfull]
    exact h.popped.le
  · rw [hfull]
    exact Nat.lt_succ_self _
  · have hc4 : (full.reserve false [] 0 0 false 4).ring.cap.toNat = 4 := by
      rw [reserve, hring]
      simp only [hcap]
      rfl
    rw [hc4, h.reserved]
    simp

end System

end Aero.Ipc
