import Aero.Memory.Theorems.Regions

namespace Aero.Memory

open GuestMemory LeBytes Intervals List MmioRegion

theorem forall₂_range'_iff {bytes : List U8} :
    List.Forall₂ P (List.range' a n) bytes ↔
      bytes.length = n ∧ ∀ j b, bytes[j]? = some b → P (a + j) b := by
  rw [List.forall₂_iff_get]
  constructor
  · rintro ⟨hlen, h⟩
    rw [List.length_range'] at hlen
    refine ⟨hlen.symm, fun j b hb => ?_⟩
    obtain ⟨hj, rfl⟩ := List.getElem?_eq_some_iff.mp hb
    simpa using h j (by simpa [hlen] using hj) hj
  · rintro ⟨rfl, h⟩
    refine ⟨List.length_range', fun j h₁ h₂ => ?_⟩
    simpa using h j _ (List.getElem?_eq_getElem h₂)

section Served

variable {σ : Type*} {l l₁ l₂ : List (MmioRegion σ)}

def MmioRegion.bounds (r : MmioRegion σ) : Nat × Nat :=
  (r.start, r.stop)

theorem Served.append (h₁ : Served step l log₁ l₁) (h₂ : Served step l₁ log₂ l₂) :
    Served step l (log₁ ++ log₂) l₂ := by
  induction h₁
  case nil => exact h₂
  case cons hr hstep _ ih => exact .cons hr hstep (ih h₂)

theorem Served.eq_of_nil (h : Served step l [] l₁) : l₁ = l := by
  cases h
  rfl

theorem bounds_set (hr : l[k]? = some r) :
    (l.set k { r with handler := h }).map bounds = l.map bounds := by
  refine List.ext_getElem? fun i => ?_
  rw [List.getElem?_map, List.getElem?_map, List.getElem?_set]
  split
  case isFalse => rfl
  case isTrue hi =>
    obtain ⟨hlt, rfl⟩ := List.getElem?_eq_some_iff.mp hr
    subst hi
    simp [hlt, bounds]

theorem Served.bounds_eq (h : Served step l log l₁) :
    l₁.map bounds = l.map bounds := by
  induction h
  case nil => rfl
  case cons hr _ _ ih => rw [ih, bounds_set hr]

theorem Replays.refl [MmioHandler σ] (h : σ) (log : List Access) : Replays h log h := by
  induction log
  case nil => exact .nil
  case cons ih => exact .skip ih

theorem Replays.append [MmioHandler σ] {h h₁ h₂ : σ} (h₁' : Replays h log₁ h₁)
    (h₂' : Replays h₁ log₂ h₂) : Replays h (log₁ ++ log₂) h₂ := by
  induction h₁'
  case nil => exact h₂'
  case skip ih => exact .skip (ih h₂')
  case serve hserve _ ih => exact .serve hserve (ih h₂')

theorem after_append [MmioHandler σ] (h₁ : List.Forall₂ (MmioRegion.After log₁) l l₁)
    (h₂ : List.Forall₂ (MmioRegion.After log₂) l₁ l₂) :
    List.Forall₂ (MmioRegion.After (log₁ ++ log₂)) l l₂ := by
  induction h₁ generalizing l₂
  case nil =>
    cases h₂
    exact .nil
  case cons hr _ ih =>
    cases h₂
    case cons hr' hrest =>
      exact .cons ⟨hr'.start.trans hr.start, hr'.stop.trans hr.stop, hr.handler.append hr'.handler⟩
        (ih hrest)

theorem Served.after [MmioHandler σ] (hstep : ∀ h x h', step h x h' → reads h x h' ∨ writes h x h')
    (h : Served step l log l₁) : List.Forall₂ (MmioRegion.After log) l l₁ := by
  induction h
  case nil l => exact List.forall₂_same.mpr fun r _ => ⟨rfl, rfl, .nil⟩
  case cons l x r h log l' hr hserve _ ih =>
    rw [List.forall₂_iff_get] at ih ⊢
    refine ⟨by simpa using ih.1, fun i hi hi' => ?_⟩
    have hafter := ih.2 i (by simpa using hi) hi'
    rw [List.get_eq_getElem, List.getElem_set] at hafter
    split at hafter
    case isTrue hx =>
      obtain ⟨hlt, rfl⟩ := List.getElem?_eq_some_iff.mp hr
      subst hx
      exact ⟨hafter.start, hafter.stop, .serve (hstep _ _ _ hserve) hafter.handler⟩
    case isFalse => exact ⟨hafter.start, hafter.stop, .skip hafter.handler⟩

end Served

namespace PhysicalMemoryBus

variable {M σ : Type*} [GuestMemory M] {bus bus' bus₁ bus₂ : PhysicalMemoryBus M σ}
  {bytes bytes₁ bytes₂ src src₁ src₂ : List U8}

structure SameMap (bus bus' : PhysicalMemoryBus M σ) : Prop where
  bounds  : bus'.mmioRegions.map MmioRegion.bounds = bus.mmioRegions.map MmioRegion.bounds
  roms    : bus'.romRegions = bus.romRegions
  ram     : size bus'.ram = size bus.ram
  ramSize : bus'.ramSize = bus.ramSize
  maxRom  : bus'.maxRomEnd = bus.maxRomEnd
  minMmio : bus'.minMmioStart = bus.minMmioStart

namespace SameMap

variable (h : SameMap bus bus')
include h

theorem route_eq (a : Nat) : bus'.route a = bus.route a := by
  have key : ∀ l : List (MmioRegion σ), (l.findIdx? fun r => r.start ≤ a ∧ a < r.stop) =
      (l.map MmioRegion.bounds).findIdx? fun p => p.1 ≤ a ∧ a < p.2 := by
    intro l
    rw [findIdx?_map]
    rfl
  rw [route, route, key, key, h.bounds, h.roms, h.ram]

theorem mmioOffset_eq (k a : Nat) : bus'.mmioOffset k a = bus.mmioOffset k a := by
  have key : ∀ l : List (MmioRegion σ), l[k]?.map (a - ·.start) =
      (l.map MmioRegion.bounds)[k]?.map (a - ·.1) := by
    intro l
    rw [getElem?_map, Option.map_map]
    rfl
  rw [mmioOffset, mmioOffset, h.route_eq, key, key, h.bounds]

theorem valid (hv : Valid bus) : Valid bus' := by
  have hmem : ∀ r ∈ bus'.mmioRegions, ∃ r₀ ∈ bus.mmioRegions, r₀.start = r.start ∧
      r₀.stop = r.stop := by
    intro r hr
    have := mem_map_of_mem (f := MmioRegion.bounds) hr
    rw [h.bounds] at this
    simpa [MmioRegion.bounds] using this
  refine ⟨h.roms ▸ hv.roms, ⟨?le, ?pairwise⟩, ?romEnd, ?mmioEnd, ?ramSize⟩
  case le =>
    intro r hr
    obtain ⟨r₀, hr₀, h₁, h₂⟩ := hmem r hr
    exact h₁ ▸ h₂ ▸ hv.mmios.le r₀ hr₀
  case pairwise =>
    have hp : (bus.mmioRegions.map MmioRegion.bounds).Pairwise fun p q => p.2 ≤ q.1 :=
      pairwise_map.mpr hv.mmios.pairwise
    rw [← h.bounds] at hp
    exact pairwise_map.mp hp
  case romEnd =>
    rw [h.roms, h.maxRom]
    exact hv.romEnd
  case mmioEnd =>
    intro r hr
    obtain ⟨r₀, hr₀, h₁, h₂⟩ := hmem r hr
    rw [h.minMmio, ← h₁, ← h₂]
    exact hv.mmioEnd r₀ hr₀
  case ramSize => rw [h.ramSize, h.ram, hv.ramSize]

end SameMap

-- Requests that follow each other in the address space.
section Append

theorem Accesses.append (h : SameMap bus bus₁) (h₁ : bus.Accesses a n log₁)
    (h₂ : bus₁.Accesses (a + n) m log₂) : bus.Accesses a (n + m) (log₁ ++ log₂) where
  size x hx := (mem_append.mp hx).elim (h₁.size x) (h₂.size x)
  aligned x hx := (mem_append.mp hx).elim (h₁.aligned x) (h₂.aligned x)
  cover k := by
    have hoff := funext (h.mmioOffset_eq k)
    rw [filter_append, flatMap_append, h₁.cover, h₂.cover, hoff,
      ← range'_append_1, filterMap_append]

theorem Carried.append_left (h : bus.Carried log₁ k a b) : bus.Carried (log₁ ++ log₂) k a b := by
  obtain ⟨x, hx, h⟩ := h
  exact ⟨x, mem_append_left _ hx, h⟩

theorem Carried.append_right (hs : SameMap bus bus₁) (h : bus₁.Carried log₂ k a b) :
    bus.Carried (log₁ ++ log₂) k a b := by
  obtain ⟨x, hx, hk, j, hj, hoff, hb⟩ := h
  exact ⟨x, mem_append_right _ hx, hk, j, hj, hs.mmioOffset_eq k a ▸ hoff, hb⟩

theorem ReadByte.append_left (h : bus.ReadByte log₁ a b) : bus.ReadByte (log₁ ++ log₂) a b := by
  rw [ReadByte] at h ⊢
  split at h
  case h_1 => exact h.append_left
  all_goals exact h

theorem ReadByte.append_right (hs : SameMap bus bus₁) (hram : bus₁.ram = bus.ram)
    (h : bus₁.ReadByte log₂ a b) : bus.ReadByte (log₁ ++ log₂) a b := by
  rw [ReadByte, hs.route_eq, hs.roms, hram] at h
  rw [ReadByte]
  split at h
  case h_1 => exact h.append_right hs
  all_goals exact h

theorem size_foldl_putRam [LawfulGuestMemory M] {ps : List (Nat × U8)} :
    size (ps.foldl bus.putRam mem) = size mem := by
  induction ps generalizing mem
  case nil => rfl
  case cons p ps ih =>
    rw [foldl_cons, ih, putRam]
    split
    · exact LawfulGuestMemory.size_writeFrom
    · rfl

variable [MmioHandler σ]

theorem ReadSpec.sameMap (h : bus.ReadSpec a n bytes bus' log) : SameMap bus bus' := by
  have hb := h.served.bounds_eq
  rw [h.frame]
  exact ⟨hb, rfl, rfl, rfl, rfl, rfl⟩

theorem ReadSpec.append (h₁ : bus.ReadSpec a n bytes₁ bus₁ log₁)
    (h₂ : bus₁.ReadSpec (a + n) m bytes₂ bus₂ log₂) :
    bus.ReadSpec a (n + m) (bytes₁ ++ bytes₂) bus₂ (log₁ ++ log₂) where
  bytes := by
    have hram : bus₁.ram = bus.ram := by rw [h₁.frame]
    rw [← range'_append_1]
    exact rel_append (h₁.bytes.imp fun _ _ => .append_left)
      (h₂.bytes.imp fun _ _ => .append_right h₁.sameMap hram)
  accesses := h₁.accesses.append h₁.sameMap h₂.accesses
  served := h₁.served.append h₂.served
  frame := by
    conv_lhs => rw [h₂.frame, h₁.frame]

variable [LawfulGuestMemory M]

theorem WriteSpec.sameMap (h : bus.WriteSpec a src bus' log) : SameMap bus bus' := by
  have hb := h.served.bounds_eq
  have hr := congrArg size h.ram
  rw [size_foldl_putRam] at hr
  rw [h.frame]
  exact ⟨hb, rfl, hr, rfl, rfl, rfl⟩

theorem WriteSpec.append (h₁ : bus.WriteSpec a src₁ bus₁ log₁) (hn : src₁.length = n)
    (h₂ : bus₁.WriteSpec (a + n) src₂ bus₂ log₂) :
    bus.WriteSpec a (src₁ ++ src₂) bus₂ (log₁ ++ log₂) where
  ram := by
    have hput : bus₁.putRam = bus.putRam := by
      funext mem p
      rw [putRam, putRam, h₁.sameMap.route_eq]
    rw [h₂.ram, h₁.ram, hput, length_append, ← range'_append_1,
      zip_append length_range', foldl_append, hn]
  bytes := by
    rw [length_append, ← range'_append_1, hn]
    refine rel_append (hn ▸ h₁.bytes.imp fun _ _ hb k hk => (hb k hk).append_left)
      (h₂.bytes.imp fun c _ hb k hk => (hb k ?_).append_right h₁.sameMap)
    rw [h₁.sameMap.route_eq, hk]
  padded x hx := (mem_append.mp hx).elim (h₁.padded x) (h₂.padded x)
  accesses := by
    rw [length_append]
    exact h₁.accesses.append h₁.sameMap (hn ▸ h₂.accesses)
  served := h₁.served.append h₂.served
  frame := by
    conv_lhs => rw [h₂.frame, h₁.frame]

end Append

end PhysicalMemoryBus

end Aero.Memory
