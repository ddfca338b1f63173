import Aero.Memory.Route

namespace Aero.Memory

open GuestMemory Intervals Option List

theorem lt_cutAt_iff {next : Option Nat} :
    a < cutAt next stop ↔ a < stop ∧ ∀ s, next = some s → a < s := by
  cases next
  case none => simp [cutAt]
  case some s =>
    simp only [cutAt, some.injEq, forall_eq']
    split <;> omega

theorem chunk_len (hn : n = min stop (saturatingAdd addr rem) - addr) (hrem : 0 < rem)
    (haddr : addr < stop) (hstop : stop < 2 ^ 64) : 0 < n ∧ n ≤ rem ∧ addr + n ≤ stop := by
  rw [saturatingAdd] at hn
  omega

namespace PhysicalMemoryBus

variable {M σ : Type*} [GuestMemory M] {bus bus' : PhysicalMemoryBus M σ}

structure Valid (bus : PhysicalMemoryBus M σ) : Prop where
  roms    : Sorted RomRegion.start RomRegion.stop bus.romRegions
  mmios   : Sorted MmioRegion.start MmioRegion.stop bus.mmioRegions
  romEnd  : ∀ r ∈ bus.romRegions, r.start + r.data.length < 2 ^ 64 ∧ r.stop ≤ bus.maxRomEnd
  mmioEnd : ∀ r ∈ bus.mmioRegions, r.stop < 2 ^ 64 ∧ bus.minMmioStart ≤ r.start
  ramSize : bus.ramSize = (size bus.ram).toNat

theorem Valid.new (ram : M) : Valid (new ram : PhysicalMemoryBus M σ) where
  roms    := ⟨by simp [PhysicalMemoryBus.new], by simp [PhysicalMemoryBus.new]⟩
  mmios   := ⟨by simp [PhysicalMemoryBus.new], by simp [PhysicalMemoryBus.new]⟩
  romEnd  := by simp [PhysicalMemoryBus.new]
  mmioEnd := by simp [PhysicalMemoryBus.new]
  ramSize := rfl

theorem RomRegion.stop_eq {r : RomRegion} (h : r.start + r.data.length < 2 ^ 64) :
    r.stop = r.start + r.data.length := by
  rw [RomRegion.stop, saturatingAdd]
  omega

variable (hv : Valid bus)
include hv

theorem Valid.mapRom (h : bus.mapRom start data = .ok bus') : Valid bus' := by
  rw [PhysicalMemoryBus.mapRom] at h
  split at h
  case isFalse => cases h
  case isTrue hend =>
    have hstop := RomRegion.stop_eq (r := ⟨start.toNat, data⟩) hend
    split at h
    case h_1 => cases h
    case h_2 l hl =>
      obtain rfl := Except.ok.inj h
      refine ⟨hv.roms.insert (by rw [hstop]; exact Nat.le_add_right _ _) hl, hv.mmios, ?_,
        hv.mmioEnd, hv.ramSize⟩
      intro r hr
      rcases mem_cons.mp ((insert_perm hl).mem_iff.mp hr) with rfl | hr
      · exact ⟨hend, by rw [hstop]; exact le_max_right _ _⟩
      · exact ⟨(hv.romEnd r hr).1, (hv.romEnd r hr).2.trans (le_max_left _ _)⟩

theorem Valid.mapMmio (h : bus.mapMmio start len handler = .ok bus') : Valid bus' := by
  rw [PhysicalMemoryBus.mapMmio] at h
  split at h
  case isFalse => cases h
  case isTrue hend =>
    split at h
    case h_1 => cases h
    case h_2 l hl =>
      obtain rfl := Except.ok.inj h
      refine ⟨hv.roms, hv.mmios.insert (Nat.le_add_right _ _) hl, hv.romEnd, ?_, hv.ramSize⟩
      intro r hr
      rcases mem_cons.mp ((insert_perm hl).mem_iff.mp hr) with rfl | hr
      · exact ⟨hend, min_le_right _ _⟩
      · exact ⟨(hv.mmioEnd r hr).1, (min_le_left _ _).trans (hv.mmioEnd r hr).2⟩

theorem Valid.route_eq (a : Nat) :
    bus.route a =
      match bus.findMmioRegionIndex a, bus.findRomRegionIndex a with
      | some k, _    => .mmio k
      | none, some k => .rom k
      | none, none   => if a < bus.ramSize then .ram else .open := by
  have hrom : (bus.romRegions.findIdx? fun r => r.start ≤ a ∧ a < r.start + r.data.length) =
      bus.romRegions.findIdx? fun r => r.start ≤ a ∧ a < r.stop := by
    refine findIdx?_congr fun r hr => ?_
    rw [RomRegion.stop_eq (hv.romEnd r hr).1]
  rw [route, hrom, ← hv.mmios.findIndex_eq_findIdx?, ← hv.roms.findIndex_eq_findIdx?, hv.ramSize]
  rfl

theorem Valid.route_eq_mmio_iff :
    bus.route a = .mmio k ↔ ∃ r, bus.mmioRegions[k]? = some r ∧ r.start ≤ a ∧ a < r.stop := by
  rw [hv.route_eq, ← hv.mmios.findIndex_eq_some_iff, ← findMmioRegionIndex]
  cases bus.findMmioRegionIndex a
  case some => simp
  case none =>
    cases bus.findRomRegionIndex a
    case some => simp
    case none => simp only [reduceCtorEq]; split <;> simp

theorem Valid.route_eq_open (ha : 2 ^ 64 ≤ a) : bus.route a = .open := by
  have hm : bus.findMmioRegionIndex a = none := by
    rw [eq_none_iff_forall_not_mem]
    intro k hk
    obtain ⟨r, hr, -, hhi⟩ := hv.mmios.findIndex_eq_some_iff.mp hk
    have := (hv.mmioEnd r (List.mem_of_getElem? hr)).1
    omega
  have hr : bus.findRomRegionIndex a = none := by
    rw [eq_none_iff_forall_not_mem]
    intro k hk
    obtain ⟨r, hr, -, hhi⟩ := hv.roms.findIndex_eq_some_iff.mp hk
    have hend := (hv.romEnd r (List.mem_of_getElem? hr)).1
    rw [RomRegion.stop_eq hend] at hhi
    omega
  have hsize := hv.ramSize ▸ (size bus.ram).isLt
  rw [hv.route_eq, hm, hr]
  exact if_neg (by omega)

def ChunkOk (bus : PhysicalMemoryBus M σ) (addr : Nat) : Chunk → Prop
  | .mmio k offset n => ∃ r, bus.mmioRegions[k]? = some r ∧ r.start + offset = addr ∧
      addr + n ≤ r.stop ∧ ∀ a ∈ List.range' addr n, bus.route a = .mmio k
  | .rom r offset n => ∃ k, bus.romRegions[k]? = some r ∧ r.start + offset = addr ∧
      offset + n ≤ r.data.length ∧ ∀ a ∈ List.range' addr n, bus.route a = .rom k
  | .ram n => addr + n ≤ bus.ramSize ∧ ∀ a ∈ List.range' addr n, bus.route a = .ram
  | .unmapped n => ∀ a ∈ List.range' addr n, bus.route a = .open

structure CutsOff (bus : PhysicalMemoryBus M σ) (addr rem : Nat) (chunk : Chunk) : Prop where
  pos : 0 < chunk.len
  le : chunk.len ≤ rem
  ok : bus.ChunkOk addr chunk

-- The quick test and the two bisections both find that the range is plain RAM.
theorem Valid.route_of_ramFastRange (h : (bus.ramFastRange paddr len).isSome) :
    paddr + len ≤ bus.ramSize ∧ ∀ a ∈ List.range' paddr len, bus.route a = .ram := by
  rw [ramFastRange] at h
  split at h
  case isFalse => cases h
  case isTrue hc =>
    obtain ⟨-, hle, hclear⟩ := hc
    refine ⟨hle, fun a ha => ?_⟩
    rw [List.mem_range'_1] at ha
    obtain ⟨hm, hr⟩ : bus.findMmioRegionIndex a = none ∧ bus.findRomRegionIndex a = none := by
      rw [ramNoRegionOverlap] at hclear
      split at hclear
      case isTrue hquick =>
        constructor
        · rw [eq_none_iff_forall_not_mem]
          intro k hk
          obtain ⟨r, hr, hlo, -⟩ := hv.mmios.findIndex_eq_some_iff.mp hk
          have := (hv.mmioEnd r (List.mem_of_getElem? hr)).2
          omega
        · rw [eq_none_iff_forall_not_mem]
          intro k hk
          obtain ⟨r, hr, -, hhi⟩ := hv.roms.findIndex_eq_some_iff.mp hk
          have := (hv.romEnd r (List.mem_of_getElem? hr)).2
          omega
      case isFalse =>
        simp only [Bool.and_eq_true, Bool.not_eq_true'] at hclear
        exact ⟨hv.mmios.findIndex_eq_none_of_first hclear.1 ha.1 ha.2,
          hv.roms.findIndex_eq_none_of_first hclear.2 ha.1 ha.2⟩
    rw [hv.route_eq, hm, hr]
    exact if_pos (by omega)

theorem Valid.no_mmio_before (h : bus.findMmioRegionIndex addr = none) (ha : addr ≤ a)
    (hnext : ∀ s, bus.nextMmioStartAfter addr = some s → a < s) :
    bus.findMmioRegionIndex a = none :=
  hv.mmios.findIndex_eq_none_of_lt h ha hnext

theorem Valid.no_rom_before (h : bus.findRomRegionIndex addr = none) (ha : addr ≤ a)
    (hnext : ∀ s, bus.nextRomStartAfter addr = some s → a < s) : bus.findRomRegionIndex a = none :=
  hv.roms.findIndex_eq_none_of_lt h ha hnext

theorem Valid.nextChunk_mmio (hrem : 0 < rem) (hk : bus.findMmioRegionIndex addr = some k) :
    bus.CutsOff addr rem (bus.nextChunk addr rem) := by
  obtain ⟨r, hr, hlo, hhi⟩ := hv.mmios.findIndex_eq_some_iff.mp hk
  have hchunk : bus.nextChunk addr rem =
      .mmio k (addr - r.start) (min r.stop (saturatingAdd addr rem) - addr) := by
    simp [nextChunk, hk, hr]
  rw [hchunk]
  obtain ⟨hpos, hle, hstop⟩ :=
    chunk_len rfl hrem hhi (hv.mmioEnd r (List.mem_of_getElem? hr)).1
  refine ⟨hpos, hle, r, hr, by omega, hstop, fun a ha => ?_⟩
  obtain ⟨ha₁, ha₂⟩ := List.mem_range'_1.mp ha
  exact hv.route_eq_mmio_iff.mpr ⟨r, hr, by omega, by omega⟩

theorem Valid.nextChunk_rom (hrem : 0 < rem) (hno : bus.findMmioRegionIndex addr = none)
    (hk : bus.findRomRegionIndex addr = some k) :
    bus.CutsOff addr rem (bus.nextChunk addr rem) := by
  obtain ⟨r, hr, hlo, hhi⟩ := hv.roms.findIndex_eq_some_iff.mp hk
  have hchunk : bus.nextChunk addr rem = .rom r (addr - r.start)
      (min (cutAt (bus.nextMmioStartAfter addr) r.stop) (saturatingAdd addr rem) - addr) := by
    simp [nextChunk, hno, hk, hr]
  have hend := (hv.romEnd r (List.mem_of_getElem? hr)).1
  have hrstop := RomRegion.stop_eq hend
  have hcut : addr < cutAt (bus.nextMmioStartAfter addr) r.stop :=
    lt_cutAt_iff.mpr ⟨hhi, fun s => hv.mmios.lt_nextStart⟩
  have hcut' : cutAt (bus.nextMmioStartAfter addr) r.stop ≤ r.stop := by
    by_contra h
    have := (lt_cutAt_iff.mp (Nat.not_le.mp h)).1
    omega
  rw [hchunk]
  obtain ⟨hpos, hle, hstop⟩ := chunk_len rfl hrem hcut (by omega)
  refine ⟨hpos, hle, k, hr, by omega, by omega, fun a ha => ?_⟩
  obtain ⟨ha₁, ha₂⟩ := List.mem_range'_1.mp ha
  obtain ⟨ha₃, hnext⟩ := lt_cutAt_iff.mp (ha₂.trans_le hstop)
  have hka : bus.findRomRegionIndex a = some k :=
    hv.roms.findIndex_eq_some_iff.mpr ⟨r, hr, by omega, ha₃⟩
  rw [hv.route_eq, hv.no_mmio_before hno ha₁ hnext, hka]

theorem Valid.nextChunk_ram (hrem : 0 < rem) (haddr : addr < bus.ramSize)
    (hno : bus.findMmioRegionIndex addr = none) (hno' : bus.findRomRegionIndex addr = none) :
    bus.CutsOff addr rem (bus.nextChunk addr rem) := by
  obtain ⟨stop, hstop⟩ : ∃ stop, stop =
    cutAt (bus.nextRomStartAfter addr) (cutAt (bus.nextMmioStartAfter addr) bus.ramSize) := ⟨_, rfl⟩
  have hchunk : bus.nextChunk addr rem = .ram (min stop (saturatingAdd addr rem) - addr) := by
    simp only [nextChunk, hno, hno', bind_none, if_pos haddr, hstop]
  have hlt : ∀ a, a < stop ↔ (a < bus.ramSize ∧ ∀ s, bus.nextMmioStartAfter addr = some s → a < s) ∧
      ∀ s, bus.nextRomStartAfter addr = some s → a < s := by
    intro a
    rw [hstop, lt_cutAt_iff, lt_cutAt_iff]
  have hcut : addr < stop :=
    (hlt addr).mpr ⟨⟨haddr, fun s => hv.mmios.lt_nextStart⟩, fun s => hv.roms.lt_nextStart⟩
  have hcut' : stop ≤ bus.ramSize := by
    by_contra h
    have := ((hlt _).mp (Nat.not_le.mp h)).1.1
    omega
  have hsize := hv.ramSize ▸ (size bus.ram).isLt
  rw [hchunk]
  obtain ⟨hpos, hle, hend⟩ := chunk_len rfl hrem hcut (by omega)
  refine ⟨hpos, hle, by omega, fun a ha => ?_⟩
  obtain ⟨ha₁, ha₂⟩ := List.mem_range'_1.mp ha
  obtain ⟨⟨ha₃, hnext⟩, hnext'⟩ := (hlt a).mp (ha₂.trans_le hend)
  rw [hv.route_eq, hv.no_mmio_before hno ha₁ hnext, hv.no_rom_before hno' ha₁ hnext']
  exact if_pos ha₃

theorem Valid.nextChunk_unmapped (hrem : 0 < rem) (haddr : ¬addr < bus.ramSize)
    (hno : bus.findMmioRegionIndex addr = none) (hno' : bus.findRomRegionIndex addr = none) :
    bus.CutsOff addr rem (bus.nextChunk addr rem) := by
  have hm : ∀ s, bus.nextMmioStartAfter addr = some s → addr < s := fun s => hv.mmios.lt_nextStart
  have hr : ∀ s, bus.nextRomStartAfter addr = some s → addr < s := fun s => hv.roms.lt_nextStart
  obtain ⟨n, hchunk, hpos, hle, hnext⟩ : ∃ n, bus.nextChunk addr rem = .unmapped n ∧ 0 < n ∧
      n ≤ rem ∧ ∀ s, bus.nextMmioStartAfter addr = some s ∨ bus.nextRomStartAfter addr = some s →
        addr + n ≤ s := by
    simp only [nextChunk, hno, hno', if_neg haddr]
    cases hm' : bus.nextMmioStartAfter addr <;> cases hr' : bus.nextRomStartAfter addr
    case none.none => exact ⟨_, rfl, hrem, le_rfl, by simp⟩
    case none.some s =>
      have := hr s hr'
      exact ⟨_, rfl, by omega, by omega, by simp; omega⟩
    case some.none s =>
      have := hm s hm'
      exact ⟨_, rfl, by omega, by omega, by simp; omega⟩
    case some.some s t =>
      have := hm s hm'
      have := hr t hr'
      exact ⟨_, rfl, by omega, by omega, by simp; omega⟩
  rw [hchunk]
  refine ⟨hpos, hle, fun a ha => ?_⟩
  obtain ⟨ha₁, ha₂⟩ := List.mem_range'_1.mp ha
  rw [hv.route_eq, hv.no_mmio_before hno ha₁ fun s hs => ha₂.trans_le (hnext s (.inl hs)),
    hv.no_rom_before hno' ha₁ fun s hs => ha₂.trans_le (hnext s (.inr hs))]
  exact if_neg (by omega)

-- The dispatch makes progress and cuts off a part that the map sends to one target.
theorem Valid.nextChunk (addr : Nat) (hrem : 0 < rem) :
    bus.CutsOff addr rem (bus.nextChunk addr rem) := by
  cases hm : bus.findMmioRegionIndex addr
  case some k => exact hv.nextChunk_mmio hrem hm
  case none =>
    cases hr : bus.findRomRegionIndex addr
    case some k => exact hv.nextChunk_rom hrem hm hr
    case none =>
      by_cases haddr : addr < bus.ramSize
      · exact hv.nextChunk_ram hrem haddr hm hr
      · exact hv.nextChunk_unmapped hrem haddr hm hr

end PhysicalMemoryBus

end Aero.Memory
