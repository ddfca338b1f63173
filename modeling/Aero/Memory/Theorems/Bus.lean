import Aero.Memory.Theorems.Route

namespace Aero.Memory

open GuestMemory LeBytes Intervals List Option Nat LawfulGuestMemory

theorem accessSize_spec (addr : Nat) (h : 0 < remaining) :
    accessSize addr remaining ∈ [1, 2, 4, 8] ∧ accessSize addr remaining ∣ addr ∧
      accessSize addr remaining ≤ remaining := by
  rw [accessSize]
  cases hf : [8, 4, 2, 1].find? fun c => decide (remaining ≥ c ∧ addr % c = 0)
  case none =>
    have := find?_eq_none.mp hf 1 (by simp)
    simp only [decide_eq_true_eq] at this
    omega
  case some n =>
    have hn := find?_some hf
    have hmem := mem_of_find?_eq_some hf
    simp only [decide_eq_true_eq] at hn
    refine ⟨?_, dvd_of_mod_eq_zero hn.2, hn.1⟩
    rw [getD_some]
    simp only [mem_cons, not_mem_nil, or_false] at hmem ⊢
    omega

theorem readInto_ofNat [GuestMemory M] [LawfulGuestMemory M] {m : M} (h : a + n ≤ (size m).toNat) :
    readInto m (BitVec.ofNat 64 a) n = some ((range' a n).map (byte m)) := by
  have h64 : (BitVec.ofNat 64 a).toNat = a := mod_eq_of_lt (by omega)
  rw [readInto_eq (by rw [h64]; exact h), h64]

namespace PhysicalMemoryBus

variable {M σ : Type*} [GuestMemory M] {bus bus' : PhysicalMemoryBus M σ}
  {a n k offset fuel : Nat} {b : U8} {bytes src : List U8} {log : List Access} {r : MmioRegion σ}

-- Where a part of a request lies in its handler's offset space.
section Offsets

theorem route_add (h : ∀ c ∈ range' a n, bus.route c = t) (hj : j < n) :
    bus.route (a + j) = t :=
  h _ (mem_range'_1.mpr ⟨by omega, by omega⟩)

theorem mmioOffset_eq_none (h : bus.route a ≠ .mmio k) : bus.mmioOffset k a = none :=
  if_neg h

-- One round of the chunk loops: the access goes to the front of the part, and the rest of the part
-- stays in the region.
structure Piece (bus : PhysicalMemoryBus M σ) (k : Nat) (r : MmioRegion σ) (offset a n : Nat) :
    Prop where
  region : bus.mmioRegions[k]? = some r
  start  : r.start + offset = a
  stop   : a + n ≤ r.stop
  route  : ∀ c ∈ List.range' a n, bus.route c = .mmio k

section

variable (h : bus.Piece k r offset a n)
include h

theorem Piece.front (hm : m ≤ n) : bus.Piece k r offset a m where
  region := h.region
  start  := h.start
  stop   := by
    have := h.stop
    omega
  route c hc := by
    rw [mem_range'_1] at hc
    exact h.route c (mem_range'_1.mpr ⟨hc.1, by omega⟩)

theorem Piece.rest (hm : m ≤ n) (hs : SameMap bus bus')
    (hmmio : bus'.mmioRegions = bus.mmioRegions.set k { r with handler := s }) :
    bus'.Piece k { r with handler := s } (offset + m) (a + m) (n - m) where
  region := by
    rw [hmmio, List.getElem?_set_self (List.getElem?_eq_some_iff.mp h.region).1]
  start := by rw [← h.start, Nat.add_assoc]
  stop := by
    rw [Nat.add_assoc, Nat.add_sub_cancel' hm]
    exact h.stop
  route c hc := by
    rw [List.mem_range'_1] at hc
    rw [hs.route_eq]
    exact h.route c (List.mem_range'_1.mpr ⟨by omega, by omega⟩)

theorem Piece.wrappingAdd_eq (hv : Valid bus) (hm : m ≤ n) : wrappingAdd offset m = offset + m := by
  have hstop := h.stop
  have hstart := h.start
  have hend := (hv.mmioEnd r (mem_of_getElem? h.region)).1
  exact mod_eq_of_lt (by omega)

theorem Piece.filterMap_mmioOffset :
    (range' a n).filterMap (bus.mmioOffset k) = range' offset n := by
  have hsome : ∀ c ∈ range' a n, bus.mmioOffset k c = some (c - r.start) := by
    intro c hc
    rw [mmioOffset, if_pos (h.route c hc), h.region]
    rfl
  have hstart := h.start
  rw [filterMap_congr hsome, filterMap_eq_map', map_sub_range' (by omega), ← hstart,
    Nat.add_sub_cancel_left]

end

theorem filterMap_mmioOffset_eq_nil (h : ∀ c ∈ range' a n, bus.route c ≠ .mmio k) :
    (range' a n).filterMap (bus.mmioOffset k) = [] := by
  rw [filterMap_eq_nil_iff]
  exact fun c hc => mmioOffset_eq_none (h c hc)

theorem Accesses.nil (h : ∀ c ∈ range' a n, ∀ k, bus.route c ≠ .mmio k) :
    bus.Accesses a n [] where
  size    := by simp
  aligned := by simp
  cover k := by
    rw [filterMap_mmioOffset_eq_nil fun c hc => h c hc k]
    rfl

theorem Accesses.singleton (h : bus.Piece k r offset a n) (hsize : n ∈ [1, 2, 4, 8])
    (hdvd : n ∣ offset) : bus.Accesses a n [⟨k, offset, n, value⟩] where
  size    := by simpa using hsize
  aligned := by simpa using hdvd
  cover k' := by
    by_cases hk : k = k'
    · subst hk
      rw [h.filterMap_mmioOffset]
      simp [Access.offsets]
    · rw [filterMap_mmioOffset_eq_nil fun c hc hc' => hk (by simpa [h.route c hc] using hc')]
      simp [hk]

theorem Carried.singleton (h : bus.Piece k r offset a n) (hj : j < n)
    (hb : (toLe 8 value.toNat)[j]? = some b) : bus.Carried [⟨k, offset, n, value⟩] k (a + j) b := by
  refine ⟨_, mem_singleton_self _, rfl, j, hj, ?_, hb⟩
  rw [mmioOffset, if_pos (route_add h.route hj), h.region, map_some, ← h.start,
    Nat.add_assoc, Nat.add_sub_cancel_left]

end Offsets

section Chunks

variable [MmioHandler σ]

theorem ReadSpec.plain (h : ∀ c ∈ range' a n, ∀ k, bus.route c ≠ .mmio k)
    (hb : List.Forall₂ (bus.ReadByte []) (range' a n) bytes) :
    bus.ReadSpec a n bytes bus [] :=
  ⟨hb, .nil h, .nil, rfl⟩

theorem ReadSpec.unmapped (h : ∀ c ∈ range' a n, bus.route c = .open) :
    bus.ReadSpec a n (replicate n 0xFF) bus [] := by
  refine .plain (fun c hc k => by simp [h c hc]) ?_
  refine forall₂_range'_iff.mpr ⟨length_replicate, fun j b hb => ?_⟩
  rw [getElem?_replicate] at hb
  split at hb
  case isFalse => cases hb
  case isTrue hj =>
    rw [ReadByte, route_add h hj]
    exact (some.inj hb).symm

theorem ReadSpec.access (hp : bus.Piece k r offset a n) (hsize : n ∈ [1, 2, 4, 8])
    (hdvd : n ∣ offset) (hread : MmioHandler.read r.handler offset n = (value, s)) :
    bus.ReadSpec a n ((toLe 8 value.toNat).take n)
      { bus with mmioRegions := bus.mmioRegions.set k { r with handler := s } }
      [⟨k, offset, n, value⟩] where
  bytes := by
    have hn : n ≤ 8 := by
      simp only [mem_cons, not_mem_nil, or_false] at hsize
      omega
    refine forall₂_range'_iff.mpr ⟨by simpa using hn, fun j b hb => ?_⟩
    rw [getElem?_take] at hb
    split at hb
    case isFalse => cases hb
    case isTrue hj =>
      rw [ReadByte, route_add hp.route hj]
      exact .singleton hp hj hb
  accesses := .singleton hp hsize hdvd
  served   := .cons hp.region hread .nil
  frame    := rfl

theorem ReadSpec.eq_of_ram (h : bus.ReadSpec a n bytes bus' log)
    (hroute : ∀ c ∈ range' a n, bus.route c = .ram) :
    bytes = (range' a n).map (byte bus.ram) ∧ bus' = bus ∧ log = [] := by
  have hlog : log = [] := by
    rw [eq_nil_iff_forall_not_mem]
    intro x hx
    have hcover := h.accesses.cover x.region
    rw [filterMap_mmioOffset_eq_nil fun c hc => by simp [hroute c hc], flatMap_eq_nil_iff]
      at hcover
    have hnil := hcover x (by simpa using hx)
    have hsize := h.accesses.size x hx
    rw [Access.offsets, range'_eq_nil_iff] at hnil
    simp [hnil] at hsize
  refine ⟨?_, ?_, hlog⟩
  · obtain ⟨hlen, hb⟩ := forall₂_range'_iff.mp h.bytes
    refine ext_getElem (by simpa using hlen) fun j h₁ h₂ => ?_
    have hj := hb j _ (getElem?_eq_getElem h₁)
    rw [ReadByte, route_add hroute (by omega)] at hj
    simpa using hj
  · have hserved := h.served
    rw [hlog] at hserved
    rw [h.frame, hserved.eq_of_nil]

theorem readMmioChunk_spec (hv : Valid bus) (hp : bus.Piece k r offset a n) (hfuel : n ≤ fuel) :
    ∃ bytes bus' log, readMmioChunk k fuel bus offset n = some (bytes, bus', log) ∧
      bus.ReadSpec a n bytes bus' log := by
  induction fuel generalizing bus r offset a n
  case zero =>
    obtain rfl := Nat.le_zero.mp hfuel
    exact ⟨_, _, _, by rw [readMmioChunk], .plain (by simp) .nil⟩
  case succ fuel ih =>
    cases n
    case zero => exact ⟨_, _, _, by rw [readMmioChunk], .plain (by simp) .nil⟩
    case succ n =>
      obtain ⟨hsize, hdvd, hle⟩ := accessSize_spec offset (Nat.succ_pos n)
      obtain ⟨m, hm⟩ : ∃ m, m = accessSize offset (n + 1) := ⟨_, rfl⟩
      rw [← hm] at hsize hdvd hle
      have hpos : 0 < m := by
        simp only [mem_cons, not_mem_nil, or_false] at hsize
        omega
      obtain ⟨⟨value, s⟩, hread⟩ : ∃ p, MmioHandler.read r.handler offset m = p := ⟨_, rfl⟩
      have hfirst : bus.ReadSpec a m _ _ _ :=
        .access (hp.front hle) hsize hdvd hread
      obtain ⟨bytes, bus', log, hrest, hspec⟩ :=
        ih (hfirst.sameMap.valid hv) (hp.rest hle hfirst.sameMap rfl) (by omega)
      refine ⟨_, _, _, ?_, by simpa only [Nat.add_sub_cancel' hle] using hfirst.append hspec⟩
      rw [readMmioChunk]
      simp only [← hm, hp.region, bind_some, hread, hp.wrappingAdd_eq hv hle, hrest]
      rfl

variable [LawfulGuestMemory M]

theorem readChunk_spec (hv : Valid bus) (h : bus.ChunkOk a chunk) :
    ∃ bytes bus' log, bus.readChunk a chunk = some (bytes, bus', log) ∧
      bus.ReadSpec a chunk.len bytes bus' log := by
  cases chunk
  case mmio k offset n =>
    obtain ⟨r, hr, ha, hstop, hroute⟩ := h
    exact readMmioChunk_spec hv ⟨hr, ha, hstop, hroute⟩ le_rfl
  case rom r offset n =>
    obtain ⟨k, hr, ha, hlen, hroute⟩ := h
    refine ⟨_, _, _, rfl, .plain (fun c hc k => by simp [hroute c hc]) ?_⟩
    refine forall₂_range'_iff.mpr ⟨by simp [Chunk.len]; omega, fun j b hb => ?_⟩
    rw [getElem?_take, getElem?_drop] at hb
    split at hb
    case isFalse => cases hb
    case isTrue hj =>
      rw [ReadByte, route_add hroute hj]
      refine ⟨r, hr, ?_⟩
      rw [← ha, Nat.add_assoc, Nat.add_sub_cancel_left]
      exact hb
  case ram n =>
    obtain ⟨hle, hroute⟩ := h
    rw [hv.ramSize] at hle
    refine ⟨_, _, _, rfl, .plain (fun c hc k => by simp [hroute c hc]) ?_⟩
    rw [readInto_ofNat hle, getD_some, forall₂_map_right_iff]
    refine forall₂_same.mpr fun c hc => ?_
    rw [ReadByte, hroute c hc]
  case unmapped n =>
    exact ⟨_, _, _, rfl, .unmapped h⟩

theorem readLoop_spec (hv : Valid bus) (hfuel : n ≤ fuel) :
    ∃ bytes bus' log, readLoop fuel bus a n = some (bytes, bus', log) ∧
      bus.ReadSpec a n bytes bus' log := by
  induction fuel generalizing bus a n
  case zero =>
    obtain rfl := Nat.le_zero.mp hfuel
    exact ⟨_, _, _, by rw [readLoop], .plain (by simp) .nil⟩
  case succ fuel ih =>
    cases n
    case zero => exact ⟨_, _, _, by rw [readLoop], .plain (by simp) .nil⟩
    case succ n =>
      rw [readLoop]
      split
      case isTrue =>
        obtain ⟨hpos, hle, hok⟩ := hv.nextChunk a (by omega : 0 < n + 1)
        obtain ⟨bytes₁, bus₁, log₁, hread, hfirst⟩ := readChunk_spec hv hok
        obtain ⟨bytes₂, bus₂, log₂, hrest, hspec⟩ :=
          ih (hfirst.sameMap.valid hv) (a := a + (bus.nextChunk a (n + 1)).len)
            (n := n + 1 - (bus.nextChunk a (n + 1)).len) (by omega)
        refine ⟨_, _, _, ?_, by simpa only [Nat.add_sub_cancel' hle] using hfirst.append hspec⟩
        simp [hread, hrest]
      case isFalse ha =>
        have hroute : ∀ c ∈ range' a (n + 1), bus.route c = .open := by
          intro c hc
          rw [mem_range'_1] at hc
          exact hv.route_eq_open (by omega)
        exact ⟨_, _, _, rfl, .unmapped hroute⟩

-- The fast path computes what the loop computes.
theorem readPhysical_eq_readLoop (hv : Valid bus) (paddr : U64) (len : Nat) :
    bus.readPhysical paddr len = readLoop len bus paddr.toNat len := by
  rw [readPhysical]
  split
  case isFalse => rfl
  case isTrue hfast =>
    obtain ⟨hle, hroute⟩ := hv.route_of_ramFastRange hfast.2
    rw [hv.ramSize] at hle
    obtain ⟨bytes, bus', log, hloop, hspec⟩ := readLoop_spec hv (le_refl len)
    obtain ⟨hbytes, hbus, hlog⟩ := hspec.eq_of_ram hroute
    rw [hloop, readInto_eq hle, hbytes, hbus, hlog]
    cases hs : getSlice bus.ram paddr len
    case none => rfl
    case some slice => rw [getSlice_eq hle hs]

end Chunks

section Writes

theorem foldl_putRam_eq_self {ps : List (Nat × U8)} (h : ∀ p ∈ ps, bus.route p.1 ≠ .ram) :
    ps.foldl bus.putRam m = m := by
  induction ps
  case nil => rfl
  case cons p ps ih =>
    rw [foldl_cons, putRam, if_neg (h p mem_cons_self)]
    exact ih fun q hq => h q (mem_cons_of_mem p hq)

variable [MmioHandler σ]

theorem WriteSpec.dropped
    (h : ∀ c ∈ List.range' a src.length, bus.route c ≠ .ram ∧ ∀ k, bus.route c ≠ .mmio k) :
    bus.WriteSpec a src bus [] where
  ram := by
    refine (foldl_putRam_eq_self fun p hp => ?_).symm
    exact (h p.1 (List.of_mem_zip hp).1).1
  bytes := by
    refine forall₂_range'_iff.mpr ⟨rfl, fun j b hb k hk => ?_⟩
    have hj := (List.getElem?_eq_some_iff.mp hb).1
    exact absurd hk ((h _ (List.mem_range'_1.mpr ⟨by omega, by omega⟩)).2 k)
  padded   := by simp
  accesses := .nil fun c hc => (h c hc).2
  served   := .nil
  frame    := rfl

theorem WriteSpec.toRam [LawfulGuestMemory M] (hle : a + src.length ≤ (size bus.ram).toNat)
    (h : ∀ c ∈ List.range' a src.length, bus.route c = .ram) :
    bus.WriteSpec a src { bus with ram := writeFrom bus.ram (BitVec.ofNat 64 a) src } [] where
  ram := by
    have h64 : (BitVec.ofNat 64 a).toNat = a := mod_eq_of_lt (by omega)
    rw [writeFrom_eq (by rw [h64]; exact hle), h64]
    refine List.foldl_ext _ _ _ fun m p hp => ?_
    rw [putRam, if_pos (h p.1 (List.of_mem_zip hp).1)]
  bytes := by
    refine forall₂_range'_iff.mpr ⟨rfl, fun j b hb k hk => ?_⟩
    rw [route_add h (List.getElem?_eq_some_iff.mp hb).1] at hk
    cases hk
  padded   := by simp
  accesses := .nil fun c hc k => by simp [h c hc]
  served   := .nil
  frame    := rfl

theorem WriteSpec.access {value : U64} (hp : bus.Piece k r offset a n) (hsize : n ∈ [1, 2, 4, 8])
    (hdvd : n ∣ offset) (hn : src.length = n) (hvalue : value = BitVec.ofNat 64 (ofLe src))
    (hwrite : MmioHandler.write r.handler offset n value = s) :
    bus.WriteSpec a src { bus with mmioRegions := bus.mmioRegions.set k { r with handler := s } }
      [⟨k, offset, n, value⟩] := by
  subst hn
  have hlen : src.length ≤ 8 := by
    simp only [List.mem_cons, List.not_mem_nil, or_false] at hsize
    omega
  have hnat : value.toNat = ofLe src := by
    have hlt := (ofLe_lt src).trans_le (Nat.pow_le_pow_right (by decide) hlen)
    rw [hvalue]
    exact Nat.mod_eq_of_lt hlt
  refine ⟨?ram, ?bytes, ?padded, .singleton hp hsize hdvd, .cons hp.region hwrite .nil, rfl⟩
  case ram =>
    refine (foldl_putRam_eq_self fun p hp' => ?_).symm
    simp [hp.route p.1 (List.of_mem_zip hp').1]
  case bytes =>
    refine forall₂_range'_iff.mpr ⟨rfl, fun j b hb k' hk' => ?_⟩
    have hj := (List.getElem?_eq_some_iff.mp hb).1
    rw [route_add hp.route hj, Target.mmio.injEq] at hk'
    subst hk'
    refine .singleton hp hj ?_
    rw [hnat, ← hb, ← List.getElem?_take_of_lt hj, take_toLe _ hlen, toLe_ofLe]
  case padded =>
    simpa [hnat] using ofLe_lt src

theorem writeMmioChunk_spec [LawfulGuestMemory M] (hv : Valid bus)
    (hp : bus.Piece k r offset a src.length) (hfuel : src.length ≤ fuel) :
    ∃ bus' log, writeMmioChunk k fuel bus offset src = some (bus', log) ∧
      bus.WriteSpec a src bus' log := by
  induction fuel generalizing bus r offset a src
  case zero =>
    obtain rfl := length_eq_zero_iff.mp (le_zero.mp hfuel)
    exact ⟨_, _, by rw [writeMmioChunk], .dropped (by simp)⟩
  case succ fuel ih =>
    cases src
    case nil => exact ⟨_, _, by rw [writeMmioChunk], .dropped (by simp)⟩
    case cons b src =>
      obtain ⟨hsize, hdvd, hle⟩ := accessSize_spec offset (succ_pos src.length)
      obtain ⟨m, hm⟩ : ∃ m, m = accessSize offset (src.length + 1) := ⟨_, rfl⟩
      rw [← hm] at hsize hdvd hle
      have hpos : 0 < m := by
        simp only [mem_cons, not_mem_nil, or_false] at hsize
        omega
      have hlen : ((b :: src).take m).length = m := by
        rw [length_take, length_cons]
        omega
      have hfirst : bus.WriteSpec a ((b :: src).take m) _ _ :=
        .access (hp.front hle) hsize hdvd hlen rfl rfl
      have hp' := hp.rest hle hfirst.sameMap rfl
      rw [← length_drop] at hp'
      obtain ⟨bus', log, hrest, hspec⟩ := ih (hfirst.sameMap.valid hv) hp' (by
        rw [length_drop]
        omega)
      have happ := hfirst.append hlen hspec
      rw [take_append_drop] at happ
      refine ⟨_, _, ?_, happ⟩
      rw [writeMmioChunk]
      simp only [← hm, hp.region, bind_some, hp.wrappingAdd_eq hv hle, hrest]
      rfl

variable [LawfulGuestMemory M]

theorem writeChunk_spec (hv : Valid bus) (h : bus.ChunkOk a chunk) (hlen : chunk.len ≤ src.length) :
    ∃ bus' log, bus.writeChunk a src chunk = some (bus', log) ∧
      bus.WriteSpec a (src.take chunk.len) bus' log := by
  have htake : (src.take chunk.len).length = chunk.len := by
    rw [length_take, min_eq_left hlen]
  cases chunk
  case mmio k offset n =>
    obtain ⟨r, hr, ha, hstop, hroute⟩ := h
    rw [Chunk.len] at htake ⊢
    rw [← htake] at hstop hroute
    exact writeMmioChunk_spec hv ⟨hr, ha, hstop, hroute⟩ htake.le
  case rom r offset n =>
    obtain ⟨k, -, -, -, hroute⟩ := h
    refine ⟨_, _, rfl, .dropped fun c hc => ?_⟩
    rw [htake] at hc
    simp [hroute c hc]
  case ram n =>
    obtain ⟨hle, hroute⟩ := h
    rw [hv.ramSize] at hle
    exact ⟨_, _, rfl, .toRam (by rw [htake]; exact hle) (by rw [htake]; exact hroute)⟩
  case unmapped n =>
    refine ⟨_, _, rfl, .dropped fun c hc => ?_⟩
    rw [htake] at hc
    simp [h c hc]

theorem writeLoop_spec (hv : Valid bus) (hfuel : src.length ≤ fuel) :
    ∃ bus' log, writeLoop fuel bus a src = some (bus', log) ∧ bus.WriteSpec a src bus' log := by
  induction fuel generalizing bus a src
  case zero =>
    obtain rfl := length_eq_zero_iff.mp (le_zero.mp hfuel)
    exact ⟨_, _, by rw [writeLoop], .dropped (by simp)⟩
  case succ fuel ih =>
    cases src
    case nil => exact ⟨_, _, by rw [writeLoop], .dropped (by simp)⟩
    case cons b src =>
      rw [writeLoop]
      split
      case isTrue =>
        obtain ⟨hpos, hle, hok⟩ := hv.nextChunk a (by omega : 0 < src.length + 1)
        obtain ⟨m, hm⟩ : ∃ m, m = (bus.nextChunk a (src.length + 1)).len := ⟨_, rfl⟩
        rw [← length_cons] at hle
        obtain ⟨bus₁, log₁, hwrite, hfirst⟩ := writeChunk_spec hv hok hle
        rw [length_cons] at hle hfuel
        rw [← hm] at hpos hle hfirst
        have hfuel' : ((b :: src).drop m).length ≤ fuel := by
          rw [length_drop]
          omega
        obtain ⟨bus₂, log₂, hrest, hspec⟩ := ih (a := a + m) (hfirst.sameMap.valid hv) hfuel'
        have happ := hfirst.append (by rw [length_take, length_cons]; omega) hspec
        rw [take_append_drop] at happ
        refine ⟨_, _, ?_, happ⟩
        simp [hwrite, ← hm, hrest]
      case isFalse ha =>
        refine ⟨_, _, rfl, .dropped fun c hc => ?_⟩
        rw [mem_range'_1] at hc
        simp [hv.route_eq_open (by omega : 2 ^ 64 ≤ c)]

theorem ReadSpec.of_readPhysical (hv : Valid bus)
    (h : bus.readPhysical paddr n = some (bytes, bus', log)) :
    bus.ReadSpec paddr.toNat n bytes bus' log := by
  obtain ⟨_, _, _, hloop, hspec⟩ := readLoop_spec hv (le_refl n)
  rw [readPhysical_eq_readLoop hv, hloop] at h
  cases h
  exact hspec

theorem WriteSpec.of_writePhysical (hv : Valid bus)
    (h : bus.writePhysical paddr src = some (bus', log)) :
    bus.WriteSpec paddr.toNat src bus' log := by
  obtain ⟨_, _, hloop, hspec⟩ := writeLoop_spec hv (le_refl src.length)
  rw [writePhysical, hloop] at h
  cases h
  exact hspec

theorem Reachable.valid (h : Reachable mem calls log bus) : Valid bus := by
  induction h
  case new mem => exact .new mem
  case mapRom h ih => exact ih.mapRom h
  case mapMmio h ih => exact ih.mapMmio h
  case read h ih => exact (ReadSpec.of_readPhysical ih h).sameMap.valid ih
  case write h ih => exact (WriteSpec.of_writePhysical ih h).sameMap.valid ih

omit [GuestMemory M] [LawfulGuestMemory M] in
theorem Maps.mapRom (hm : Maps mem calls log bus) (h : bus.mapRom start data = .ok bus') :
    Maps mem (.rom start data :: calls) log bus' := by
  rw [PhysicalMemoryBus.mapRom] at h
  split at h
  case isFalse => cases h
  case isTrue =>
    split at h
    case h_1 => cases h
    case h_2 l hl =>
      obtain rfl := Except.ok.inj h
      exact ⟨hm.ram, (insert_perm hl).trans (hm.roms.cons _), hm.mmios⟩

omit [GuestMemory M] [LawfulGuestMemory M] in
theorem Maps.mapMmio (hm : Maps mem calls log bus) (h : bus.mapMmio start len handler = .ok bus') :
    Maps mem (.mmio start len handler :: calls) log bus' := by
  rw [PhysicalMemoryBus.mapMmio] at h
  split at h
  case isFalse => cases h
  case isTrue =>
    split at h
    case h_1 => cases h
    case h_2 l hl =>
      obtain rfl := Except.ok.inj h
      obtain ⟨devices, hperm, hafter⟩ := hm.mmios
      -- the new device goes to the front, and its region to the place that keeps the list sorted
      have hall : List.Forall₂ (MmioRegion.After log)
          (⟨start.toNat, start.toNat + len.toNat, handler⟩ :: devices)
          (⟨start.toNat, start.toNat + len.toNat, handler⟩ :: bus.mmioRegions) :=
        .cons ⟨rfl, rfl, .refl _ _⟩ hafter
      obtain ⟨devices', hafter', hperm'⟩ := List.perm_comp_forall₂ (insert_perm hl) hall.flip
      exact ⟨hm.ram, hm.roms, devices', hperm'.trans (hperm.cons _), hafter'.flip⟩

omit [LawfulGuestMemory M] in
theorem Maps.readPhysical (hm : Maps mem calls log bus) (h : bus.ReadSpec a n bytes bus' log') :
    Maps mem calls (log ++ log') bus' := by
  obtain ⟨devices, hperm, hafter⟩ := hm.mmios
  refine ⟨?_, h.sameMap.roms ▸ hm.roms, devices, hperm, ?_⟩
  · rw [h.frame]
    exact hm.ram
  · exact after_append hafter (h.served.after fun _ _ _ => .inl)

theorem Maps.writePhysical (hm : Maps mem calls log bus) (h : bus.WriteSpec a src bus' log') :
    Maps (((range' a src.length).zip src).foldl bus.putRam mem) calls (log ++ log') bus' := by
  obtain ⟨devices, hperm, hafter⟩ := hm.mmios
  refine ⟨?_, h.sameMap.roms ▸ hm.roms, devices, hperm, ?_⟩
  · rw [h.ram, hm.ram]
  · exact after_append hafter (h.served.after fun _ _ _ => .inr)

theorem Reachable.maps (h : Reachable mem calls log bus) : Maps mem calls log bus := by
  induction h
  case new mem => exact ⟨rfl, .nil, [], .nil, .nil⟩
  case mapRom h ih => exact ih.mapRom h
  case mapMmio h ih => exact ih.mapMmio h
  case read hreach h ih => exact ih.readPhysical (.of_readPhysical hreach.valid h)
  case write hreach h ih => exact ih.writePhysical (.of_writePhysical hreach.valid h)

-- The bus holds what was mapped. Every request returns, and works on its addresses as the map says.
-- The fast path and the loop agree.
theorem routing (h : Reachable mem calls log bus) :
    bus.Maps mem calls log ∧
    (∀ (paddr : U64) (len : Nat), ∃ bytes bus' log',
      bus.readPhysical paddr len = some (bytes, bus', log') ∧
      readLoop len bus paddr.toNat len = some (bytes, bus', log') ∧
      bus.ReadSpec paddr.toNat len bytes bus' log') ∧
    (∀ (paddr : U64) (src : List U8), ∃ bus' log',
      bus.writePhysical paddr src = some (bus', log') ∧
      bus.WriteSpec paddr.toNat src bus' log') := by
  refine ⟨h.maps, fun paddr len => ?_, fun paddr src => writeLoop_spec h.valid le_rfl⟩
  obtain ⟨bytes, bus', log', hloop, hspec⟩ := readLoop_spec h.valid (le_refl len)
  exact ⟨bytes, bus', log', by rw [readPhysical_eq_readLoop h.valid, hloop], hloop, hspec⟩

end Writes

structure Register where
  value : U64

instance : MmioHandler Register where
  read r _ _ := (r.value, r)
  write _ _ _ v := ⟨v⟩

theorem routing_register :
    ∃ bus : PhysicalMemoryBus DenseMemory Register,
      bus.Maps ⟨replicate 24 0, by decide⟩ [.mmio 10 8 ⟨0⟩, .rom 8 [1, 2, 3, 4]] [] ∧
      bus.route 7 = .ram ∧ bus.route 8 = .rom 0 ∧ bus.route 17 = .mmio 0 ∧ bus.route 24 = .open ∧
      ∀ src : List U8, ∃ bus' log, bus.writePhysical 0 src = some (bus', log) ∧
        bus.WriteSpec 0 src bus' log := by
  have hnew : Reachable _ [] [] (new ⟨replicate 24 0, by decide⟩ :
    PhysicalMemoryBus DenseMemory Register) := .new _
  have hrom := hnew.mapRom (show mapRom _ 8 [1, 2, 3, 4] = .ok _ from rfl)
  have hmmio := hrom.mapMmio (show mapMmio _ 10 8 ⟨0⟩ = .ok _ from rfl)
  exact ⟨_, (routing hmmio).1, by decide, by decide, by decide, by decide, (routing hmmio).2.2 0⟩

end PhysicalMemoryBus

end Aero.Memory
