import Aero.Snapshot.Theorems.Ram

namespace Aero.Snapshot

open LeBytes Hoare ByteStore Nat

variable {lz : Lz4} {answer : List RamWrite → Except SnapshotError Unit} {s : DecodeState}
  {total : U64} {opts : RamWriteOptions} {bytes rest : List U8}
  {readRam : Nat → Nat → Except SnapshotError (List U8)} {ram : Nat → U8}

-- The decoder computes the number of pages by rounding up, which can overflow.
def PagesFit (total pageSize : Nat) : Prop :=
  total + (pageSize - 1) < 2 ^ 64
  deriving Decidable

theorem returns_decodeDirty (hlz : lz.Lawful) (hanswer : ∀ writes, answer writes = .ok ())
    (hread : ∀ offset len data, readRam offset len = .ok data → data = ByteStore.read ram offset len)
    {total : Nat} (hpos : 0 < opts.pageSize.toNat) (hmax : opts.pageSize.toNat ≤ maxPageSize)
    (h : encodeDirty lz readRam total opts dirtyPages = .ok bytes)
    (hfit : PagesFit total opts.pageSize.toNat) (hinput : s.input = bytes ++ rest) :
    Returns (decodeDirty lz answer total opts.pageSize.toNat opts.compression)
      (fun _ s' => s'.input = rest ∧ ∀ target i, restore target s'.writes i =
        if i < total ∧ i / opts.pageSize.toNat ∈ sortedPages dirtyPages then ram i
        else restore target s.writes i) s := by
  rw [encodeDirty] at h
  split_ifs at h with hcount
  obtain ⟨encoded, hpages, h⟩ := Except.bind_eq_ok_iff.mp h
  cases h
  have hsorted := sortedPages_sorted dirtyPages
  have hlt := lt_of_encodePages hpages
  have hle := length_le_of_lt hpos hsorted fun page hpage => (hlt page hpage).2
  refine (wp_readU64Le_bind (not_le.mp hcount) hinput).mpr ?_
  rw [toNat_ofNat_of_lt (not_le.mp hcount), if_neg (not_le.mpr hfit),
    if_neg (not_lt.mpr hle), wp_bind]
  refine wp_allocDecompressed fun decompressed hroom => ?_
  exact returns_decodePages hlz hanswer hread hpos hmax hsorted (fun _ _ => zero_le _) hroom
    hpages rfl

theorem encodeRamSection_eq_ok (h : encodeRamSection lz readRam total opts dirtyPages = .ok bytes) :
    (opts.pageSize ≠ 0 ∧ opts.pageSize.toNat ≤ maxPageSize) ∧
    (opts.chunkSize ≠ 0 ∧ opts.chunkSize.toNat ≤ maxChunkSize) ∧
    ∃ body, bytes = encodeHeader total opts ++ body ∧
      ((opts.mode = .full ∧ encodeFull lz readRam total.toNat opts = .ok body) ∨
      (opts.mode = .dirty ∧ ∃ pages, dirtyPages = some pages ∧
        encodeDirty lz readRam total.toNat opts pages = .ok body)) := by
  rw [encodeRamSection] at h
  split_ifs at h with hpage hchunk
  obtain ⟨body, hbody, h⟩ := Except.bind_eq_ok_iff.mp h
  cases h
  rw [not_or, not_lt] at hpage hchunk
  refine ⟨hpage, hchunk, body, rfl, ?_⟩
  cases hmode : opts.mode <;> simp only [encodeBody, hmode] at hbody
  case full => exact .inl ⟨rfl, hbody⟩
  case dirty =>
    cases dirtyPages
    case none => cases hbody
    case some pages => exact .inr ⟨rfl, pages, rfl, hbody⟩

theorem fromU8_mode (mode : RamMode) : RamMode.fromU8 mode.toU8 = .ok mode := by
  cases mode <;> rfl

theorem fromU8_compression (compression : Compression) :
    Compression.fromU8 compression.toU8 = .ok compression := by
  cases compression <;> rfl

theorem wp_decodeHeader (hpos : opts.pageSize ≠ 0) (hmax : opts.pageSize.toNat ≤ maxPageSize)
    (hinput : s.input = encodeHeader total opts ++ body) :
    Wp (decodeRamSectionInto lz answer total) Q E s ↔
      Wp (decodeBody lz answer opts.mode total.toNat opts.pageSize.toNat opts.compression) Q E
        { s with input := body } := by
  rw [decodeRamSectionInto, wp_readU64Le_bind total.isLt hinput, BitVec.ofNat_toNat,
    BitVec.setWidth_eq, if_neg (not_not.mpr rfl), wp_readU32Le_bind opts.pageSize.isLt rfl,
    BitVec.ofNat_toNat, BitVec.setWidth_eq, if_neg (not_or.mpr ⟨hpos, not_lt.mpr hmax⟩),
    wp_readU8_bind rfl, wp_liftM_bind (fromU8_mode _), wp_readU8_bind rfl,
    wp_liftM_bind (fromU8_compression _), wp_readU16Le_bind (by decide) rfl]

def Holds (total : U64) (opts : RamWriteOptions) (dirtyPages : Option (List U64)) (i : Nat) : Prop :=
  i < total.toNat ∧ (opts.mode = .dirty → ∃ page ∈ dirtyPages.getD [],
    page.toNat = i / opts.pageSize.toNat)

-- The decoder accepts a section and restores the bytes that it holds, and only these.
structure RoundTrips (lz : Lz4) (answer : List RamWrite → Except SnapshotError Unit) (ram : Nat → U8)
    (total : U64) (opts : RamWriteOptions) (dirtyPages : Option (List U64)) (bytes : List U8) :
    Prop where
  returns : ∀ rest, Returns (decodeRamSectionInto lz answer total)
    (fun _ s => s.input = rest ∧ ∀ target i,
      (Holds total opts dirtyPages i → restore target s.writes i = ram i) ∧
      (¬Holds total opts dirtyPages i → restore target s.writes i = target i))
    ⟨bytes ++ rest, [], []⟩

section RoundTrip

variable (hlz : lz.Lawful)
  (hread : ∀ offset len data, readRam offset len = .ok data → data = ByteStore.read ram offset len)
  (hanswer : ∀ writes, answer writes = .ok ())
  (h : encodeRamSection lz readRam total opts dirtyPages = .ok bytes)

include hlz hread hanswer h

theorem roundTrips_of_full (hmode : opts.mode = .full) (pages : Option (List U64)) :
    RoundTrips lz answer ram total opts pages bytes := by
  refine ⟨fun rest => ?_⟩
  obtain ⟨⟨hpos, hmax⟩, ⟨hchunk, hchunkMax⟩, body, rfl, hbody⟩ := encodeRamSection_eq_ok h
  rw [Returns, wp_decodeHeader hpos hmax (List.append_assoc ..), hmode]
  rcases hbody with ⟨-, hbody⟩ | ⟨hdirty, -⟩
  · have hdecode := returns_decodeFull (s := ⟨body ++ rest, [], []⟩) hlz hanswer hread hchunk
      hchunkMax hbody rfl
    refine hdecode.mono fun _ s hs => ⟨hs.1, fun target i => ⟨fun hi => ?_, fun hi => ?_⟩⟩
    · rw [hs.2 target, write, Nat.sub_zero, getElem?_read hi.1, Nat.zero_add]
      rfl
    · have hge : total.toNat ≤ i := by
        by_contra hlt
        exact hi ⟨Nat.not_le.mp hlt, fun hdirty => by rw [hmode] at hdirty; cases hdirty⟩
      rw [hs.2 target, write_of_le (by rw [length_read]; omega)]
      rfl
  · rw [hmode] at hdirty
    cases hdirty

theorem roundTrips_of_dirty (hmode : opts.mode = .dirty)
    (hfit : PagesFit total.toNat opts.pageSize.toNat) :
    RoundTrips lz answer ram total opts dirtyPages bytes := by
  refine ⟨fun rest => ?_⟩
  obtain ⟨⟨hpos, hmax⟩, -, body, rfl, hbody⟩ := encodeRamSection_eq_ok h
  rw [Returns, wp_decodeHeader hpos hmax (List.append_assoc ..), hmode]
  rcases hbody with ⟨hfull, -⟩ | ⟨-, pages, rfl, hbody⟩
  · rw [hmode] at hfull
    cases hfull
  · have hpos' := Nat.pos_of_ne_zero fun hzero => hpos (BitVec.eq_of_toNat_eq hzero)
    have hdecode := returns_decodeDirty (s := ⟨body ++ rest, [], []⟩) hlz hanswer hread hpos' hmax
      hbody hfit rfl
    refine hdecode.mono fun _ s hs => ⟨hs.1, fun target i => ?_⟩
    have hholds : Holds total opts (some pages) i ↔
        i < total.toNat ∧ i / opts.pageSize.toNat ∈ sortedPages pages := by
      rw [Holds, mem_sortedPages, hmode]
      simp
    rw [hholds, hs.2 target i]
    exact ⟨fun hi => if_pos hi, fun hi => if_neg hi⟩

end RoundTrip

-- The writes are inside of the RAM, and no byte is written by two of them.
structure Confined (total : Nat) (writes : List RamWrite) : Prop where
  inside : ∀ w ∈ writes, w.stop ≤ total
  once : writes.Pairwise fun v w => ∀ i, v.1 ≤ i → i < v.stop → ¬(w.1 ≤ i ∧ i < w.stop)

theorem Below.confined {total : Nat} (h : Below total writes) : Confined total writes :=
  ⟨h.stop_le, h.ordered.imp fun hle i _ hlt hw => by omega⟩

theorem saveRamSection_eq_ok (h : saveRamSection lz readRam total opts dirtyPages = .ok bytes) :
    opts.mode = .full ∧ encodeRamSection lz readRam total opts none = .ok bytes ∨
      opts.mode = .dirty ∧ PagesFit total.toNat opts.pageSize.toNat ∧
        encodeRamSection lz readRam total opts dirtyPages = .ok bytes := by
  unfold saveRamSection at h
  split at h
  case h_1 hmode => exact .inl ⟨hmode, h⟩
  case h_2 => cases h
  case h_3 hmode =>
    dsimp only at h
    split_ifs at h with hzero hfit hrange
    exact .inr ⟨hmode, not_le.mp hfit, h⟩

-- A section that is saved is restored, and the writes of the decoder are confined for every input.
theorem ram_section (lz : Lz4) (hlz : lz.Lawful) :
    (∀ ram readRam answer total opts dirtyPages bytes,
      (∀ offset len data, readRam offset len = .ok data → data = ByteStore.read ram offset len) →
      (∀ writes, answer writes = .ok ()) →
      saveRamSection lz readRam total opts dirtyPages = .ok bytes →
      RoundTrips lz answer ram total opts dirtyPages bytes) ∧
    ∀ answer total input, Wp (decodeRamSectionInto lz answer total)
      (fun _ s => Confined total.toNat s.writes) (fun _ s => Confined total.toNat s.writes)
      ⟨input, [], []⟩ := by
  refine ⟨fun ram readRam answer total opts dirtyPages bytes hread hanswer h => ?_,
    fun answer total input => ?_⟩
  · rcases saveRamSection_eq_ok h with ⟨hmode, hencode⟩ | ⟨hmode, hfit, hencode⟩
    · exact roundTrips_of_full hlz hread hanswer hencode hmode dirtyPages
    · exact roundTrips_of_dirty hlz hread hanswer hencode hmode hfit
  · exact (wp_decodeRamSectionInto total rfl).mono (fun _ _ h => h.confined) fun _ _ h => h.confined

-- `lz4_flex` writes a block of fewer than 13 bytes as literals: a token with their number, and the
-- bytes.
def literals : Lz4 where
  compressInto data size :=
    if data.length < 13 ∧ data.length < size then some (BitVec.ofNat 8 (data.length * 16) :: data)
    else none
  decompress
    | []           => none
    | token :: data => if token.toNat = data.length * 16 then some data else none
  getMaximumOutputSize len := 16 + 4 + len * 11 / 10

theorem literals_compressInto {size : Nat} (h : literals.compressInto data size = some payload) :
    data.length < 13 ∧ payload = BitVec.ofNat 8 (data.length * 16) :: data := by
  simp only [literals, Option.ite_none_right_eq_some, Option.some.injEq] at h
  exact ⟨h.1.1, h.2.symm⟩

theorem literals_lawful : literals.Lawful where
  decompress_compress data size payload h := by
    obtain ⟨hlt, rfl⟩ := literals_compressInto h
    exact if_pos (toNat_ofNat_of_lt (by omega))
  length_le data size payload h := by
    obtain ⟨hlt, rfl⟩ := literals_compressInto h
    simp only [literals, List.length_cons]
    omega
  size_lt len h := by
    simp only [literals, maxChunkSize] at h ⊢
    omega

def counting (offset len : Nat) : Except SnapshotError (List U8) :=
  .ok (ByteStore.read (BitVec.ofNat 8) offset len)

def shortPage : RamWriteOptions := ⟨.dirty, .lz4, 2, 1⟩

theorem ram_section_short_page :
    saveRamSection literals counting 5 shortPage (some [2, 0, 2]) = .ok (encodeHeader 5 shortPage ++
        (toLe 8 2 ++ (toLe 8 0 ++ toLe 4 2 ++ toLe 4 3 ++ [0x20, 0, 1] ++
          (toLe 8 2 ++ toLe 4 1 ++ toLe 4 2 ++ [0x10, 4])))) ∧
      RoundTrips literals (fun _ => .ok ()) (BitVec.ofNat 8) 5 shortPage (some [2, 0, 2])
        (encodeHeader 5 shortPage ++
          (toLe 8 2 ++ (toLe 8 0 ++ toLe 4 2 ++ toLe 4 3 ++ [0x20, 0, 1] ++
            (toLe 8 2 ++ toLe 4 1 ++ toLe 4 2 ++ [0x10, 4])))) := by
  have hsave : saveRamSection literals counting 5 shortPage (some [2, 0, 2]) =
      .ok (encodeHeader 5 shortPage ++
        (toLe 8 2 ++ (toLe 8 0 ++ toLe 4 2 ++ toLe 4 3 ++ [0x20, 0, 1] ++
          (toLe 8 2 ++ toLe 4 1 ++ toLe 4 2 ++ [0x10, 4])))) := by decide
  exact ⟨hsave, (ram_section literals literals_lawful).1 (BitVec.ofNat 8) counting
    (fun _ => .ok ()) 5 shortPage (some [2, 0, 2]) _ (fun _ _ _ h => (Except.ok.inj h).symm)
    (fun _ => rfl) hsave⟩

end Aero.Snapshot
