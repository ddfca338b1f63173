import Aero.Lib.ByteStore
import Aero.Snapshot.Theorems.Confined

namespace Aero.Snapshot

open LeBytes Hoare ByteStore Except

-- Decompression is inverse to compression, and the bound of the library holds.
structure Lz4.Lawful (lz : Lz4) : Prop where
  decompress_compress : ∀ data size payload, lz.compressInto data size = some payload →
    lz.decompress payload = some data
  length_le : ∀ data size payload, lz.compressInto data size = some payload →
    payload.length ≤ lz.getMaximumOutputSize data.length
  size_lt : ∀ len, len ≤ maxChunkSize → lz.getMaximumOutputSize len < 2 ^ 32

def restore (target : Nat → U8) (writes : List RamWrite) : Nat → U8 :=
  writes.foldl (fun ram w => ByteStore.write ram w.1 w.2) target

@[simp]
theorem restore_append (target : Nat → U8) (writes : List RamWrite) (offset : Nat) (data : List U8) :
    restore target (writes ++ [(offset, data)]) =
      write (restore target writes) offset data := by
  rw [restore, List.foldl_append]
  rfl

-- The steps of the decoder on an input that starts with what they expect.
section Steps

variable {s : DecodeState} {f : α → Decode β}

theorem wp_read_bind (h : p.run s.input = .ok (a, rest)) :
    Wp (read p >>= f) R E s ↔ Wp (f a) R E { s with input := rest } := by
  rw [wp_bind, Wp, EStateM.run, read, h]

theorem wp_readU8_bind {f : U8 → Decode β} (h : s.input = v :: rest) :
    Wp (readU8 >>= f) R E s ↔ Wp (f v) R E { s with input := rest } :=
  wp_read_bind (Parse.run_byte_eq_ok_iff.mpr h)

theorem wp_readWord_bind {f : BitVec w → Decode β} (hw : 2 ^ w = 256 ^ n) (hv : v < 2 ^ w)
    (h : s.input = toLe n v ++ rest) :
    Wp (read (Parse.word .io n w) >>= f) R E s ↔
      Wp (f (BitVec.ofNat w v)) R E { s with input := rest } := by
  refine wp_read_bind ((Parse.run_word_eq_ok_iff hw).mpr ?_)
  rw [toNat_ofNat_of_lt hv, h]

theorem wp_readU16Le_bind {f : U16 → Decode β} (hv : v < 2 ^ 16) (h : s.input = toLe 2 v ++ rest) :
    Wp (readU16Le >>= f) R E s ↔ Wp (f (BitVec.ofNat 16 v)) R E { s with input := rest } :=
  wp_readWord_bind (by decide) hv h

theorem wp_readU32Le_bind {f : U32 → Decode β} (hv : v < 2 ^ 32) (h : s.input = toLe 4 v ++ rest) :
    Wp (readU32Le >>= f) R E s ↔ Wp (f (BitVec.ofNat 32 v)) R E { s with input := rest } :=
  wp_readWord_bind (by decide) hv h

theorem wp_readU64Le_bind {f : U64 → Decode β} (hv : v < 2 ^ 64) (h : s.input = toLe 8 v ++ rest) :
    Wp (readU64Le >>= f) R E s ↔ Wp (f (BitVec.ofNat 64 v)) R E { s with input := rest } :=
  wp_readWord_bind (by decide) hv h

theorem wp_readExact_bind {f : List U8 → Decode β} (h : s.input = data ++ rest) :
    Wp (readExact data.length >>= f) R E s ↔ Wp (f data) R E { s with input := rest } :=
  wp_read_bind (Parse.run_take_eq_ok_iff.mpr ⟨h, rfl⟩)

theorem wp_liftM_bind {x : Except SnapshotError α} (h : x = .ok a) :
    Wp ((liftM x : Decode α) >>= f) R E s ↔ Wp (f a) R E s := by
  rw [wp_bind, wp_lift_ok h]

end Steps

section Blocks

variable {lz : Lz4}

theorem returns_writeRam (hanswer : ∀ writes, answer writes = .ok ())
    (hR : R () { s with writes := s.writes ++ [(offset, data)] }) :
    Returns (writeRam answer offset data) R s := by
  rw [Returns, writeRam, wp_bind, wp_modify, wp_bind, wp_get, wp_lift_ok (hanswer _)]
  exact hR

theorem decompressInto_payload (hlz : lz.Lawful) (h : lz.compressInto data size = some payload)
    (houtput : output.length = data.length) : lz.decompressInto payload output = some data := by
  rw [Lz4.decompressInto, hlz.decompress_compress data size payload h]
  simp only [Option.bind_eq_bind, Option.bind_some]
  rw [if_pos houtput.ge, List.drop_eq_nil_of_le houtput.le, List.append_nil]

theorem validate_payload (hlz : lz.Lawful) (h : encodePayload lz compression size data = .ok payload)
    (hdata : data.length ≤ maxChunkSize) :
    payload.length < 2 ^ 32 ∧
      validateCompressedLen lz compression data.length payload.length = .ok () := by
  cases compression
  case none =>
    cases h
    refine ⟨?_, if_neg (not_not.mpr rfl)⟩
    rw [maxChunkSize] at hdata
    omega
  case lz4 =>
    rw [encodePayload] at h
    cases hc : lz.compressInto data (lz.maxCompressedLen size) <;> rw [hc] at h <;> cases h
    have hle := hlz.length_le _ _ _ hc
    have hlt := hlz.size_lt _ hdata
    refine ⟨by omega, if_neg ?_⟩
    rw [Lz4.maxCompressedLen]
    omega

theorem returns_decodePayload (hlz : lz.Lawful) (hanswer : ∀ writes, answer writes = .ok ())
    (h : encodePayload lz compression size data = .ok payload) (hsize : data.length ≤ size)
    (hmax : size ≤ maxChunkSize) (hroom : Room compression size s)
    (hinput : s.input = toLe 4 payload.length ++ (payload ++ rest)) :
    Returns (decodePayload lz answer compression offset data.length)
      (fun _ s' => s'.input = rest ∧ s'.writes = s.writes ++ [(offset, data)] ∧
        Room compression size s') s := by
  obtain ⟨hlt, hvalid⟩ := validate_payload hlz h (hsize.trans hmax)
  refine (wp_readU32Le_bind hlt hinput).mpr ?_
  rw [toNat_ofNat_of_lt hlt]
  refine (wp_liftM_bind hvalid).mpr ((wp_readExact_bind rfl).mpr ?_)
  cases compression
  case none =>
    cases h
    exact returns_writeRam hanswer ⟨rfl, rfl, fun hne => by cases hne⟩
  case lz4 =>
    rw [encodePayload] at h
    cases hc : lz.compressInto data (lz.maxCompressedLen size) <;> rw [hc] at h <;> cases h
    have hout := List.length_take_of_le (hsize.trans (hroom rfl))
    rw [wp_bind, lz4DecompressInto, wp_bind, wp_get, decompressInto_payload hlz hc hout]
    refine returns_writeRam hanswer ⟨rfl, rfl, fun _ => ?_⟩
    have hle := hroom rfl
    dsimp only
    rw [List.length_append, List.length_drop]
    omega

end Blocks

section Loops

theorem lt_of_encodePages (h : encodePages lz readRam compression total size pages = .ok bytes) :
    ∀ page ∈ pages, page * size < 2 ^ 64 ∧ page * size < total := by
  induction pages generalizing bytes
  case nil => exact nofun
  case cons page pages ih =>
    rw [encodePages] at h
    split_ifs at h with hoverflow hrange
    obtain ⟨data, -, h⟩ := bind_eq_ok_iff.mp h
    obtain ⟨payload, -, h⟩ := bind_eq_ok_iff.mp h
    obtain ⟨bytes', hrest, -⟩ := bind_eq_ok_iff.mp h
    rw [List.forall_mem_cons]
    exact ⟨⟨Nat.not_le.mp hoverflow, Nat.not_le.mp hrange⟩, ih hrest⟩

theorem write_page (hpos : 0 < size) (i : Nat) :
    write target (page * size)
      (ByteStore.read ram (page * size) (min (total - page * size) size)) i =
      if i < total ∧ i / size = page then ram i else target i := by
  have hdiv : i / size = page ↔ page * size ≤ i ∧ i < page * size + size := by
    rw [Nat.div_eq_iff hpos]
    omega
  split_ifs with hi
  · obtain ⟨hlt, hpage⟩ := hi
    obtain ⟨hle, hlt'⟩ := hdiv.mp hpage
    obtain ⟨j, rfl⟩ := Nat.exists_eq_add_of_le hle
    rw [write, if_pos hle, Nat.add_sub_cancel_left, getElem?_read (by omega)]
    rfl
  · refine write_of_disjoint ?_
    rw [length_read]
    omega

variable {lz : Lz4} {answer : List RamWrite → Except SnapshotError Unit} {ram : Nat → U8}
  {readRam : Nat → Nat → Except SnapshotError (List U8)} (hlz : lz.Lawful)
  (hanswer : ∀ writes, answer writes = .ok ())
  (hread : ∀ offset len data, readRam offset len = .ok data → data = ByteStore.read ram offset len)
include hlz hanswer hread

-- By induction on the rounds. The rest of the RAM is written from the offset on.
theorem returns_decodeFullLoop (hpos : 0 < size) (hmax : size ≤ maxChunkSize)
    (hrounds : total ≤ offset + rounds) (hroom : Room compression size s)
    (h : encodeFullLoop lz readRam compression total size rounds offset = .ok bytes)
    (hinput : s.input = bytes ++ rest) :
    Returns (decodeFullLoop lz answer compression total size rounds offset)
      (fun _ s' => s'.input = rest ∧ ∀ target, restore target s'.writes =
        write (restore target s.writes) offset (ByteStore.read ram offset (total - offset)))
      s := by
  induction rounds generalizing s offset bytes
  case zero =>
    cases h
    have hzero : total - offset = 0 := by omega
    exact ⟨hinput, fun target => by simp [hzero, ByteStore.read]⟩
  case succ rounds ih =>
    rw [encodeFullLoop] at h
    rw [decodeFullLoop]
    split_ifs at h ⊢ with hlt
    case neg =>
      cases h
      have hzero : total - offset = 0 := by omega
      exact ⟨hinput, fun target => by simp [hzero, ByteStore.read]⟩
    obtain ⟨data, hdata, h⟩ := bind_eq_ok_iff.mp h
    obtain rfl := hread _ _ _ hdata
    obtain ⟨len, hlen⟩ : ∃ len, len = min (total - offset) size := ⟨_, rfl⟩
    rw [← hlen] at h ⊢
    split_ifs at h with hlarge
    obtain ⟨payload, hpayload, h⟩ := bind_eq_ok_iff.mp h
    split_ifs at h
    obtain ⟨bytes', hrest, h⟩ := bind_eq_ok_iff.mp h
    cases h
    simp only [List.append_assoc] at hinput
    have hlen32 := Nat.not_le.mp hlarge
    refine (wp_readU32Le_bind hlen32 hinput).mpr ?_
    rw [toNat_ofNat_of_lt hlen32, if_neg (not_not.mpr rfl)]
    have hroom₁ : Room compression size
        { s with input := toLe 4 payload.length ++ (payload ++ (bytes' ++ rest)) } := hroom
    have hle : (ByteStore.read ram offset len).length ≤ size := by
      rw [length_read]
      omega
    have hblock : Returns (decodePayload lz answer compression offset _) _ _ :=
      returns_decodePayload hlz hanswer hpayload hle hmax hroom₁ rfl
    rw [length_read] at hblock
    refine hblock.bind fun _ s' hs' => ?_
    obtain ⟨hinput', hwrites', hroom'⟩ := hs'
    refine (ih (by omega) hroom' hrest hinput').mono fun _ s'' hs'' => ⟨hs''.1, fun target => ?_⟩
    have hsplit : total - offset = len + (total - (offset + len)) := by omega
    rw [hs''.2 target, hwrites', restore_append, hsplit, read_append, write_append, length_read]

theorem returns_decodeFull (hpos : opts.chunkSize ≠ 0) (hmax : opts.chunkSize.toNat ≤ maxChunkSize)
    (h : encodeFull lz readRam total opts = .ok bytes) (hinput : s.input = bytes ++ rest) :
    Returns (decodeFull lz answer total opts.compression)
      (fun _ s' => s'.input = rest ∧ ∀ target, restore target s'.writes =
        write (restore target s.writes) 0 (ByteStore.read ram 0 total)) s := by
  obtain ⟨chunks, hchunks, h⟩ := bind_eq_ok_iff.mp h
  cases h
  refine (wp_readU32Le_bind opts.chunkSize.isLt hinput).mpr ?_
  rw [BitVec.ofNat_toNat, BitVec.setWidth_eq, if_neg (not_or.mpr ⟨hpos, Nat.not_lt.mpr hmax⟩),
    wp_bind]
  refine wp_allocDecompressed fun decompressed hroom => ?_
  have hpos' := Nat.pos_of_ne_zero fun h => hpos (BitVec.eq_of_toNat_eq h)
  exact returns_decodeFullLoop hlz hanswer hread hpos' hmax (by omega) hroom hchunks rfl

theorem returns_decodePages (hpos : 0 < size) (hmax : size ≤ maxPageSize)
    (hsorted : pages.Pairwise (· < ·)) (hprev : ∀ page ∈ pages, nextPage prev ≤ page) (hroom : Room compression size s)
    (h : encodePages lz readRam compression total size pages = .ok bytes)
    (hinput : s.input = bytes ++ rest) :
    Returns (decodePages lz answer compression total size pages.length prev)
      (fun _ s' => s'.input = rest ∧ ∀ target i, restore target s'.writes i =
        if i < total ∧ i / size ∈ pages then ram i else restore target s.writes i) s := by
  induction pages generalizing s prev bytes
  case nil =>
    cases h
    exact ⟨hinput, fun target i => by simp⟩
  case cons page pages ih =>
    obtain ⟨hpage, -⟩ := List.forall_mem_cons.mp (lt_of_encodePages h)
    rw [encodePages] at h
    split_ifs at h
    obtain ⟨data, hdata, h⟩ := bind_eq_ok_iff.mp h
    obtain rfl := hread _ _ _ hdata
    obtain ⟨payload, hpayload, h⟩ := bind_eq_ok_iff.mp h
    obtain ⟨bytes', hrest, h⟩ := bind_eq_ok_iff.mp h
    cases h
    simp only [List.append_assoc] at hinput
    rw [List.pairwise_cons] at hsorted
    rw [List.forall_mem_cons] at hprev
    have hmax' : size ≤ maxChunkSize := hmax.trans (by decide)
    have hsize32 : size < 2 ^ 32 := hmax'.trans_lt (by decide)
    have hpage64 : page < 2 ^ 64 := (Nat.le_mul_of_pos_right page hpos).trans_lt hpage.1
    obtain ⟨len, hlen⟩ : ∃ len, len = min (total - page * size) size := ⟨_, rfl⟩
    rw [← hlen] at hpayload hinput
    have hlen32 : len < 2 ^ 32 := by omega
    have hincreasing : ¬prev.any (page ≤ ·) := by
      cases prev
      case none => exact nofun
      case some prev =>
        have hlt : prev < page := hprev.1
        simpa using hlt
    refine (wp_readU64Le_bind hpage64 hinput).mpr ?_
    rw [toNat_ofNat_of_lt hpage64, if_neg hincreasing, if_neg (Nat.not_le.mpr hpage.1),
      if_neg (Nat.not_le.mpr hpage.2)]
    refine (wp_readU32Le_bind hlen32 rfl).mpr ?_
    rw [toNat_ofNat_of_lt hlen32, if_neg (not_not.mpr hlen)]
    have hroom₁ : Room compression size
        { s with input := toLe 4 payload.length ++ (payload ++ (bytes' ++ rest)) } := hroom
    have hle : (ByteStore.read ram (page * size) len).length ≤ size := by
      rw [length_read]
      omega
    have hblock : Returns (decodePayload lz answer compression (page * size) _) _ _ :=
      returns_decodePayload hlz hanswer hpayload hle hmax' hroom₁ rfl
    rw [length_read] at hblock
    refine hblock.bind fun _ s' hs' => ?_
    obtain ⟨hinput', hwrites', hroom'⟩ := hs'
    have hnext : ∀ page' ∈ pages, nextPage (some page) ≤ page' := hsorted.1
    refine (ih hsorted.2 hnext hroom' hrest hinput').mono fun _ s'' hs'' =>
      ⟨hs''.1, fun target i => ?_⟩
    rw [hs''.2 target i, hwrites', restore_append, hlen, write_page hpos]
    generalize i / size = j
    by_cases hlt : i < total <;> by_cases hmem : j ∈ pages <;> simp [hlt, hmem]

end Loops

section Pages

theorem mem_dedup : x ∈ dedup l ↔ x ∈ l := by
  fun_induction dedup l
  case case1 b l ih => simp [ih]
  case case2 a b l hne ih => simp [ih]
  case case3 => rfl

theorem dedup_sorted (h : l.Pairwise (· ≤ ·)) : (dedup l).Pairwise (· < ·) := by
  fun_induction dedup l
  case case1 b l ih => exact ih (List.pairwise_cons.mp h).2
  case case2 a b l hne ih =>
    obtain ⟨hle, hsorted⟩ := List.pairwise_cons.mp h
    refine List.pairwise_cons.mpr ⟨fun x hx => ?_, ih hsorted⟩
    have hab := lt_of_le_of_ne (hle b List.mem_cons_self) hne
    rcases List.mem_cons.mp (mem_dedup.mp hx) with rfl | hx
    · exact hab
    · exact hab.trans_le ((List.pairwise_cons.mp hsorted).1 x hx)
  case case3 l hl =>
    rcases l with _ | ⟨a, _ | ⟨b, l⟩⟩
    · exact .nil
    · exact List.pairwise_singleton ..
    · exact absurd rfl (hl a b l)

theorem sortedPages_sorted (pages : List U64) : (sortedPages pages).Pairwise (· < ·) :=
  dedup_sorted (List.pairwise_insertionSort ..)

theorem mem_sortedPages : page ∈ sortedPages pages ↔ ∃ p ∈ pages, p.toNat = page := by
  rw [sortedPages, mem_dedup, (List.perm_insertionSort ..).mem_iff, List.mem_map]

theorem length_le_of_lt {pages : List Nat} (hpos : 0 < size) (hsorted : pages.Pairwise (· < ·))
    (hlt : ∀ page ∈ pages, page * size < total) : pages.length ≤ (total + (size - 1)) / size := by
  have hnodup : pages.Nodup := hsorted.imp fun h => h.ne
  have hsub : pages ⊆ List.range ((total + (size - 1)) / size) := by
    intro page hpage
    have hpage := hlt page hpage
    rw [List.mem_range, Nat.lt_div_iff_mul_lt hpos]
    omega
  have hlen := (hnodup.subperm hsub).length_le
  rwa [List.length_range] at hlen

end Pages

end Aero.Snapshot
