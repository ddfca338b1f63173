import Aero.Snapshot.Dirty
import Aero.Snapshot.Theorems.RamSection

namespace Aero.Snapshot

open Hoare Nat Except
open DirtyGuestMemory (new saveChain saveRam store)

variable {lz : Lz4} {mem mem' : DirtyGuestMemory} {size : U64} {pageSize : U32} {i page : Nat}
  {target : Nat → U8} {opts : RamWriteOptions} {bytes : List U8}

namespace DirtyBitmap

variable {bm : DirtyBitmap} {bits : List BitSet.Word}

def dirty (self : DirtyBitmap) (page : Nat) : Bool :=
  BitSet.mem self.bits page

theorem length_setPage : (setPage bits page).length = bits.length := by
  rw [setPage]
  cases h : BitSet.set bits page true
  case none => rfl
  case some bits' => exact BitSet.length_set h

theorem mem_setPage (hlt : page < 64 * bits.length) :
    BitSet.mem (setPage bits page) i = (decide (i = page) || BitSet.mem bits i) := by
  obtain ⟨bits', h⟩ := BitSet.set_isSome hlt
  rw [setPage, h, Option.getD_some, BitSet.mem_set h]
  by_cases hi : i = page <;> simp [hi]

theorem mem_setPages {pages : List Nat} (hlt : ∀ page ∈ pages, page < 64 * bits.length) :
    (pages.foldl setPage bits).length = bits.length ∧
      BitSet.mem (pages.foldl setPage bits) i = (decide (i ∈ pages) || BitSet.mem bits i) := by
  induction pages generalizing bits
  case nil => simp
  case cons page pages ih =>
    have hlt' : ∀ p ∈ pages, p < 64 * (setPage bits page).length := by
      intro p hp
      rw [length_setPage]
      exact hlt p (List.mem_cons_of_mem page hp)
    obtain ⟨hlen, hmem⟩ := ih hlt'
    rw [List.foldl_cons, hlen, hmem, length_setPage, mem_setPage (hlt page List.mem_cons_self)]
    refine ⟨rfl, ?_⟩
    by_cases hi : i = page <;> simp [hi]

structure Tracks (bm : DirtyBitmap) (size : U64) (pageSize : U32) : Prop where
  pageSize_eq : bm.pageSize = pageSize.toNat
  pages_eq : bm.pages = (new size pageSize).pages
  room : bm.pages ≤ 64 * bm.bits.length

theorem tracks_new (size : U64) (pageSize : U32) : (new size pageSize).Tracks size pageSize := by
  refine ⟨rfl, rfl, ?_⟩
  simp only [new, List.length_replicate]
  omega

theorem pages_new (hfit : PagesFit size.toNat pageSize.toNat) :
    (new size pageSize).pages = (size.toNat + (pageSize.toNat - 1)) / pageSize.toNat := by
  rw [PagesFit] at hfit
  simp only [new, hfit, if_true]

theorem Tracks.lt_pages (h : bm.Tracks size pageSize) (hpage : pageSize ≠ 0)
    (hfit : PagesFit size.toNat pageSize.toNat) (hi : i < size.toNat) :
    i / bm.pageSize < bm.pages := by
  have hpos := Nat.pos_of_ne_zero fun hzero => hpage (BitVec.eq_of_toNat_eq hzero)
  rw [h.pages_eq, h.pageSize_eq, pages_new hfit, Nat.div_lt_iff_lt_mul hpos]
  have hdiv := Nat.div_add_mod (size.toNat + (pageSize.toNat - 1)) pageSize.toNat
  have hmod := Nat.mod_lt (size.toNat + (pageSize.toNat - 1)) hpos
  rw [Nat.mul_comm] at hdiv
  omega

theorem markRange_eq (bm : DirtyBitmap) (hstop : start.toNat + len < 2 ^ 64) :
    ∃ pages : List Nat, bm.markRange start len = { bm with bits := pages.foldl setPage bm.bits } ∧
      (∀ page ∈ pages, page < bm.pages) ∧
      ∀ i, start.toNat ≤ i → i < start.toNat + len → i / bm.pageSize < bm.pages →
        i / bm.pageSize ∈ pages := by
  simp only [markRange]
  by_cases hnone : len = 0 ∨ bm.pages = 0
  case pos =>
    rw [if_pos hnone]
    refine ⟨[], rfl, fun _ h => (List.not_mem_nil h).elim, fun i h₁ h₂ h₃ => ?_⟩
    rcases hnone with hlen | hpages
    · omega
    · rw [hpages] at h₃
      exact (Nat.not_lt_zero _ h₃).elim
  case neg =>
    rw [if_neg hnone]
    by_cases hout : start.toNat / bm.pageSize ≥ bm.pages
    case pos =>
      rw [if_pos hout]
      refine ⟨[], rfl, fun _ h => (List.not_mem_nil h).elim, fun i h₁ _ h₃ => ?_⟩
      have := Nat.div_le_div_right (c := bm.pageSize) h₁
      omega
    case neg =>
      rw [if_neg hout]
      refine ⟨_, rfl, fun page hp => ?_, fun i h₁ h₂ h₃ => ?_⟩
      · rw [List.mem_range'_1] at hp
        omega
      · have hfirst := Nat.div_le_div_right (c := bm.pageSize) h₁
        have hlast : i / bm.pageSize ≤ (min (start.toNat + len) (2 ^ 64 - 1) - 1) / bm.pageSize :=
          Nat.div_le_div_right (by omega)
        rw [List.mem_range'_1]
        omega

theorem Tracks.markRange (h : bm.Tracks size pageSize) (hstop : start.toNat + len < 2 ^ 64) :
    (bm.markRange start len).Tracks size pageSize := by
  obtain ⟨pages, heq, hlt, -⟩ := bm.markRange_eq hstop
  have hroom := h.room
  rw [heq]
  refine ⟨h.pageSize_eq, h.pages_eq, ?_⟩
  rw [(mem_setPages (i := 0) fun page hp => (hlt page hp).trans_le hroom).1]
  exact hroom

theorem Tracks.clean_of_markRange (h : bm.Tracks size pageSize)
    (hstop : start.toNat + len < 2 ^ 64) (hpage : i / bm.pageSize < bm.pages)
    (hclean : (bm.markRange start len).dirty (i / bm.pageSize) = false) :
    bm.dirty (i / bm.pageSize) = false ∧ (i < start.toNat ∨ start.toNat + len ≤ i) := by
  obtain ⟨pages, heq, hlt, hin⟩ := bm.markRange_eq hstop
  rw [heq, dirty, (mem_setPages fun page hp => (hlt page hp).trans_le h.room).2, Bool.or_eq_false_iff,
    decide_eq_false_iff_not] at hclean
  refine ⟨hclean.2, ?_⟩
  by_contra hrange
  rw [not_or, not_lt, not_le] at hrange
  exact hclean.1 (hin i hrange.1 hrange.2 hpage)

theorem Tracks.take (h : bm.Tracks size pageSize) : bm.take.2.Tracks size pageSize :=
  ⟨h.pageSize_eq, h.pages_eq, by rw [DirtyBitmap.take, List.length_map]; exact h.room⟩

theorem mem_take_of_dirty (hlt : page < bm.pages) (hsmall : page < 2 ^ 64)
    (hdirty : bm.dirty page = true) : ∃ p ∈ bm.take.1, p.toNat = page := by
  refine ⟨BitVec.ofNat 64 page, List.mem_map.mpr ⟨page, ?_, rfl⟩, LeBytes.toNat_ofNat_of_lt hsmall⟩
  rw [List.mem_filter, BitSet.mem_elems]
  exact ⟨⟨zero_le _, hdirty⟩, decide_eq_true hlt⟩

end DirtyBitmap

-- The bytes that have changed since `target` was saved are in dirty pages.
def Synced (target : Nat → U8) (mem : DirtyGuestMemory) : Prop :=
  ∀ i < mem.size.toNat, mem.bitmap.dirty (i / mem.bitmap.pageSize) = false → target i = mem.ram i

theorem store_synced (ht : mem.bitmap.Tracks mem.size pageSize) (hpage : pageSize ≠ 0)
    (hfit : PagesFit mem.size.toNat pageSize.toNat)
    (hrange : paddr.toNat + data.length ≤ mem.size.toNat) (h : Synced target mem) :
    Synced target (mem.store paddr data) := by
  intro i hi hclean
  have hstop := hrange.trans_lt mem.size.isLt
  obtain ⟨pages, heq, -, -⟩ := mem.bitmap.markRange_eq hstop
  have hsize : (mem.store paddr data).bitmap.pageSize = mem.bitmap.pageSize := by
    rw [store, heq]
  rw [hsize] at hclean
  obtain ⟨hbefore, hout⟩ := ht.clean_of_markRange hstop (ht.lt_pages hpage hfit hi) hclean
  exact (h i hi hbefore).trans (ByteStore.write_of_disjoint hout).symm

theorem access_cases (mem : DirtyGuestMemory) (a : Access) :
    mem.access a = mem ∨ ∃ paddr data, paddr.toNat + data.length ≤ mem.size.toNat ∧
      mem.access a = mem.store paddr data := by
  cases a
  case writeFrom paddr src =>
    rw [DirtyGuestMemory.access]
    split
    case isTrue h => exact .inr ⟨paddr, src, of_decide_eq_true h, rfl⟩
    case isFalse => exact .inl rfl
  case sliceMut paddr contents =>
    rw [DirtyGuestMemory.access]
    split
    case isTrue h => exact .inr ⟨paddr, contents, of_decide_eq_true h.1, rfl⟩
    case isFalse => exact .inl rfl

structure Tracked (mem : DirtyGuestMemory) (size : U64) (pageSize : U32) : Prop where
  size_eq : mem.size = size
  tracks : mem.bitmap.Tracks size pageSize

theorem Tracked.access (h : Tracked mem size pageSize) (a : Access) :
    Tracked (mem.access a) size pageSize := by
  obtain heq | ⟨paddr, data, hrange, heq⟩ := access_cases mem a
  · rw [heq]
    exact h
  · rw [heq]
    exact ⟨h.size_eq, h.tracks.markRange (hrange.trans_lt mem.size.isLt)⟩

theorem Tracked.accesses (h : Tracked mem size pageSize) (accesses : List Access) :
    Tracked (accesses.foldl DirtyGuestMemory.access mem) size pageSize := by
  induction accesses generalizing mem
  case nil => exact h
  case cons a accesses ih => exact ih (h.access a)

theorem Tracked.synced_accesses (h : Tracked mem size pageSize) (hpage : pageSize ≠ 0)
    (hfit : PagesFit size.toNat pageSize.toNat) (hs : Synced target mem) (accesses : List Access) :
    Synced target (accesses.foldl DirtyGuestMemory.access mem) := by
  induction accesses generalizing mem
  case nil => exact hs
  case cons a accesses ih =>
    refine ih (h.access a) ?_
    obtain heq | ⟨paddr, data, hrange, heq⟩ := access_cases mem a
    · rw [heq]
      exact hs
    · rw [heq]
      obtain ⟨rfl, ht⟩ := h
      exact store_synced ht hpage hfit hrange hs

theorem DirtyGuestMemory.readInto_eq (mem : DirtyGuestMemory) (offset len : Nat) (data : List U8)
    (h : mem.readInto offset len = .ok data) : data = ByteStore.read mem.ram offset len := by
  rw [readInto] at h
  split at h
  · exact (ok.inj h).symm
  · cases h

-- A section that round trips is restored over the RAM that is there.
theorem RoundTrips.restoreRam (h : RoundTrips lz (fun _ => .ok ()) ram size opts pages bytes)
    (target : Nat → U8) :
    ∃ restored, restoreRam lz size target bytes = .ok restored ∧
      ∀ i, (Holds size opts pages i → restored i = ram i) ∧
        (¬Holds size opts pages i → restored i = target i) := by
  obtain ⟨_, s, hrun, -, hs⟩ := returns_iff.mp (h.returns [])
  rw [List.append_nil] at hrun
  refine ⟨restore target s.writes, ?_, hs target⟩
  rw [Snapshot.restoreRam, hrun]
  rfl

theorem saveRam_eq_ok (h : mem.saveRam lz pageSize opts = .ok (bytes, mem')) :
    mem' = mem.takeDirtyPages.2 ∧
      (opts.mode = .full ∧ encodeRamSection lz mem.readInto mem.size opts none = .ok bytes ∨
        opts.mode = .dirty ∧ opts.pageSize = pageSize ∧ PagesFit mem.size.toNat pageSize.toNat ∧
          encodeRamSection lz mem.readInto mem.size opts (some mem.bitmap.take.1) = .ok bytes) := by
  rw [saveRam] at h
  split_ifs at h with hsize
  obtain ⟨bytes', hsave, h⟩ := bind_eq_ok_iff.mp h
  cases h
  refine ⟨rfl, ?_⟩
  rcases saveRamSection_eq_ok hsave with hfull | ⟨hmode, hfit, hencode⟩
  · exact .inl hfull
  · obtain rfl : opts.pageSize = pageSize := by
      by_contra hne
      exact hsize ⟨hmode, hne⟩
    exact .inr ⟨hmode, rfl, hfit, hencode⟩

theorem saveRam_restores (hlz : lz.Lawful) (hpage : pageSize ≠ 0)
    (ht : Tracked mem size pageSize)
    (hs : opts.mode = .dirty → PagesFit size.toNat pageSize.toNat → Synced target mem)
    (h : mem.saveRam lz pageSize opts = .ok (bytes, mem')) :
    Tracked mem' size pageSize ∧ ∃ restored, restoreRam lz size target bytes = .ok restored ∧
      ∀ i < size.toNat, restored i = mem'.ram i := by
  obtain ⟨rfl, ht⟩ := ht
  obtain ⟨rfl, ⟨hmode, hencode⟩ | ⟨hmode, rfl, hfit, hencode⟩⟩ := saveRam_eq_ok h
  · refine ⟨⟨rfl, ht.take⟩, ?_⟩
    obtain ⟨restored, hrestore, hall⟩ := (roundTrips_of_full hlz mem.readInto_eq (fun _ => rfl)
      hencode hmode none).restoreRam target
    refine ⟨restored, hrestore, fun i hi => (hall i).1 ⟨hi, fun hdirty => ?_⟩⟩
    rw [hmode] at hdirty
    cases hdirty
  · refine ⟨⟨rfl, ht.take⟩, ?_⟩
    obtain ⟨restored, hrestore, hall⟩ := (roundTrips_of_dirty hlz mem.readInto_eq (fun _ => rfl)
      hencode hmode hfit).restoreRam target
    refine ⟨restored, hrestore, fun i hi => ?_⟩
    by_cases hholds : Holds mem.size opts (some mem.bitmap.take.1) i
    · exact (hall i).1 hholds
    · refine ((hall i).2 hholds).trans (hs hmode hfit i hi ?_)
      -- the page of the byte was not among those that were taken
      rw [Bool.eq_false_iff]
      intro hdirty
      refine hholds ⟨hi, fun _ => ?_⟩
      rw [← ht.pageSize_eq]
      refine DirtyBitmap.mem_take_of_dirty (ht.lt_pages hpage hfit hi) ?_ hdirty
      exact (div_le_self _ _).trans_lt (hi.trans mem.size.isLt)

theorem saveChain_restores (hlz : lz.Lawful) (hpage : pageSize ≠ 0) (ht : Tracked mem size pageSize)
    (hexact : ∀ i < size.toNat, target i = mem.ram i)
    (h : mem.saveChain lz pageSize rounds = .ok (sections, mem')) :
    ∃ restored, restoreChain lz size target sections = .ok restored ∧
      ∀ i < size.toNat, restored i = mem'.ram i := by
  induction rounds generalizing mem target sections
  case nil =>
    cases h
    exact ⟨target, rfl, hexact⟩
  case cons round rounds ih =>
    obtain ⟨accesses, opts⟩ := round
    obtain ⟨⟨bytes, mem₁⟩, hsave, h⟩ := bind_eq_ok_iff.mp h
    obtain ⟨⟨sections', mem₂⟩, hrest, h⟩ := bind_eq_ok_iff.mp h
    cases h
    have hsynced : Synced target mem := by
      obtain ⟨rfl, -⟩ := ht
      exact fun i hi _ => hexact i hi
    obtain ⟨ht₁, restored, hrestore, hrestored⟩ := saveRam_restores hlz hpage (ht.accesses accesses)
      (fun _ hfit => ht.synced_accesses hpage hfit hsynced accesses) hsave
    obtain ⟨last, hlast, hall⟩ := ih ht₁ hrestored hrest
    refine ⟨last, ?_, hall⟩
    rw [restoreChain, List.foldlM_cons, hrestore]
    exact hlast

theorem incremental_chain (lz : Lz4) (hlz : lz.Lawful) (size : U64) (pageSize : U32)
    (hpage : pageSize ≠ 0) (ram : Nat → U8) (contiguous : Nat → Nat → Bool)
    (accesses : List Access) (opts : RamWriteOptions) (hfull : opts.mode = .full)
    (rounds : List (List Access × RamWriteOptions)) (sections : List (List U8))
    (mem : DirtyGuestMemory)
    (h : (new size ram contiguous pageSize).saveChain lz pageSize
      ((accesses, opts) :: rounds) = .ok (sections, mem)) (target : Nat → U8) :
    ∃ restored, restoreChain lz size target sections = .ok restored ∧
      ∀ i < size.toNat, restored i = mem.ram i := by
  have ht : Tracked (new size ram contiguous pageSize) size pageSize :=
    ⟨rfl, DirtyBitmap.tracks_new size pageSize⟩
  obtain ⟨⟨bytes, mem₁⟩, hsave, h⟩ := bind_eq_ok_iff.mp h
  obtain ⟨⟨sections', mem₂⟩, hrest, h⟩ := bind_eq_ok_iff.mp h
  cases h
  have hs : opts.mode = .dirty → PagesFit size.toNat pageSize.toNat →
      Synced target (accesses.foldl DirtyGuestMemory.access
        (new size ram contiguous pageSize)) := by
    intro hdirty
    rw [hfull] at hdirty
    cases hdirty
  obtain ⟨ht₁, restored, hrestore, hrestored⟩ := saveRam_restores hlz hpage (ht.accesses accesses)
    hs hsave
  obtain ⟨last, hlast, hall⟩ := saveChain_restores hlz hpage ht₁ hrestored hrest
  refine ⟨last, ?_, hall⟩
  rw [restoreChain, List.foldlM_cons, hrestore]
  exact hlast

-- Three bytes in pages of two. A write crosses the pages before the first dirty snapshot, and a
-- slice in the short page is filled before the second.
theorem incremental_chain_two_dirty :
    ∃ sections mem, (new 3 (fun _ => 0) (fun _ _ => true) 2).saveChain literals 2
        [([.writeFrom 0 [1, 2, 3]], ⟨.full, .none, 2, 2⟩),
          ([.writeFrom 1 [4, 5]], ⟨.dirty, .lz4, 2, 2⟩),
          ([.sliceMut 2 [6]], ⟨.dirty, .none, 2, 2⟩)] = .ok (sections, mem) ∧
      sections.length = 3 ∧
      ∃ restored, restoreChain literals 3 (fun _ => 9) sections = .ok restored ∧
        ∀ i < 3, restored i = mem.ram i := by
  have hsome : ((new 3 (fun _ => 0) (fun _ _ => true) 2).saveChain literals 2
      [([.writeFrom 0 [1, 2, 3]], ⟨.full, .none, 2, 2⟩),
        ([.writeFrom 1 [4, 5]], ⟨.dirty, .lz4, 2, 2⟩),
        ([.sliceMut 2 [6]], ⟨.dirty, .none, 2, 2⟩)]).toOption.any (·.1.length = 3) = true := by
    decide +kernel
  generalize h : saveChain _ _ _ _ = r at hsome ⊢
  cases r
  case error e => cases hsome
  case ok saved =>
    exact ⟨saved.1, saved.2, rfl, of_decide_eq_true hsome, incremental_chain literals literals_lawful
      3 2 (by decide) _ _ _ _ rfl _ saved.1 saved.2 h fun _ => 9⟩

end Aero.Snapshot
