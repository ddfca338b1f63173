import Aero.Mmu.Theorems.Walk

namespace Aero.Mmu

open PageWalk List BitVec Option

variable {mmu : Mmu} {e e' : U64} {f : Mark}

def markBits : U64 :=
  pteA ||| pteD

def MarkedBy (e e' : U64) : Prop :=
  ∃ x, x &&& markBits = x ∧ e' = e ||| x

theorem Mark.bit_and_markBits (f : Mark) : f.bit &&& markBits = f.bit := by
  cases f <;> decide

namespace MarkedBy

theorem refl (e : U64) : MarkedBy e e :=
  ⟨0, by decide, or_zero.symm⟩

theorem trans (h₁ : MarkedBy e₁ e₂) (h₂ : MarkedBy e₂ e₃) : MarkedBy e₁ e₃ := by
  obtain ⟨x, hx, rfl⟩ := h₁
  obtain ⟨y, hy, rfl⟩ := h₂
  refine ⟨x ||| y, ?_, or_assoc _ _ _⟩
  rw [and_or_distrib_right, hx, hy]

theorem and_eq (h : MarkedBy e e') (hk : markBits &&& k = 0) : e' &&& k = e &&& k := by
  obtain ⟨x, hx, rfl⟩ := h
  have hz : x &&& k = 0 := by
    rw [← hx, BitVec.and_assoc, hk]
    exact BitVec.and_zero
  rw [BitVec.and_or_distrib_right, hz]
  exact BitVec.or_zero

theorem has_mono (h : MarkedBy e e') (hf : e ||| f.bit = e) : e' ||| f.bit = e' := by
  obtain ⟨x, _, rfl⟩ := h
  rw [BitVec.or_assoc, BitVec.or_comm x, ← BitVec.or_assoc, hf]

end MarkedBy

theorem or_bit_idem (e : U64) (f : Mark) : e ||| f.bit ||| f.bit = e ||| f.bit := by
  rw [BitVec.or_assoc, BitVec.or_self]

theorem bit_of_or_eq (h : e ||| f.bit = e) : (e &&& f.bit == 0) = false := by
  have hb : (e ||| f.bit) &&& f.bit = f.bit := by
    cases f <;> (ext i; simp only [getElem_and]; grind)
  rw [h] at hb
  rw [hb]
  cases f <;> decide

def Aligned (size : Nat) (a : U64) : Prop :=
  size ∣ a.toNat

theorem entries64_lawful : entries64.Lawful (Aligned 8) MarkedBy where
  refl := .refl
  trans := .trans
  le_marked f e := ⟨f.bit, f.bit_and_markBits, rfl⟩
  has_marked f e := or_bit_idem e f
  has_mono := MarkedBy.has_mono
  read_mark_self f m _ _ := read_mark64 f m _
  read_mark_ne _ _ _ _ ha hb hab := ByteMemory.read_write_of_ne (by decide) ha hb hab
  mark_of_has _ h := mark64_of_and (bit_of_or_eq h)

theorem entries32_lawful : entries32.Lawful (Aligned 4) MarkedBy where
  refl := .refl
  trans := .trans
  le_marked f e := ⟨f.bit, f.bit_and_markBits, rfl⟩
  has_marked f e := or_bit_idem e f
  has_mono := MarkedBy.has_mono
  read_mark_self f m _ _ := read_mark32 f m _
  read_mark_ne f m a b ha hb hab := by
    change ((m.write 4 a (m.read 32 4 a ||| f.bit.setWidth 32)).read 32 4 b).setWidth 64 =
      (m.read 32 4 b).setWidth 64
    rw [ByteMemory.read_write_of_ne (by decide) ha hb hab]
  mark_of_has _ h := mark32_of_and (bit_of_or_eq h)

section Blind

theorem markBits_and_not (x y z : U64) : markBits &&& ~~~(x ||| 0x1fff ||| y ||| z) = 0 := by
  have h : markBits &&& ~~~0x1fff = 0 := by decide
  rw [BitVec.not_or, BitVec.not_or, BitVec.not_or, BitVec.and_comm (~~~x), BitVec.and_assoc,
    BitVec.and_assoc, ← BitVec.and_assoc]
  exact BitVec.zero_and

section

variable (h : MarkedBy e e')
include h

theorem MarkedBy.hasReservedBits64 (hk : kind ≠ .pdptePae) :
    mmu.hasReservedBits64 e' kind = mmu.hasReservedBits64 e kind := by
  have hp := h.and_eq (k := pteP) (by decide)
  have hnx := h.and_eq (k := pteNx) (by decide)
  have hps := h.and_eq (k := ptePs) (by decide)
  have hrest := fun x y z => h.and_eq (markBits_and_not x y z)
  simp only [Mmu.hasReservedBits64, hp, hnx, hps, hk, hrest, if_false]

theorem MarkedBy.restrict (r : Rights) (nx : Bool) : r.restrict nx e' = r.restrict nx e := by
  have hus := h.and_eq (k := pteUs) (by decide)
  have hrw := h.and_eq (k := pteRw) (by decide)
  have hnx := h.and_eq (k := pteNx) (by decide)
  simp only [Rights.restrict, hus, hrw, hnx]

theorem MarkedBy.and_low_eq (x y : U64) (hy : markBits &&& y = 0) :
    e' &&& x &&& y = e &&& x &&& y := by
  rw [BitVec.and_assoc, BitVec.and_assoc]
  apply h.and_eq
  rw [BitVec.and_comm x, ← BitVec.and_assoc, hy]
  exact BitVec.zero_and

theorem MarkedBy.nextTable : mmu.nextTable e' = mmu.nextTable e :=
  h.and_low_eq _ _ (by decide)

theorem MarkedBy.largeFrame (size : PageSize) : mmu.largeFrame e' size = mmu.largeFrame e size :=
  h.and_low_eq _ _ (by cases size <;> decide)

theorem MarkedBy.largeLeaf (size : PageSize) : mmu.largeLeaf size e' = mmu.largeLeaf size e := by
  have hps := h.and_eq (k := ptePs) (by decide)
  simp only [Mmu.largeLeaf, hps, h.largeFrame]

end

theorem level64_blind (hk : kind ≠ .pdptePae) (hl : ∀ {e e'}, MarkedBy e e' → lf e' = lf e) :
    (mmu.level64 kind shift lf).Blind MarkedBy where
  check h := by
    have hp := h.and_eq (k := pteP) (by decide)
    simp only [level64, check64, hp, h.hasReservedBits64 hk]
  gather r h := h.restrict r _
  leaf := hl
  next h := h.nextTable

theorem pdeLevel32_blind : mmu.pdeLevel32.Blind MarkedBy where
  check h := by
    have hp := h.and_eq (k := pteP) (by decide)
    have hps := h.and_eq (k := ptePs) (by decide)
    have hr := h.and_eq (k := legacy32Reserved4MbMask) (by decide)
    simp only [pdeLevel32, hp, hps, hr]
  gather r h := h.restrict r _
  leaf h := by
    have hps := h.and_eq (k := ptePs) (by decide)
    have hf := h.and_eq (k := 0xffc0_0000) (by decide)
    simp only [pdeLevel32, hps, hf]
  next h := h.and_eq (by decide)

theorem pteLevel32_blind : pteLevel32.Blind MarkedBy where
  check h := by
    have hp := h.and_eq (k := pteP) (by decide)
    simp only [pteLevel32, hp]
  gather r h := h.restrict r _
  leaf h := by
    have hf := h.and_eq (k := 0xffff_f000) (by decide)
    simp only [pteLevel32, hf]
  next h := h.and_eq (by decide)

end Blind

section Sound

theorem aligned_of_and {a : U64} (hn : n < 64) (h : a &&& BitVec.ofNat 64 (2 ^ n - 1) = 0) :
    Aligned (2 ^ n) a := by
  have h := congrArg BitVec.toNat h
  have hlt : 2 ^ n < 2 ^ 64 := Nat.pow_lt_pow_right (by decide) hn
  rw [BitVec.toNat_and, BitVec.toNat_ofNat, Nat.mod_eq_of_lt (by omega),
    Nat.and_two_pow_sub_one_eq_mod] at h
  exact Nat.dvd_of_mod_eq_zero h

theorem aligned_and (x : U64) {y : U64} (hn : n < 64) (hy : y &&& BitVec.ofNat 64 (2 ^ n - 1) = 0) :
    Aligned (2 ^ n) (x &&& y) := by
  apply aligned_of_and hn
  rw [BitVec.and_assoc, hy]
  exact BitVec.and_zero

theorem aligned_entryAddr (hn : n < 64) (hb : Aligned (2 ^ n) base) :
    Aligned (2 ^ n) (entryAddr base vaddr shift mask (BitVec.ofNat 64 (2 ^ n))) := by
  have hd := pow_dvd_pow 2 hn.le
  have hlt : 2 ^ n < 2 ^ 64 := Nat.pow_lt_pow_right (by decide) hn
  rw [Aligned, entryAddr, BitVec.toNat_add, Nat.dvd_mod_iff hd, BitVec.toNat_mul]
  apply Nat.dvd_add hb
  rw [Nat.dvd_mod_iff hd, BitVec.toNat_ofNat, Nat.mod_eq_of_lt hlt]
  exact Nat.dvd_mul_left _ _

theorem level64_sound : (mmu.level64 kind shift lf).Sound (Aligned 8) (Aligned 8) where
  slot _ hb := aligned_entryAddr (n := 3) (by decide) hb
  next _ := aligned_and (n := 3) _ (by decide) (by decide)

theorem pdpteLevelPae_sound : mmu.pdpteLevelPae.Sound (Aligned 8) (Aligned 8) where
  slot _ hb := aligned_entryAddr (n := 3) (by decide) hb
  next _ := aligned_and (n := 3) _ (by decide) (by decide)

theorem pdeLevel32_sound : mmu.pdeLevel32.Sound (Aligned 4) (Aligned 4) where
  slot _ hb := aligned_entryAddr (n := 2) (by decide) hb
  next _ := aligned_and (n := 2) _ (by decide) (by decide)

theorem pteLevel32_sound : pteLevel32.Sound (Aligned 4) (Aligned 4) where
  slot _ hb := aligned_entryAddr (n := 2) (by decide) hb
  next _ := aligned_and (n := 2) _ (by decide) (by decide)

end Sound

section Coherent

def shift : PageSize → Nat
  | .size4K => 12
  | .size2M => 21
  | .size4M => 22
  | .size1G => 30

theorem getLsbD_base (size : PageSize) (v : U64) (hi : shift size ≤ i) (h : i < 64) :
    (size.base v).getLsbD i = v.getLsbD i := by
  have hb : size.bytes - 1 = BitVec.ofNat 64 (2 ^ shift size - 1) := by cases size <;> decide
  rw [PageSize.base, hb, BitVec.getLsbD_and, BitVec.getLsbD_not, BitVec.getLsbD_ofNat]
  simp [h, Nat.not_lt.mpr hi]

theorem ushiftRight_eq_of_base {v v' : U64} (h : size.base v' = size.base v) (hs : shift size ≤ s) :
    v' >>> s = v >>> s := by
  ext i hi
  rw [getElem_ushiftRight, getElem_ushiftRight]
  by_cases hlt : s + i < 64
  case pos =>
    rw [← getLsbD_base size v' (by omega) hlt, ← getLsbD_base size v (by omega) hlt, h]
  case neg => rw [getLsbD_of_ge _ _ (by omega), getLsbD_of_ge _ _ (by omega)]

def SamePage (l : Leaf) (v v' : U64) : Prop :=
  l.size.base v' = l.size.base v

theorem SamePage.entryAddr_eq (h : SamePage l v v') (hs : shift l.size ≤ s) (base mask size : U64) :
    entryAddr base v' s mask size = entryAddr base v s mask size := by
  rw [entryAddr, entryAddr, ushiftRight_eq_of_base h hs]

-- No leaf at or below a level maps more than one entry of that level does.
theorem coherent_cons {l : TableLevel} {ls : List TableLevel}
    (hslot : ∀ b v, l.slot b v = entryAddr b v s mask size)
    (hleaf : ∀ i, LeafOf (l :: ls) i → shift i.size ≤ s) (h : Coherent SamePage ls) :
    Coherent SamePage (l :: ls) := by
  apply Coherent.cons _ h
  intro i v v' hi hp b
  rw [hslot, hslot]
  exact hp.entryAddr_eq (hleaf i hi) b mask size

theorem leafOf_cons {l : TableLevel} {ls : List TableLevel} (h : LeafOf (l :: ls) i) :
    (∃ e, l.leaf e = some i) ∨ LeafOf ls i := by
  have ⟨l', hl', h⟩ := h
  cases mem_cons.mp hl'
  case inl hl => exact .inl (hl ▸ h)
  case inr hl => exact .inr ⟨l', hl, h⟩

theorem leafOf_nil : ¬LeafOf ([] : List TableLevel) i := by
  intro ⟨_, h, _⟩
  simp at h

theorem size_of_largeLeaf (h : mmu.largeLeaf size e = some i) : i.size = size := by
  rw [largeLeaf] at h
  split at h
  case isTrue => exact (some.inj h) ▸ rfl
  case isFalse => simp at h

theorem size_of_pageLeaf (h : mmu.pageLeaf e = some i) : i.size = .size4K :=
  (some.inj h) ▸ rfl

theorem shift_le_page (h : LeafOf [mmu.level64 kind 12 mmu.pageLeaf] i) : shift i.size ≤ 12 := by
  cases leafOf_cons h
  case inl h =>
    obtain ⟨_, h⟩ := h
    exact (size_of_pageLeaf h) ▸ Nat.le_refl _
  case inr h => exact absurd h leafOf_nil

theorem shift_le_large {ls : List TableLevel} (mmu : Mmu) (kind : EntryKind64) (size : PageSize)
    (hs : shift size ≤ s) (hn : n ≤ s) (hle : ∀ i, LeafOf ls i → shift i.size ≤ n) (i : Leaf)
    (h : LeafOf (mmu.level64 kind s (mmu.largeLeaf size) :: ls) i) : shift i.size ≤ s := by
  cases leafOf_cons h
  case inl h =>
    obtain ⟨_, h⟩ := h
    exact (size_of_largeLeaf h) ▸ hs
  case inr h => exact Nat.le_trans (hle i h) hn

theorem longLevels_coherent (mmu : Mmu) : Coherent SamePage mmu.longLevels := by
  have h12 : ∀ i, LeafOf [mmu.level64 .pteLong 12 mmu.pageLeaf] i → shift i.size ≤ 12 :=
    fun _ => shift_le_page
  have h21 := shift_le_large (s := 21) mmu .pdeLong .size2M (by decide) (by decide) h12
  have h30 := shift_le_large (s := 30) mmu .pdpteLong .size1G (by decide) (by decide) h21
  refine coherent_cons (fun _ _ => rfl) ?_ (coherent_cons (fun _ _ => rfl) h30
    (coherent_cons (fun _ _ => rfl) h21 (coherent_cons (fun _ _ => rfl) h12 .nil)))
  intro i hi
  cases leafOf_cons hi
  case inl h =>
    obtain ⟨_, h⟩ := h
    exact absurd h (some_ne_none _).symm
  case inr h => exact Nat.le_trans (h30 i h) (by decide)

theorem paeLevels_coherent (mmu : Mmu) : Coherent SamePage mmu.paeLevels := by
  have h12 : ∀ i, LeafOf [mmu.level64 .ptePae 12 mmu.pageLeaf] i → shift i.size ≤ 12 :=
    fun _ => shift_le_page
  have h21 := shift_le_large (s := 21) mmu .pdePae .size2M (by decide) (by decide) h12
  refine coherent_cons (fun _ _ => rfl) ?_ (coherent_cons (fun _ _ => rfl) h21
    (coherent_cons (fun _ _ => rfl) h12 .nil))
  intro i hi
  cases leafOf_cons hi
  case inl h =>
    obtain ⟨_, h⟩ := h
    exact absurd h (some_ne_none _).symm
  case inr h => exact Nat.le_trans (h21 i h) (by decide)

theorem legacyLevels_coherent (mmu : Mmu) : Coherent SamePage mmu.legacyLevels := by
  have h12 : ∀ i, LeafOf [pteLevel32] i → shift i.size ≤ 12 := by
    intro i hi
    cases leafOf_cons hi
    case inl h =>
      obtain ⟨_, h⟩ := h
      exact (some.inj h) ▸ Nat.le_refl _
    case inr h => exact absurd h leafOf_nil
  refine coherent_cons (fun _ _ => rfl) ?_ (coherent_cons (fun _ _ => rfl) h12 .nil)
  intro i hi
  cases leafOf_cons hi
  case inl h =>
    obtain ⟨e, h⟩ := h
    simp only [pdeLevel32] at h
    split at h
    case isTrue => exact (some.inj h) ▸ Nat.le_refl _
    case isFalse => exact absurd h (some_ne_none _).symm
  case inr h => exact Nat.le_trans (h12 i h) (by decide)

end Coherent

-- The facts about the tables of the mode that is on.
section Mode

theorem levels_cases (mmu : Mmu) :
    (mmu.is64 = false ∧ mmu.levels = mmu.legacyLevels) ∨
      (mmu.mode = .pae ∧ mmu.is64 ∧ mmu.levels = mmu.paeLevels) ∨
      (mmu.mode = .long4 ∧ mmu.is64 ∧ mmu.levels = mmu.longLevels) := by
  rw [levels, is64]
  cases mmu.mode
  case disabled => exact .inl ⟨rfl, rfl⟩
  case legacy32 => exact .inl ⟨rfl, rfl⟩
  case pae => exact .inr (.inl ⟨rfl, rfl, rfl⟩)
  case long4 => exact .inr (.inr ⟨rfl, rfl, rfl⟩)

theorem entries_lawful (mmu : Mmu) : mmu.entries.Lawful (Aligned mmu.entryBytes) MarkedBy := by
  rw [entries, entryBytes]
  cases mmu.is64
  case true => exact entries64_lawful
  case false => exact entries32_lawful

theorem root_aligned (mmu : Mmu) (cr3 : U64) : Aligned mmu.entryBytes (mmu.root cr3) := by
  rw [root, entryBytes, is64]
  cases mmu.mode
  case disabled => exact aligned_and (n := 2) _ (by decide) (by decide)
  case legacy32 => exact aligned_and (n := 2) _ (by decide) (by decide)
  case pae => exact aligned_and (n := 3) _ (by decide) (by decide)
  case long4 => exact aligned_and (n := 3) _ (by decide) (by decide)

theorem levels_coherent (mmu : Mmu) : Coherent SamePage mmu.levels := by
  rcases mmu.levels_cases with ⟨_, hl⟩ | ⟨_, _, hl⟩ | ⟨_, _, hl⟩
  · exact hl ▸ mmu.legacyLevels_coherent
  · exact hl ▸ mmu.paeLevels_coherent
  · exact hl ▸ mmu.longLevels_coherent

theorem levels_sound (mmu : Mmu) :
    ∀ l ∈ mmu.levels, l.Sound (Aligned mmu.entryBytes) (Aligned mmu.entryBytes) := by
  rw [entryBytes]
  rcases mmu.levels_cases with ⟨hb, hl⟩ | ⟨_, hb, hl⟩ | ⟨_, hb, hl⟩
  · simp only [hl, hb, legacyLevels, List.forall_mem_cons, List.not_mem_nil, false_implies,
      implies_true, and_true]
    exact ⟨pdeLevel32_sound, pteLevel32_sound⟩
  · simp only [hl, hb, paeLevels, List.forall_mem_cons, List.not_mem_nil, false_implies,
      implies_true, and_true]
    exact ⟨pdpteLevelPae_sound, level64_sound, level64_sound⟩
  · simp only [hl, hb, longLevels, List.forall_mem_cons, List.not_mem_nil, false_implies,
      implies_true, and_true]
    exact ⟨level64_sound, level64_sound, level64_sound, level64_sound⟩

theorem longLevels_blind (mmu : Mmu) : ∀ l ∈ mmu.longLevels, l.Blind MarkedBy := by
  simp only [longLevels, forall_mem_cons, not_mem_nil, false_implies, implies_true, and_true]
  exact ⟨level64_blind (by decide) (fun _ => rfl), level64_blind (by decide) (·.largeLeaf _),
    level64_blind (by decide) (·.largeLeaf _),
    level64_blind (by decide) (fun h => by rw [pageLeaf, pageLeaf, h.nextTable])⟩

theorem legacyLevels_blind (mmu : Mmu) : ∀ l ∈ mmu.legacyLevels, l.Blind MarkedBy := by
  simp only [legacyLevels, forall_mem_cons, not_mem_nil, false_implies, implies_true, and_true]
  exact ⟨pdeLevel32_blind, pteLevel32_blind⟩

theorem paeLevels_blind_tail (mmu : Mmu) : ∀ l ∈ mmu.paeLevels.tail, l.Blind MarkedBy := by
  simp only [paeLevels, tail_cons, forall_mem_cons, not_mem_nil, false_implies,
    implies_true, and_true]
  exact ⟨level64_blind (by decide) (·.largeLeaf _),
    level64_blind (by decide) (fun h => by rw [pageLeaf, pageLeaf, h.nextTable])⟩

-- In the PAE mode the first level can see marks.
theorem levels_blind (hm : mmu.mode ≠ .pae) : ∀ l ∈ mmu.levels, l.Blind MarkedBy := by
  rcases mmu.levels_cases with ⟨_, hl⟩ | ⟨h, _⟩ | ⟨_, _, hl⟩
  · exact hl ▸ mmu.legacyLevels_blind
  · exact absurd h hm
  · exact hl ▸ mmu.longLevels_blind

theorem levels_marks (hm : mmu.mode ≠ .pae) : ∀ l ∈ mmu.levels, l.marks := by
  rcases mmu.levels_cases with ⟨_, hl⟩ | ⟨h, _⟩ | ⟨_, _, hl⟩
  · simp [hl, legacyLevels, pdeLevel32, pteLevel32]
  · exact absurd h hm
  · simp [hl, longLevels, level64]

theorem walkMark_levels (mmu : Mmu) (cr3 vaddr : U64) (mem : PhysMem) :
    mmu.entries.walkMark .accessed vaddr mmu.levels (mmu.root cr3) .all mem =
      ((mmu.tableWalk cr3 mem vaddr).2,
        mmu.entries.markAll .accessed mem (mmu.tableWalk cr3 mem vaddr).1) := by
  by_cases hm : mmu.mode = .pae
  case neg =>
    have hblind := levels_blind hm
    exact mmu.entries_lawful.walkMark_eq mmu.levels_sound
      (fun l h => hblind l (mem_of_mem_tail h)) (fun l h _ => hblind l h) (mmu.root_aligned cr3)
  case pos =>
    have hl : mmu.levels = mmu.paeLevels := by rw [levels, hm]
    have hblind := mmu.paeLevels_blind_tail
    apply mmu.entries_lawful.walkMark_eq mmu.levels_sound (hl ▸ hblind) _ (mmu.root_aligned cr3)
    intro l h hmarks
    rw [hl] at h
    cases mem_cons.mp h
    case inl h => exact absurd (h ▸ hmarks : mmu.pdpteLevelPae.marks = true) Bool.false_ne_true
    case inr h => exact hblind l h

end Mode

end Aero.Mmu
