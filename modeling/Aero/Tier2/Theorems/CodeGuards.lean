import Aero.Tier2.CodeGuards

namespace Aero.Tier2

open IpWidth List

variable {ip : IpWidth} {b : Block} {page : Nat}

def Block.OnPage (ip : IpWidth) (b : Block) (page : Nat) : Prop :=
  ∃ i < max b.codeLen.toNat 1, ((b.startRip.toNat + i) &&& ip.ipMask) >>> pageShift = page

def guardedPages (guards : List Instr) : List U64 :=
  guards.filterMap fun
    | .guardCodeVersion page _ _ => some page
    | _                          => none

def GuardsCode (ip : IpWidth) (versions : PageVersionTracker) (blocks : List Block) (exitRip : U64) :
    Prop :=
  (guardedPages (computeCodeVersionGuards ip.ipMask versions blocks exitRip)).Nodup ∧
  ∀ page, page ∈ guardedPages (computeCodeVersionGuards ip.ipMask versions blocks exitRip) ↔
    ∃ b ∈ blocks, b.OnPage ip page.toNat

namespace Block

def first (ip : IpWidth) (b : Block) : Nat :=
  b.startRip.toNat % ip.size

def last (ip : IpWidth) (b : Block) : Nat :=
  b.first ip + (max b.codeLen.toNat 1 - 1)

-- The code does not wrap. With a narrow instruction pointer it may wrap once and end before it is
-- back on its first page; behind that the guards are complete only if their two ends meet.
def Guarded (ip : IpWidth) (b : Block) : Prop :=
  b.last ip < ip.size ∨ (ip ≠ .bits64 ∧
    (b.last ip < ip.size + b.first ip / 4096 * 4096 ∨
      (b.first ip / 4096 = 0 ∧ b.last ip % ip.size / 4096 = (ip.size - 1) / 4096) ∨
      b.last ip % ip.size / 4096 + 1 = b.first ip / 4096))

theorem and_ipMask (a : Nat) (ip : IpWidth) : a &&& ip.ipMask = a % ip.size := by
  cases ip
  case bits16 => exact Nat.and_two_pow_sub_one_eq_mod a 16
  case bits32 => exact Nat.and_two_pow_sub_one_eq_mod a 32
  case bits64 => exact Nat.and_two_pow_sub_one_eq_mod a 64

theorem startRip_and_ipMask (ip : IpWidth) (b : Block) :
    b.startRip.toNat &&& ip.ipMask = b.first ip :=
  and_ipMask ..

theorem size_pos (ip : IpWidth) : 0 < ip.size := by
  cases ip <;> decide

theorem first_lt (ip : IpWidth) (b : Block) : b.first ip < ip.size :=
  Nat.mod_lt _ (size_pos ip)

theorem onPage_iff : b.OnPage ip page ↔ ∃ a, b.first ip ≤ a ∧ a ≤ b.last ip ∧ a % ip.size / 4096 = page := by
  simp only [OnPage, and_ipMask, Nat.shiftRight_eq_div_pow]
  rw [last, first]
  constructor
  · rintro ⟨i, hi, rfl⟩
    refine ⟨b.startRip.toNat % ip.size + i, Nat.le_add_right .., by omega, ?_⟩
    rw [Nat.mod_add_mod]
    rfl
  · rintro ⟨a, hfirst, hlast, rfl⟩
    refine ⟨a - b.startRip.toNat % ip.size, by omega, ?_⟩
    rw [← Nat.mod_add_mod, Nat.add_sub_cancel' hfirst]
    rfl

theorem onPage_iff_le : b.OnPage ip page ↔ page < ip.size / 4096 ∧
    ((b.first ip / 4096 ≤ page ∧ page * 4096 ≤ b.last ip) ∨ page * 4096 + ip.size ≤ b.last ip) := by
  rw [onPage_iff]
  have hfirst := first_lt ip b
  have hle : b.first ip ≤ b.last ip := Nat.le_add_right ..
  generalize b.first ip = s at *
  generalize b.last ip = e at *
  constructor
  · rintro ⟨a, hsa, hae, rfl⟩
    cases ip <;> simp only [size] at * <;> omega
  · rintro ⟨hpage, ⟨hs, he⟩ | he⟩
    · refine ⟨max s (page * 4096), Nat.le_max_left .., Nat.max_le.mpr ⟨hle, he⟩, ?_⟩
      cases ip <;> simp only [size] at * <;> omega
    · refine ⟨page * 4096 + ip.size, ?_, he, ?_⟩
      · exact hfirst.le.trans (Nat.le_add_left ..)
      · cases ip <;> simp only [size] at * <;> omega

end Block

theorem mem_pagesThrough : page ∈ pagesThrough first last ↔ first ≤ page ∧ page ≤ last := by
  rw [pagesThrough, mem_range'_1]
  omega

theorem saturatingAdd_last (hip : ip ≠ .bits64) :
    saturatingAdd (b.first ip) (max b.codeLen.toNat 1 - 1) = b.last ip := by
  have hfirst := b.first_lt ip
  have hsize : ip.size ≤ 2 ^ 32 := by
    cases ip
    case bits16 => decide
    case bits32 => decide
    case bits64 => exact absurd rfl hip
  rw [saturatingAdd, Block.last]
  omega

theorem mem_blockPages_wide : page ∈ blockPages bits64.ipMask b ↔
    b.first .bits64 / 4096 ≤ page ∧ page ≤ min (b.last .bits64) (2 ^ 64 - 1) / 4096 := by
  rw [blockPages, if_pos (show bits64.ipMask = 2 ^ 64 - 1 from rfl), mem_pagesThrough,
    Block.startRip_and_ipMask, Nat.shiftRight_eq_div_pow, Nat.shiftRight_eq_div_pow]
  exact Iff.rfl

theorem mem_blockPages_narrow (hip : ip ≠ .bits64) : page ∈ blockPages ip.ipMask b ↔
    (b.first ip / 4096 ≤ page ∧ page ≤ b.last ip % ip.size / 4096) ∨
    (b.last ip % ip.size / 4096 < b.first ip / 4096 ∧
      ((b.first ip / 4096 ≤ page ∧ page ≤ (ip.size - 1) / 4096) ∨
        page ≤ b.last ip % ip.size / 4096)) := by
  have hmask : ip.ipMask ≠ 2 ^ 64 - 1 := by
    cases ip
    case bits16 => decide
    case bits32 => decide
    case bits64 => exact absurd rfl hip
  rw [blockPages, if_neg hmask, Block.startRip_and_ipMask, saturatingAdd_last hip, Block.and_ipMask]
  simp only [Nat.shiftRight_eq_div_pow, pageShift, ipMask]
  split
  · rw [mem_pagesThrough]
    omega
  · rw [mem_append, mem_pagesThrough, mem_pagesThrough]
    omega

theorem Block.blockPages_eq_iff : (∀ page, page ∈ blockPages ip.ipMask b ↔ b.OnPage ip page) ↔
    b.Guarded ip := by
  have hfirst := b.first_lt ip
  have hle : b.first ip ≤ b.last ip := Nat.le_add_right ..
  by_cases hip : ip = .bits64
  · subst hip
    have hlen : b.last .bits64 ≤ b.first .bits64 + 2 ^ 32 - 2 := by
      rw [last]
      omega
    simp only [mem_blockPages_wide, onPage_iff_le, Guarded, ne_eq, not_true_eq_false, false_and,
      or_false]
    generalize b.first .bits64 = s at *
    generalize b.last .bits64 = e at *
    simp only [size] at *
    constructor
    · intro h
      have := h 0
      omega
    · intro h page
      omega
  · simp only [mem_blockPages_narrow hip, onPage_iff_le, Guarded, ne_eq, hip, not_false_eq_true,
      true_and]
    generalize b.first ip = s at *
    generalize b.last ip = e at *
    constructor
    · intro h
      have h₀ := h 0
      have h₂ := h (e % ip.size / 4096 + 1)
      cases ip
      case bits16 =>
        simp only [size] at *
        omega
      case bits32 =>
        simp only [size] at *
        omega
      case bits64 => exact absurd rfl hip
    · intro h page
      cases ip
      case bits16 =>
        simp only [size] at *
        omega
      case bits32 =>
        simp only [size] at *
        omega
      case bits64 => exact absurd rfl hip

theorem Block.lt_of_mem_blockPages (h : page ∈ blockPages ip.ipMask b) : page < 2 ^ 64 := by
  by_cases hip : ip = .bits64
  · subst hip
    rw [mem_blockPages_wide] at h
    omega
  · have hsize : ip.size ≤ 2 ^ 64 := by cases ip <;> decide
    have hlast := Nat.mod_lt (b.last ip) (size_pos ip)
    rw [mem_blockPages_narrow hip] at h
    omega

section Guards

variable {blocks : List Block}

theorem guardedPages_computeCodeVersionGuards :
    guardedPages (computeCodeVersionGuards ip.ipMask versions blocks exitRip) =
      ((blocks.flatMap (blockPages ip.ipMask)).dedup.mergeSort fun a b => a ≤ b).map
        (BitVec.ofNat 64) := by
  rw [guardedPages, computeCodeVersionGuards, filterMap_map]
  exact congrFun filterMap_eq_map _

theorem toNat_of_mem_flatMap (h : page ∈ blocks.flatMap (blockPages ip.ipMask)) :
    (BitVec.ofNat 64 page).toNat = page := by
  obtain ⟨b, -, hpage⟩ := mem_flatMap.mp h
  rw [BitVec.toNat_ofNat, Nat.mod_eq_of_lt (Block.lt_of_mem_blockPages hpage)]

theorem nodup_guardedPages :
    (guardedPages (computeCodeVersionGuards ip.ipMask versions blocks exitRip)).Nodup := by
  rw [guardedPages_computeCodeVersionGuards]
  have hperm := mergeSort_perm (blocks.flatMap (blockPages ip.ipMask)).dedup fun a b => a ≤ b
  refine List.Nodup.map_on (fun a ha c hc heq => ?_) (hperm.nodup_iff.mpr (nodup_dedup _))
  rw [hperm.mem_iff, mem_dedup] at ha hc
  rw [← toNat_of_mem_flatMap ha, heq, toNat_of_mem_flatMap hc]

theorem mem_guardedPages {page : U64} :
    page ∈ guardedPages (computeCodeVersionGuards ip.ipMask versions blocks exitRip) ↔
      ∃ b ∈ blocks, page.toNat ∈ blockPages ip.ipMask b := by
  rw [guardedPages_computeCodeVersionGuards, ← mem_flatMap, mem_map]
  have hperm := mergeSort_perm (blocks.flatMap (blockPages ip.ipMask)).dedup fun a b => a ≤ b
  constructor
  · rintro ⟨a, ha, rfl⟩
    rw [hperm.mem_iff, mem_dedup] at ha
    rwa [toNat_of_mem_flatMap ha]
  · intro hpage
    refine ⟨page.toNat, ?_, by simp⟩
    rwa [hperm.mem_iff, mem_dedup]

end Guards

-- The guards of a trace are on the pages of its code if every block meets the condition, and those
-- of a single block only then.
theorem guardsCode_of_guarded (ip : IpWidth) (versions : PageVersionTracker) (exitRip : U64) :
    (∀ blocks : List Block, (∀ b ∈ blocks, b.Guarded ip) → GuardsCode ip versions blocks exitRip) ∧
    ∀ b : Block, GuardsCode ip versions [b] exitRip ↔ b.Guarded ip := by
  have hall blocks (h : ∀ b ∈ blocks, b.Guarded ip) :
      GuardsCode ip versions blocks exitRip := by
    refine ⟨nodup_guardedPages, fun page => mem_guardedPages.trans ?_⟩
    exact exists_congr fun b => and_congr_right fun hb => Block.blockPages_eq_iff.mpr (h b hb) _
  refine ⟨hall, fun b => ⟨fun h => ?_, fun h => hall [b] fun b' hb' => ?_⟩⟩
  · refine Block.blockPages_eq_iff.mp fun page => ?_
    by_cases hlt : page < 2 ^ 64
    · have hpage := mem_guardedPages.symm.trans (h.2 (BitVec.ofNat 64 page))
      simpa only [mem_singleton, exists_eq_left, BitVec.toNat_ofNat, Nat.mod_eq_of_lt hlt]
        using hpage
    · have hsize : ip.size ≤ 2 ^ 64 := by cases ip <;> decide
      refine iff_of_false (fun hmem => hlt (Block.lt_of_mem_blockPages hmem)) fun hon => ?_
      have hpage := (Block.onPage_iff_le.mp hon).1
      omega
  · rwa [mem_singleton.mp hb']

theorem guardsCode_of_guarded_wrapped :
    GuardsCode .bits16 (.new 16) [⟨0xfff8, 16⟩] 0xfff8 :=
  (guardsCode_of_guarded .bits16 (.new 16) 0xfff8).1 _ fun b hb => by
    rw [mem_singleton.mp hb]
    exact .inr ⟨by decide, .inl (by decide)⟩

-- A block of 64-bit code at the top: its last byte is on the first page, which has no guard.
theorem wrapped_page_unguarded :
    Block.OnPage .bits64 ⟨0xffff_ffff_ffff_ffff, 2⟩ 0 ∧
      guardedPages (computeCodeVersionGuards bits64.ipMask (.new 0)
        [⟨0xffff_ffff_ffff_ffff, 2⟩] 0) = [0xf_ffff_ffff_ffff] :=
  ⟨⟨1, by decide, by decide⟩, by decide +kernel⟩

end Aero.Tier2
