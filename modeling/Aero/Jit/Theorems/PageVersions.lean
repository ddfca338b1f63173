import Aero.Jit.PageVersions

namespace Aero.PageVersionTracker

variable {t : PageVersionTracker} {paddr : U64} {len page : Nat}

def Touches (paddr : U64) (len page : Nat) : Prop :=
  0 < len ∧ startPage paddr ≤ page ∧ page ≤ (paddr.toNat + (len - 1)) / 2 ^ pageShift

instance : Decidable (Touches paddr len page) :=
  inferInstanceAs (Decidable (_ ∧ _ ∧ _))

theorem touches_iff :
    Touches paddr len page ↔
      ∃ a, paddr.toNat ≤ a ∧ a < paddr.toNat + len ∧ a / 2 ^ pageShift = page := by
  rw [Touches, startPage, pageShift]
  constructor
  · intro ⟨hl, hs, he⟩
    by_cases h : paddr.toNat / 2 ^ 12 = page
    case pos => exact ⟨paddr.toNat, by omega, by omega, h⟩
    case neg => exact ⟨page * 2 ^ 12, by omega, by omega, by omega⟩
  · intro ⟨a, ha, ha', hp⟩
    omega

-- The pages of the table are far below the end of the address space.
structure Bounded (t : PageVersionTracker) : Prop where
  len_le : t.versionsLen ≤ maxTrackedPages

theorem Bounded.new (maxPages : Nat) : (PageVersionTracker.new maxPages).Bounded where
  len_le := by simp [PageVersionTracker.new, versionsLen]

@[simp]
theorem versionsLen_bumpWrite : (t.bumpWrite paddr len).versionsLen = t.versionsLen := by
  rw [bumpWrite]
  split
  case isTrue => rfl
  case isFalse => simp [versionsLen]

@[simp]
theorem versionsLen_reset : t.reset.versionsLen = t.versionsLen := by
  simp [reset, versionsLen]

@[simp]
theorem generation_bumpWrite : (t.bumpWrite paddr len).generation = t.generation := by
  rw [bumpWrite]
  split <;> rfl

theorem le_endPage_iff (hp : page < maxTrackedPages) :
    page ≤ endPage paddr len ↔ page ≤ (paddr.toNat + (len - 1)) / 2 ^ pageShift := by
  rw [endPage, saturatingAdd, pageShift]
  rw [maxTrackedPages] at hp
  omega

theorem version_bumpWrite (ht : t.Bounded) (hp : page < t.versionsLen) :
    (t.bumpWrite paddr len).version page =
      t.version page + if Touches paddr len page then 1 else 0 := by
  have hp' := Nat.lt_of_lt_of_le hp ht.len_le
  rw [bumpWrite]
  split
  case isTrue h =>
    have hn : ¬Touches paddr len page := by
      intro ⟨hl, hs, _⟩
      omega
    simp [hn]
  case isFalse h =>
    have hiff : (startPage paddr ≤ page ∧ page ≤ min (endPage paddr len) (t.versionsLen - 1)) ↔
        Touches paddr len page := by
      rw [Nat.le_min, le_endPage_iff hp', Touches]
      omega
    simp only [version, List.getD_eq_getElem?_getD, List.getElem?_mapIdx,
      List.getElem?_eq_getElem hp, hiff]
    split <;> simp

theorem length_snapshot (hb : byteLen ≠ 0) :
    (t.snapshot codePaddr byteLen).length =
      min (endPage codePaddr byteLen.toNat - startPage codePaddr + 1) maxSnapshotPages := by
  rw [snapshot, if_neg hb]
  simp

theorem mem_snapshot (hb : byteLen ≠ 0)
    (hl : endPage codePaddr byteLen.toNat - startPage codePaddr + 1 ≤
      (t.snapshot codePaddr byteLen).length) (hp : startPage codePaddr ≤ page)
    (hp' : page ≤ endPage codePaddr byteLen.toNat) :
    ⟨page, t.version page⟩ ∈ t.snapshot codePaddr byteLen := by
  rw [length_snapshot hb] at hl
  simp only [snapshot, hb, if_false, List.mem_map, List.mem_range]
  refine ⟨page - startPage codePaddr, by omega, ?_⟩
  rw [Nat.add_sub_cancel' hp]

end Aero.PageVersionTracker
