import Mathlib.Data.List.Basic

namespace BitRuns

open List

variable (p : Nat → Bool) (n : Nat)

def runEnd : Nat → Nat → Nat
  | 0,          i => i
  | rounds + 1, i => if i < n ∧ p i then runEnd rounds (i + 1) else i

-- The runs from `i` on, as pairs of their bounds. Every round goes on by a number at least.
def runs : Nat → Nat → List (Nat × Nat)
  | 0,          _ => []
  | rounds + 1, i =>
    if i < n then
      if p i then (i, runEnd p n n (i + 1)) :: runs rounds (runEnd p n n (i + 1))
      else runs rounds (i + 1)
    else
      []

variable {p n} {rounds i : Nat}

theorem runEnd_spec (hi : i ≤ n) :
    i ≤ runEnd p n rounds i ∧ runEnd p n rounds i ≤ n ∧
      ∀ k, i ≤ k → k < runEnd p n rounds i → p k = true := by
  induction rounds generalizing i
  case zero => exact ⟨Nat.le_refl i, hi, fun k hik hk => absurd hik (Nat.not_le.mpr hk)⟩
  case succ rounds ih =>
    rw [runEnd]
    split
    case isTrue h =>
      obtain ⟨hle, hn, hp⟩ := ih h.1
      refine ⟨Nat.le_of_succ_le hle, hn, fun k hik hk => ?_⟩
      rcases Nat.eq_or_lt_of_le hik with rfl | hlt
      · exact h.2
      · exact hp k hlt hk
    case isFalse => exact ⟨Nat.le_refl i, hi, fun k hik hk => absurd hik (Nat.not_le.mpr hk)⟩

theorem runs_spec (hrounds : n ≤ i + rounds) :
    (∀ r ∈ runs p n rounds i, i ≤ r.1 ∧ r.1 < r.2 ∧ r.2 ≤ n) ∧
    (runs p n rounds i).Pairwise (fun r r' => r.2 ≤ r'.1) ∧
    ∀ k, (∃ r ∈ runs p n rounds i, r.1 ≤ k ∧ k < r.2) ↔ i ≤ k ∧ k < n ∧ p k = true := by
  induction rounds generalizing i
  case zero =>
    refine ⟨fun r hr => (not_mem_nil hr).elim, .nil, fun k => iff_of_false ?_ ?_⟩
    · rintro ⟨r, hr, -⟩
      exact not_mem_nil hr
    · omega
  case succ rounds ih =>
    rw [runs]
    split_ifs with hlt hp
    · have hend : _ ≤ runEnd p n n (i + 1) ∧ _ := runEnd_spec hlt
      obtain ⟨hle, hn, hrun⟩ := hend
      obtain ⟨hbounds, hpair, hcover⟩ := ih (i := runEnd p n n (i + 1)) (by omega)
      generalize runEnd p n n (i + 1) = j at *
      refine ⟨forall_mem_cons.mpr ⟨⟨Nat.le_refl i, hle, hn⟩, fun r hr => ?_⟩,
        pairwise_cons.mpr ⟨fun r hr => (hbounds r hr).1, hpair⟩, fun k => ?_⟩
      · have hr := hbounds r hr
        omega
      · simp only [mem_cons, exists_eq_or_imp, hcover]
        constructor
        · rintro (⟨hik, hkj⟩ | ⟨hjk, hkn, hpk⟩)
          · rcases Nat.eq_or_lt_of_le hik with rfl | hik
            · exact ⟨Nat.le_refl _, hlt, hp⟩
            · exact ⟨Nat.le_of_lt hik, Nat.lt_of_lt_of_le hkj hn, hrun k hik hkj⟩
          · exact ⟨by omega, hkn, hpk⟩
        · rintro ⟨hik, hkn, hpk⟩
          by_cases hkj : k < j
          · exact .inl ⟨hik, hkj⟩
          · exact .inr ⟨Nat.not_lt.mp hkj, hkn, hpk⟩
    · obtain ⟨hbounds, hpair, hcover⟩ := ih (i := i + 1) (by omega)
      refine ⟨fun r hr => ?_, hpair, fun k => (hcover k).trans ⟨fun h => ⟨by omega, h.2⟩, fun h => ?_⟩⟩
      · have hr := hbounds r hr
        omega
      · refine ⟨Nat.lt_of_le_of_ne h.1 fun heq => hp (heq ▸ h.2.2), h.2⟩
    · refine ⟨fun r hr => (not_mem_nil hr).elim, .nil, fun k => iff_of_false ?_ ?_⟩
      · rintro ⟨r, hr, -⟩
        exact not_mem_nil hr
      · omega

end BitRuns
