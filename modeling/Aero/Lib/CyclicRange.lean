import Mathlib.Tactic.SplitIfs

namespace CyclicRange

variable {n a b c x : Nat}

def dist (n a x : Nat) : Nat :=
  if a ≤ x then x - a else x + n - a

-- `x` is met on the way from `a` to `b`, the place `b` itself left out.
def Between (n a b x : Nat) : Prop :=
  x < n ∧ dist n a x < dist n a b

theorem not_between_end : ¬Between n a b b :=
  fun h => Nat.lt_irrefl _ h.2

-- The place after `b` is `a` if all the other places are met on the way.
theorem succ_mod_eq_iff (ha : a < n) (hb : b < n) : (b + 1) % n = a ↔ ¬dist n a b + 1 < n := by
  rw [dist]
  obtain hlt | heq : b + 1 < n ∨ b + 1 = n := by omega
  · rw [Nat.mod_eq_of_lt hlt]
    split_ifs <;> omega
  · rw [heq, Nat.mod_self]
    split_ifs <;> omega

theorem Between.succ (ha : a < n) (hb : b < n) (hne : (b + 1) % n ≠ a)
    (h : Between n a b x ∨ x = b) : Between n a ((b + 1) % n) x := by
  have hx := h.elim (·.1) (· ▸ hb)
  refine ⟨hx, ?_⟩
  simp only [Between, dist] at h ⊢
  obtain hlt | heq : b + 1 < n ∨ b + 1 = n := by omega
  · rw [Nat.mod_eq_of_lt hlt] at hne ⊢
    split_ifs at h ⊢ <;> omega
  · rw [heq, Nat.mod_self] at hne ⊢
    split_ifs at h ⊢ <;> omega

theorem Between.of_start (ha : a < n) (hc : c < n) (h : Between n a b x)
    (hpass : ¬Between n a c x) : Between n c b x := by
  have hx := h.1
  refine ⟨hx, ?_⟩
  simp only [Between, dist] at h hpass ⊢
  split_ifs at h hpass ⊢ <;> omega

end CyclicRange
