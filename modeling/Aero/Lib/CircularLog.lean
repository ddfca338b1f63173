import Mathlib.Data.List.Basic
import Mathlib.Data.Nat.ModEq

namespace CircularLog

open Nat

theorem mod_ne_mod {c a b : Nat} (h : a < b) (hb : b < a + c) : a % c ≠ b % c := by
  intro he
  have hd : c ∣ b - a := (modEq_iff_dvd' h.le).mp he
  have := le_of_dvd (by omega) hd
  omega

-- The cells that are skipped at `a` before a record of `n` cells.
def gap (c a n : Nat) : Nat :=
  if c - a % c < n then c - a % c else 0

section Gap

variable {c a n : Nat}

theorem gap_of_lt (h : c - a % c < n) : gap c a n = c - a % c := if_pos h

theorem gap_of_ge (h : n ≤ c - a % c) : gap c a n = 0 := if_neg (by omega)

theorem gap_le : gap c a n ≤ n := by
  rw [gap]
  split <;> omega

theorem gap_eq_of_pos (h : 0 < gap c a n) : gap c a n = c - a % c := by
  rw [gap] at h ⊢
  split at h
  case isTrue ht => exact if_pos ht
  case isFalse => omega

theorem start_mod_add_le (hc : 0 < c) (hn : n ≤ c) : (a + gap c a n) % c + n ≤ c := by
  have hm := mod_lt a hc
  by_cases h : c - a % c < n
  case pos =>
    have he : a + (c - a % c) = c * (a / c + 1) := by
      have := div_add_mod a c
      rw [mul_add]
      omega
    rw [gap_of_lt h, he, mul_mod_right]
    omega
  case neg =>
    rw [gap_of_ge (by omega), add_zero]
    omega

theorem start_add_mod (hc : 0 < c) (hn : n ≤ c) (hk : k < n) :
    (a + gap c a n + k) % c = (a + gap c a n) % c + k := by
  have := start_mod_add_le (a := a) hc hn
  rw [add_mod, mod_eq_of_lt (a := k) (by omega), mod_eq_of_lt (by omega)]

theorem gap_add_mod (hk : k < c - a % c) : (a + k) % c = a % c + k := by
  rw [add_mod, mod_eq_of_lt (a := k) (by omega), mod_eq_of_lt (by omega)]

end Gap

variable (c : Nat) {α : Type*} (size : α → Nat)

def next (a : Nat) (x : α) : Nat :=
  a + gap c a (size x) + size x

-- The position at which the record `i` of the log begins, its gap included.
def pos (l : List α) (i : Nat) : Nat :=
  (l.take i).foldl (next c size) 0

variable {c size} {l : List α} {i j : Nat} {x : α}

@[simp]
theorem pos_zero : pos c size l 0 = 0 := by
  simp [pos]

theorem pos_succ (h : l[i]? = some x) : pos c size l (i + 1) = next c size (pos c size l i) x := by
  rw [pos, List.take_add_one, h]
  simp [pos]

theorem pos_append (h : i ≤ l.length) (l' : List α) : pos c size (l ++ l') i = pos c size l i := by
  rw [pos, pos, List.take_append_of_le_length h]

theorem pos_append_succ (l : List α) (x : α) :
    pos c size (l ++ [x]) (l.length + 1) = next c size (pos c size l l.length) x := by
  rw [pos_succ (x := x) (by simp), pos_append le_rfl]

theorem pos_le_succ (l : List α) (i : Nat) : pos c size l i ≤ pos c size l (i + 1) := by
  cases h : l[i]?
  case none =>
    have hl := List.getElem?_eq_none_iff.mp h
    rw [pos, pos, List.take_of_length_le hl, List.take_of_length_le (by omega)]
  case some x =>
    rw [pos_succ h, next]
    omega

theorem pos_mono (h : i ≤ j) : pos c size l i ≤ pos c size l j := by
  induction h
  case refl => exact le_rfl
  case step ih => exact ih.trans (pos_le_succ l _)

theorem pos_lt (hs : ∀ x, 0 < size x) (h : i < j) (hj : j ≤ l.length) :
    pos c size l i < pos c size l j := by
  obtain ⟨x, hx⟩ : ∃ x, l[i]? = some x := ⟨_, List.getElem?_eq_getElem (by omega)⟩
  calc pos c size l i < pos c size l (i + 1) := by
        have := hs x
        rw [pos_succ hx, next]
        omega
    _ ≤ pos c size l j := pos_mono h

end CircularLog
