import Aero.Lib.ByteStore
import Mathlib.Data.Nat.ModEq

namespace WrapRing

open List ByteStore Nat

variable {α : Type*}

-- The cells from `p` on are written, in two pieces when they reach the end of the ring.
def put (c p : Nat) (f : Nat → α) (xs : List α) : Nat → α :=
  ByteStore.write (ByteStore.write f p (xs.take (c - p))) 0 (xs.drop (c - p))

def get (c p n : Nat) (f : Nat → α) : List α :=
  ByteStore.read f p (min n (c - p)) ++ ByteStore.read f 0 (n - (c - p))

def Holds (c r : Nat) (f : Nat → α) (q : List α) : Prop :=
  ∀ i x, q[i]? = some x → f ((r + i) % c) = x

variable {c p r n i j : Nat} {f : Nat → α}

theorem add_mod_of_lt (hp : p < c) (hi : i < c) :
    (p + i) % c = if p + i < c then p + i else p + i - c := by
  split
  case isTrue h => exact mod_eq_of_lt h
  case isFalse h => rw [mod_eq_sub_mod (by omega), mod_eq_of_lt (by omega)]

theorem put_apply (hp : p < c) (hlen : xs.length ≤ c) (h : xs[i]? = some x) :
    put c p f xs ((p + i) % c) = x := by
  obtain ⟨hi, rfl⟩ := List.getElem?_eq_some_iff.mp h
  rw [add_mod_of_lt hp (by omega), put]
  split
  case isTrue hlt =>
    have htake : i < (xs.take (c - p)).length := by
      rw [List.length_take]
      omega
    rw [write_of_le (by rw [List.length_drop]; omega), write_add htake]
    exact List.getElem_take
  case isFalse hge =>
    have hdrop : p + i - c < (xs.drop (c - p)).length := by
      rw [List.length_drop]
      omega
    have hadd := write_add (f := write f p (xs.take (c - p))) (a := 0) hdrop
    rw [zero_add] at hadd
    rw [hadd, List.get_eq_getElem, List.getElem_drop]
    congr 1
    dsimp only
    omega

theorem put_of_ne (hp : p < c) (hj : j < c) (h : ∀ i < xs.length, j ≠ (p + i) % c) :
    put c p f xs j = f j := by
  rw [put, write_of_disjoint, write_of_disjoint]
  · rw [length_take]
    by_contra hin
    refine h (j - p) (by omega) ?_
    rw [Nat.add_sub_cancel' (by omega), Nat.mod_eq_of_lt hj]
  · rw [length_drop]
    by_contra hin
    refine h (j + (c - p)) (by omega) ?_
    rw [show p + (j + (c - p)) = j + c by omega, Nat.add_mod_right, Nat.mod_eq_of_lt hj]

theorem get_eq (hp : p < c) (hn : n ≤ c) :
    get c p n f = (range n).map fun i => f ((p + i) % c) := by
  refine ext_getElem (by simp [get]; omega) fun i h₁ h₂ => ?_
  rw [length_map, length_range] at h₂
  rw [getElem_map, getElem_range, add_mod_of_lt hp (by omega)]
  simp only [get, ByteStore.read, getElem_append, length_map, length_range',
    getElem_map, getElem_range', one_mul]
  split
  case isTrue hlt => rw [if_pos (by omega)]
  case isFalse hge =>
    rw [if_neg (by omega)]
    congr 1
    omega

namespace Holds

theorem nil : Holds c r f [] := by
  intro i x h
  cases h

theorem put (hc : 0 < c) (h : Holds c r f q) (hlen : q.length + xs.length ≤ c) :
    Holds c r (put c ((r + q.length) % c) f xs) (q ++ xs) := by
  have hlt := Nat.mod_lt (r + q.length) hc
  intro i x hx
  by_cases hi : i < q.length
  case pos =>
    rw [getElem?_append_left hi] at hx
    rw [put_of_ne hlt (Nat.mod_lt _ hc)]
    · exact h i x hx
    · -- the new cells begin behind those of the queue and do not come around to them
      intro k hk heq
      rw [Nat.mod_add_mod] at heq
      have hdvd : c ∣ r + q.length + k - (r + i) :=
        (Nat.modEq_iff_dvd' (by omega)).mp heq
      have hle := Nat.le_of_dvd (by omega) hdvd
      omega
  case neg =>
    rw [getElem?_append_right (by omega)] at hx
    have happly := put_apply (f := f) hlt (by omega) hx
    rw [Nat.mod_add_mod] at happly
    rw [← happly, Nat.add_assoc, Nat.add_sub_cancel' (by omega)]

theorem get (hc : 0 < c) (h : Holds c r f q) (hq : q.length ≤ c) (hn : n ≤ q.length) :
    get c (r % c) n f = q.take n := by
  rw [get_eq (mod_lt r hc) (by omega)]
  refine ext_getElem (by simp [hn]) fun i h₁ h₂ => ?_
  rw [length_map, length_range] at h₁
  rw [getElem_map, getElem_range, getElem_take, mod_add_mod]
  exact h i _ (getElem?_eq_getElem (by omega))

theorem drop (h : Holds c r f q) (n : Nat) : Holds c (r + n) f (q.drop n) := by
  intro i x hx
  rw [getElem?_drop] at hx
  rw [add_assoc]
  exact h (n + i) x hx

end Holds

end WrapRing
