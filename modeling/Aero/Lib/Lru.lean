import Mathlib.Algebra.Ring.Nat
import Mathlib.Data.List.Basic

namespace Lru

open List

structure Limits where
  maxEntries : Nat
  -- Zero is no limit.
  maxSize : Nat

def Limits.exceeded (lim : Limits) (entries size : Nat) : Bool :=
  lim.maxEntries < entries || (lim.maxSize != 0 && lim.maxSize < size)

variable {κ ν : Type*} [DecidableEq κ] (key : ν → κ) (size : ν → Nat) (lim : Limits)

def total (l : List ν) : Nat :=
  (l.map size).sum

def lookup (k : κ) (l : List ν) : Option ν :=
  l.find? fun v => key v = k

def without (k : κ) (l : List ν) : List ν :=
  l.filter fun v => key v ≠ k

-- The entries that have to go from a list in which the oldest entry comes first, and the rest.
def evictOldest : List ν → List ν × List ν
  | []     => ([], [])
  | v :: l =>
    if lim.exceeded (l.length + 1) (total size (v :: l)) then
      (v :: (evictOldest l).1, (evictOldest l).2)
    else
      ([], v :: l)

def evict (l : List ν) : List κ × List ν :=
  ((evictOldest size lim l.reverse).1.map key, (evictOldest size lim l.reverse).2.reverse)

def place (v : ν) (l : List ν) : List ν :=
  v :: without key (key v) l

def get (k : κ) (l : List ν) : Option ν × List ν :=
  match lookup key k l with
  | none   => (none, l)
  | some v => (some v, v :: without key k l)

def remove (k : κ) (l : List ν) : Option ν × List ν :=
  (lookup key k l, without key k l)

variable {key size lim} {k : κ} {v : ν} {l xs ys : List ν}

theorem total_append (xs ys : List ν) : total size (xs ++ ys) = total size xs + total size ys := by
  simp [total]

theorem total_cons (v : ν) (l : List ν) : total size (v :: l) = size v + total size l := by
  simp [total]

theorem total_reverse (l : List ν) : total size l.reverse = total size l := by
  simp [total]

theorem without_append (k : κ) (xs ys : List ν) :
    without key k (xs ++ ys) = without key k xs ++ without key k ys :=
  filter_append ..

theorem without_eq_self (h : k ∉ l.map key) : without key k l = l := by
  refine filter_eq_self.mpr fun v hv => ?_
  simp only [decide_not, Bool.not_eq_true', decide_eq_false_iff_not]
  intro hk
  exact h (mem_map.mpr ⟨v, hv, hk⟩)

theorem lookup_eq_none (h : k ∉ l.map key) : lookup key k l = none := by
  refine find?_eq_none.mpr fun v hv hk => ?_
  exact h (mem_map.mpr ⟨v, hv, of_decide_eq_true hk⟩)

theorem lookup_split (h : ((xs ++ v :: ys).map key).Nodup) :
    lookup key (key v) (xs ++ v :: ys) = some v := by
  have hx : key v ∉ xs.map key := by
    intro hv
    rw [map_append, nodup_append] at h
    exact h.2.2 _ hv _ (by simp) rfl
  have hn := lookup_eq_none hx
  rw [lookup] at hn ⊢
  simp [hn]

theorem without_split (h : ((xs ++ v :: ys).map key).Nodup) :
    without key (key v) (xs ++ v :: ys) = xs ++ ys := by
  have hx : key v ∉ xs.map key := by
    intro hv
    rw [map_append, nodup_append] at h
    exact h.2.2 _ hv _ (by simp) rfl
  have hy : key v ∉ ys.map key := by
    rw [map_append, nodup_append] at h
    exact (nodup_cons.mp h.2.1).1
  have hc : without key (key v) (v :: ys) = without key (key v) ys :=
    filter_cons_of_neg (by simp)
  rw [without_append, hc, without_eq_self hx, without_eq_self hy]

omit [DecidableEq κ] in
theorem exists_split (h : k ∈ l.map key) : ∃ xs v ys, l = xs ++ v :: ys ∧ key v = k := by
  have ⟨v, hv, hk⟩ := mem_map.mp h
  have ⟨xs, ys, hl⟩ := append_of_mem hv
  exact ⟨xs, v, ys, hl, hk⟩

theorem nodup_without (h : (l.map key).Nodup) (k : κ) : ((without key k l).map key).Nodup :=
  h.sublist (filter_sublist.map key)

theorem nodup_place (h : (l.map key).Nodup) (v : ν) : ((place key v l).map key).Nodup := by
  rw [place, map_cons, nodup_cons]
  refine ⟨?_, nodup_without h (key v)⟩
  simp [without]

theorem total_without (h : (l.map key).Nodup) (hv : lookup key k l = some v) :
    total size (without key k l) = total size l - size v := by
  have hm := mem_of_find?_eq_some hv
  have hk : key v = k := by simpa using find?_some hv
  obtain ⟨xs, ys, rfl⟩ := append_of_mem hm
  rw [← hk, without_split h, total_append, total_append, total_cons]
  omega

theorem size_le_total (hv : lookup key k l = some v) : size v ≤ total size l := by
  obtain ⟨xs, ys, rfl⟩ := append_of_mem (mem_of_find?_eq_some hv)
  rw [total_append, total_cons]
  omega

theorem without_of_lookup_none (h : lookup key k l = none) : without key k l = l := by
  rw [lookup] at h
  exact filter_eq_self.mpr (by simpa using h)

theorem evictOldest_sublist (size : ν → Nat) (lim : Limits) (l : List ν) :
    (evictOldest size lim l).2.Sublist l := by
  induction l
  case nil => exact .slnil
  case cons v l ih =>
    rw [evictOldest]
    split
    case isTrue => exact ih.cons v
    case isFalse => exact .refl _

end Lru
