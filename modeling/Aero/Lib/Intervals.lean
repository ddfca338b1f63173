import Mathlib.Algebra.Ring.Nat
import Mathlib.Data.List.Basic
import Mathlib.Data.List.TakeWhile
import Mathlib.Order.Interval.Finset.Nat

namespace Intervals

open List Option Nat

-- The number of leading elements with a property. Bisection finds it if the list is partitioned.
def partitionPoint {α : Type*} (p : α → Bool) (l : List α) : Nat :=
  (l.takeWhile p).length

variable {α : Type*} (lo hi : α → Nat)

structure Sorted (l : List α) : Prop where
  le       : ∀ x ∈ l, lo x ≤ hi x
  pairwise : l.Pairwise fun x y => hi x ≤ lo y

def findIndex (l : List α) (a : Nat) : Option Nat :=
  match partitionPoint (fun x => lo x ≤ a) l with
  | 0     => none
  | i + 1 => if l[i]?.any fun x => lo x ≤ a ∧ a < hi x then some i else none

def nextStart (l : List α) (a : Nat) : Option Nat :=
  l[partitionPoint (fun x => lo x ≤ a) l]?.map lo

-- Puts `x` at its place, unless it overlaps with a neighbour.
def insert (l : List α) (x : α) : Option (List α) :=
  let i := partitionPoint (fun y => lo y < lo x) l
  if (i ≠ 0 ∧ l[i - 1]?.any fun y => lo x < hi y) ∨ l[i]?.any fun y => lo y < hi x then none
  else some (l.take i ++ x :: l.drop i)

variable {lo hi} {l : List α} {a b i : Nat} {x : α} {p : α → Bool}

theorem of_lt_partitionPoint (h : i < partitionPoint p l) (hx : l[i]? = some x) : p x = true := by
  induction l generalizing i
  case nil => simp at hx
  case cons y l ih =>
    rw [partitionPoint, takeWhile_cons] at h
    split at h
    case isFalse => simp at h
    case isTrue hy =>
      cases i
      case zero =>
        obtain rfl : y = x := by simpa using hx
        exact hy
      case succ i => exact ih (by simpa [partitionPoint] using h) (by simpa using hx)

theorem not_at_partitionPoint (hx : l[partitionPoint p l]? = some x) : p x = false := by
  induction l
  case nil => simp at hx
  case cons y l ih =>
    rw [partitionPoint, takeWhile_cons] at hx
    split at hx
    case isTrue => exact ih (by simpa [partitionPoint] using hx)
    case isFalse hy =>
      obtain rfl : y = x := by simpa using hx
      simpa using hy

theorem partitionPoint_le : partitionPoint p l ≤ l.length :=
  IsPrefix.length_le <| takeWhile_prefix p

theorem insert_perm (h : insert lo hi l x = some l') : l'.Perm (x :: l) := by
  rw [insert] at h
  split at h
  case isTrue => cases h
  case isFalse =>
    obtain rfl := some.inj h
    refine perm_middle.trans ?_
    rw [take_append_drop]

theorem findIdx?_congr (h : ∀ x ∈ l, p x = q x) : l.findIdx? p = l.findIdx? q := by
  induction l
  case nil => rfl
  case cons y l ih =>
    rw [findIdx?_cons, findIdx?_cons, h y mem_cons_self, ih fun x hx => h x (mem_cons_of_mem y hx)]

namespace Sorted

variable (hs : Sorted lo hi l)
include hs

theorem hi_le (hij : i < j) (hx : l[i]? = some x) (hy : l[j]? = some y) : hi x ≤ lo y := by
  obtain ⟨hi', rfl⟩ := List.getElem?_eq_some_iff.mp hx
  obtain ⟨hj', rfl⟩ := List.getElem?_eq_some_iff.mp hy
  exact List.pairwise_iff_getElem.mp hs.pairwise i j hi' hj' hij

theorem lo_le (hij : i ≤ j) (hx : l[i]? = some x) (hy : l[j]? = some y) : lo x ≤ lo y := by
  rcases eq_or_lt_of_le hij with rfl | hlt
  · rw [hx, some.injEq] at hy
    rw [hy]
  · exact (hs.le x (mem_of_getElem? hx)).trans (hs.hi_le hlt hx hy)

theorem lt_of_partitionPoint_le (h : partitionPoint (fun x => lo x ≤ a) l ≤ i)
    (hx : l[i]? = some x) : a < lo x := by
  have hlt := h.trans_lt (List.getElem?_eq_some_iff.mp hx).1
  have hy := List.getElem?_eq_getElem hlt
  have := not_at_partitionPoint hy
  simp only [decide_eq_false_iff_not, not_le] at this
  exact this.trans_le (hs.lo_le h hy hx)

theorem findIndex_eq_some_iff :
    findIndex lo hi l a = some i ↔ ∃ x, l[i]? = some x ∧ lo x ≤ a ∧ a < hi x := by
  rw [findIndex]
  constructor
  · intro h
    split at h
    case h_1 => cases h
    case h_2 j hj =>
      split at h
      case isFalse => cases h
      case isTrue hany =>
        obtain rfl := Option.some.inj h
        simpa [Option.any_eq_true] using hany
  · rintro ⟨x, hx, hlo, hhi⟩
    -- the interval is the last one that begins at `a` or before
    have hi₁ : i < partitionPoint (fun x => lo x ≤ a) l := by
      by_contra hge
      have := hs.lt_of_partitionPoint_le (not_lt.mp hge) hx
      omega
    have hi₂ : partitionPoint (fun x => lo x ≤ a) l ≤ i + 1 := by
      by_contra hge
      have hlt : i + 1 < l.length := (not_le.mp hge).trans_le partitionPoint_le
      have hy := getElem?_eq_getElem hlt
      have h₁ := of_lt_partitionPoint (not_le.mp hge) hy
      have h₂ := hs.hi_le (lt_succ_self i) hx hy
      simp only [decide_eq_true_eq] at h₁
      omega
    have hi₃ : partitionPoint (fun x => lo x ≤ a) l = i + 1 := by omega
    simp [hi₃, hx, hlo, hhi]

theorem findIndex_eq_findIdx? :
    findIndex lo hi l a = l.findIdx? fun x => lo x ≤ a ∧ a < hi x := by
  cases h : l.findIdx? (fun x => lo x ≤ a ∧ a < hi x)
  case none =>
    rw [findIdx?_eq_none_iff] at h
    cases hf : findIndex lo hi l a
    case none => rfl
    case some i =>
      obtain ⟨x, hx, hlo⟩ := hs.findIndex_eq_some_iff.mp hf
      have := h x (mem_of_getElem? hx)
      simp [hlo] at this
  case some i =>
    obtain ⟨hlt, hx, -⟩ := findIdx?_eq_some_iff_getElem.mp h
    refine hs.findIndex_eq_some_iff.mpr ⟨_, getElem?_eq_getElem hlt, ?_⟩
    simpa using hx

theorem lt_nextStart (h : nextStart lo l a = some b) : a < b := by
  rw [nextStart, map_eq_some_iff] at h
  obtain ⟨x, hx, rfl⟩ := h
  exact hs.lt_of_partitionPoint_le le_rfl hx

theorem lo_le_of_lt_nextStart (hb : ∀ s, nextStart lo l a = some s → b < s) (hx : l[i]? = some x)
    (hlo : lo x ≤ b) : lo x ≤ a := by
  by_cases hi' : i < partitionPoint (fun x => lo x ≤ a) l
  · simpa using of_lt_partitionPoint hi' hx
  · have hlt : partitionPoint (fun x => lo x ≤ a) l < l.length := by
      have := (List.getElem?_eq_some_iff.mp hx).1
      omega
    have hy := List.getElem?_eq_getElem hlt
    have h₁ := hb _ (by rw [nextStart, hy]; rfl)
    have h₂ := hs.lo_le (by omega) hy hx
    omega

theorem findIndex_eq_none_of_lt (hn : findIndex lo hi l a = none) (hab : a ≤ b)
    (hb : ∀ s, nextStart lo l a = some s → b < s) : findIndex lo hi l b = none := by
  cases hf : findIndex lo hi l b
  case none => rfl
  case some i =>
    obtain ⟨x, hx, hlo, hhi⟩ := hs.findIndex_eq_some_iff.mp hf
    have hlo' := hs.lo_le_of_lt_nextStart hb hx hlo
    rw [hs.findIndex_eq_some_iff.mpr ⟨x, hx, hlo', by omega⟩] at hn
    cases hn

-- The first interval that ends behind `a` is the only one that can meet a range from `a` on.
theorem findIndex_eq_none_of_first
    (h : l[partitionPoint (fun x => hi x ≤ a) l]?.any (fun x => lo x < stop) = false) (hab : a ≤ b)
    (hb : b < stop) : findIndex lo hi l b = none := by
  cases hf : findIndex lo hi l b
  case none => rfl
  case some i =>
    obtain ⟨x, hx, hlo, hhi⟩ := hs.findIndex_eq_some_iff.mp hf
    by_cases hi' : i < partitionPoint (fun x => hi x ≤ a) l
    · have := of_lt_partitionPoint hi' hx
      simp only [decide_eq_true_eq] at this
      omega
    · have hlt : partitionPoint (fun x => hi x ≤ a) l < l.length := by
        have := (List.getElem?_eq_some_iff.mp hx).1
        omega
      have hy := List.getElem?_eq_getElem hlt
      have hle := hs.lo_le (by omega) hy hx
      rw [hy, Option.any_some, decide_eq_false_iff_not] at h
      omega

theorem insert (hle : lo x ≤ hi x) (h : Intervals.insert lo hi l x = some l') :
    Sorted lo hi l' := by
  rw [Intervals.insert] at h
  obtain ⟨k, hk⟩ : ∃ k, k = partitionPoint (fun y => decide (lo y < lo x)) l := ⟨_, rfl⟩
  rw [← hk] at h
  split at h
  case isTrue => cases h
  case isFalse hc =>
    obtain rfl := Option.some.inj h
    have hbefore : ∀ y ∈ l.take k, hi y ≤ lo x := by
      intro y hy
      obtain ⟨j, hj⟩ := List.mem_iff_getElem?.mp hy
      rw [List.getElem?_take] at hj
      split at hj
      case isFalse => cases hj
      case isTrue hjk =>
        have hkl : k - 1 < l.length := by
          have := hk ▸ partitionPoint_le
          omega
        have hz := List.getElem?_eq_getElem hkl
        have hlast : hi (l.get ⟨k - 1, hkl⟩) ≤ lo x := by
          by_contra hlt
          exact hc (.inl ⟨by omega, by rw [hz]; simpa using hlt⟩)
        rcases eq_or_lt_of_le (le_sub_one_of_lt hjk) with rfl | hlt
        · rw [hz, Option.some.injEq] at hj
          exact hj ▸ hlast
        · exact (hs.hi_le hlt hj hz).trans ((hs.le _ (List.getElem_mem hkl)).trans hlast)
    have hafter : ∀ y ∈ l.drop k, hi x ≤ lo y := by
      intro y hy
      obtain ⟨j, hj⟩ := List.mem_iff_getElem?.mp hy
      rw [List.getElem?_drop] at hj
      have hkl : k < l.length := by
        have := (List.getElem?_eq_some_iff.mp hj).1
        omega
      have hz := List.getElem?_eq_getElem hkl
      have hfirst : hi x ≤ lo (l.get ⟨k, hkl⟩) := by
        by_contra hlt
        exact hc (.inr (by rw [hz]; simpa using hlt))
      exact hfirst.trans (hs.lo_le (le_add_right k j) hz hj)
    constructor
    case le =>
      intro y hy
      rcases List.mem_append.mp hy with hy | hy
      · exact hs.le y (List.mem_of_mem_take hy)
      · rcases List.mem_cons.mp hy with rfl | hy
        · exact hle
        · exact hs.le y (List.mem_of_mem_drop hy)
    case pairwise =>
      have hold : (l.take k ++ l.drop k).Pairwise fun x y => hi x ≤ lo y := by
        rw [List.take_append_drop]
        exact hs.pairwise
      obtain ⟨htake, hdrop, hcross⟩ := List.pairwise_append.mp hold
      refine List.pairwise_append.mpr ⟨htake, hdrop.cons hafter, ?_⟩
      intro y hy z hz
      rcases List.mem_cons.mp hz with rfl | hz
      · exact hbefore y hy
      · exact hcross y hy z hz

end Sorted

def points (lo hi : α → Nat) (l : List α) : Finset Nat :=
  l.foldr (fun x s => Finset.Ico (lo x) (hi x) ∪ s) ∅

theorem mem_points : a ∈ points lo hi l ↔ ∃ x ∈ l, lo x ≤ a ∧ a < hi x := by
  induction l
  case nil => simp [points]
  case cons x l ih =>
    rw [points, foldr_cons, Finset.mem_union, ← points, ih]
    simp

theorem card_points (h : l.Pairwise fun x y => hi x ≤ lo y ∨ hi y ≤ lo x) :
    (points lo hi l).card = (l.map fun x => hi x - lo x).sum := by
  induction l
  case nil => rfl
  case cons x l ih =>
    obtain ⟨hx, hl⟩ := pairwise_cons.mp h
    have hdisjoint : Disjoint (Finset.Ico (lo x) (hi x)) (points lo hi l) := by
      refine Finset.disjoint_left.mpr fun a ha ha' => ?_
      obtain ⟨y, hy, hay⟩ := mem_points.mp ha'
      rw [Finset.mem_Ico] at ha
      have := hx y hy
      omega
    rw [map_cons, sum_cons, ← ih hl, ← card_Ico, ← Finset.card_union_of_disjoint hdisjoint]
    rfl

theorem sum_le_of_disjoint (h : l.Pairwise fun x y => hi x ≤ lo y ∨ hi y ≤ lo x)
    (hin : ∀ x ∈ l, a ≤ lo x ∧ hi x ≤ b) : (l.map fun x => hi x - lo x).sum ≤ b - a := by
  rw [← card_points h, ← card_Ico]
  refine Finset.card_le_card fun n hn => ?_
  obtain ⟨x, hx, hlo, hhi⟩ := mem_points.mp hn
  have := hin x hx
  rw [Finset.mem_Ico]
  omega

end Intervals
