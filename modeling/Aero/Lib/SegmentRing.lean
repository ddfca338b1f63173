import Mathlib.Data.List.Basic
import Mathlib.Tactic.Ring

namespace SegmentRing

open Nat

structure Pos where
  seg : Nat
  off : Nat
  deriving DecidableEq, Repr

def Pos.Before (p q : Pos) : Prop :=
  p.seg < q.seg ∨ p.seg = q.seg ∧ p.off < q.off

instance Pos.decidableBefore (p q : Pos) : Decidable (p.Before q) :=
  inferInstanceAs (Decidable (_ ∨ _))

structure Cursor where
  pos : Pos
  cycle : Bool
  deriving DecidableEq, Repr

variable (size : Nat → Nat)

def first : Nat → Nat
  | 0     => 0
  | i + 1 => first i + size i

def index (p : Pos) : Nat :=
  first size p.seg + p.off

variable (n : Nat)

def Valid (p : Pos) : Prop :=
  p.seg < n ∧ p.off < size p.seg

def advance (c : Cursor) : Cursor :=
  if c.pos.off + 1 < size c.pos.seg then { c with pos := ⟨c.pos.seg, c.pos.off + 1⟩ }
  else if c.pos.seg + 1 < n then { c with pos := ⟨c.pos.seg + 1, 0⟩ }
  else ⟨⟨0, 0⟩, !c.cycle⟩

def even (lap : Nat) : Bool :=
  lap % 2 == 0

theorem even_succ (lap : Nat) : even (lap + 1) = !even lap := by
  unfold even
  rcases mod_two_eq_zero_or_one lap with h | h
  · simp [h, add_mod]
  · simp [h, add_mod]

-- The cursor has passed `k` places since it was at the beginning of the ring in the cycle `true`.
structure At (c : Cursor) (k : Nat) : Prop where
  valid : Valid size n c.pos
  lap : ∃ lap, k = lap * first size n + index size c.pos ∧ c.cycle = even lap

variable {size n} {p q : Pos} {c c' : Cursor} {i j k k' : Nat}

theorem first_mono (h : i ≤ j) : first size i ≤ first size j := by
  induction h with
  | refl => exact Nat.le_refl _
  | step _ ih => exact Nat.le_trans ih (Nat.le_add_right ..)

theorem index_lt_first (hp : p.off < size p.seg) (h : p.seg < i) : index size p < first size i := by
  have hle : first size (p.seg + 1) ≤ first size i := first_mono h
  rw [first] at hle
  rw [index]
  omega

theorem Valid.index_lt (h : Valid size n p) : index size p < first size n :=
  index_lt_first h.2 h.1

theorem Valid.total_pos (h : Valid size n p) : 0 < first size n :=
  zero_lt_of_lt h.index_lt

theorem Pos.Before.index_lt (h : p.Before q) (hp : Valid size n p) :
    index size p < index size q := by
  cases h with
  | inl h => exact Nat.lt_of_lt_of_le (index_lt_first hp.2 h) (Nat.le_add_right ..)
  | inr h =>
    rw [index, index, h.1]
    omega

theorem Pos.before_or_eq_or_before (p q : Pos) : p.Before q ∨ p = q ∨ q.Before p := by
  obtain ⟨s, o⟩ := p
  obtain ⟨s', o'⟩ := q
  simp only [Before, mk.injEq]
  omega

theorem Valid.eq_of_index_eq (hp : Valid size n p) (hq : Valid size n q)
    (h : index size p = index size q) : p = q := by
  rcases p.before_or_eq_or_before q with hb | he | hb
  · have := hb.index_lt hp
    omega
  · exact he
  · have := hb.index_lt hq
    omega

theorem At.start (h : Valid size n p) : At size n ⟨p, true⟩ (index size p) :=
  ⟨h, 0, by simp, rfl⟩

theorem At.advance (hne : ∀ i, i < n → 0 < size i) (h : At size n c k) :
    At size n (advance size n c) (k + 1) := by
  obtain ⟨⟨hseg, hoff⟩, lap, hk, hc⟩ := h
  unfold SegmentRing.advance
  by_cases hin : c.pos.off + 1 < size c.pos.seg
  case pos =>
    rw [if_pos hin]
    exact ⟨⟨hseg, hin⟩, lap, by simp only [index] at hk ⊢; omega, hc⟩
  case neg =>
    rw [if_neg hin]
    have hend : index size c.pos + 1 = first size (c.pos.seg + 1) := by
      rw [first, index]
      omega
    by_cases hlast : c.pos.seg + 1 < n
    case pos =>
      rw [if_pos hlast]
      exact ⟨⟨hlast, hne _ hlast⟩, lap, by simp only [index] at hk hend ⊢; omega, hc⟩
    case neg =>
      rw [if_neg hlast]
      have hn : c.pos.seg + 1 = n := by omega
      have h0 : 0 < n := by omega
      refine ⟨⟨h0, hne 0 h0⟩, lap + 1, ?_, by rw [hc, even_succ]⟩
      rw [hn] at hend
      rw [hk, add_assoc, hend, succ_mul]
      rfl

section

variable (h : At size n c k)
include h

theorem At.laps (h' : At size n c' k') (hle : k ≤ k') (hle' : k' ≤ k + first size n) :
    (c'.cycle = c.cycle ∧ k' + index size c.pos = k + index size c'.pos) ∨
      (c'.cycle = !c.cycle ∧
        k' + index size c.pos = k + first size n + index size c'.pos) := by
  obtain ⟨hv, lap, rfl, hc⟩ := h
  obtain ⟨hv', lap', rfl, hc'⟩ := h'
  have hi := hv.index_lt
  have hi' := hv'.index_lt
  generalize index size c.pos = a at hi hle hle' ⊢
  generalize index size c'.pos = b at hi' hle hle' ⊢
  generalize first size n = t at hi hi' hle hle' ⊢
  have hlow : lap ≤ lap' := by
    by_contra hgt
    have hm : (lap' + 1) * t ≤ lap * t := mul_le_mul_right t (by omega)
    rw [succ_mul] at hm
    omega
  have hhigh : lap' ≤ lap + 1 := by
    by_contra hgt
    have hm : (lap + 1 + 1) * t ≤ lap' * t := mul_le_mul_right t (by omega)
    rw [succ_mul, succ_mul] at hm
    omega
  rcases (by omega : lap' = lap ∨ lap' = lap + 1) with rfl | rfl
  · exact .inl ⟨by rw [hc, hc'], by omega⟩
  · refine .inr ⟨by rw [hc, hc', even_succ], ?_⟩
    rw [succ_mul]
    omega

theorem At.unique (h' : At size n c' k) : c' = c := by
  obtain ⟨p, b⟩ := c
  obtain ⟨q, b'⟩ := c'
  have hi := h.valid.index_lt
  rcases h.laps h' (Nat.le_refl k) (Nat.le_add_right ..) with ⟨hc, hk⟩ | ⟨-, hk⟩
  · dsimp only at hc hk
    have hp : p = q := h.valid.eq_of_index_eq h'.valid (by dsimp only; omega)
    rw [hp, hc]
  · omega

theorem At.cycle_of_before (h' : At size n c' k') (hle : k ≤ k') (hle' : k' ≤ k + first size n)
    (hb : c'.pos.Before c.pos) : c'.cycle = !c.cycle := by
  have hi := hb.index_lt h'.valid
  rcases h.laps h' hle hle' with ⟨-, hk⟩ | ⟨hc, -⟩
  · omega
  · exact hc

theorem At.cycle_of_after (h' : At size n c' k') (hle : k ≤ k') (hle' : k' ≤ k + first size n)
    (hb : c.pos.Before c'.pos) : c'.cycle = c.cycle := by
  have hi := hb.index_lt h.valid
  rcases h.laps h' hle hle' with ⟨hc, -⟩ | ⟨-, hk⟩
  · exact hc
  · omega

-- At the same place the cycles tell an empty ring from a full one.
theorem At.of_pos_eq (h' : At size n c' k') (hle : k ≤ k') (hle' : k' ≤ k + first size n)
    (hp : c'.pos = c.pos) :
    (k' = k ∧ c'.cycle = c.cycle) ∨ (k' = k + first size n ∧ c'.cycle = !c.cycle) := by
  rcases h.laps h' hle hle' with ⟨hc, hk⟩ | ⟨hc, hk⟩
  · rw [hp] at hk
    exact .inl ⟨by omega, hc⟩
  · rw [hp] at hk
    exact .inr ⟨by omega, hc⟩

theorem At.add_total : At size n ⟨c.pos, !c.cycle⟩ (k + first size n) := by
  obtain ⟨hv, lap, hk, hc⟩ := h
  refine ⟨hv, lap + 1, ?_, by rw [hc, even_succ]⟩
  rw [hk, succ_mul]
  exact add_right_comm ..

theorem At.pos_ne (h' : At size n c' k') (hlt : k < k') (hlt' : k' < k + first size n) :
    c'.pos ≠ c.pos := by
  intro hp
  rcases h.of_pos_eq h' hlt.le hlt'.le hp with ⟨hk, -⟩ | ⟨hk, -⟩
  · omega
  · omega

end

end SegmentRing
