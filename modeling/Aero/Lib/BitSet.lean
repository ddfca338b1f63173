import Mathlib.Data.BitVec

namespace BitSet

open List

abbrev Word := BitVec 64

def mem (ws : List Word) (i : Nat) : Bool :=
  ws[i / 64]?.any (·.getLsbD (i % 64))

def set (ws : List Word) (i : Nat) (b : Bool) : Option (List Word) :=
  ws[i / 64]?.map fun w =>
    let mask := 1#64 <<< (i % 64)
    ws.set (i / 64) (if b then w ||| mask else w &&& ~~~mask)

def lowestOne (w : Word) : Nat :=
  ((List.range 64).find? fun i => w.getLsbD i).getD 64

-- The bits of a word that are set, from the lowest on. Each round clears one of them.
def ones : Nat → Word → List Nat
  | 0,          _ => []
  | rounds + 1, w =>
    if w = 0 then [] else lowestOne w :: ones rounds (w &&& ~~~(1#64 <<< lowestOne w))

def elems : Nat → List Word → List Nat
  | _,   []      => []
  | idx, w :: ws => (ones 64 w).map (idx * 64 + ·) ++ elems (idx + 1) ws

variable {i j n : Nat}

theorem set_isSome (h : i < 64 * ws.length) : ∃ ws', set ws i b = some ws' := by
  rw [set, getElem?_eq_getElem (by omega : i / 64 < ws.length)]
  exact ⟨_, rfl⟩

theorem length_set (h : set ws i b = some ws') : ws'.length = ws.length := by
  rw [set, Option.map_eq_some_iff] at h
  obtain ⟨w, -, rfl⟩ := h
  exact List.length_set

theorem mem_set (h : set ws i b = some ws') (j : Nat) :
    mem ws' j = if j = i then b else mem ws j := by
  rw [set, Option.map_eq_some_iff] at h
  obtain ⟨w, hw, rfl⟩ := h
  obtain ⟨hlt, hget⟩ := List.getElem?_eq_some_iff.mp hw
  rw [mem, List.getElem?_set]
  by_cases hj : i / 64 = j / 64
  · rw [if_pos hlt, mem, ← hj, hw, Option.any_some]
    have h64 := Nat.mod_lt j (by decide : 64 > 0)
    by_cases hij : j = i
    · subst hij
      cases b <;> simp [h64]
    · have hne : j % 64 < i % 64 ∨ j % 64 - i % 64 ≠ 0 := by omega
      cases b
      case false => simpa [hij, h64] using fun _ => hne
      case true =>
        simp only [hij]
        rcases hne with h | h <;> simp [h]
  · rw [if_neg hj, if_neg (by rintro rfl; exact hj rfl), mem]

theorem mem_cons_of_ge (h : 64 ≤ i) : mem (w :: ws) i = mem ws (i - 64) := by
  have h₁ : i / 64 = (i - 64) / 64 + 1 := by omega
  have h₂ : i % 64 = (i - 64) % 64 := by omega
  rw [mem, mem, h₁, h₂, getElem?_cons_succ]

theorem mem_cons_of_lt (h : i < 64) : mem (w :: ws) i = w.getLsbD i := by
  have h₁ : i / 64 = 0 := by omega
  have h₂ : i % 64 = i := by omega
  rw [mem, h₁, h₂]
  rfl

theorem lowestOne_spec (h : w ≠ 0) :
    lowestOne w < 64 ∧ w.getLsbD (lowestOne w) = true ∧
      ∀ j < lowestOne w, w.getLsbD j = false := by
  rw [lowestOne]
  cases hf : (range 64).find? fun i => w.getLsbD i
  case none =>
    refine absurd (BitVec.eq_of_getLsbD_eq fun i hi => ?_) h
    have := find?_eq_none.mp hf i (mem_range.mpr hi)
    simpa using this
  case some k =>
    obtain ⟨hk, hmem, hlt⟩ := find?_range_eq_some.mp hf
    exact ⟨mem_range.mp hmem, hk, fun j hj => by simpa using hlt j hj⟩

theorem getLsbD_clear {w : Word} :
    (w &&& ~~~(1#64 <<< i)).getLsbD j = (w.getLsbD j && decide (j ≠ i)) := by
  by_cases hj : j < 64
  · rw [BitVec.getLsbD_and, BitVec.getLsbD_not, BitVec.getLsbD_shiftLeft]
    by_cases hij : j = i
    · simp [hij]
    · have hne : j < i ∨ j - i ≠ 0 := by omega
      rcases hne with h | h <;> simp [h, hj, hij]
  · rw [BitVec.getLsbD_of_ge _ _ (Nat.not_lt.mp hj), BitVec.getLsbD_of_ge _ _ (Nat.not_lt.mp hj)]
    rfl

theorem mem_ones (hr : rounds ≤ 64) (hlow : ∀ j < 64 - rounds, w.getLsbD j = false) :
    i ∈ ones rounds w ↔ w.getLsbD i = true := by
  induction rounds generalizing w
  case zero =>
    by_cases hi : i < 64
    · simp [ones, hlow i hi]
    · simp [ones, BitVec.getLsbD_of_ge _ _ (Nat.not_lt.mp hi)]
  case succ rounds ih =>
    rw [ones]
    split
    case isTrue hw => simp [hw]
    case isFalse hw =>
      obtain ⟨hlt, hone, hbelow⟩ := lowestOne_spec hw
      have hge : 64 - (rounds + 1) ≤ lowestOne w := by
        by_contra hgt
        rw [hlow _ (Nat.not_le.mp hgt)] at hone
        cases hone
      rw [mem_cons, ih (by omega), getLsbD_clear]
      · by_cases hi : i = lowestOne w
        · simp [hi, hone]
        · simp [hi]
      · intro j hj
        by_cases hj' : j = lowestOne w
        · simp [hj']
        · simp [hbelow j (by omega)]

theorem mem_elems : i ∈ elems idx ws ↔ idx * 64 ≤ i ∧ mem ws (i - idx * 64) = true := by
  induction ws generalizing idx
  case nil => simp [elems, mem]
  case cons w ws ih =>
    have hones : ∀ k, k ∈ ones 64 w ↔ w.getLsbD k = true :=
      fun k => mem_ones (Nat.le_refl 64) fun j hj => by omega
    rw [elems, mem_append, ih, mem_map]
    simp only [hones]
    constructor
    · rintro (⟨k, hk, rfl⟩ | ⟨hle, hmem⟩)
      · have hlt := BitVec.lt_of_getLsbD hk
        refine ⟨by omega, ?_⟩
        rw [Nat.add_sub_cancel_left, mem_cons_of_lt hlt, hk]
      · refine ⟨by omega, ?_⟩
        rw [mem_cons_of_ge (by omega), ← hmem]
        exact congrArg _ (by omega)
    · rintro ⟨hle, hmem⟩
      by_cases hlt : i - idx * 64 < 64
      · rw [mem_cons_of_lt hlt] at hmem
        exact .inl ⟨i - idx * 64, hmem, by omega⟩
      · rw [mem_cons_of_ge (by omega)] at hmem
        refine .inr ⟨by omega, ?_⟩
        rw [← hmem]
        exact congrArg _ (by omega)

end BitSet
