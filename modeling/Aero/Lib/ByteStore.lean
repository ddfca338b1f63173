import Mathlib.Data.List.Basic

namespace ByteStore

open List

variable {α : Type*}

def read (f : Nat → α) (a n : Nat) : List α :=
  (List.range' a n).map f

def write (f : Nat → α) (a : Nat) (bs : List α) : Nat → α :=
  fun i => if a ≤ i then bs[i - a]?.getD (f i) else f i

variable {f g : Nat → α}

@[simp]
theorem length_read : (read f a n).length = n := by
  simp [read]

theorem getElem?_read (h : i < n) : (read f a n)[i]? = some (f (a + i)) := by
  simp [read, h]

theorem read_append : read f a (m + n) = read f a m ++ read f (a + m) n := by
  rw [read, ← range'_append_1, map_append]
  rfl

theorem read_congr (h : ∀ i, a ≤ i → i < a + n → f i = g i) : read f a n = read g a n := by
  refine map_congr_left fun i hi => ?_
  rw [mem_range'_1] at hi
  exact h i hi.1 hi.2

theorem write_of_lt (h : i < a) : write f a bs i = f i :=
  if_neg (Nat.not_le.mpr h)

theorem write_of_le (h : a + bs.length ≤ i) : write f a bs i = f i := by
  rw [write, if_pos (by omega), getElem?_eq_none (by omega)]
  rfl

theorem write_of_disjoint (h : i < a ∨ a + bs.length ≤ i) : write f a bs i = f i :=
  h.elim write_of_lt write_of_le

theorem write_add (h : i < bs.length) : write f a bs (a + i) = bs.get ⟨i, h⟩ := by
  rw [write, if_pos (Nat.le_add_right a i), Nat.add_sub_cancel_left, getElem?_eq_getElem h]
  rfl

@[simp]
theorem write_nil : write f a [] = f := by
  funext i
  simp [write]

theorem write_append : write f a (bs ++ cs) = write (write f a bs) (a + bs.length) cs := by
  funext i
  by_cases h₁ : i < a
  · rw [write_of_lt h₁, write_of_lt (by omega), write_of_lt h₁]
  · obtain ⟨j, rfl⟩ := Nat.exists_eq_add_of_le (Nat.not_lt.mp h₁)
    simp only [write, Nat.le_add_right, if_true, Nat.add_sub_cancel_left, getElem?_append, Nat.add_sub_add_left]
    by_cases h₂ : j < bs.length
    · rw [if_pos h₂, if_neg (by omega)]
    · rw [if_neg h₂, if_pos (by omega), getElem?_eq_none (by omega : bs.length ≤ j)]
      rfl

@[simp]
theorem read_write_self : read (write f a bs) a bs.length = bs := by
  refine ext_getElem (by simp) fun i h₁ h₂ => ?_
  simp only [read, getElem_map, getElem_range', Nat.one_mul]
  exact write_add h₂

theorem read_write_of_disjoint (h : a + n ≤ b ∨ b + bs.length ≤ a) :
    read (write f b bs) a n = read f a n :=
  read_congr fun i h₁ h₂ => write_of_disjoint (by omega)

theorem write_read_self : write f a (read f a n) = f := by
  funext i
  by_cases h : a ≤ i ∧ i < a + n
  · obtain ⟨j, rfl⟩ := Nat.exists_eq_add_of_le h.1
    rw [write, if_pos h.1, Nat.add_sub_cancel_left, getElem?_read (by omega)]
    rfl
  · exact write_of_disjoint (by rw [length_read]; omega)

theorem read_const (x : α) : read (fun _ => x) a n = replicate n x := by
  rw [read, map_const', length_range']

theorem write_const (x : α) : write (fun _ => x) a (replicate n x) = fun _ => x := by
  rw [← read_const]
  exact write_read_self

section Several

def writeAll (f : Nat → α) (ws : List (Nat × List α)) : Nat → α :=
  ws.foldl (fun f w => write f w.1 w.2) f

variable {w : Nat × List α}

def Apart (v w : Nat × List α) : Prop :=
  v.1 + v.2.length ≤ w.1 ∨ w.1 + w.2.length ≤ v.1

theorem read_writeAll_of_apart (h : ∀ w ∈ ws, a + n ≤ w.1 ∨ w.1 + w.2.length ≤ a) :
    read (writeAll f ws) a n = read f a n := by
  induction ws generalizing f
  case nil => rfl
  case cons w ws ih =>
    obtain ⟨hw, hws⟩ := forall_mem_cons.mp h
    exact (ih hws).trans (read_write_of_disjoint hw)

theorem read_writeAll_of_mem (hd : ws.Pairwise Apart) (hw : w ∈ ws) :
    read (writeAll f ws) w.1 w.2.length = w.2 := by
  induction ws generalizing f
  case nil => exact (not_mem_nil hw).elim
  case cons v ws ih =>
    obtain ⟨hv, hd⟩ := pairwise_cons.mp hd
    obtain rfl | hw := mem_cons.mp hw
    · exact (read_writeAll_of_apart hv).trans read_write_self
    · exact ih hd hw

end Several

end ByteStore
