import Aero.Types

namespace Aero.Memory

open List
open BitVec (ofNat)

-- `none` is an error. The bus does not look at the result of a write.
class GuestMemory (M : Type*) where
  size      : M → U64
  readInto  : M → U64 → Nat → Option (List U8)
  writeFrom : M → U64 → List U8 → M
  getSlice  : M → U64 → Nat → Option (List U8)

namespace GuestMemory

variable {M : Type*} [GuestMemory M]

def byte (m : M) (a : Nat) : U8 :=
  ((readInto m (BitVec.ofNat 64 a) 1).bind List.head?).getD 0xFF

def put (m : M) (p : Nat × U8) : M :=
  writeFrom m (BitVec.ofNat 64 p.1) [p.2]

end GuestMemory

open GuestMemory

-- Inside its size a memory does not fail, and it works byte by byte. It may have holes that read as
-- they like and ignore writes.
class LawfulGuestMemory (M : Type*) [GuestMemory M] : Prop where
  readInto_eq {m : M} {a : U64} {n : Nat} : a.toNat + n ≤ (size m).toNat →
    readInto m a n = some ((List.range' a.toNat n).map (byte m))
  getSlice_eq {m : M} {a : U64} {n : Nat} {bytes : List U8} : a.toNat + n ≤ (size m).toNat →
    getSlice m a n = some bytes → bytes = (List.range' a.toNat n).map (byte m)
  size_writeFrom {m : M} {a : U64} {bytes : List U8} : size (writeFrom m a bytes) = size m
  writeFrom_eq {m : M} {a : U64} {bytes : List U8} : a.toNat + bytes.length ≤ (size m).toNat →
    writeFrom m a bytes = ((List.range' a.toNat bytes.length).zip bytes).foldl put m

structure DenseMemory where
  data : List U8
  lt   : data.length < 2 ^ 64

namespace DenseMemory

variable {m : DenseMemory} {a : U64} {n : Nat} {bytes : List U8}

def readRange (m : DenseMemory) (a : U64) (n : Nat) : Option (List U8) :=
  if a.toNat + n ≤ m.data.length then some ((m.data.drop a.toNat).take n) else none

def writeRange (m : DenseMemory) (a : U64) (bytes : List U8) : DenseMemory :=
  if h : a.toNat + bytes.length ≤ m.data.length then
    { data := m.data.take a.toNat ++ bytes ++ m.data.drop (a.toNat + bytes.length)
      lt := by
        have := m.lt
        simp only [List.length_append, List.length_take, List.length_drop]
        omega }
  else
    m

instance : GuestMemory DenseMemory where
  size m := BitVec.ofNat 64 m.data.length
  readInto := readRange
  writeFrom := writeRange
  getSlice := readRange

theorem toNat_size : (size m).toNat = m.data.length :=
  Nat.mod_eq_of_lt m.lt

theorem length_writeRange : (m.writeRange a bytes).data.length = m.data.length := by
  rw [writeRange]
  split
  case isTrue h =>
    simp only [length_append, length_take, length_drop]
    omega
  case isFalse => rfl

theorem byte_eq (hi : i < m.data.length) : byte m i = m.data.get ⟨i, hi⟩ := by
  have h64 : (ofNat 64 i).toNat = i := Nat.mod_eq_of_lt (hi.trans m.lt)
  have hr : readInto m (ofNat 64 i) 1 = some [m.data.get ⟨i, hi⟩] := by
    have hle : (ofNat 64 i).toNat + 1 ≤ m.data.length := by omega
    rw [show readInto m (ofNat 64 i) 1 = m.readRange (ofNat 64 i) 1 from rfl,
      readRange, if_pos hle, h64, drop_eq_getElem_cons hi]
    rfl
  rw [byte, hr]
  rfl

theorem readRange_eq (h : a.toNat + n ≤ m.data.length) :
    m.readRange a n = some ((range' a.toNat n).map (byte m)) := by
  rw [readRange, if_pos h, Option.some.injEq]
  apply ext_getElem
  · simp only [length_take, length_drop, length_map, length_range']
    omega
  · intro i h₁ h₂
    rw [length_map, length_range'] at h₂
    rw [getElem_take, getElem_drop, getElem_map, getElem_range', Nat.one_mul, byte_eq (by omega)]
    rfl

theorem getElem?_writeRange (h : a.toNat + bytes.length ≤ m.data.length) (i : Nat) :
    (m.writeRange a bytes).data[i]? =
      if a.toNat ≤ i ∧ i < a.toNat + bytes.length then bytes[i - a.toNat]? else m.data[i]? := by
  simp only [writeRange, dif_pos h, getElem?_append, getElem?_drop]
  grind

theorem ext_getElem? {m₁ m₂ : DenseMemory} (h : ∀ i : Nat, m₁.data[i]? = m₂.data[i]?) : m₁ = m₂ := by
  cases m₁
  cases m₂
  congr
  exact List.ext_getElem? h

theorem writeRange_cons (h : a.toNat + (b :: bytes).length ≤ m.data.length) :
    m.writeRange a (b :: bytes) =
      (m.writeRange a [b]).writeRange (ofNat 64 (a.toNat + 1)) bytes := by
  have := m.lt
  rw [length_cons] at h
  have h64 : (ofNat 64 (a.toNat + 1)).toNat = a.toNat + 1 := Nat.mod_eq_of_lt (by omega)
  refine ext_getElem? fun i => ?_
  rw [getElem?_writeRange (by simpa using h), getElem?_writeRange (by rw [length_writeRange]; omega),
    getElem?_writeRange (by simp only [length_singleton]; omega)]
  grind

theorem writeRange_eq (h : a.toNat + bytes.length ≤ m.data.length) :
    m.writeRange a bytes = ((range' a.toNat bytes.length).zip bytes).foldl put m := by
  induction bytes generalizing m a
  case nil => exact ext_getElem? fun i => by rw [getElem?_writeRange h]; grind
  case cons b bytes ih =>
    have := m.lt
    rw [writeRange_cons h]
    rw [length_cons] at h ⊢
    have h64 : (ofNat 64 (a.toNat + 1)).toNat = a.toNat + 1 := Nat.mod_eq_of_lt (by omega)
    have hput : m.writeRange a [b] = put m (a.toNat, b) := by
      simp only [put, BitVec.ofNat_toNat]
      rfl
    rw [ih (by rw [length_writeRange]; omega), h64, hput]
    rfl

instance : LawfulGuestMemory DenseMemory where
  readInto_eq h := readRange_eq (toNat_size ▸ h)
  getSlice_eq h hs := Option.some.inj (hs.symm.trans (readRange_eq (toNat_size ▸ h)))
  size_writeFrom := congrArg (BitVec.ofNat 64) length_writeRange
  writeFrom_eq h := writeRange_eq (toNat_size ▸ h)

end DenseMemory

end Aero.Memory
