import Mathlib.Data.BitVec

-- Byte-addressed memory with little-endian words. Addresses wrap around.
def ByteMemory := BitVec 64 → BitVec 8

namespace ByteMemory

open BitVec

open BitVec (eq_of_getLsbD_eq ofNat toNat_ofNat)

variable {w n : Nat} {m : ByteMemory} {a b : BitVec 64} {v : BitVec w}

def read (m : ByteMemory) (w : Nat) : Nat → BitVec 64 → BitVec w
  | 0,     _ => 0
  | n + 1, a => (m a).setWidth w ||| m.read w n (a + 1) <<< 8

def write (m : ByteMemory) (n : Nat) (a : BitVec 64) (v : BitVec w) : ByteMemory :=
  fun x => if (x - a).toNat < n then (v >>> (8 * (x - a).toNat)).setWidth 8 else m x

theorem getLsbD_read (m : ByteMemory) (w n : Nat) (a : BitVec 64) (i : Nat) :
    (m.read w n a).getLsbD i =
      (decide (i < w ∧ i < 8 * n) && (m (a + ofNat 64 (i / 8))).getLsbD (i % 8)) := by
  induction n generalizing a i
  case zero => simp [read]
  case succ n ih =>
    rw [read, getLsbD_or, getLsbD_shiftLeft, getLsbD_setWidth, ih]
    by_cases h8 : i < 8
    case pos =>
      have hd : i / 8 = 0 := by omega
      have hm : i % 8 = i := by omega
      have hi : i < 8 * (n + 1) := by omega
      simp [h8, hd, hm, hi]
    case neg =>
      have hd : i / 8 = (i - 8) / 8 + 1 := by omega
      have hm : i % 8 = (i - 8) % 8 := by omega
      have ha : a + ofNat 64 ((i - 8) / 8 + 1) = a + 1 + ofNat 64 ((i - 8) / 8) := by
        rw [ofNat_add]
        grind
      have hz : (m a).getLsbD i = false := getLsbD_of_ge _ _ (by omega)
      rw [hd, hm, ha, hz]
      by_cases hc : i < w ∧ i < 8 * (n + 1)
      case pos =>
        have hc' : i - 8 < w ∧ i - 8 < 8 * n := by omega
        simp [h8, hc, hc']
      case neg =>
        have hf : ¬i < w ∨ ¬(i - 8 < w ∧ i - 8 < 8 * n) := by omega
        rw [decide_eq_false hc]
        cases hf
        case inl hf => simp [hf]
        case inr hf => simp [hf]

theorem read_congr {m' : ByteMemory}
    (h : ∀ i, i < n → m' (a + ofNat 64 i) = m (a + ofNat 64 i)) :
    m'.read w n a = m.read w n a := by
  apply eq_of_getLsbD_eq
  intro i _
  rw [getLsbD_read, getLsbD_read]
  by_cases hi : i < w ∧ i < 8 * n
  case pos => rw [h (i / 8) (by omega)]
  case neg => simp [hi]

theorem read_write_self (hw : w ≤ 8 * n) (hn : n ≤ 2 ^ 60) (m : ByteMemory) (a : BitVec 64)
    (v : BitVec w) : (m.write n a v).read w n a = v := by
  apply eq_of_getLsbD_eq
  intro i hi
  have hlt : i / 8 < n := by omega
  have hx : (a + ofNat 64 (i / 8) - a).toNat = i / 8 := by
    rw [add_sub_cancel_left, toNat_ofNat, Nat.mod_eq_of_lt (by omega)]
  rw [getLsbD_read, write, hx, if_pos hlt]
  have hb : 8 * (i / 8) + i % 8 = i := by omega
  have hc : i < w ∧ i < 8 * n := by omega
  simp [hc, hb, Nat.mod_lt]

theorem write_of_ge (h : n ≤ (x - a).toNat) : m.write n a v x = m x :=
  if_neg (Nat.not_lt.mpr h)

theorem read_write_of_disjoint (h : ∀ i, i < n' → n ≤ (b + ofNat 64 i - a).toNat) :
    (m.write n a v).read w' n' b = m.read w' n' b :=
  read_congr fun i hi => write_of_ge (h i hi)

theorem read_write_of_ne (hn : n ∣ 2 ^ 64) (ha : n ∣ a.toNat) (hb : n ∣ b.toNat) (hab : a ≠ b) :
    (m.write n a v).read w n b = m.read w n b := by
  apply read_write_of_disjoint
  intro i hi
  have hd : n ∣ (b - a).toNat := by
    rw [toNat_sub, Nat.dvd_mod_iff hn]
    exact Nat.dvd_add (Nat.dvd_sub hn ha) hb
  have hpos : 0 < (b - a).toNat := by
    apply Nat.pos_of_ne_zero
    intro h0
    apply hab
    have h := eq_of_toNat_eq (h0.trans (toNat_ofNat 0 64).symm)
    exact (sub_eq_zero.mp h).symm
  have hle := Nat.le_of_dvd hpos hd
  -- the distance is a multiple of `n` below `2 ^ 64`, so the whole word stays below it
  have hroom : (b - a).toNat + n ≤ 2 ^ 64 := by
    have h := Nat.le_of_dvd (Nat.sub_pos_of_lt (b - a).isLt) (Nat.dvd_sub hn hd)
    omega
  have hx : b + ofNat 64 i - a = (b - a) + ofNat 64 i := by grind
  rw [hx, toNat_add, toNat_ofNat, Nat.mod_eq_of_lt (by omega : i < 2 ^ 64)]
  omega

theorem write_read_self (hw : 8 * n = w) (m : ByteMemory) (a : BitVec 64) :
    m.write n a (m.read w n a) = m := by
  funext x
  by_cases h : (x - a).toNat < n
  case pos =>
    rw [write, if_pos h]
    apply eq_of_getLsbD_eq
    intro i hi
    rw [getLsbD_setWidth, getLsbD_ushiftRight, getLsbD_read]
    have hx : a + ofNat 64 (x - a).toNat = x := by
      grind
    generalize (x - a).toNat = d at h hx
    have hd : (8 * d + i) / 8 = d := by omega
    have hm : (8 * d + i) % 8 = i := by omega
    have hc : 8 * d + i < w ∧ 8 * d + i < 8 * n := by omega
    rw [hd, hm, hx, decide_eq_true hc, decide_eq_true hi, Bool.true_and, Bool.true_and]
  case neg => rw [write, if_neg h]

end ByteMemory
