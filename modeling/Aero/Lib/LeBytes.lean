import Mathlib.Data.BitVec

namespace LeBytes

def toLe : Nat → Nat → List (BitVec 8)
  | 0,     _ => []
  | n + 1, v => BitVec.ofNat 8 v :: toLe n (v / 256)

def ofLe : List (BitVec 8) → Nat
  | []      => 0
  | b :: bs => b.toNat + 256 * ofLe bs

@[simp]
theorem length_toLe (n v : Nat) : (toLe n v).length = n := by
  induction n generalizing v
  case zero => rfl
  case succ n ih => simp [toLe, ih]

theorem ofLe_toLe (h : v < 256 ^ n) : ofLe (toLe n v) = v := by
  induction n generalizing v
  case zero =>
    simp only [pow_zero, Nat.lt_one_iff] at h
    simp [toLe, ofLe, h]
  case succ n ih =>
    have hd : v / 256 < 256 ^ n := by
      rw [Nat.div_lt_iff_lt_mul (by decide)]
      exact h
    rw [toLe, ofLe, ih hd, BitVec.toNat_ofNat]
    omega

theorem toNat_ofNat_of_lt (h : v < 2 ^ w) : (BitVec.ofNat w v).toNat = v := by
  rw [BitVec.toNat_ofNat, Nat.mod_eq_of_lt h]

theorem ofLe_lt (bs : List (BitVec 8)) : ofLe bs < 256 ^ bs.length := by
  induction bs
  case nil => simp [ofLe]
  case cons b bs ih =>
    rw [ofLe, List.length_cons]
    omega

theorem toLe_ofLe (bs : List (BitVec 8)) : toLe bs.length (ofLe bs) = bs := by
  induction bs
  case nil => rfl
  case cons b bs ih =>
    have hd : (b.toNat + 256 * ofLe bs) / 256 = ofLe bs := by omega
    have hm : BitVec.ofNat 8 (b.toNat + 256 * ofLe bs) = b := by
      apply BitVec.eq_of_toNat_eq
      rw [BitVec.toNat_ofNat]
      omega
    rw [List.length_cons, ofLe, toLe, hd, hm, ih]

theorem take_toLe (v : Nat) (h : m ≤ n) : (toLe n v).take m = toLe m v := by
  induction m generalizing n v
  case zero => rfl
  case succ m ih =>
    cases n
    case zero => omega
    case succ n => rw [toLe, toLe, List.take_succ_cons, ih _ (by omega)]

end LeBytes
