import Aero.Lib.Except
import Aero.Lib.LeBytes

-- Parsers of byte strings that can fail. The state is the part that has not been read.
abbrev Parse (ε α : Type) := StateT (List (BitVec 8)) (Except ε) α

namespace Parse

open LeBytes

variable {ε α β : Type} {bs rest : List (BitVec 8)}

theorem run_bind_eq_ok_iff {f : α → Parse ε β} :
    (x >>= f).run bs = .ok (b, rest) ↔
      ∃ a mid, x.run bs = .ok (a, mid) ∧ (f a).run mid = .ok (b, rest) := by
  rw [StateT.run_bind, Except.bind_eq_ok_iff, Prod.exists]

theorem run_bind_of_ok {f : α → Parse ε β} (h : x.run bs = .ok (a, rest)) :
    (x >>= f).run bs = (f a).run rest := by
  rw [StateT.run_bind, h]
  rfl

theorem run_pure_eq_ok_iff : (pure a : Parse ε α).run bs = .ok (b, rest) ↔ bs = rest ∧ a = b := by
  constructor
  · intro h
    cases h
    exact ⟨rfl, rfl⟩
  · rintro ⟨rfl, rfl⟩
    rfl

theorem run_throw_ne_ok : (throw e : Parse ε α).run bs ≠ .ok (b, rest) := by
  rintro ⟨⟩

theorem run_ite_eq_ok_iff [Decidable c] {x y : Parse ε α} :
    (if c then x else y).run bs = .ok (b, rest) ↔
      (c ∧ x.run bs = .ok (b, rest)) ∨ (¬c ∧ y.run bs = .ok (b, rest)) := by
  by_cases h : c <;> simp [h]

def take (e : ε) (n : Nat) : Parse ε (List (BitVec 8)) := fun bs =>
  if bs.length < n then .error e else .ok (bs.take n, bs.drop n)

theorem run_take_eq_ok_iff : (take e n).run bs = .ok (x, rest) ↔ bs = x ++ rest ∧ x.length = n := by
  rw [StateT.run, take]
  split
  case isTrue h =>
    constructor
    · rintro ⟨⟩
    · rintro ⟨rfl, rfl⟩
      rw [List.length_append] at h
      omega
  case isFalse h =>
    rw [Except.ok.injEq, Prod.mk.injEq]
    constructor
    · rintro ⟨rfl, rfl⟩
      exact ⟨(List.take_append_drop n bs).symm, List.length_take_of_le (by omega)⟩
    · rintro ⟨rfl, rfl⟩
      exact ⟨List.take_left, List.drop_left⟩

def word (e : ε) (n w : Nat) : Parse ε (BitVec w) := do
  let bytes ← take e n
  pure (BitVec.ofNat w (ofLe bytes))

theorem run_word_eq_ok_iff (hw : 2 ^ w = 256 ^ n) :
    (word e n w).run bs = .ok (v, rest) ↔ bs = toLe n v.toNat ++ rest := by
  rw [word, run_bind_eq_ok_iff]
  simp only [run_take_eq_ok_iff, run_pure_eq_ok_iff]
  constructor
  · rintro ⟨x, mid, ⟨rfl, rfl⟩, rfl, rfl⟩
    have hlt := ofLe_lt x
    rw [BitVec.toNat_ofNat, hw, Nat.mod_eq_of_lt hlt, toLe_ofLe]
  · rintro rfl
    refine ⟨_, _, ⟨rfl, length_toLe ..⟩, rfl, ?_⟩
    rw [ofLe_toLe (hw ▸ v.isLt), BitVec.ofNat_toNat, BitVec.setWidth_eq]

def byte (e : ε) : Parse ε (BitVec 8)
  | []        => .error e
  | b :: rest => .ok (b, rest)

theorem run_byte_eq_ok_iff : (byte e).run bs = .ok (b, rest) ↔ bs = b :: rest := by
  cases bs
  case nil => exact ⟨nofun, nofun⟩
  case cons c bs =>
    rw [StateT.run, byte, Except.ok.injEq, Prod.mk.injEq, List.cons.injEq]

end Parse
