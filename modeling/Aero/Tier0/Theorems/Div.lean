import Aero.Tier0.Div

namespace Aero.Tier0

open BitVec

variable {m : Mnemonic} {op : Operand} {state : CpuState} {w : Width}

theorem truncate_eq (w : Width) (x : U64) : w.truncate x = (x.setWidth w.bits).setWidth 64 := by
  have hmask : w.mask = (allOnes w.bits).setWidth 64 := by cases w <;> rfl
  ext i hi
  rw [Width.truncate, hmask, getElem_and, getElem_setWidth, getElem_setWidth, getLsbD_setWidth,
    getLsbD_allOnes, getLsbD_eq_getElem hi, Bool.and_comm]

theorem Operand.eq_of_read (h : op.read state = .ok divisor) :
    ∃ x : BitVec op.width.bits, divisor = x.setWidth 64 := by
  cases op
  case register reg =>
    cases h
    exact ⟨_, truncate_eq ..⟩
  case memory w value =>
    cases value <;> cases h
    exact ⟨_, rfl⟩

theorem setWidth_of_widened (x : BitVec w.bits) : (x.setWidth 64).setWidth w.bits = x := by
  have hle : w.bits ≤ 64 := by cases w <;> decide
  rw [setWidth_setWidth_of_le x hle, setWidth_eq]

namespace Mnemonic

theorem int_pair (m : Mnemonic) (hn : 0 < n) (hi lo : BitVec n) :
    m.int (m.pair hi lo) = 2 ^ n * m.int hi + lo.toNat := by
  have hpair : m.pair hi lo = hi ++ lo := by
    ext i h
    by_cases hlt : i < n
    · cases m <;> simp [pair, getElem_append, getElem_signExtend, hlt]
    · have hn : i - n < n := by omega
      have hlo := getLsbD_of_ge lo i (by omega)
      cases m <;> simp [pair, getElem_append, getElem_signExtend, hlt, hn, hlo]
  rw [hpair]
  cases m
  case div =>
    rw [int, int, toNat_append, Nat.shiftLeft_eq, Nat.mul_comm,
      ← Nat.two_pow_add_eq_or_of_lt lo.isLt]
    push_cast
    rfl
  case idiv =>
    rw [int, int, toInt_append, if_neg]
    simpa using hn.ne'

theorem int_ofInt (hn : 0 < n) (hmin : m.min n ≤ x) (hmax : x ≤ m.max n) :
    m.int (BitVec.ofInt n x) = x := by
  cases m <;> rw [min] at hmin <;> rw [max] at hmax
  case div =>
    rw [int, toNat_ofInt, Int.emod_eq_of_lt hmin (by push_cast; omega)]
    exact Int.toNat_of_nonneg hmin
  case idiv => exact toInt_ofInt_eq_self hn hmin (by omega)

theorem int_bounds (m : Mnemonic) (x : BitVec n) : m.min n ≤ m.int x ∧ m.int x ≤ m.max n := by
  cases m <;> simp only [min, max, int]
  case div =>
    have := Int.ofNat_lt.mpr x.isLt
    push_cast at this
    omega
  case idiv =>
    have hlt := toInt_lt (x := x)
    have hle := le_toInt (x := x)
    omega

theorem int_eq_zero (m : Mnemonic) (x : BitVec n) : m.int x = 0 ↔ x = 0#n := by
  cases m
  case div => rw [int, Int.natCast_eq_zero, ← toNat_inj, toNat_zero]
  case idiv => rw [int, ← toInt_inj, toInt_zero]

def value (m : Mnemonic) (state : CpuState) : Width → Int
  | .w8 => m.int ((state.readReg (.low .rax .w16)).setWidth 16)
  | w   => 2 ^ w.bits * m.int ((state.readReg (.low .rdx w)).setWidth w.bits) +
      ((state.readReg (.low .rax w)).setWidth w.bits).toNat

theorem int_dividend (m : Mnemonic) (w : Width) (state : CpuState) :
    m.int (m.dividend state w) = m.value state w := by
  cases w
  case w8 => rfl
  all_goals exact m.int_pair (by decide) ..

end Mnemonic

structure Divided (m : Mnemonic) (w : Width) (b : Int) (state : CpuState) (q r : BitVec w.bits)
    (state' : CpuState) : Prop where
  written : state' = (state.writeReg (quotientReg w) (q.setWidth 64)).writeReg (remainderReg w)
    (r.setWidth 64)
  exact : m.value state w = m.int q * b + m.int r
  small : (m.int r).natAbs < b.natAbs
  sign : (0 ≤ m.value state w → 0 ≤ m.int r) ∧ (m.value state w ≤ 0 → m.int r ≤ 0)
  others : ∀ gpr, gpr ≠ .rax → (gpr = .rdx → w = .w8) → state'.gpr gpr = state.gpr gpr

theorem divided (hb : b ≠ 0) (hmin : m.min w.bits ≤ b) (hmax : b ≤ m.max w.bits)
    (ha : m.value state w = a) (hq : ¬(a.tdiv b < m.min w.bits ∨ m.max w.bits < a.tdiv b)) :
    Divided m w b state (BitVec.ofInt w.bits (a.tdiv b)) (BitVec.ofInt w.bits (a.tmod b))
      ((state.writeReg (quotientReg w)
        ((BitVec.ofInt w.bits (a.tdiv b)).setWidth 64)).writeReg (remainderReg w)
          ((BitVec.ofInt w.bits (a.tmod b)).setWidth 64)) := by
  have hn : 0 < w.bits := by cases w <;> decide
  have hsmall : (a.tmod b).natAbs < b.natAbs := by
    rw [Int.natAbs_tmod]
    exact Nat.mod_lt _ (Int.natAbs_pos.mpr hb)
  have hpos : 0 ≤ a → 0 ≤ a.tmod b := Int.tmod_nonneg b
  have hneg : a ≤ 0 → a.tmod b ≤ 0 := by
    intro h
    have := Int.tmod_nonneg b (Int.neg_nonneg_of_nonpos h)
    rw [Int.neg_tmod] at this
    omega
  have hr : m.min w.bits ≤ a.tmod b ∧ a.tmod b ≤ m.max w.bits := by
    cases m <;> simp only [Mnemonic.min, Mnemonic.max] at hmin hmax ⊢
    case div =>
      have : 0 ≤ a := by
        rw [← ha, ← Mnemonic.int_dividend]
        exact Int.natCast_nonneg _
      omega
    case idiv => omega
  have hquot := m.int_ofInt hn (not_lt.mp (not_or.mp hq).1) (not_lt.mp (not_or.mp hq).2)
  have hrem := m.int_ofInt hn hr.1 hr.2
  refine ⟨rfl, ?_, ?_, ?_, ?_⟩
  · rw [ha, hquot, hrem, Int.mul_comm, Int.mul_tdiv_add_tmod]
  · rwa [hrem]
  · rw [ha, hrem]
    exact ⟨hpos, hneg⟩
  · intro gpr hrax hrdx
    refine (Function.update_of_ne ?_ ..).trans (Function.update_of_ne hrax ..)
    rintro rfl
    cases w
    case w8 => exact hrax rfl
    all_goals cases hrdx rfl

def Exact (m : Mnemonic) (op : Operand) (state : CpuState) (b : Int) : Prop :=
  let q := (m.value state op.width).tdiv b
  if b = 0 ∨ q < m.min op.width.bits ∨ m.max op.width.bits < q then
    execDiv m op state = some (.error .divideError)
  else
    ∃ q r state', execDiv m op state = some (.ok state') ∧ Divided m op.width b state q r state'

theorem execDiv_exact_iff (m : Mnemonic) (h : op.read state = .ok divisor)
    (hb : b = m.int (divisor.setWidth op.width.bits)) :
    Exact m op state b ↔ ¬m.Overflows op.width.bits (m.value state op.width) b := by
  obtain ⟨x, rfl⟩ := Operand.eq_of_read h
  rw [setWidth_of_widened] at hb
  obtain ⟨hmin, hmax⟩ := hb ▸ m.int_bounds x
  have hzero : x.setWidth 64 = 0 ↔ b = 0 := by
    rw [hb, m.int_eq_zero]
    constructor
    · intro hx
      rw [← setWidth_of_widened x, hx]
      exact setWidth_zero ..
    · rintro rfl
      exact setWidth_zero ..
  have hexec : execDiv m op state = if b = 0 then some (.error .divideError) else
      m.divide op.width.bits (m.dividend state op.width) (x.setWidth 64)
        (quotientReg op.width) (remainderReg op.width) state := by
    rw [execDiv, h]
    simp only [hzero]
  rw [Exact, hexec, Mnemonic.divide, setWidth_of_widened, ← hb, m.int_dividend]
  by_cases hb0 : b = 0
  case pos => simp [hb0]
  case neg =>
    simp only [hb0, false_or, if_false]
    by_cases hover : m.Overflows op.width.bits (m.value state op.width) b
    case pos =>
      rw [if_pos hover]
      refine iff_of_false ?_ (not_not_intro hover)
      split <;> simp
    case neg =>
      rw [if_neg hover]
      refine iff_of_true ?_ hover
      split
      case isTrue => rfl
      case isFalse hq => exact ⟨_, _, _, rfl, divided hb0 hmin hmax rfl hq⟩

section Example

def exampleState (rax rbx : U64) : CpuState :=
  ⟨fun gpr => if gpr = .rax then rax else rbx⟩

theorem execDiv_exact_negative :
    Exact .idiv (.register (.low .rbx .w8)) (exampleState 0xfff9 2) 2 := by
  have hread : (Operand.register (.low .rbx .w8)).read (exampleState 0xfff9 2) = .ok 2 := rfl
  exact (execDiv_exact_iff .idiv hread rfl).mpr (by decide)

-- The least dividend divided by -1.
theorem execDiv_least_panics :
    (Operand.register (.low .rbx .w8)).read (exampleState 0x8000 0xff) = .ok 0xff ∧
      execDiv .idiv (.register (.low .rbx .w8)) (exampleState 0x8000 0xff) = none :=
  ⟨rfl, rfl⟩

end Example

end Aero.Tier0
