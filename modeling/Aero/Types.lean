import Mathlib.Data.BitVec

namespace Aero

abbrev U8 := BitVec 8
abbrev U16 := BitVec 16
abbrev U32 := BitVec 32
abbrev U64 := BitVec 64

def U64.max : U64 := BitVec.allOnes 64

@[simp]
theorem U64.and_max (x : U64) : x &&& U64.max = x := BitVec.and_allOnes

@[simp]
theorem U64.max_and (x : U64) : U64.max &&& x = x := BitVec.allOnes_and

-- The `usize` of the target: the code is built for hosts with 64-bit pointers and for wasm32.
inductive PointerWidth
  | bits32
  | bits64
  deriving DecidableEq, Repr

namespace PointerWidth

def usizeMax : PointerWidth → Nat
  | bits32 => 2 ^ 32 - 1
  | bits64 => 2 ^ 64 - 1

-- `usize::saturating_add`. `usize::saturating_sub` is the subtraction of `Nat`.
def saturatingAdd (w : PointerWidth) (a b : Nat) : Nat :=
  min (a + b) w.usizeMax

def checkedAdd (w : PointerWidth) (a b : Nat) : Option Nat :=
  if a + b ≤ w.usizeMax then some (a + b) else none

-- The addition of a release build.
def wrappingAdd (w : PointerWidth) (a b : Nat) : Nat :=
  (a + b) % (w.usizeMax + 1)

end PointerWidth

inductive Width
  | w8
  | w16
  | w32
  | w64
  deriving DecidableEq, Repr

namespace Width

def bits : Width → Nat
  | w8  => 8
  | w16 => 16
  | w32 => 32
  | w64 => 64

def bytes (w : Width) : Nat :=
  w.bits / 8

def mask : Width → U64
  | w8  => 0xff
  | w16 => 0xffff
  | w32 => 0xffff_ffff
  | w64 => BitVec.allOnes 64

def truncate (w : Width) (value : U64) : U64 :=
  value &&& w.mask

end Width

inductive Gpr
  | rax | rcx | rdx | rbx | rsp | rbp | rsi | rdi
  | r8 | r9 | r10 | r11 | r12 | r13 | r14 | r15
  deriving DecidableEq, Repr

inductive Flag
  | cf
  | pf
  | af
  | zf
  | sf
  | of
  deriving DecidableEq, Repr

def Flag.rflagsBit : Flag → Nat
  | cf => 0
  | pf => 2
  | af => 4
  | zf => 6
  | sf => 7
  | of => 11

theorem Flag.rflagsBit_injective : Function.Injective Flag.rflagsBit := by
  intro f g h
  cases f <;> cases g <;> simp_all [rflagsBit]

theorem Flag.rflagsBit_lt (f : Flag) : f.rflagsBit < 64 := by
  cases f <;> decide

-- A set of flags. The source packs it into the low six bits of a byte that only
-- the constants below and their unions and differences can build.
@[ext]
structure FlagSet where
  cf : Bool
  pf : Bool
  af : Bool
  zf : Bool
  sf : Bool
  of : Bool
  deriving DecidableEq, Repr

namespace FlagSet

def empty : FlagSet := ⟨false, false, false, false, false, false⟩
def cfSet : FlagSet := { empty with cf := true }
def pfSet : FlagSet := { empty with pf := true }
def afSet : FlagSet := { empty with af := true }
def zfSet : FlagSet := { empty with zf := true }
def sfSet : FlagSet := { empty with sf := true }
def ofSet : FlagSet := { empty with of := true }
def alu : FlagSet := ⟨true, true, true, true, true, true⟩

def has (s : FlagSet) : Flag → Bool
  | .cf => s.cf
  | .pf => s.pf
  | .af => s.af
  | .zf => s.zf
  | .sf => s.sf
  | .of => s.of

def isEmpty (s : FlagSet) : Bool :=
  s == empty

def iter (s : FlagSet) : List Flag :=
  [.cf, .pf, .af, .zf, .sf, .of].filter s.has

def contains (s other : FlagSet) : Bool :=
  other.iter.all s.has

def union (s other : FlagSet) : FlagSet where
  cf := s.cf || other.cf
  pf := s.pf || other.pf
  af := s.af || other.af
  zf := s.zf || other.zf
  sf := s.sf || other.sf
  of := s.of || other.of

def without (s other : FlagSet) : FlagSet where
  cf := s.cf && !other.cf
  pf := s.pf && !other.pf
  af := s.af && !other.af
  zf := s.zf && !other.zf
  sf := s.sf && !other.sf
  of := s.of && !other.of

theorem has_ext {s t : FlagSet} (h : ∀ f, s.has f = t.has f) : s = t := by
  ext1
  · exact h .cf
  · exact h .pf
  · exact h .af
  · exact h .zf
  · exact h .sf
  · exact h .of

@[simp]
theorem empty_has (f : Flag) : empty.has f = false := by
  cases f <;> rfl

@[simp]
theorem alu_has (f : Flag) : alu.has f = true := by
  cases f <;> rfl

@[simp]
theorem union_has (s t : FlagSet) (f : Flag) : (s.union t).has f = (s.has f || t.has f) := by
  cases f <;> rfl

@[simp]
theorem without_has (s t : FlagSet) (f : Flag) : (s.without t).has f = (s.has f && !t.has f) := by
  cases f <;> rfl

theorem isEmpty_iff {s : FlagSet} : s.isEmpty = true ↔ ∀ f, s.has f = false := by
  simp only [isEmpty, beq_iff_eq]
  constructor
  · rintro rfl f; simp
  · intro h; exact has_ext (by simp [h])

@[simp]
theorem empty_isEmpty : empty.isEmpty = true := rfl

theorem eq_empty_of_isEmpty (h : s.isEmpty = true) : s = empty := by
  simpa [isEmpty] using h

@[simp]
theorem mem_iter {s : FlagSet} : f ∈ s.iter ↔ s.has f = true := by
  cases f <;> simp [iter]

theorem contains_iff {s t : FlagSet} : s.contains t = true ↔ ∀ f, t.has f = true → s.has f = true := by
  simp [contains]

end FlagSet

def flagToSet : Flag → FlagSet
  | .cf => .cfSet
  | .pf => .pfSet
  | .af => .afSet
  | .zf => .zfSet
  | .sf => .sfSet
  | .of => .ofSet

@[simp]
theorem flagToSet_has (f g : Flag) : (flagToSet f).has g = decide (f = g) := by
  cases f <;> cases g <;> rfl

@[simp]
theorem FlagSet.contains_flagToSet (s : FlagSet) (f : Flag) : s.contains (flagToSet f) = s.has f := by
  cases h : s.has f
  · rw [← Bool.not_eq_true, contains_iff]
    intro hc
    have := hc f (by simp)
    simp_all
  · rw [contains_iff]
    intro g hg
    simp only [flagToSet_has, decide_eq_true_eq] at hg
    exact hg ▸ h

end Aero
