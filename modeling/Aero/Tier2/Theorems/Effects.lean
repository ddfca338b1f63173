import Aero.Tier2.Verify

namespace Aero.Tier2.Instr

-- The instructions that no pass removes. A guard is removed when its condition is known.
def anchors (i : Instr) : Bool :=
  match i with
  | guard _ _ _ => false
  | _           => i.hasSideEffects

variable {i j : Instr} {v : ValueId}

theorem anchors_eq_false (h : i.hasSideEffects = false) : i.anchors = false := by
  cases i <;> first | exact h | cases h

theorem anchors_of_isSideExit (h : i.isSideExit = true) : i.anchors = true := by
  cases i <;> first | rfl | cases h

structure Pure (v : ValueId) (i : Instr) : Prop where
  dst : i.dst = some v
  effects : i.hasSideEffects = false

theorem Pure.binOp (v : ValueId) (op : BinOp) (lhs rhs : Operand) (h : flags.isEmpty = true) :
    Pure v (.binOp v op lhs rhs flags) :=
  ⟨rfl, by simp [hasSideEffects, h]⟩

-- The instruction `j` defines what `i` defines, and does no more.
structure Within (i j : Instr) : Prop where
  dst : j.dst = i.dst
  effects : j.hasSideEffects = true → i.hasSideEffects = true

-- It does no less, either.
structure Keeps (i j : Instr) : Prop extends Within i j where
  anchors : i.anchors = true → j.anchors = true

namespace Keeps

theorem refl (i : Instr) : i.Keeps i :=
  ⟨⟨rfl, id⟩, id⟩

theorem of_pure (hi : i.Pure v) (hj : j.Pure v) : i.Keeps j where
  dst := hj.dst.trans hi.dst.symm
  effects h := by simp [hj.effects] at h
  anchors h := by simp [anchors_eq_false hi.effects] at h

theorem binOp (v : ValueId) (op op' : BinOp) (lhs lhs' rhs rhs' : Operand) (flags : FlagSet) :
    Keeps (.binOp v op lhs rhs flags) (.binOp v op' lhs' rhs' flags) :=
  ⟨⟨rfl, id⟩, id⟩

end Keeps

end Aero.Tier2.Instr
