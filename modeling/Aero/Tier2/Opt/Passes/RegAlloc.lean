import Aero.Tier2.Interp

namespace Aero.Tier2

structure RegAllocPlan where
  cached : Gpr → Bool
  localForReg : Gpr → Option Nat
  localCount : Nat

namespace RegAlloc

def usesReg (reg : Gpr) : Instr → Bool
  | .loadReg _ r | .storeReg r _ => r == reg
  | _ => false

def run (t : TraceIr) : RegAllocPlan :=
  let used (reg : Gpr) := t.instrs.any (usesReg reg)
  let locals := allRegs.filter used
  { cached := used
    localForReg := fun reg => if used reg then some (locals.idxOf reg) else none
    localCount := locals.length }

end RegAlloc

end Aero.Tier2
