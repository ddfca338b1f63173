import Aero.Lib.AssocMap
import Aero.Tier2.Ir

namespace Aero.Tier2.ValueCompact

def occurring (inst : Instr) : List ValueId :=
  inst.dst.toList ++ inst.uses

-- The values interned so far, in the order of their first occurrence. A value is renumbered to its
-- position in this list.
def intern (map : List ValueId) (v : ValueId) : List ValueId :=
  if v ∈ map then map else map ++ [v]

def buildMap (t : TraceIr) : List ValueId :=
  (t.instrs.flatMap occurring).foldl intern []

def renameDst (rename : ValueId → ValueId) (inst : Instr) : Instr :=
  match inst with
  | .const dst value                => .const (rename dst) value
  | .loadReg dst reg                => .loadReg (rename dst) reg
  | .loadMem dst addr width         => .loadMem (rename dst) addr width
  | .loadFlag dst flag              => .loadFlag (rename dst) flag
  | .binOp dst op lhs rhs flags     => .binOp (rename dst) op lhs rhs flags
  | .addr dst base index scale disp => .addr (rename dst) base index scale disp
  | _                               => inst

def renameOperand (rename : ValueId → ValueId) : Operand → Operand
  | .value v => .value (rename v)
  | .const c => .const c

def renameInst (rename : ValueId → ValueId) (inst : Instr) : Instr :=
  (renameDst rename inst).mapOperands (renameOperand rename)

def run (t : TraceIr) : TraceIr × Bool :=
  let map := buildMap t
  if map = List.range map.length then (t, false)
  else
    let rename := map.idxOf
    ({ t with
        prologue := t.prologue.map (renameInst rename)
        body := t.body.map (renameInst rename) }, true)

end Aero.Tier2.ValueCompact
