import Aero.Tier2.Ir

namespace Aero.Tier2.Licm

def operandsInvariant (ops : List Operand) (invariant : Finset ValueId) : Bool :=
  ops.all fun
    | .const _ => true
    | .value v => v ∈ invariant

def isHoistable (inst : Instr) (invariantValues : Finset ValueId) (writtenRegs : Gpr → Bool) :
    Bool :=
  if inst.hasSideEffects then false
  else
    match inst with
    | .const _ _ => true
    | .addr _ base index _ _ => operandsInvariant [base, index] invariantValues
    | .binOp _ _ lhs rhs flags =>
      if !flags.isEmpty then false else operandsInvariant [lhs, rhs] invariantValues
    | .loadReg _ reg => !writtenRegs reg
    | _ => false

def split (written : Gpr → Bool) : Finset ValueId → List Instr → List Instr × List Instr
  | _,         []            => ([], [])
  | invariant, inst :: insts =>
    if isHoistable inst invariant written then
      let invariant := match inst.dst with
        | some dst => insert dst invariant
        | none     => invariant
      let (hoisted, newBody) := split written invariant insts
      (inst :: hoisted, newBody)
    else
      let (hoisted, newBody) := split written invariant insts
      (hoisted, inst :: newBody)

def run (t : TraceIr) : TraceIr × Bool :=
  if t.kind ≠ .loop then (t, false)
  else
    let (hoisted, newBody) :=
      split t.bodyRegsWritten (t.prologue.filterMap Instr.dst).toFinset t.body
    if hoisted.isEmpty then (t, false)
    else ({ t with prologue := t.prologue ++ hoisted, body := newBody }, true)

end Aero.Tier2.Licm
