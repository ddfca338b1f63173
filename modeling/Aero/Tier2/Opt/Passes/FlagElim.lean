import Aero.Tier2.Ir

namespace Aero.Tier2.FlagElim

def intersectFlagset (a b : FlagSet) : FlagSet :=
  if a.isEmpty || b.isEmpty then .empty
  else
    a.iter.foldl
      (fun out flag => if b.contains (flagToSet flag) then out.union (flagToSet flag) else out) .empty

def isExitPoint : Instr → Bool
  | .guard _ _ _ | .guardCodeVersion _ _ _ | .sideExit _ => true
  | _ => false

def restrictFlags (inst : Instr) (needed : FlagSet) : Instr :=
  match inst with
  | .binOp dst op lhs rhs _ => .binOp dst op lhs rhs needed
  | .setFlags _ values      => .setFlags needed values
  | _                       => inst

-- One instruction, seen from the end of the trace: given the flags that are live after it, the
-- instruction that replaces it, the flags live before it, and whether it was changed.
def elimInst (live : FlagSet) (inst : Instr) : Instr × FlagSet × Bool :=
  let live := if isExitPoint inst then live.union .alu else live
  let defs := inst.flagsWritten
  if defs.isEmpty then (inst, live.union inst.flagsRead, false)
  else
    let needed := intersectFlagset defs live
    let inst' := if needed ≠ defs then restrictFlags inst needed else inst
    (inst', (live.without needed).union inst.flagsRead, needed ≠ defs)

def elimList (liveOut : FlagSet) : List Instr → List Instr × FlagSet × Bool
  | []            => ([], liveOut, false)
  | inst :: insts =>
    let (insts', live, changed) := elimList liveOut insts
    let (inst', live, changed') := elimInst live inst
    (inst' :: insts', live, changed || changed')

def dropEmptySetFlags (inst : Instr) : Instr :=
  match inst with
  | .setFlags mask _ => if mask.isEmpty then .nop else inst
  | _                => inst

def run (t : TraceIr) : TraceIr × Bool :=
  let (body, live, c₁) := elimList .alu t.body
  let (prologue, _, c₂) := elimList live t.prologue
  if c₁ || c₂ then
    ({ t with prologue := prologue.map dropEmptySetFlags, body := body.map dropEmptySetFlags },
      true)
  else
    (t, false)

end Aero.Tier2.FlagElim
