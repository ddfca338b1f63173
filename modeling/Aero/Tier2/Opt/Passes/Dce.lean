import Aero.Tier2.Verify

namespace Aero.Tier2.Dce

def truncateAfterSideExit (t : TraceIr) : TraceIr × Bool :=
  match t.prologue.findIdx? Instr.isSideExit with
  | some pos => ({ t with prologue := t.prologue.take (pos + 1), body := [] }, true)
  | none =>
    match t.body.findIdx? Instr.isSideExit with
    | some pos => ({ t with body := t.body.take (pos + 1) }, true)
    | none     => (t, false)

def needed (inst : Instr) (live : Finset ValueId) : Bool :=
  inst.hasSideEffects || inst.dst.any (· ∈ live)

def liveBefore (inst : Instr) (live : Finset ValueId) : Finset ValueId :=
  match inst.dst with
  | some dst => (live ∪ inst.uses.toFinset).erase dst
  | none     => live ∪ inst.uses.toFinset

def keepList (liveOut : Finset ValueId) : List Instr → List Instr × Finset ValueId
  | []            => ([], liveOut)
  | inst :: insts =>
    let (kept, live) := keepList liveOut insts
    if needed inst live then (inst :: kept, liveBefore inst live) else (kept, live)

def run (t : TraceIr) : TraceIr × Bool :=
  let (t, truncated) := truncateAfterSideExit t
  let (body, live) := keepList ∅ t.body
  let (prologue, _) := keepList live t.prologue
  let changed :=
    truncated || body.length != t.body.length || prologue.length != t.prologue.length
  if changed then ({ t with prologue, body }, true)
  else (t, false)

end Aero.Tier2.Dce
