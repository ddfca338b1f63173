import Aero.Tier2.Ir

namespace Aero.Tier2

open Aero

inductive Segment
  | prologue
  | body
  deriving DecidableEq, Repr

structure Site where
  seg : Segment
  idx : Nat
  inst : Instr
  deriving DecidableEq, Repr

inductive VerifyError
  | instrsAfterSideExit (seg : Segment) (pos : Nat)
  | bodyAfterPrologueSideExit
  | useOfUndefinedValue (site : Site) (v : ValueId)
  | definedMultipleTimes (site : Site) (dst : ValueId) (prev : Site)
  deriving DecidableEq, Repr

def Instr.isSideExit : Instr → Bool
  | .sideExit _ => true
  | _           => false

def verifyNoInstrsAfterSideExit (seg : Segment) (instrs : List Instr) : Except VerifyError Unit :=
  match instrs.findIdx? Instr.isSideExit with
  | some pos => if pos + 1 != instrs.length then .error (.instrsAfterSideExit seg pos) else .ok ()
  | none     => .ok ()

def undefinedOperand (inst : Instr) (defined : Finset ValueId) : Option ValueId :=
  inst.uses.find? (· ∉ defined)

structure Defs where
  definedSoFar : Finset ValueId
  defSites : ValueId → Option Site

def verifyInstr (site : Site) (defs : Defs) : Except VerifyError Defs :=
  match undefinedOperand site.inst defs.definedSoFar with
  | some v => .error (.useOfUndefinedValue site v)
  | none =>
    match site.inst.dst with
    | none => .ok defs
    | some dst =>
      match defs.defSites dst with
      | some prev => .error (.definedMultipleTimes site dst prev)
      | none => .ok {
          definedSoFar := insert dst defs.definedSoFar
          defSites := Function.update defs.defSites dst (some site) }

def verifyInstrs (seg : Segment) : Nat → List Instr → Defs → Except VerifyError Defs
  | _,   [],            defs => .ok defs
  | idx, inst :: insts, defs => do
    let defs ← verifyInstr { seg, idx, inst } defs
    verifyInstrs seg (idx + 1) insts defs

def verifyTrace (trace : TraceIr) : Except VerifyError Unit := do
  verifyNoInstrsAfterSideExit .prologue trace.prologue
  verifyNoInstrsAfterSideExit .body trace.body
  if trace.prologue.any Instr.isSideExit && !trace.body.isEmpty then
    throw .bodyAfterPrologueSideExit
  let defs ← verifyInstrs .prologue 0 trace.prologue { definedSoFar := ∅, defSites := fun _ => none }
  let _ ← verifyInstrs .body 0 trace.body defs

inductive ValidateError
  | emptyLoopBody
  | sideExitNotLastOfPrologue (pos : Nat)
  | bodyAfterPrologueSideExit
  | sideExitNotLastOfLinearBody (pos : Nat)
  | sideExitNotLastOfBody (pos : Nat)
  | definedMultipleTimes (dst : ValueId) (prev idx : Nat)
  | overflowsMaxValueId (dst : ValueId)
  | exceedsMaxValueId (v : ValueId) (idx maxValueId : Nat)
  | undefinedValue (v : ValueId) (idx : Nat)
  | useBeforeDef (v : ValueId) (idx defIdx : Nat)
  deriving DecidableEq, Repr

structure DefTable where
  defs : ValueId → Option Nat
  maxValueId : Nat

namespace TraceIr

def collectDefs : Nat → List Instr → DefTable → Except ValidateError DefTable
  | _,   [],            table => .ok table
  | idx, inst :: insts, table =>
    match inst.dst with
    | none => collectDefs (idx + 1) insts table
    | some dst =>
      match table.defs dst with
      | some prev => .error (.definedMultipleTimes dst prev idx)
      | none =>
        -- Value ids are 32 bits wide, and the addition is checked.
        if 2 ^ 32 ≤ dst + 1 then .error (.overflowsMaxValueId dst)
        else
          collectDefs (idx + 1) insts {
            defs := Function.update table.defs dst (some idx)
            maxValueId := max table.maxValueId (dst + 1) }

def validateUse (table : DefTable) (idx : Nat) (v : ValueId) : Except ValidateError Unit :=
  if table.maxValueId ≤ v then .error (.exceedsMaxValueId v idx table.maxValueId)
  else
    match table.defs v with
    | none        => .error (.undefinedValue v idx)
    | some defIdx => if idx ≤ defIdx then .error (.useBeforeDef v idx defIdx) else .ok ()

def validateUses (table : DefTable) : Nat → List Instr → Except ValidateError Unit
  | _,   []            => .ok ()
  | idx, inst :: insts => do
    inst.uses.forM (validateUse table idx)
    validateUses table (idx + 1) insts

def validateSideExits (t : TraceIr) : Except ValidateError Unit := do
  match t.prologue.findIdx? Instr.isSideExit with
  | some pos =>
    if pos + 1 != t.prologue.length then
      throw (.sideExitNotLastOfPrologue pos)
    if !t.body.isEmpty then
      throw .bodyAfterPrologueSideExit
  | none => pure ()
  match t.body.findIdx? Instr.isSideExit with
  | some pos =>
    if t.kind == .linear && pos + 1 != t.body.length then
      throw (.sideExitNotLastOfLinearBody pos)
    if pos + 1 != t.body.length then
      throw (.sideExitNotLastOfBody pos)
  | none => pure ()

def validate (t : TraceIr) : Except ValidateError Unit := do
  if t.kind == .loop && t.body.isEmpty then
    throw .emptyLoopBody
  t.validateSideExits
  let table ← collectDefs 0 t.instrs { defs := fun _ => none, maxValueId := 0 }
  validateUses table 0 t.instrs

end TraceIr

end Aero.Tier2
