import Aero.Tier2.Opt.Passes.Cse
import Aero.Tier2.Opt.Passes.Dce
import Aero.Tier2.Opt.Passes.FlagElim
import Aero.Tier2.Opt.Passes.Licm
import Aero.Tier2.Opt.Passes.RegAlloc
import Aero.Tier2.Opt.Passes.StrengthReduction
import Aero.Tier2.Opt.Passes.ValueCompact

namespace Aero.Tier2

structure OptConfig where
  maxIters : Nat := 5

structure OptResult where
  regalloc : RegAllocPlan

-- The points at which a debug build verifies the trace.
inductive VerifyPoint
  | preOpt
  | postValueCompactPre
  | postOptIter
  | postValueCompactPost
  | postRegalloc
  deriving DecidableEq, Repr

inductive OptPanic
  | verificationFailed (point : VerifyPoint) (err : VerifyError)
  | validationFailed (err : ValidateError)
  deriving DecidableEq, Repr

abbrev Pass := TraceIr → TraceIr × Bool

def runPasses : List Pass → Pass
  | [],      t => (t, false)
  | p :: ps, t =>
    let (t, changed) := p t
    let (t, changed') := runPasses ps t
    (t, changed || changed')

def passes : List Pass :=
  [ AddrSimplify.run, Licm.run, FlagElim.run, BooleanSimplify.run, ConstFold.run,
    StrengthReduction.run, Cse.run, Dce.run ]

section

variable (debugAssertions : Bool)

def verifyAt (point : VerifyPoint) (t : TraceIr) : Except OptPanic Unit :=
  if debugAssertions then (verifyTrace t).mapError (.verificationFailed point)
  else .ok ()

def debugAssertValid (t : TraceIr) : Except OptPanic Unit :=
  if debugAssertions then t.validate.mapError .validationFailed else .ok ()

def iteratePasses : Nat → TraceIr → Except OptPanic TraceIr
  | 0,     t => .ok t
  | n + 1, t => do
    let (t, changed) := runPasses passes t
    verifyAt debugAssertions .postOptIter t
    if changed then iteratePasses n t else .ok t

def optimizeTrace (t : TraceIr) (cfg : OptConfig) : Except OptPanic (TraceIr × OptResult) := do
  verifyAt debugAssertions .preOpt t
  let t := (ValueCompact.run t).1
  verifyAt debugAssertions .postValueCompactPre t
  let t ← iteratePasses debugAssertions cfg.maxIters t
  let t := (ValueCompact.run t).1
  verifyAt debugAssertions .postValueCompactPost t
  debugAssertValid debugAssertions t
  let regalloc := RegAlloc.run t
  verifyAt debugAssertions .postRegalloc t
  return (t, { regalloc })

end

end Aero.Tier2
