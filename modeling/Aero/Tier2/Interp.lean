import Aero.Jit.PageVersions
import Aero.Lib.Straight
import Aero.Tier1Bus
import Aero.Tier2.Ir

namespace Aero.Tier2

open Aero

-- The part of the CPU state that the Tier-2 IR observes.
@[ext]
structure T2State where
  gpr : Gpr → U64
  rip : U64
  rflags : U64

structure ExecStats where
  regLoads : Nat := 0
  regStores : Nat := 0
  memLoads : Nat := 0
  memStores : Nat := 0
  deriving DecidableEq, Repr

inductive RunExit
  | returned
  | sideExit (nextRip : U64)
  | invalidate (nextRip : U64)
  | stepLimit
  deriving DecidableEq, Repr

def allRegs : List Gpr :=
  [.rax, .rcx, .rdx, .rbx, .rsp, .rbp, .rsi, .rdi, .r8, .r9, .r10, .r11, .r12, .r13, .r14, .r15]

structure RegCache where
  cached : Gpr → Bool
  locals : Gpr → U64
  valid : Gpr → Bool
  dirty : Gpr → Bool

def RegCache.new (cached : Gpr → Bool) : RegCache where
  cached := cached
  locals _ := 0
  valid _ := false
  dirty _ := false

-- Everything outside of the trace that its execution can observe or change. The accesses made to
-- the bus are logged in the order in which they happen.
@[ext]
structure Machine (β : Type) where
  cpu : T2State
  pageVersions : PageVersionTracker
  bus : β
  log : List BusAccess

structure ExecState (β : Type) where
  machine : Machine β
  values : ValueId → U64
  stats : ExecStats
  regCache : Option RegCache

def rflagsReserved1 : U64 := 1#64 <<< 1

def getFlag (rflags : U64) (flag : Flag) : Bool :=
  (rflags >>> flag.rflagsBit) &&& 1 != 0

def setFlag (rflags : U64) (flag : Flag) (value : Bool) : U64 :=
  let bit := 1#64 <<< flag.rflagsBit
  if value then rflags ||| bit else rflags &&& ~~~bit

def applyFlagSet (rflags : U64) (mask : FlagSet) (values : FlagValues) : U64 :=
  let step (r : U64) (f : Flag) : U64 := if mask.contains (flagToSet f) then setFlag r f (values.get f) else r
  [Flag.cf, .pf, .af, .zf, .sf, .of].foldl step rflags ||| rflagsReserved1

namespace ExecState

variable {β : Type}

def evalOperand (s : ExecState β) : Operand → U64
  | .const c => c
  | .value v => s.values v

def setValue (s : ExecState β) (dst : ValueId) (v : U64) : ExecState β :=
  { s with values := Function.update s.values dst v }

def setGpr (s : ExecState β) (reg : Gpr) (v : U64) : ExecState β :=
  { s with machine.cpu.gpr := Function.update s.machine.cpu.gpr reg v }

def setRip (s : ExecState β) (rip : U64) : ExecState β :=
  { s with machine.cpu.rip := rip }

def setRflags (s : ExecState β) (rflags : U64) : ExecState β :=
  { s with machine.cpu.rflags := rflags }

def readReg (s : ExecState β) (reg : Gpr) : U64 × ExecState β :=
  let counted := { s with stats.regLoads := s.stats.regLoads + 1 }
  match s.regCache with
  | none => (s.machine.cpu.gpr reg, counted)
  | some cache =>
    if !cache.cached reg then (s.machine.cpu.gpr reg, counted)
    else if !cache.valid reg then
      let v := s.machine.cpu.gpr reg
      (v, { counted with
        regCache := some { cache with
          locals := Function.update cache.locals reg v
          valid := Function.update cache.valid reg true } })
    else
      (cache.locals reg, s)

def writeReg (s : ExecState β) (reg : Gpr) (value : U64) : ExecState β :=
  let counted := { s with stats.regStores := s.stats.regStores + 1 }
  match s.regCache with
  | none => counted.setGpr reg value
  | some cache =>
    if !cache.cached reg then counted.setGpr reg value
    else
      { s with
        regCache := some { cache with
          locals := Function.update cache.locals reg value
          valid := Function.update cache.valid reg true
          dirty := Function.update cache.dirty reg true } }

def spillReg (s : ExecState β) (reg : Gpr) : ExecState β :=
  match s.regCache with
  | none => s
  | some cache =>
    if cache.cached reg && cache.dirty reg then
      { s.setGpr reg (cache.locals reg) with
        stats.regStores := s.stats.regStores + 1
        regCache := some { cache with dirty := Function.update cache.dirty reg false } }
    else
      s

def spill (s : ExecState β) : ExecState β :=
  allRegs.foldl spillReg s

theorem spill_of_noCache {s : ExecState β} (h : s.regCache = none) : s.spill = s := by
  have hr : ∀ reg, s.spillReg reg = s := fun reg => by simp [spillReg, h]
  simp [spill, allRegs, hr]

def readMem (bus : Tier1Bus β) (s : ExecState β) (addr : U64) (width : Width) :
    U64 × ExecState β :=
  let (v, b) := bus.read s.machine.bus addr width
  (width.truncate v, { s with
    machine.bus := b
    machine.log := s.machine.log ++ [.read addr width]
    stats.memLoads := s.stats.memLoads + 1 })

def writeMem (bus : Tier1Bus β) (s : ExecState β) (addr : U64) (width : Width) (value : U64) :
    ExecState β :=
  { s with
    machine.bus := bus.write s.machine.bus addr width value
    machine.log := s.machine.log ++ [.write addr width value]
    machine.pageVersions := s.machine.pageVersions.bumpWrite addr width.bytes
    stats.memStores := s.stats.memStores + 1 }

end ExecState

section Exec

variable {β : Type} (bus : Tier1Bus β)

def execInstr (inst : Instr) (s : ExecState β) : ExecState β × Option RunExit :=
  match inst with
  | .nop => (s, none)
  | .const dst value => (s.setValue dst value, none)
  | .loadReg dst reg =>
    let (v, s) := s.readReg reg
    (s.setValue dst v, none)
  | .storeReg reg src => (s.writeReg reg (s.evalOperand src), none)
  | .loadFlag dst flag =>
    (s.setValue dst (boolToU64 (getFlag s.machine.cpu.rflags flag)), none)
  | .setFlags mask values => (s.setRflags (applyFlagSet s.machine.cpu.rflags mask values), none)
  | .binOp dst op lhs rhs flags =>
    let (res, computed) := evalBinop op (s.evalOperand lhs) (s.evalOperand rhs)
    let s := s.setValue dst res
    if flags.isEmpty then (s, none)
    else (s.setRflags (applyFlagSet s.machine.cpu.rflags flags computed), none)
  | .addr dst base index scale disp =>
    (s.setValue dst (evalAddr (s.evalOperand base) (s.evalOperand index) scale disp), none)
  | .loadMem dst addr width =>
    let (v, s) := s.readMem bus (s.evalOperand addr) width
    (s.setValue dst v, none)
  | .storeMem addr src width =>
    (s.writeMem bus (s.evalOperand addr) width (s.evalOperand src), none)
  | .guard cond expected exitRip =>
    if (s.evalOperand cond != 0) != expected then (s.spill.setRip exitRip, some (.sideExit exitRip))
    else (s, none)
  | .guardCodeVersion page expected exitRip =>
    if s.machine.pageVersions.version page.toNat != expected then
      (s.spill.setRip exitRip, some (.invalidate exitRip))
    else
      (s, none)
  | .sideExit exitRip => (s.spill.setRip exitRip, some (.sideExit exitRip))

abbrev execInstrs (is : List Instr) (s : ExecState β) : ExecState β × Option RunExit :=
  Straight.execList (execInstr bus) is s

def runTraceInner (trace : TraceIr) (machine : Machine β) (maxIters : Nat)
    (cache : Option RegCache) : RunExit × ExecStats × Machine β :=
  let s : ExecState β := { machine, values := fun _ => 0, stats := {}, regCache := cache }
  match execInstrs bus trace.prologue s with
  | (s, some exit) => (exit, s.stats, s.machine)
  | (s, none) =>
    let (s, exit) := Straight.runLoop (execInstr bus) trace.body (trace.kind == .loop)
      .returned .stepLimit maxIters s
    -- The exits that an instruction takes have spilled the registers already.
    let s := match exit with
      | .returned | .stepLimit          => s.spill
      | .sideExit _ | .invalidate _     => s
    (exit, s.stats, s.machine)

def runTrace (trace : TraceIr) (machine : Machine β) (maxIters : Nat) :
    RunExit × ExecStats × Machine β :=
  runTraceInner bus trace machine maxIters none

def runTraceWithCachedRegs (trace : TraceIr) (machine : Machine β) (maxIters : Nat)
    (cachedRegs : Gpr → Bool) : RunExit × ExecStats × Machine β :=
  runTraceInner bus trace machine maxIters (some (.new cachedRegs))

end Exec

end Aero.Tier2
