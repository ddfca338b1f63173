import Aero.Tier2.Interp

namespace Aero.Tier2

open ExecState

@[ext]
structure Core (β : Type) where
  machine : Machine β
  values : ValueId → U64
  reserved : machine.cpu.rflags.getLsbD 1 = true

theorem applyFlagSet_reserved (rflags : U64) (mask : FlagSet) (values : FlagValues) :
    (applyFlagSet rflags mask values).getLsbD 1 = true := by
  have : rflagsReserved1.getLsbD 1 = true := by decide
  simp [applyFlagSet, this]

namespace Core

variable {β : Type}

def init (m : Machine β) (h : m.cpu.rflags.getLsbD 1 = true) : Core β where
  machine := m
  values _ := 0
  reserved := h

def evalOperand (c : Core β) : Operand → U64
  | .const k => k
  | .value v => c.values v

@[simp]
theorem evalOperand_const (c : Core β) (k : U64) : c.evalOperand (.const k) = k := rfl

@[simp]
theorem evalOperand_value (c : Core β) (v : ValueId) : c.evalOperand (.value v) = c.values v := rfl

def setValue (c : Core β) (dst : ValueId) (v : U64) : Core β :=
  { c with values := Function.update c.values dst v }

def setGpr (c : Core β) (reg : Gpr) (v : U64) : Core β :=
  { c with machine.cpu.gpr := Function.update c.machine.cpu.gpr reg v }

def setRip (c : Core β) (rip : U64) : Core β :=
  { c with machine.cpu.rip := rip }

def applyFlags (c : Core β) (mask : FlagSet) (values : FlagValues) : Core β where
  machine := { c.machine with cpu.rflags := applyFlagSet c.machine.cpu.rflags mask values }
  values := c.values
  reserved := applyFlagSet_reserved _ _ _

-- The flag update of an operation, which does nothing for an empty set.
def updateFlags (c : Core β) (mask : FlagSet) (values : FlagValues) : Core β :=
  if mask.isEmpty then c else c.applyFlags mask values

def readMem (bus : Tier1Bus β) (c : Core β) (addr : U64) (width : Width) : U64 × Core β :=
  let (v, b) := bus.read c.machine.bus addr width
  (width.truncate v,
    { c with machine.bus := b, machine.log := c.machine.log ++ [.read addr width] })

def writeMem (bus : Tier1Bus β) (c : Core β) (addr : U64) (width : Width) (value : U64) : Core β :=
  { c with
    machine.bus := bus.write c.machine.bus addr width value
    machine.log := c.machine.log ++ [.write addr width value]
    machine.pageVersions := c.machine.pageVersions.bumpWrite addr width.bytes }

variable (bus : Tier1Bus β)

def exec (inst : Instr) (c : Core β) : Core β × Option RunExit :=
  match inst with
  | .nop => (c, none)
  | .const dst value => (c.setValue dst value, none)
  | .loadReg dst reg => (c.setValue dst (c.machine.cpu.gpr reg), none)
  | .storeReg reg src => (c.setGpr reg (c.evalOperand src), none)
  | .loadFlag dst flag => (c.setValue dst (boolToU64 (getFlag c.machine.cpu.rflags flag)), none)
  | .setFlags mask values => (c.applyFlags mask values, none)
  | .binOp dst op lhs rhs flags =>
    let r := evalBinop op (c.evalOperand lhs) (c.evalOperand rhs)
    ((c.setValue dst r.1).updateFlags flags r.2, none)
  | .addr dst base index scale disp =>
    (c.setValue dst (evalAddr (c.evalOperand base) (c.evalOperand index) scale disp), none)
  | .loadMem dst addr width =>
    let r := c.readMem bus (c.evalOperand addr) width
    (r.2.setValue dst r.1, none)
  | .storeMem addr src width =>
    (c.writeMem bus (c.evalOperand addr) width (c.evalOperand src), none)
  | .guard cond expected exitRip =>
    if (c.evalOperand cond != 0) != expected then (c.setRip exitRip, some (.sideExit exitRip))
    else (c, none)
  | .guardCodeVersion page expected exitRip =>
    if c.machine.pageVersions.version page.toNat != expected then
      (c.setRip exitRip, some (.invalidate exitRip))
    else
      (c, none)
  | .sideExit exitRip => (c.setRip exitRip, some (.sideExit exitRip))

abbrev execInstrs (is : List Instr) (c : Core β) : Core β × Option RunExit :=
  Straight.execList (exec bus) is c

def run (t : TraceIr) (n : Nat) (c : Core β) : Core β × RunExit :=
  Straight.run (exec bus) t.prologue t.body (t.kind == .loop) .returned .stepLimit n c

end Core

section Refinement

variable {β : Type} (bus : Tier1Bus β)

-- An interpreter state without register cache, and what it means.
structure ExecState.Refines (s : ExecState β) (c : Core β) : Prop where
  machine : s.machine = c.machine
  values : s.values = c.values
  noCache : s.regCache = none

theorem ExecState.Refines.evalOperand {s : ExecState β} (h : s.Refines c) (op : Operand) :
    s.evalOperand op = c.evalOperand op := by
  cases op
  case const k => rfl
  case value v => exact congrFun h.values v

theorem ExecState.Refines.exec (h : s.Refines c) (i : Instr) :
    Straight.Related ExecState.Refines ExecState.Refines (execInstr bus i s)
      (Core.exec bus i c) := by
  have ho := h.evalOperand
  have ⟨hm, hv, hn⟩ := h
  have hs := spill_of_noCache hn
  cases i
  case nop => exact .running h
  case const dst value => exact .running ⟨hm, by simp [setValue, Core.setValue, hv], hn⟩
  case loadReg dst reg =>
    simp only [execInstr, readReg, hn]
    exact .running ⟨hm, by simp [setValue, Core.setValue, hv, hm], rfl⟩
  case storeReg reg src =>
    simp only [execInstr, writeReg, hn, ho]
    exact .running ⟨by simp [setGpr, Core.setGpr, hm], hv, rfl⟩
  case loadFlag dst flag =>
    exact .running ⟨hm, by simp [setValue, Core.setValue, hv, hm], hn⟩
  case setFlags mask values =>
    exact .running ⟨by simp [setRflags, Core.applyFlags, hm], hv, hn⟩
  case binOp dst op lhs rhs flags =>
    simp only [execInstr, Core.exec, Core.updateFlags, ho]
    split
    · exact .running ⟨hm, by simp [setValue, Core.setValue, hv], hn⟩
    · exact .running ⟨by simp [setValue, setRflags, Core.setValue, Core.applyFlags, hm],
        by simp [setValue, setRflags, Core.setValue, Core.applyFlags, hv], hn⟩
  case addr dst base index scale disp =>
    exact .running ⟨hm, by simp [setValue, Core.setValue, hv, ho], hn⟩
  case loadMem dst a width =>
    exact .running ⟨by simp [setValue, Core.setValue, Core.readMem, hm, ho],
      by simp [setValue, Core.setValue, Core.readMem, hv, hm, ho], hn⟩
  case storeMem a src width =>
    exact .running ⟨by simp [writeMem, Core.writeMem, hm, ho], hv, hn⟩
  case guard cond expected exitRip =>
    simp only [execInstr, Core.exec, ho, hs]
    split
    · exact .exited ⟨by simp [setRip, Core.setRip, hm], hv, hn⟩
    · exact .running h
  case guardCodeVersion page expected exitRip =>
    simp only [execInstr, Core.exec, hs, hm]
    split
    · exact .exited ⟨by simp [setRip, Core.setRip, hm], hv, hn⟩
    · exact .running h
  case sideExit exitRip =>
    simp only [execInstr, hs]
    exact .exited ⟨by simp [setRip, Core.setRip, hm], hv, hn⟩

theorem ExecState.Refines.execInstrs (h : s.Refines c) (is : List Instr) :
    Straight.Related ExecState.Refines ExecState.Refines (execInstrs bus is s)
      (Core.execInstrs bus is c) :=
  Straight.execList_related (fun i _ _ h => h.exec bus i) h

def ExecState.start (m : Machine β) : ExecState β :=
  { machine := m, values := fun _ => 0, stats := {}, regCache := none }

def ExecState.run (t : TraceIr) (n : Nat) (s : ExecState β) :
    ExecState β × RunExit :=
  Straight.run (execInstr bus) t.prologue t.body (t.kind == .loop) .returned .stepLimit n s

theorem ExecState.Refines.run {s : ExecState β} (h : s.Refines c) (t : TraceIr) (n : Nat) :
    (s.run bus t n).2 = (c.run bus t n).2 ∧ (s.run bus t n).1.Refines (c.run bus t n).1 :=
  Straight.run_related (h.execInstrs bus t.prologue) (fun _ _ h => h.execInstrs bus t.body)
    (fun _ _ h => ⟨rfl, fun _ => h, h⟩) fun _ _ _ h => h

-- Without a cache there is nothing to spill.
theorem runTrace_eq_run (h : ((start m).run bus t n).1.regCache = none) :
    runTrace bus t m n =
      (((start m).run bus t n).2, ((start m).run bus t n).1.stats,
        ((start m).run bus t n).1.machine) := by
  simp only [runTrace, runTraceInner, run, Straight.run, start] at h ⊢
  split
  case h_1 hp => simp only [hp]
  case h_2 hp =>
    simp only [hp] at h ⊢
    split <;> simp [spill_of_noCache h]

theorem runTrace_eq_core (t : TraceIr) (m : Machine β) (hm : m.cpu.rflags.getLsbD 1 = true)
    (n : Nat) :
    (runTrace bus t m n).1 = ((Core.init m hm).run bus t n).2 ∧
    (runTrace bus t m n).2.2 = ((Core.init m hm).run bus t n).1.machine := by
  have hs : (start m).Refines (.init m hm) := ⟨rfl, rfl, rfl⟩
  have ⟨he, hr⟩ := hs.run bus t n
  rw [runTrace_eq_run bus hr.noCache]
  exact ⟨he, hr.machine⟩

end Refinement

end Aero.Tier2
