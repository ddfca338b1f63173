import Aero.Tier2.Core
import Aero.Tier2.Theorems.Scope

namespace Aero.Tier2

def SameMachine {β : Type} (c c' : Core β) : Prop :=
  c.machine = c'.machine

namespace Core

variable (bus : Tier1Bus β) (c : Core β)

section Updates

variable (dst : ValueId) (x : U64) (reg : Gpr) (mask : FlagSet) (flags : FlagValues)

@[simp]
theorem setValue_machine : (c.setValue dst x).machine = c.machine := rfl

@[simp]
theorem setValue_values : (c.setValue dst x).values = Function.update c.values dst x := rfl

@[simp]
theorem setGpr_values : (c.setGpr reg x).values = c.values := rfl

@[simp]
theorem setGpr_evalOperand (op : Operand) : (c.setGpr reg x).evalOperand op = c.evalOperand op := by
  cases op <;> rfl

@[simp]
theorem setRip_values : (c.setRip x).values = c.values := rfl

@[simp]
theorem applyFlags_values : (c.applyFlags mask flags).values = c.values := rfl

@[simp]
theorem applyFlags_gpr : (c.applyFlags mask flags).machine.cpu.gpr = c.machine.cpu.gpr := rfl

@[simp]
theorem updateFlags_values : (c.updateFlags mask flags).values = c.values := by
  unfold updateFlags
  split <;> rfl

@[simp]
theorem updateFlags_gpr : (c.updateFlags mask flags).machine.cpu.gpr = c.machine.cpu.gpr := by
  unfold updateFlags
  split <;> rfl

@[simp]
theorem updateFlags_empty : c.updateFlags .empty flags = c := rfl

@[simp]
theorem readMem_values (addr : U64) (width : Width) :
    (c.readMem bus addr width).2.values = c.values := rfl

@[simp]
theorem readMem_gpr (addr : U64) (width : Width) :
    (c.readMem bus addr width).2.machine.cpu.gpr = c.machine.cpu.gpr := rfl

@[simp]
theorem writeMem_values (addr : U64) (width : Width) :
    (c.writeMem bus addr width x).values = c.values := rfl

@[simp]
theorem writeMem_gpr (addr : U64) (width : Width) :
    (c.writeMem bus addr width x).machine.cpu.gpr = c.machine.cpu.gpr := rfl

end Updates

theorem evalOperand_setValue {c : Core β} (h : op.asValue ≠ some dst) :
    (c.setValue dst x).evalOperand op = c.evalOperand op := by
  cases op
  case const k => rfl
  case value v =>
    have : v ≠ dst := fun hv => h (hv ▸ rfl)
    simp [this]

theorem evalOperand_congr {c c' : Core β} (h : ∀ v, op.asValue = some v → c.values v = c'.values v) :
    c.evalOperand op = c'.evalOperand op := by
  cases op
  case const k => rfl
  case value v => exact h v rfl

theorem exec_values (h : i.dst ≠ some v) : (exec bus i c).1.values v = c.values v := by
  cases i
  case guard | guardCodeVersion => simp only [exec]; split <;> rfl
  case nop | storeReg | setFlags | storeMem | sideExit => rfl
  case const dst _ | loadReg dst _ | loadFlag dst _ | binOp dst _ _ _ _ | addr dst _ _ _ _
      | loadMem dst _ _ =>
    have hv : v ≠ dst := fun hv => h (hv ▸ rfl)
    simp [exec, hv]

theorem exec_gpr (h : ∀ src, i ≠ .storeReg reg src) :
    (exec bus i c).1.machine.cpu.gpr reg = c.machine.cpu.gpr reg := by
  cases i
  case guard | guardCodeVersion => simp only [exec]; split <;> rfl
  case storeReg reg' src =>
    have hr : reg ≠ reg' := fun hr => h src (hr ▸ rfl)
    simp [exec, setGpr, hr]
  all_goals simp [exec, setRip]

theorem execInstrs_values (h : ∀ i ∈ is, i.dst ≠ some v) :
    (execInstrs bus is c).1.values v = c.values v :=
  Straight.execList_preserves _ (P := fun e : Core β => e.values v = c.values v)
    (fun i hi _ he => exec_values bus _ (h i hi) |>.trans he) rfl

theorem execInstrs_gpr (h : ∀ i ∈ is, ∀ src, i ≠ .storeReg reg src) :
    (execInstrs bus is c).1.machine.cpu.gpr reg = c.machine.cpu.gpr reg :=
  Straight.execList_preserves _ (P := fun e : Core β => e.machine.cpu.gpr reg = c.machine.cpu.gpr reg)
    (fun i hi _ he => exec_gpr bus _ (h i hi) |>.trans he) rfl

theorem execInstrs_values_of_mem (hs : InScope d is) (hv : v ∈ d) :
    (execInstrs bus is c).1.values v = c.values v :=
  execInstrs_values bus c fun _ hi hd => hs.dst_not_mem hi hd hv

theorem exec_values_of_mem (hi : i.Scoped d) (hv : v ∈ d) :
    (exec bus i c).1.values v = c.values v :=
  exec_values bus c fun hd => hi.2 v hd hv

theorem evalOperand_of_inScope {c e : Core β} (h : op.InScope d)
    (he : ∀ v ∈ d, e.values v = c.values v) : e.evalOperand op = c.evalOperand op :=
  evalOperand_congr fun v hv => he v (h v hv)

theorem exec_mapOperands {c c' : Core β} (hm : SameMachine c c')
    (ho : ∀ op ∈ i.operands, c.evalOperand op = c'.evalOperand (g op)) :
    Straight.Related (fun e e' => SameMachine e e' ∧ ∀ v, i.dst = some v → e.values v = e'.values v)
      SameMachine (exec bus i c) (exec bus (i.mapOperands g) c') := by
  have hm : c.machine = c'.machine := hm
  cases i
  case guard cond expected exitRip =>
    have hc := ho cond (by simp [Instr.operands])
    simp only [exec, Instr.mapOperands, hc]
    split
    · exact .exited (by simp [SameMachine, setRip, hm])
    · exact .running ⟨hm, by simp [Instr.dst]⟩
  case guardCodeVersion page expected exitRip =>
    simp only [exec, Instr.mapOperands, hm]
    split
    · exact .exited (by simp [SameMachine, setRip, hm])
    · exact .running ⟨hm, by simp [Instr.dst]⟩
  case sideExit exitRip => exact .exited (by simp [SameMachine, setRip, hm])
  case binOp dst op lhs rhs flags =>
    have hl := ho lhs (by simp [Instr.operands])
    have hr := ho rhs (by simp [Instr.operands])
    refine .running ⟨?_, by simp [Instr.dst, hl, hr]⟩
    simp only [SameMachine, updateFlags, hl, hr]
    split <;> simp [applyFlags, hm]
  all_goals
    simp only [Instr.operands] at ho
    exact .running ⟨by simp [SameMachine, setGpr, applyFlags, readMem, writeMem, hm, ho],
      by simp [Instr.dst, readMem, hm, ho]⟩

theorem exec_related {c c' : Core β} (hm : SameMachine c c')
    (hu : ∀ v ∈ i.uses, c.values v = c'.values v) :
    Straight.Related (fun e e' => SameMachine e e' ∧
        ∀ v, i.dst = some v ∨ c.values v = c'.values v → e.values v = e'.values v)
      SameMachine (exec bus i c) (exec bus i c') := by
  have h := exec_mapOperands bus (g := id) hm fun op ho =>
    evalOperand_congr fun v hv => hu v (List.mem_filterMap.mpr ⟨op, ho, hv⟩)
  rw [Instr.mapOperands_id] at h
  refine h.with_runs.mono ?_ fun _ _ h => h
  intro e e' ⟨⟨hm, hd⟩, he, he'⟩
  refine ⟨hm, fun v hv => ?_⟩
  by_cases hi : i.dst = some v
  case pos => exact hd v hi
  case neg =>
    have h₁ := exec_values bus c hi
    have h₂ := exec_values bus c' hi
    rw [he] at h₁
    rw [he'] at h₂
    rw [h₁, h₂, hv.resolve_left hi]

end Core

end Aero.Tier2
