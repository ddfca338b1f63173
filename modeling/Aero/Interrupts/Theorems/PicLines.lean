import Aero.Interrupts.Pic

namespace Aero.Interrupts

open Pic8259

namespace Pic8259

variable {pic pic' : Pic8259} {irq j : Nat}

def line (pic : Pic8259) (irq : Nat) : Bool :=
  pic.lineLevel.getLsbD irq

structure SameWiring (pic pic' : Pic8259) : Prop where
  lineLevel : pic'.lineLevel = pic.lineLevel
  vectorBase : pic'.vectorBase = pic.vectorBase

theorem SameWiring.refl (pic : Pic8259) : SameWiring pic pic :=
  ⟨rfl, rfl⟩

theorem SameWiring.trans (h : SameWiring pic pic') (h' : SameWiring pic' pic'') :
    SameWiring pic pic'' :=
  ⟨h'.lineLevel.trans h.lineLevel, h'.vectorBase.trans h.vectorBase⟩

theorem refreshIfLevelTriggered_sameWiring : SameWiring pic pic.refreshIfLevelTriggered := by
  rw [refreshIfLevelTriggered]
  split <;> exact ⟨rfl, rfl⟩

theorem endOfInterrupt_sameWiring : SameWiring pic (pic.endOfInterrupt val) := by
  refine .trans ?_ refreshIfLevelTriggered_sameWiring
  split
  · split <;> exact ⟨rfl, rfl⟩
  · exact .refl pic

theorem writeCommand_sameWiring (h : ¬ isIcw1 val) : SameWiring pic (pic.writeCommand val) := by
  rw [writeCommand, if_neg h]
  split
  · split <;> exact ⟨rfl, rfl⟩
  split
  · exact endOfInterrupt_sameWiring
  split <;> exact ⟨rfl, rfl⟩

theorem writeData_lineLevel : (pic.writeData val).lineLevel = pic.lineLevel := by
  rw [writeData]
  split <;> rfl

theorem acknowledgeIrq_sameWiring (h : pic.acknowledgeIrq irq = some pic') :
    SameWiring pic pic' := by
  rw [acknowledgeIrq] at h
  split at h
  · cases h
  · cases h
    refine .trans ?_ refreshIfLevelTriggered_sameWiring
    split <;> exact ⟨rfl, rfl⟩

theorem forceInService_sameWiring : SameWiring pic (pic.forceInService irq) := by
  rw [forceInService]
  split
  · exact .refl pic
  · have hisr : SameWiring pic { pic with isr := pic.isr ||| bit irq } := ⟨rfl, rfl⟩
    exact hisr.trans refreshIfLevelTriggered_sameWiring

theorem setIrqLevel_lineLevel : (pic.setIrqLevel irq level).lineLevel =
    if level then pic.lineLevel ||| bit irq else pic.lineLevel &&& ~~~bit irq := by
  rw [setIrqLevel]
  cases level
  case false => exact refreshIfLevelTriggered_sameWiring.lineLevel
  case true =>
    rw [if_pos rfl]
    rw [refreshIfLevelTriggered_sameWiring.lineLevel]
    split <;> rfl

theorem getLsbD_bit (hj : j < 8) : (bit irq).getLsbD j = decide (j = irq) := by
  by_cases h : j = irq
  · subst h
    simp [bit, hj]
  · have hne : j < irq ∨ j - irq ≠ 0 := by omega
    simp only [bit, BitVec.getLsbD_shiftLeft]
    rcases hne with hlt | hne
    · simp [hlt, h]
    · simp [hne, h]

theorem setIrqLevel_line (hj : j < 8) :
    (pic.setIrqLevel irq level).line j = if j = irq then level else pic.line j := by
  rw [line, setIrqLevel_lineLevel]
  cases level
  case false =>
    rw [if_neg (by decide), BitVec.getLsbD_and, BitVec.getLsbD_not, getLsbD_bit hj,
      decide_eq_true hj, ← line]
    by_cases h : j = irq <;> simp [h]
  case true =>
    rw [if_pos rfl, BitVec.getLsbD_or, getLsbD_bit hj, ← line]
    by_cases h : j = irq <;> simp [h]

end Pic8259

namespace DualPic8259

variable {pic : DualPic8259} {irq j port : Nat}

def line (pic : DualPic8259) (irq : Nat) : Bool :=
  if irq < 8 then pic.master.line irq else pic.slave.line (irq - 8)

theorem line_congr {pic' : DualPic8259} (hm : pic'.master.lineLevel = pic.master.lineLevel)
    (hs : pic'.slave.lineLevel = pic.slave.lineLevel) : pic'.line = pic.line := by
  funext irq
  simp only [line, Pic8259.line, hm, hs]

theorem acknowledge_line : (pic.acknowledge vector).1.line = pic.line := by
  rw [acknowledge]
  split
  · split
    case h_1 slave h =>
      exact line_congr forceInService_sameWiring.lineLevel
        (acknowledgeIrq_sameWiring h).lineLevel
    case h_2 =>
      split
      · exact line_congr forceInService_sameWiring.lineLevel rfl
      · rfl
  split
  · split
    · rfl
    split
    case h_1 master h => exact line_congr (acknowledgeIrq_sameWiring h).lineLevel rfl
    case h_2 => rfl
  · rfl

theorem setIrqLevel_line (hirq : irq < 16) (hj : j < 16) :
    (pic.setIrqLevel irq level).line j = if j = irq then level else pic.line j := by
  rw [setIrqLevel]
  by_cases hi8 : irq < 8
  · rw [if_pos hi8, line, line]
    by_cases hj8 : j < 8
    · rw [if_pos hj8, if_pos hj8, Pic8259.setIrqLevel_line hj8]
    · rw [if_neg hj8, if_neg hj8, if_neg (by omega)]
  · rw [if_neg hi8, if_pos hirq, line, line]
    by_cases hj8 : j < 8
    · rw [if_pos hj8, if_pos hj8, if_neg (by omega)]
    · rw [if_neg hj8, if_neg hj8, Pic8259.setIrqLevel_line (by omega)]
      exact if_congr (by omega) rfl rfl

theorem portWriteU8_line
    (h : ¬ ((port = masterCmd ∨ port = slaveCmd) ∧ isIcw1 val)) :
    (pic.portWriteU8 port val).line = pic.line := by
  rw [portWriteU8]
  split
  case isTrue hport =>
    have hicw : ¬ isIcw1 val := fun hicw => h ⟨.inl hport, hicw⟩
    exact line_congr (writeCommand_sameWiring hicw).lineLevel rfl
  split
  · exact line_congr writeData_lineLevel rfl
  split
  case isTrue hport =>
    have hicw : ¬ isIcw1 val := fun hicw => h ⟨.inr hport, hicw⟩
    exact line_congr rfl (writeCommand_sameWiring hicw).lineLevel
  split
  · exact line_congr rfl writeData_lineLevel
  · rfl

end DualPic8259

-- A specific EOI is no ICW1.
theorem PlatformPic.eoi_line {pic : PlatformPic} :
    (pic.eoi vector).inner.line = pic.inner.line := by
  have hspecific b : ¬ isIcw1 (0x60 ||| (b &&& 7)) := by
    revert b
    decide
  rw [eoi]
  split
  · rfl
  split
  · exact DualPic8259.portWriteU8_line fun h => hspecific _ h.2
  · have hmaster : ¬ isIcw1 (0x60 ||| 0x02) := by decide
    exact (DualPic8259.portWriteU8_line fun h => hmaster h.2).trans
      (DualPic8259.portWriteU8_line fun h => hspecific _ h.2)

end Aero.Interrupts
