import Aero.Interrupts.Theorems.PicLines

namespace Aero.Interrupts

open Pic8259 List BitVec Option Bool

namespace Pic8259

variable {pic pic' : Pic8259} {irq j : Nat}

theorem and_bit_ne_zero_iff (hirq : irq < 8) : x &&& bit irq ≠ 0 ↔ x.getLsbD irq = true := by
  constructor
  · intro hne
    by_contra hbit
    refine hne (eq_of_getLsbD_eq fun j hj => ?_)
    rw [getLsbD_and, getLsbD_bit hj]
    by_cases hj' : j = irq
    · simp [hj', not_eq_true _ ▸ hbit]
    · simp [hj']
  · intro hbit hzero
    have hand : (x &&& bit irq).getLsbD irq = true := by
      rw [getLsbD_and, getLsbD_bit hirq, hbit]
      simp
    rw [hzero] at hand
    simp at hand

-- A request comes before everything in service, in the order of the scan.
theorem scanPending_spec (h : scanPending pending (irqs.find? inService) irqs = some irq) :
    irq ∈ irqs ∧ pending &&& bit irq ≠ 0 ∧
      ∀ level ∈ irqs, inService level = true → irqs.idxOf irq < irqs.idxOf level := by
  induction irqs with
  | nil => cases h
  | cons head irqs ih =>
    rw [scanPending] at h
    split at h
    case isTrue => cases h
    case isFalse hstop =>
      have hhead : inService head = false := by
        by_contra hserved
        rw [find?_cons_of_pos (not_eq_false _ ▸ hserved)] at hstop
        exact hstop rfl
      have hlater {level : Nat} (hlevel : level ∈ head :: irqs) (hserved : inService level = true) :
          level ≠ head ∧ level ∈ irqs := by
        have hne : level ≠ head := by
          rintro rfl
          exact absurd (hhead.symm.trans hserved) (by decide)
        exact ⟨hne, (mem_cons.mp hlevel).resolve_left hne⟩
      split at h
      case isTrue hhit =>
        cases h
        refine ⟨.head _, hhit, fun level hlevel hserved => ?_⟩
        rw [idxOf_cons_self, idxOf_cons_ne _ (hlater hlevel hserved).1.symm]
        exact Nat.succ_pos _
      case isFalse hmiss =>
        rw [find?_cons_of_neg (by simp [hhead])] at h
        obtain ⟨hmem, hhit, hbefore⟩ := ih h
        have hne : head ≠ irq := by
          rintro rfl
          exact hmiss hhit
        refine ⟨.tail _ hmem, hhit, fun level hlevel hserved => ?_⟩
        obtain ⟨hne', hlevel⟩ := hlater hlevel hserved
        rw [idxOf_cons_ne _ hne, idxOf_cons_ne _ hne'.symm]
        exact Nat.succ_lt_succ (hbefore level hlevel hserved)

theorem mem_irqPriorityOrder_iff : irq ∈ pic.irqPriorityOrder ↔ irq < 8 := by
  rw [irqPriorityOrder]
  generalize (pic.lowestPriority &&& 7).toNat = base
  simp only [List.mem_map, List.mem_range]
  constructor
  · rintro ⟨i, -, rfl⟩
    exact Nat.mod_lt _ (by decide)
  · intro hirq
    exact ⟨(irq + 8 - (base + 1) % 8) % 8, Nat.mod_lt _ (by decide), by omega⟩

-- The place of an IRQ in the rotated priority order.
def rank (pic : Pic8259) (irq : Nat) : Nat :=
  pic.irqPriorityOrder.idxOf irq

structure Eligible (pic : Pic8259) (irq : Nat) : Prop where
  lt : irq < 8
  requested : pic.irr.getLsbD irq = true
  unmasked : pic.imr.getLsbD irq = false
  outranks : ∀ level < 8, pic.isr.getLsbD level = true → pic.rank irq < pic.rank level

theorem pendingIrqWithExtraIrr_spec (h : pic.pendingIrqWithExtraIrr extra = some irq) :
    irq < 8 ∧ (pic.irr.getLsbD irq = true ∨ extra.getLsbD irq = true) ∧
      pic.imr.getLsbD irq = false ∧
      ∀ level < 8, pic.isr.getLsbD level = true → pic.rank irq < pic.rank level := by
  rw [pendingIrqWithExtraIrr] at h
  split at h
  case isTrue => cases h
  case isFalse =>
    obtain ⟨hmem, hhit, hbefore⟩ := scanPending_spec h
    have hirq := mem_irqPriorityOrder_iff.mp hmem
    rw [and_bit_ne_zero_iff hirq, getLsbD_and, getLsbD_or, getLsbD_not, decide_eq_true hirq] at hhit
    simp only [Bool.and_eq_true, Bool.or_eq_true, Bool.true_and, Bool.not_eq_true'] at hhit
    refine ⟨hirq, hhit.1, hhit.2, fun level hlevel hserved => ?_⟩
    refine hbefore level (mem_irqPriorityOrder_iff.mpr hlevel) ?_
    exact bne_iff_ne.mpr ((and_bit_ne_zero_iff hlevel).mpr hserved)

theorem eligible_of_pending (h : pic.pendingIrqWithExtraIrr extra = some irq)
    (hextra : extra.getLsbD irq = false) : pic.Eligible irq := by
  obtain ⟨hlt, hreq, hmask, hrank⟩ := pendingIrqWithExtraIrr_spec h
  exact ⟨hlt, hreq.resolve_right (by simp [hextra]), hmask, hrank⟩

structure Acknowledged (pic pic' : Pic8259) (irq : Nat) : Prop where
  inService : pic.autoEoi = false → pic'.isr.getLsbD irq = true
  cleared : pic.levelTriggered = false → pic'.irr.getLsbD irq = false

theorem refreshIfLevelTriggered_isr : pic.refreshIfLevelTriggered.isr = pic.isr := by
  rw [refreshIfLevelTriggered]
  split <;> rfl

theorem refreshIfLevelTriggered_irr (h : pic.levelTriggered = false) :
    pic.refreshIfLevelTriggered.irr = pic.irr := by
  rw [refreshIfLevelTriggered, h, if_neg (by decide)]

theorem acknowledgeIrq_spec (hirq : irq < 8) (hreq : pic.irr.getLsbD irq = true) :
    ∃ pic', pic.acknowledgeIrq irq = some pic' ∧ pic.Acknowledged pic' irq := by
  have hne : ¬ pic.irr &&& bit irq = 0 := (and_bit_ne_zero_iff hirq).mpr hreq
  rw [acknowledgeIrq, if_neg hne]
  refine ⟨_, rfl, ?_, ?_⟩
  · intro hauto
    rw [refreshIfLevelTriggered_isr, if_neg (by simp [hauto]), getLsbD_or, getLsbD_bit hirq]
    simp
  · intro hedge
    have hirr : ((if pic.autoEoi = true then { pic with irr := pic.irr &&& ~~~bit irq }
        else { pic with irr := pic.irr &&& ~~~bit irq, isr := pic.isr ||| bit irq }) :
          Pic8259).irr = pic.irr &&& ~~~bit irq := by
      split <;> rfl
    rw [refreshIfLevelTriggered_irr (by split <;> exact hedge), hirr, getLsbD_and,
      getLsbD_not, getLsbD_bit hirq]
    simp

end Pic8259

structure Offer where
  slave : Bool
  irq : Nat
  deriving DecidableEq, Repr

def Offer.number (o : Offer) : Nat :=
  if o.slave then 8 + o.irq else o.irq

namespace DualPic8259

variable {pic : DualPic8259} {o : Offer} {v : U8} {irq : Nat}

def controller (pic : DualPic8259) (slave : Bool) : Pic8259 :=
  if slave then pic.slave else pic.master

def offer (pic : DualPic8259) : Option Offer :=
  let (cascadeLine, cascadeBit, slavePending) := pic.cascade
  match pic.master.pendingIrqWithExtraIrr cascadeBit with
  | none           => none
  | some masterIrq =>
    if cascadeBit ≠ 0 ∧ masterIrq = cascadeLine then
      match slavePending with
      | some slaveIrq => some ⟨true, slaveIrq⟩
      | none          => some ⟨false, masterIrq⟩
    else some ⟨false, masterIrq⟩

def vector (pic : DualPic8259) (o : Offer) : U8 :=
  (pic.controller o.slave).vectorBase ||| BitVec.ofNat 8 o.irq

theorem getPendingVector_eq : pic.getPendingVector = pic.offer.map pic.vector := by
  rw [getPendingVector, offer]
  obtain ⟨cascadeLine, cascadeBit, slavePending⟩ := pic.cascade
  dsimp only
  cases pic.master.pendingIrqWithExtraIrr cascadeBit
  case none => rfl
  case some masterIrq =>
    dsimp only
    split
    · split <;> rfl
    · rfl

-- Only a request of the slave comes in through the cascade line.
theorem offer_eligible (h : pic.offer = some o) : (pic.controller o.slave).Eligible o.irq := by
  have hzero irq : (0 : U8).getLsbD irq = false := getLsbD_zero
  rw [offer, cascade] at h
  cases hline : pic.cascadeLine
  case none =>
    simp only [hline] at h
    split at h
    case h_1 => cases h
    case h_2 masterIrq hp =>
      cases h
      exact eligible_of_pending hp (hzero _)
  case some line =>
    simp only [hline] at h
    split at h
    case h_1 => cases h
    case h_2 masterIrq hp =>
      cases hslave : pic.slave.pendingIrq
      case none =>
        rw [hslave] at h hp
        cases h
        exact eligible_of_pending hp (hzero _)
      case some slaveIrq =>
        simp only [hslave, isSome_some, if_true] at h hp
        split at h
        case isTrue =>
          cases h
          exact eligible_of_pending hslave (hzero _)
        case isFalse hnot =>
          cases h
          refine eligible_of_pending hp ?_
          by_contra hbit
          rw [not_eq_false] at hbit
          have hlt := (pendingIrqWithExtraIrr_spec hp).1
          refine hnot ⟨?_, ?_⟩
          · intro hbit0
            rw [hbit0, hzero] at hbit
            cases hbit
          · simpa [getLsbD_bit hlt] using hbit

def Aligned (pic : DualPic8259) : Prop :=
  ∀ slave, (pic.controller slave).vectorBase &&& 0xf8 = (pic.controller slave).vectorBase

theorem vector_decode (haligned : pic.Aligned) (hirq : o.irq < 8) :
    pic.vector o &&& 0xf8 = (pic.controller o.slave).vectorBase ∧
      (pic.vector o &&& 7).toNat = o.irq := by
  have hdecode : ∀ (b : U8) (i : Fin 8), b &&& 0xf8 = b →
      (b ||| BitVec.ofNat 8 i.val) &&& 0xf8 = b ∧
        ((b ||| BitVec.ofNat 8 i.val) &&& 7).toNat = i.val := by
    decide +kernel
  exact hdecode _ ⟨o.irq, hirq⟩ (haligned o.slave)

-- The acknowledge gets to the IRQ that was offered, and does what it has to do there.
structure Served (pic : DualPic8259) (v : U8) (o : Offer) : Prop where
  result : (pic.acknowledge v).2 = some o.number
  eligible : (pic.controller o.slave).Eligible o.irq
  acknowledged :
    (pic.controller o.slave).Acknowledged ((pic.acknowledge v).1.controller o.slave) o.irq

theorem acknowledge_slave (hbase : v &&& 0xf8 = pic.slave.vectorBase)
    (hirq : (v &&& 7).toNat = irq) (helig : pic.slave.Eligible irq) : pic.Served v ⟨true, irq⟩ := by
  obtain ⟨slave, hslave, hack⟩ := acknowledgeIrq_spec helig.lt helig.requested
  obtain ⟨master, hresult⟩ : ∃ master, pic.acknowledge v = (⟨master, slave⟩, some (8 + irq)) := by
    rw [acknowledge, if_pos hbase, hirq, hslave]
    exact ⟨_, rfl⟩
  refine ⟨?_, helig, ?_⟩
  · rw [hresult]
    rfl
  · rw [hresult]
    exact hack

theorem acknowledge_master (hbase : v &&& 0xf8 = pic.master.vectorBase)
    (hirq : (v &&& 7).toNat = irq) (helig : pic.master.Eligible irq)
    (hbases : pic.master.vectorBase ≠ pic.slave.vectorBase) : pic.Served v ⟨false, irq⟩ := by
  obtain ⟨master, hmaster, hack⟩ := acknowledgeIrq_spec helig.lt helig.requested
  -- the IRQ is requested, hence not a spurious one
  have hreal : ¬ (irq = 7 ∧ pic.master.isIrqRequested 7 = false) := by
    rintro ⟨rfl, hnot⟩
    have hne := (and_bit_ne_zero_iff helig.lt).mpr helig.requested
    rw [isIrqRequested, bne_eq_false_iff_eq] at hnot
    exact hne hnot
  have hresult : pic.acknowledge v = (⟨master, pic.slave⟩, some irq) := by
    have hslave : ¬ v &&& 0xf8 = pic.slave.vectorBase := fun h => hbases (hbase.symm.trans h)
    rw [acknowledge, if_neg hslave, if_pos hbase, hirq, if_neg hreal, hmaster]
  refine ⟨?_, helig, ?_⟩
  · rw [hresult]
    rfl
  · rw [hresult]
    exact hack

-- With one base for both controllers a vector of the master is taken for one of the slave.
theorem acknowledge_master_same_base (hbase : v &&& 0xf8 = pic.master.vectorBase)
    (hlt : irq < 8) (hbases : pic.master.vectorBase = pic.slave.vectorBase) :
    ¬ pic.Served v ⟨false, irq⟩ := by
  intro hserved
  have hresult := hserved.result
  rw [acknowledge, if_pos (hbase.trans hbases)] at hresult
  split at hresult
  · have hnumber : 8 + (v &&& 7).toNat = irq := some.inj hresult
    omega
  · cases hresult

theorem served_iff (haligned : pic.Aligned) (h : pic.offer = some o) :
    pic.Served (pic.vector o) o ↔
      pic.master.vectorBase ≠ pic.slave.vectorBase ∨ o.slave = true := by
  have helig := offer_eligible h
  obtain ⟨hbase, hirq⟩ := vector_decode haligned helig.lt
  generalize pic.vector o = v at hbase hirq ⊢
  obtain ⟨slave, irq⟩ := o
  cases slave
  case true => exact iff_of_true (acknowledge_slave hbase hirq helig) (.inr rfl)
  case false =>
    by_cases hbases : pic.master.vectorBase = pic.slave.vectorBase
    · exact iff_of_false (acknowledge_master_same_base hbase helig.lt hbases) (by simp [hbases])
    · exact iff_of_true (acknowledge_master hbase hirq helig hbases) (.inl hbases)

end DualPic8259

inductive PicOp
  | portWrite (port : Nat) (val : U8)
  | raiseIrq (irq : Nat)
  | lowerIrq (irq : Nat)
  | acknowledge (vector : U8)

namespace DualPic8259

variable {pic : DualPic8259} {irq : Nat}

def step (pic : DualPic8259) : PicOp → DualPic8259
  | .portWrite port val => pic.portWriteU8 port val
  | .raiseIrq irq       => pic.raiseIrq irq
  | .lowerIrq irq       => pic.lowerIrq irq
  | .acknowledge vector => (pic.acknowledge vector).1

def run (ops : List PicOp) : DualPic8259 :=
  ops.foldl step .new

theorem aligned_iff : pic.Aligned ↔
    pic.master.vectorBase &&& 0xf8 = pic.master.vectorBase ∧
      pic.slave.vectorBase &&& 0xf8 = pic.slave.vectorBase :=
  ⟨fun h => ⟨h false, h true⟩, fun h slave => by cases slave; exacts [h.1, h.2]⟩

end DualPic8259

namespace Pic8259

variable {pic : Pic8259}

theorem SameWiring.aligned (h : SameWiring pic pic') (ha : pic.vectorBase &&& 0xf8 = pic.vectorBase) :
    pic'.vectorBase &&& 0xf8 = pic'.vectorBase := by
  rwa [h.vectorBase]

theorem setIrqLevel_vectorBase : (pic.setIrqLevel irq level).vectorBase = pic.vectorBase := by
  rw [setIrqLevel]
  split
  · rw [refreshIfLevelTriggered_sameWiring.vectorBase]
    split <;> rfl
  · exact refreshIfLevelTriggered_sameWiring.vectorBase

theorem writeCommand_vectorBase : (pic.writeCommand val).vectorBase = pic.vectorBase := by
  by_cases h : isIcw1 val
  · rw [writeCommand, if_pos h]
  · exact (writeCommand_sameWiring h).vectorBase

theorem writeData_aligned (ha : pic.vectorBase &&& 0xf8 = pic.vectorBase) :
    (pic.writeData val).vectorBase &&& 0xf8 = (pic.writeData val).vectorBase := by
  rw [writeData]
  split
  · exact and_assoc _ _ _
  all_goals exact ha

end Pic8259

namespace DualPic8259

variable {pic : DualPic8259}

theorem step_aligned (h : pic.Aligned) (op : PicOp) : (pic.step op).Aligned := by
  rw [aligned_iff] at h ⊢
  obtain ⟨hm, hs⟩ := h
  have hset irq level :
      (pic.setIrqLevel irq level).master.vectorBase &&& 0xf8 =
          (pic.setIrqLevel irq level).master.vectorBase ∧
        (pic.setIrqLevel irq level).slave.vectorBase &&& 0xf8 =
          (pic.setIrqLevel irq level).slave.vectorBase := by
    rw [setIrqLevel]
    split
    · exact ⟨by rwa [setIrqLevel_vectorBase], hs⟩
    split
    · exact ⟨hm, by rwa [setIrqLevel_vectorBase]⟩
    · exact ⟨hm, hs⟩
  cases op with
  | portWrite port val =>
    rw [step, portWriteU8]
    split
    · exact ⟨by rwa [writeCommand_vectorBase], hs⟩
    split
    · exact ⟨writeData_aligned hm, hs⟩
    split
    · exact ⟨hm, by rwa [writeCommand_vectorBase]⟩
    split
    · exact ⟨hm, writeData_aligned hs⟩
    · exact ⟨hm, hs⟩
  | raiseIrq irq => exact hset irq true
  | lowerIrq irq => exact hset irq false
  | acknowledge vector =>
    rw [step, acknowledge]
    split
    · split
      case h_1 slave hslave =>
        exact ⟨forceInService_sameWiring.aligned hm, (acknowledgeIrq_sameWiring hslave).aligned hs⟩
      case h_2 =>
        split
        · exact ⟨forceInService_sameWiring.aligned hm, hs⟩
        · exact ⟨hm, hs⟩
    split
    · split
      · exact ⟨hm, hs⟩
      split
      case h_1 master hmaster => exact ⟨(acknowledgeIrq_sameWiring hmaster).aligned hm, hs⟩
      case h_2 => exact ⟨hm, hs⟩
    · exact ⟨hm, hs⟩

theorem run_aligned (ops : List PicOp) : (run ops).Aligned := by
  have hfold pic (h : pic.Aligned) : (ops.foldl step pic).Aligned := by
    induction ops generalizing pic with
    | nil => exact h
    | cons op ops ih => exact ih (pic.step op) (step_aligned h op)
  exact hfold .new (aligned_iff.mpr ⟨rfl, rfl⟩)

-- In every reachable state, a vector that is offered can be acknowledged exactly if the controllers
-- have different vector bases or it is the slave that offers it.
theorem offered_vector_served_iff (ops : List PicOp) (v : U8)
    (hv : (run ops).getPendingVector = some v) :
    ∃ o, (run ops).offer = some o ∧ v = (run ops).vector o ∧
      ((run ops).Served v o ↔
        (run ops).master.vectorBase ≠ (run ops).slave.vectorBase ∨ o.slave = true) := by
  rw [getPendingVector_eq, map_eq_some_iff] at hv
  obtain ⟨o, ho, rfl⟩ := hv
  exact ⟨o, ho, rfl, served_iff (run_aligned ops) ho⟩

def cascaded : List PicOp :=
  [.portWrite 0x20 0x11, .portWrite 0x21 0x08, .portWrite 0x21 0x04, .portWrite 0x21 0x01,
    .portWrite 0xa0 0x11, .portWrite 0xa1 0x70, .portWrite 0xa1 0x02, .portWrite 0xa1 0x01,
    .raiseIrq 12]

theorem offered_vector_served_cascaded :
    (run cascaded).getPendingVector = some 0x74 ∧ (run cascaded).offer = some ⟨true, 4⟩ ∧
      (run cascaded).Served 0x74 ⟨true, 4⟩ := by
  have hv : (run cascaded).getPendingVector = some 0x74 := by decide +kernel
  have ho : (run cascaded).offer = some ⟨true, 4⟩ := by decide +kernel
  obtain ⟨o, ho', -, hserved⟩ := offered_vector_served_iff cascaded 0x74 hv
  obtain rfl := some.inj (ho'.symm.trans ho)
  exact ⟨hv, ho, hserved.mpr (.inr rfl)⟩

-- Both controllers are still at their power-on base when the guest unmasks IRQ 1.
def sameBase : List PicOp :=
  [.portWrite 0x21 0x00, .raiseIrq 1]

theorem offered_vector_not_acknowledged :
    (run sameBase).getPendingVector = some 1 ∧ (run sameBase).offer = some ⟨false, 1⟩ ∧
      ((run sameBase).acknowledge 1).2 = none := by
  decide +kernel

end DualPic8259

end Aero.Interrupts
