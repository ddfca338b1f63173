import Aero.Interrupts.Nesting
import Aero.Interrupts.Theorems.LocalApic
import Mathlib.Data.List.Pairwise

namespace Aero.Interrupts

open List Bitmap
open BitVec (le_of_lt lt_def lt_irrefl not_le ofNat toNat_ofNat)

section Priority

theorem toNat_vectorPriorityClass (v : U8) : (vectorPriorityClass v).toNat = v.toNat / 16 * 16 := by
  revert v
  decide +kernel

theorem vectorPriorityClass_mono (h : v ≤ w) : vectorPriorityClass v ≤ vectorPriorityClass w := by
  rw [BitVec.le_def] at h ⊢
  rw [toNat_vectorPriorityClass, toNat_vectorPriorityClass]
  omega

theorem lt_of_vectorPriorityClass_lt (h : vectorPriorityClass v < vectorPriorityClass w) : v < w := by
  rw [lt_def] at h ⊢
  rw [toNat_vectorPriorityClass, toNat_vectorPriorityClass] at h
  omega

theorem highest_eq_some {p : U8 → Bool}
    (h : ((range 256).reverse.map (ofNat 8)).find? p = some v) :
    p v = true ∧ ∀ w, p w = true → w ≤ v := by
  have hsorted : ((range 256).reverse.map (ofNat 8)).Pairwise fun a b => b < a := by
    rw [pairwise_map, pairwise_reverse]
    refine pairwise_lt_range.imp_of_mem fun ha hb hlt => ?_
    rw [mem_range] at ha hb
    rwa [lt_def, toNat_ofNat, toNat_ofNat, Nat.mod_eq_of_lt ha, Nat.mod_eq_of_lt hb]
  obtain ⟨hv, as, bs, hsplit, has⟩ := find?_eq_some_iff_append.mp h
  refine ⟨hv, fun w hw => ?_⟩
  have hmem : w ∈ (range 256).reverse.map (ofNat 8) :=
    mem_map.mpr ⟨w.toNat, mem_reverse.mpr (mem_range.mpr w.isLt), by simp⟩
  rw [hsplit] at hmem hsorted
  rcases mem_append.mp hmem with hwas | hwbs
  · have hnot := has w hwas
    rw [hw] at hnot
    cases hnot
  · rcases mem_cons.mp hwbs with rfl | hwbs
    · exact BitVec.le_refl _
    · exact le_of_lt ((pairwise_cons.mp (pairwise_append.mp hsorted).2.1).1 w hwbs)

theorem highest_eq_none {p : U8 → Bool}
    (h : ((range 256).reverse.map (ofNat 8)).find? p = none) (w : U8) : p w = false := by
  have hmem : w ∈ (range 256).reverse.map (ofNat 8) :=
    mem_map.mpr ⟨w.toNat, mem_reverse.mpr (mem_range.mpr w.isLt), by simp⟩
  exact Bool.eq_false_iff.mpr (find?_eq_none.mp h w hmem)

end Priority

namespace LapicState

variable {s s' : LapicState} {v w : U8}

-- More vectors wait, and nothing else has changed for the CPU.
structure Pends (s s' : LapicState) : Prop where
  svr : s'.svr = s.svr
  tpr : s'.tpr = s.tpr
  isr : s'.isr = s.isr
  irr : ∀ v, s.irr.isSet v = true → s'.irr.isSet v = true

theorem Pends.refl (s : LapicState) : Pends s s :=
  ⟨rfl, rfl, rfl, fun _ h => h⟩

theorem Pends.enabled (h : Pends s s') : s'.enabled = s.enabled := by
  rw [LapicState.enabled, h.svr, ← LapicState.enabled]

theorem Pends.ppr (h : Pends s s') : s'.ppr = s.ppr := by
  rw [LapicState.ppr, h.tpr, h.isr, ← LapicState.ppr]

theorem injectFixedInterruptInner_pends : Pends s (s.injectFixedInterruptInner v) := by
  rw [injectFixedInterruptInner]
  split
  · exact ⟨rfl, rfl, rfl, fun _ h => isSet_set.mpr (.inl h)⟩
  · exact .refl s

theorem pollTimer_pends (s : LapicState) (now : Nat) : Pends s (s.pollTimer now) := by
  have fire : Pends s
      (if s.enabled && !s.timerMasked then s.injectFixedInterruptInner s.timerVector else s) := by
    split
    · exact injectFixedInterruptInner_pends
    · exact .refl s
  rw [pollTimer]
  split
  case h_1 => exact .refl s
  case h_2 =>
    split
    · exact ⟨rfl, rfl, rfl, fun _ h => h⟩
    split
    · exact .refl s
    dsimp only
    split
    · exact ⟨rfl, rfl, rfl, fun _ h => h⟩
    split
    · exact ⟨fire.svr, fire.tpr, fire.isr, fire.irr⟩
    · exact ⟨fire.svr, fire.tpr, fire.isr, fire.irr⟩

theorem class_le_ppr (h : s.isr.isSet w = true) : vectorPriorityClass w ≤ s.ppr := by
  rw [ppr]
  cases hbit : s.isr.highestSetBit
  case none =>
    rw [highest_eq_none hbit w] at h
    cases h
  case some v =>
    have hle := vectorPriorityClass_mono ((highest_eq_some hbit).2 w h)
    split
    case isTrue => exact hle
    case isFalse htpr => exact BitVec.le_trans hle (le_of_lt (not_le.mp htpr))

theorem acks_iff : s.acks v = true ↔
    s.enabled = true ∧ s.irr.isSet v = true ∧ s.ppr < vectorPriorityClass v := by
  simp only [acks, Bool.and_eq_true, Bool.not_eq_true', decide_eq_false_iff_not, not_le, and_assoc]

theorem ack_of_acks (h : s.acks v = true) :
    s.ack v = { s with irr := s.irr.clear v, isr := s.isr.set v } := by
  obtain ⟨henabled, hirr, hppr⟩ := acks_iff.mp h
  rw [ack, henabled, hirr, if_neg Bool.noConfusion, if_neg Bool.noConfusion,
    if_neg (not_le.mpr hppr)]

theorem ack_of_not_acks (h : s.acks v = false) : s.ack v = s := by
  rw [ack]
  split
  · rfl
  split
  · rfl
  split
  · rfl
  case isFalse henabled hirr hppr =>
    have hacks := acks_iff.mpr ⟨Bool.of_not_eq_false henabled, Bool.of_not_eq_false hirr,
      not_le.mp hppr⟩
    rw [h] at hacks
    cases hacks

theorem eoi_pends_of_none (h : s.eoi.2 = none) : s.eoi.1 = s := by
  rw [eoi] at h ⊢
  split at h
  · cases h
  · rfl

theorem eoi_of_some (h : s.eoi.2 = some v) :
    s.eoi.1 = { s with isr := s.isr.clear v } ∧ s.isr.isSet v = true ∧
      ∀ w, s.isr.isSet w = true → w ≤ v := by
  rw [eoi] at h ⊢
  cases hbit : s.isr.highestSetBit <;> rw [hbit] at h
  case none => cases h
  case some v' =>
    cases h
    exact ⟨rfl, highest_eq_some hbit⟩

theorem mmioWrite_tpr (s : LapicState) (now : Nat) (b₀ b₁ b₂ b₃ : U8) :
    ∃ tpr, (s.mmioWrite now Reg.tpr [b₀, b₁, b₂, b₃]).state = { s.pollTimer now with tpr } ∧
      (s.mmioWrite now Reg.tpr [b₀, b₁, b₂, b₃]).eoiVectors = [] :=
  ⟨_, rfl, rfl⟩

theorem getPendingVector_fst : (s.getPendingVector now).1 = s.pollTimer now := by
  rw [getPendingVector]
  split <;> rfl

theorem acks_of_pending (h : (s.getPendingVector now).2 = some v) :
    (s.pollTimer now).acks v = true := by
  rw [getPendingVector] at h
  split at h
  case isTrue => cases h
  case isFalse henabled =>
    obtain ⟨hv, -⟩ := highest_eq_some (show (s.pollTimer now).highestDeliverableVector _ = _ from h)
    rw [Bool.and_eq_true, decide_eq_true_eq] at hv
    exact acks_iff.mpr ⟨Bool.of_not_eq_false henabled, hv⟩

theorem Pends.acks (h : Pends s s') (hv : s.acks v = true) : s'.acks v = true := by
  obtain ⟨henabled, hirr, hppr⟩ := acks_iff.mp hv
  exact acks_iff.mpr ⟨h.enabled.trans henabled, h.irr v hirr, h.ppr ▸ hppr⟩

end LapicState

namespace Served

open LapicState

variable {s : Served} {v w : U8}

-- The vectors in service are those of the history, and each one is of a higher class than those
-- that it interrupted.
structure Nested (s : Served) : Prop where
  enabled : s.lapic.enabled = true
  isr : ∀ v, s.lapic.isr.isSet v = true ↔ v ∈ s.nested
  sorted : s.nested.Pairwise fun v w => vectorPriorityClass w < vectorPriorityClass v

namespace Nested

section

variable (h : Nested s)
include h

theorem pends {lapic : LapicState} (hp : Pends s.lapic lapic) : Nested { s with lapic } :=
  ⟨hp.enabled.trans h.enabled, fun v => hp.isr ▸ h.isr v, h.sorted⟩

theorem withTpr (tpr : U8) : Nested { s with lapic := { s.lapic with tpr } } :=
  ⟨h.enabled, h.isr, h.sorted⟩

theorem ack (v : U8) :
    Nested ⟨s.lapic.ack v, if s.lapic.acks v then v :: s.nested else s.nested⟩ := by
  cases hacks : s.lapic.acks v
  case false =>
    rw [ack_of_not_acks hacks]
    exact h
  case true =>
    rw [ack_of_acks hacks]
    refine ⟨h.enabled, fun w => ?_, pairwise_cons.mpr ⟨fun w hw => ?_, h.sorted⟩⟩
    · rw [if_pos rfl, mem_cons, ← h.isr, or_comm]
      exact isSet_set
    · exact Nat.lt_of_le_of_lt (class_le_ppr ((h.isr w).mpr hw)) (acks_iff.mp hacks).2.2

theorem eoi_snd : s.lapic.eoi.2 = s.nested.head? := by
  cases heoi : s.lapic.eoi.2
  case none =>
    cases hnested : s.nested
    case nil => rfl
    case cons v vs =>
      have hv := (h.isr v).mpr (hnested ▸ mem_cons_self)
      rw [eoi] at heoi
      cases hbit : s.lapic.isr.highestSetBit <;> rw [hbit] at heoi
      case none =>
        rw [highest_eq_none hbit v] at hv
        cases hv
      case some => cases heoi
  case some v =>
    obtain ⟨-, hv, hhighest⟩ := eoi_of_some heoi
    have hsorted := h.sorted
    have hmem := (h.isr v).mp hv
    cases hnested : s.nested <;> rw [hnested] at hmem hsorted
    case nil => exact (not_mem_nil hmem).elim
    case cons u vs =>
      have hu := hhighest u ((h.isr u).mpr (hnested ▸ mem_cons_self))
      rcases mem_cons.mp hmem with rfl | hmem
      · rfl
      · have hlt := lt_of_vectorPriorityClass_lt ((pairwise_cons.mp hsorted).1 v hmem)
        exact absurd hu (not_le.mpr hlt)

theorem eoi : Nested (s.ended s.lapic.eoi.1 s.lapic.eoi.2.toList) := by
  have hnodup : s.nested.Nodup := h.sorted.imp fun hlt heq => by
    rw [heq] at hlt
    exact absurd hlt (lt_irrefl _)
  cases heoi : s.lapic.eoi.2
  case none =>
    rw [eoi_pends_of_none heoi]
    exact h
  case some v =>
    rw [(eoi_of_some heoi).1]
    refine ⟨h.enabled, fun w => ?_, h.sorted.erase v⟩
    refine isSet_clear.trans ?_
    rw [h.isr, and_comm]
    exact hnodup.mem_erase_iff.symm

-- An end of interrupt takes the last vector of the history, and no other.
theorem isSet_eoi (w : U8) :
    s.lapic.eoi.1.isr.isSet w = true ↔ s.lapic.isr.isSet w = true ∧ s.nested.head? ≠ some w := by
  rw [← h.eoi_snd]
  cases heoi : s.lapic.eoi.2
  case none => simp [eoi_pends_of_none heoi]
  case some v =>
    rw [(eoi_of_some heoi).1]
    refine isSet_clear.trans (and_congr_right fun _ => ?_)
    rw [ne_comm, ne_eq, ne_eq, Option.some.injEq]

theorem class_lt (hv : s.lapic.isr.isSet v = true) (hw : s.lapic.isr.isSet w = true) (hne : v ≠ w) :
    vectorPriorityClass v < vectorPriorityClass w ∨
      vectorPriorityClass w < vectorPriorityClass v := by
  have hsym : s.nested.Pairwise fun v w => vectorPriorityClass v < vectorPriorityClass w ∨
      vectorPriorityClass w < vectorPriorityClass v := h.sorted.imp .inr
  have : Std.Symm fun v w => vectorPriorityClass v < vectorPriorityClass w ∨
      vectorPriorityClass w < vectorPriorityClass v := ⟨fun _ _ => Or.symm⟩
  exact hsym.forall ((h.isr v).mp hv) ((h.isr w).mp hw) hne

theorem step (op : LapicOp) : Nested (s.step op) := by
  have hpoll now : Nested { s with lapic := s.lapic.pollTimer now } :=
    h.pends (pollTimer_pends ..)
  cases op
  case injectFixedInterrupt now vector => exact (hpoll now).pends injectFixedInterruptInner_pends
  case getPendingVector now =>
    rw [Served.step, getPendingVector_fst]
    exact hpoll now
  case ack now vector => exact (hpoll now).ack vector
  case eoi now => exact (hpoll now).eoi
  case writeEoi now b₀ b₁ b₂ b₃ => exact (hpoll now).eoi
  case writeTpr now b₀ b₁ b₂ b₃ =>
    obtain ⟨tpr, hstate, hended⟩ := mmioWrite_tpr s.lapic now b₀ b₁ b₂ b₃
    rw [Served.step, hstate]
    exact (hpoll now).withTpr tpr
  case setTprFromCr8 cr8 => exact h.withTpr _

theorem run (ops : List LapicOp) : Nested (ops.foldl Served.step s) := by
  induction ops generalizing s
  case nil => exact h
  case cons op ops ih => exact ih (h.step op)

end

end Nested

-- Over every run of a LAPIC that is enabled: a pending vector is taken by an acknowledge, no two
-- vectors of one class are in service, an end of interrupt ends the last one that was acknowledged,
-- and nothing is delivered that is not above the priority of the processor.
theorem interrupts_nest (lapic : LapicState) (henabled : lapic.enabled = true)
    (hisr : lapic.isr = 0) (ops : List LapicOp) :
    (∀ now now' v, ((run lapic ops).lapic.getPendingVector now).2 = some v →
      (((run lapic ops).lapic.getPendingVector now).1.ackAt now' v).2 = true ∧
      ((run lapic ops).lapic.getPendingVector now).1.irr.isSet v = true ∧
      (((run lapic ops).lapic.getPendingVector now).1.ackAt now' v).1.irr.isSet v = false ∧
      ((run lapic ops).lapic.getPendingVector now).1.isr.isSet v = false ∧
      (((run lapic ops).lapic.getPendingVector now).1.ackAt now' v).1.isr.isSet v = true) ∧
    (∀ v w, (run lapic ops).lapic.isr.isSet v = true → (run lapic ops).lapic.isr.isSet w = true →
      vectorPriorityClass v = vectorPriorityClass w → v = w) ∧
    (∀ now, ((run lapic ops).lapic.eoiAt now).2 = (run lapic ops).nested.head? ∧
      ∀ w, ((run lapic ops).lapic.eoiAt now).1.isr.isSet w = true ↔
        (run lapic ops).lapic.isr.isSet w = true ∧ (run lapic ops).nested.head? ≠ some w) ∧
    ∀ now v, ((run lapic ops).lapic.getPendingVector now).2 = some v ∨
        ((run lapic ops).lapic.ackAt now v).2 = true →
      ((run lapic ops).lapic.pollTimer now).ppr < vectorPriorityClass v := by
  have hstart : Nested ⟨lapic, []⟩ := by
    refine ⟨henabled, fun v => ?_, .nil⟩
    rw [hisr]
    simp [isSet]
  have h : Nested (run lapic ops) := hstart.run ops
  generalize run lapic ops = t at h
  refine ⟨fun now now' v hpending => ?_, fun v w hv hw hclass => ?_, fun now => ?_,
    fun now v hv => ?_⟩
  · have hacks := (pollTimer_pends _ now').acks (acks_of_pending hpending)
    obtain ⟨-, hirr, -⟩ := acks_iff.mp (acks_of_pending hpending)
    obtain ⟨-, -, hppr⟩ := acks_iff.mp hacks
    rw [getPendingVector_fst, ackAt, ack_of_acks hacks]
    refine ⟨hacks, hirr, ?_, ?_, isSet_set.mpr (.inr rfl)⟩
    · exact Bool.eq_false_iff.mpr fun hset => (isSet_clear.mp hset).2 rfl
    · refine Bool.eq_false_iff.mpr fun hset => ?_
      rw [← (pollTimer_pends _ now').isr] at hset
      exact absurd (class_le_ppr hset) (not_le.mpr hppr)
  · by_contra hne
    rcases h.class_lt hv hw hne with hlt | hlt
    · exact absurd (hclass ▸ hlt) (lt_irrefl _)
    · exact absurd (hclass ▸ hlt) (lt_irrefl _)
  · have hpoll : Nested { t with lapic := t.lapic.pollTimer now } := h.pends (pollTimer_pends ..)
    refine ⟨hpoll.eoi_snd, fun w => ?_⟩
    have hset := hpoll.isSet_eoi w
    rwa [(pollTimer_pends t.lapic now).isr] at hset
  · rcases hv with hv | hv
    · exact (acks_iff.mp (acks_of_pending hv)).2.2
    · exact (acks_iff.mp hv).2.2

theorem interrupts_nest_two :
    ∃ s : Served, s.nested = [0x51, 0x31] ∧ s.lapic.isr.isSet 0x31 = true ∧
      (s.lapic.eoiAt 0).2 = some 0x51 := by
  have h := interrupts_nest { new 0 with svr := 0x1ff } (by decide) rfl
    [.injectFixedInterrupt 0 0x31, .ack 0 0x31, .injectFixedInterrupt 0 0x51, .ack 0 0x51]
  exact ⟨_, by decide +kernel, by decide +kernel, (h.2.2.1 0).1.trans (by decide +kernel)⟩

end Served

end Aero.Interrupts
