import Aero.Interrupts.LocalApic

namespace Aero.Interrupts

open LapicState Bitmap

namespace Bitmap

variable {bitmap : Bitmap} {v w : U8}

theorem isSet_set : (bitmap.set v).isSet w = true ↔ bitmap.isSet w = true ∨ w = v := by
  have hlt := w.isLt
  have hsub : w.toNat - v.toNat = 0 ∧ ¬ w.toNat < v.toNat ↔ w = v := by
    rw [← BitVec.toNat_inj]
    omega
  simp [isSet, set, hlt, ← hsub, and_comm]

theorem isSet_clear : (bitmap.clear v).isSet w = true ↔ bitmap.isSet w = true ∧ w ≠ v := by
  have hlt := w.isLt
  have hsub : w.toNat - v.toNat = 0 ∧ ¬ w.toNat < v.toNat ↔ w = v := by
    rw [← BitVec.toNat_inj]
    omega
  rw [ne_eq, ← hsub]
  simp [isSet, clear, hlt, imp_iff_not_or, or_comm]

end Bitmap

namespace LapicState

variable {s s' s'' : LapicState} {now : Nat} {v w vector : U8} {ended ended' : List U8}

-- The vector waits for the CPU or is in service.
def Holds (s : LapicState) (vector : U8) : Prop :=
  s.irr.isSet vector = true ∨ s.isr.isSet vector = true

instance decidableHolds : Decidable (s.Holds vector) :=
  inferInstanceAs (Decidable (_ ∨ _))

structure Retains (ended : List U8) (s s' : LapicState) : Prop where
  id : s'.id = s.id
  ldr : s'.ldr = s.ldr
  holds : ∀ v, v ∉ ended → s.Holds v → s'.Holds v

structure Keeps (ended : List U8) (s s' : LapicState) : Prop extends Retains ended s s' where
  svr : s'.svr = s.svr

theorem Retains.refl (s : LapicState) : Retains ended s s :=
  ⟨rfl, rfl, fun _ _ h => h⟩

theorem Retains.trans (h : Retains ended s s') (h' : Retains ended' s' s'') :
    Retains (ended ++ ended') s s'' where
  id := h'.id.trans h.id
  ldr := h'.ldr.trans h.ldr
  holds v hv hs := by
    rw [List.mem_append, not_or] at hv
    exact h'.holds v hv.2 (h.holds v hv.1 hs)

theorem Keeps.refl (s : LapicState) : Keeps ended s s :=
  ⟨.refl s, rfl⟩

theorem Keeps.trans (h : Keeps ended s s') (h' : Keeps ended' s' s'') :
    Keeps (ended ++ ended') s s'' :=
  ⟨h.toRetains.trans h'.toRetains, h'.svr.trans h.svr⟩

theorem Keeps.enabled (h : Keeps ended s s') : s'.enabled = s.enabled := by
  rw [LapicState.enabled, h.svr, ← LapicState.enabled]

theorem Retains.matchesLogicalDest (h : Retains ended s s') (dest : U8) :
    s'.matchesLogicalDest dest = s.matchesLogicalDest dest := by
  rw [LapicState.matchesLogicalDest, logicalId, h.id, h.ldr, ← logicalId,
    ← LapicState.matchesLogicalDest]

theorem injectFixedInterruptInner_keeps : Keeps [] s (s.injectFixedInterruptInner vector) := by
  rw [injectFixedInterruptInner]
  split
  · refine ⟨⟨rfl, rfl, fun v _ hv => ?_⟩, rfl⟩
    exact hv.imp_left fun h => isSet_set.mpr (.inl h)
  · exact .refl s

theorem injectFixedInterruptInner_holds (h : s.enabled = true) :
    (s.injectFixedInterruptInner vector).Holds vector := by
  rw [injectFixedInterruptInner, if_pos h]
  exact .inl (isSet_set.mpr (.inr rfl))

theorem Keeps.of_timer (hid : s'.id = s.id) (hldr : s'.ldr = s.ldr) (hsvr : s'.svr = s.svr)
    (hirr : s'.irr = s.irr) (hisr : s'.isr = s.isr) : Keeps [] s s' :=
  ⟨⟨hid, hldr, fun v _ hv => by rwa [Holds, hirr, hisr, ← Holds]⟩, hsvr⟩

theorem pollTimer_keeps : Keeps [] s (s.pollTimer now) := by
  have timer s d : Keeps [] s { s with nextTimerDeadlineNs := d } :=
    .of_timer rfl rfl rfl rfl rfl
  have fire : Keeps [] s
      (if s.enabled && !s.timerMasked then s.injectFixedInterruptInner s.timerVector else s) := by
    split
    · exact injectFixedInterruptInner_keeps
    · exact .refl s
  rw [pollTimer]
  split
  case h_1 => exact .refl s
  case h_2 deadline =>
    split
    · exact timer s none
    split
    · exact .refl s
    dsimp only
    split
    · exact timer s none
    split
    · exact fire.trans (timer _ _)
    · exact fire.trans (timer _ _)

theorem injectFixedInterrupt_keeps : Keeps [] s (s.injectFixedInterrupt now vector) :=
  pollTimer_keeps.trans injectFixedInterruptInner_keeps

theorem injectFixedInterrupt_holds (h : s.enabled = true) :
    (s.injectFixedInterrupt now vector).Holds vector :=
  injectFixedInterruptInner_holds (pollTimer_keeps.enabled.trans h)

theorem ack_keeps : Keeps [] s (s.ack vector) := by
  rw [ack]
  split
  · exact .refl s
  split
  · exact .refl s
  split
  · exact .refl s
  refine ⟨⟨rfl, rfl, fun v _ hv => ?_⟩, rfl⟩
  -- the acknowledged vector moves from IRR to ISR
  by_cases hvv : v = vector
  · exact .inr (isSet_set.mpr (.inr hvv))
  · exact hv.imp (fun h => isSet_clear.mpr ⟨h, hvv⟩)
      (fun h => isSet_set.mpr (.inl h))

theorem eoi_keeps : Keeps s.eoi.2.toList s s.eoi.1 := by
  rw [eoi]
  cases hbit : s.isr.highestSetBit
  case none => exact .refl s
  case some vector =>
    refine ⟨⟨rfl, rfl, fun v hv hs => ?_⟩, rfl⟩
    have hne : v ≠ vector := by simpa using hv
    exact hs.imp_right fun h => isSet_clear.mpr ⟨h, hne⟩

theorem writeU32_snd {value : U32} (h : offset ≠ Reg.eoi) :
    (s.writeU32 now offset value).2 = none := by
  simp only [writeU32]
  repeat' split
  all_goals rfl

theorem writeDivideConfig_keeps {value : U32} : Keeps [] s (s.writeDivideConfig now value) := by
  rw [writeDivideConfig]
  split <;> exact pollTimer_keeps.trans (.of_timer rfl rfl rfl rfl rfl)

theorem writeInitialCount_keeps {value : U32} : Keeps [] s (s.writeInitialCount now value) := by
  rw [writeInitialCount]
  split <;> exact pollTimer_keeps.trans (.of_timer rfl rfl rfl rfl rfl)

theorem writeU32_retains {offset : Nat} {value : U32} (hid : offset ≠ Reg.id)
    (hldr : offset ≠ Reg.ldr) :
    Retains (s.writeU32 now offset value).2.toList s (s.writeU32 now offset value).1 := by
  have same {t : LapicState} (hi : t.id = s.id) (hl : t.ldr = s.ldr) (hirr : t.irr = s.irr)
      (hisr : t.isr = s.isr) : Retains [] s t :=
    ⟨hi, hl, fun v _ hv => by rwa [Holds, hirr, hisr, ← Holds]⟩
  rw [writeU32, if_neg hid]
  split
  · exact same rfl rfl rfl rfl
  split
  · exact eoi_keeps.toRetains
  iterate 5
    split
    · exact same rfl rfl rfl rfl
  split
  · exact writeDivideConfig_keeps.toRetains
  split
  · exact writeInitialCount_keeps.toRetains
  · exact .refl s

theorem writeU32_svr {offset : Nat} {value : U32} (h : offset ≠ Reg.svr) :
    (s.writeU32 now offset value).1.svr = s.svr := by
  simp only [writeU32]
  iterate 2
    split
    · rfl
  split
  · exact eoi_keeps.svr
  iterate 5
    split
    · rfl
  split
  · exact writeDivideConfig_keeps.svr
  split
  · exact writeInitialCount_keeps.svr
  · rfl

end LapicState

namespace MmioWrite

variable {now rounds off offset len : Nat} {data : List U8} {w : MmioWrite} {s : LapicState}

def Covers (offset len reg : Nat) : Prop :=
  ∃ k < len, wordOffset ((offset + k) % 2 ^ 64) = reg

instance decidableCovers {reg : Nat} : Decidable (Covers offset len reg) :=
  inferInstanceAs (Decidable (∃ k < len, _))

theorem mergeBytes_length (word : U32) (byteIdx : Nat) (data : List U8) :
    (mergeBytes word byteIdx data).2.length ≤ data.length := by
  induction data generalizing word byteIdx with
  | nil => simp [mergeBytes]
  | cons b bs ih =>
    rw [mergeBytes]
    split
    · exact (ih _ _).trans (Nat.le_succ _)
    · exact Nat.le_refl _

theorem Covers.shift {c len' reg : Nat} (h : Covers ((off + c) % 2 ^ 64) len' reg)
    (hlen : c + len' ≤ len) : Covers off len reg := by
  obtain ⟨k, hk, hreg⟩ := h
  refine ⟨c + k, by omega, ?_⟩
  rwa [← Nat.add_assoc, ← Nat.mod_add_mod]

-- What every write to a covered register keeps is kept by the whole access.
theorem writeWords_rule (inv : MmioWrite → Prop)
    (hstep : ∀ w reg word, Covers off data.length reg → inv w → inv (w.writeWord now reg word))
    (h : inv w) : inv (writeWords now rounds off data w) := by
  induction rounds generalizing off data w with
  | zero => exact h
  | succ rounds ih =>
    cases data with
    | nil => exact h
    | cons b bs =>
      rw [writeWords]
      split
      case isTrue =>
        refine ih (fun w reg word hcov => hstep w reg word (hcov.shift ?_)) h
        rw [List.length_cons, Nat.add_comm]
      case isFalse hpage =>
        have hlen := mergeBytes_length (w.state.readU32 now (wordOffset off)) (off % 4) (b :: bs)
        have hoff : off % 2 ^ 64 = off := Nat.mod_eq_of_lt (by rw [lapicMmioSize] at hpage; omega)
        dsimp only
        generalize mergeBytes _ _ (b :: bs) = merged at hlen ⊢
        refine ih (fun w reg word hcov => hstep w reg word (hcov.shift ?_)) ?_
        · omega
        · exact hstep w _ _ ⟨0, Nat.succ_pos _, by rw [Nat.add_zero, hoff]⟩ h

theorem mmioWrite_eoiVectors (h : ¬ Covers offset data.length Reg.eoi) :
    (s.mmioWrite now offset data).eoiVectors = [] := by
  rw [mmioWrite]
  split
  · rfl
  refine writeWords_rule (fun w => w.eoiVectors = []) (fun w reg word hcov hw => ?_) rfl
  have hreg : reg ≠ Reg.eoi := fun hreg => h (hreg ▸ hcov)
  simp [writeWord, hw, writeU32_snd hreg]

theorem mmioWrite_retains (hid : ¬ Covers offset data.length Reg.id)
    (hldr : ¬ Covers offset data.length Reg.ldr) :
    s.Retains (s.mmioWrite now offset data).eoiVectors (s.mmioWrite now offset data).state := by
  rw [mmioWrite]
  split
  · exact .refl s
  refine writeWords_rule (fun w => s.Retains w.eoiVectors w.state)
    (fun w reg word hcov hw => ?_) pollTimer_keeps.toRetains
  exact hw.trans (writeU32_retains (fun hreg => hid (hreg ▸ hcov))
    (fun hreg => hldr (hreg ▸ hcov)))

theorem mmioWrite_svr (h : ¬ Covers offset data.length Reg.svr) :
    (s.mmioWrite now offset data).state.svr = s.svr := by
  rw [mmioWrite]
  split
  · rfl
  refine writeWords_rule (fun w => w.state.svr = s.svr) (fun w reg word hcov hw => ?_)
    pollTimer_keeps.svr
  exact (writeU32_svr fun hreg => h (hreg ▸ hcov)).trans hw

end MmioWrite

end Aero.Interrupts
