import Aero.Interrupts.Reset

namespace Aero.Interrupts

namespace Fabric

variable {n : Nat} {f : Fabric n} {now : Nat} {gsi : Fin n}

@[simp]
theorem injectAll_length (e : RedirectionEntry) : (f.injectAll now e).1.length = f.lapics.length := by
  unfold injectAll
  grind

@[simp]
theorem deliver_length : (f.deliver now gsi).lapics.length = f.lapics.length := by
  unfold deliver
  dsimp only
  split
  · rfl
  · split <;> exact injectAll_length _

@[simp]
theorem maybeDeliverLevel_length : (f.maybeDeliverLevel now gsi).lapics.length = f.lapics.length := by
  unfold maybeDeliverLevel
  grind [deliver_length]

@[simp]
theorem setIrqLevel_length (gsi : Nat) (level : Bool) :
    (f.setIrqLevel now gsi level).lapics.length = f.lapics.length := by
  unfold setIrqLevel
  grind [deliver_length, maybeDeliverLevel_length]

theorem foldl_length {α : Type} {g : Fabric n → α → Fabric n}
    (hg : ∀ f a, (g f a).lapics.length = f.lapics.length) (l : List α) (f : Fabric n) :
    (l.foldl g f).lapics.length = f.lapics.length :=
  List.foldlRecOn l g (motive := fun f' => f'.lapics.length = f.lapics.length) rfl
    fun f' h a _ => (hg f' a).trans h

@[simp]
theorem notifyEois_length (vectors : List U8) :
    (f.notifyEois now vectors).lapics.length = f.lapics.length :=
  foldl_length (fun f vector => foldl_length (fun _ _ => deliver_length)
    (pendingRedelivery f.ioapic vector) { f with ioapic := endAll f.ioapic vector }) vectors f

@[simp]
theorem lapicEoi_length (cpu : Nat) : (f.lapicEoi now cpu).lapics.length = f.lapics.length := by
  unfold lapicEoi
  grind [notifyEois_length]

@[simp]
theorem lapicMmioWrite_length (cpu offset : Nat) (data : List U8) :
    (f.lapicMmioWrite now cpu offset data).1.lapics.length = f.lapics.length := by
  unfold lapicMmioWrite
  grind [notifyEois_length]

@[simp]
theorem mmioWrite_length (offset size : Nat) (value : U64) :
    (f.mmioWrite now offset size value).lapics.length = f.lapics.length := by
  unfold mmioWrite writeRegister writeEntryLow writeEntryHigh
  grind [maybeDeliverLevel_length]

end Fabric

namespace PlatformInterrupts

-- No operation adds or removes a CPU.
structure HasCpus (count : Nat) (s : PlatformInterrupts) : Prop where
  lapics : s.fabric.lapics.length = count
  pendingInit : s.pendingInit.length = count
  pendingSipi : s.pendingSipi.length = count

namespace HasCpus

variable {count : Nat} {s : PlatformInterrupts}

theorem foldl {α : Type} {g : PlatformInterrupts → α → PlatformInterrupts}
    (hg : ∀ s a, HasCpus count s → HasCpus count (g s a)) (l : List α) (h : HasCpus count s) :
    HasCpus count (l.foldl g s) :=
  List.foldlRecOn l g h fun s h a _ => hg s a h

theorem with_fabric (h : HasCpus count s) {f : Fabric numGsis}
    (hf : f.lapics.length = s.fabric.lapics.length) : HasCpus count { s with fabric := f } :=
  ⟨hf.trans h.lapics, h.pendingInit, h.pendingSipi⟩

theorem modifyLapic (h : HasCpus count s) (cpu : Nat) (g : LapicState → LapicState) :
    HasCpus count (s.modifyLapic cpu g) :=
  h.with_fabric (List.length_modify ..)

theorem resetLapicAt (h : HasCpus count s) (cpu : Nat) : HasCpus count (s.resetLapicAt cpu) := by
  unfold PlatformInterrupts.resetLapicAt
  dsimp only
  split
  · exact (h.modifyLapic ..).modifyLapic ..
  · exact h.modifyLapic ..

theorem handleIcrIpi (h : HasCpus count s) (srcApicId : U8) (icr : Icr) :
    HasCpus count (s.handleIcrIpi srcApicId icr) := by
  unfold PlatformInterrupts.handleIcrIpi
  dsimp only
  split
  · exact foldl (fun _ _ h => h.modifyLapic ..) _ h
  · split
    · refine foldl (fun s cpu h => resetLapicAt ?_ cpu) _ h
      exact ⟨h.lapics, (List.length_set ..).trans h.pendingInit, h.pendingSipi⟩
    · exact h
  · refine foldl (fun s cpu h => ?_) _ h
    exact ⟨h.lapics, h.pendingInit, (List.length_set ..).trans h.pendingSipi⟩
  · exact h

theorem setMode (h : HasCpus count s) (mode : PlatformInterruptMode) :
    HasCpus count (s.setMode mode) := by
  unfold PlatformInterrupts.setMode
  dsimp only
  split
  · refine ⟨?_, h.pendingInit, h.pendingSipi⟩
    refine (Fabric.foldl_length (fun _ _ => Fabric.setIrqLevel_length ..) _ _).trans ?_
    exact (List.length_map ..).trans h.lapics
  · exact ⟨h.lapics, h.pendingInit, h.pendingSipi⟩

theorem driveGsiEffectiveLevel (h : HasCpus count s) (gsi : Nat) (level : Bool) :
    HasCpus count (s.driveGsiEffectiveLevel gsi level) := by
  unfold PlatformInterrupts.driveGsiEffectiveLevel
  split
  · split
    · exact ⟨h.lapics, h.pendingInit, h.pendingSipi⟩
    · exact h
  · exact h.with_fabric (Fabric.setIrqLevel_length ..)

theorem updateGsiAssertCount (h : HasCpus count s) (gsi : Nat) (asserted : Bool) :
    HasCpus count (s.updateGsiAssertCount gsi asserted) := by
  unfold PlatformInterrupts.updateGsiAssertCount
  split
  · dsimp only
    split
    · exact h
    · split
      · exact ⟨h.lapics, h.pendingInit, h.pendingSipi⟩
      · refine HasCpus.driveGsiEffectiveLevel ?_ ..
        exact ⟨h.lapics, h.pendingInit, h.pendingSipi⟩
  · exact h

theorem ioapicMmioWrite (h : HasCpus count s) (offset : Nat) (value : U32) :
    HasCpus count (s.ioapicMmioWrite offset value) := by
  have hlength : (s.fabric.mmioWrite s.lapicClock offset 4 (value.setWidth 64)).lapics.length =
    s.fabric.lapics.length := Fabric.mmioWrite_length ..
  unfold PlatformInterrupts.ioapicMmioWrite
  dsimp only
  split
  · exact h.with_fabric hlength
  · split
    · refine HasCpus.setMode ?_ .apic
      exact h.with_fabric hlength
    · exact h.with_fabric hlength

theorem lapicMmioWriteForCpu (h : HasCpus count s) (cpu offset : Nat) (data : List U8) :
    HasCpus count (s.lapicMmioWriteForCpu cpu offset data) :=
  foldl (fun _ icr h => h.handleIcrIpi _ icr) _ (h.with_fabric (Fabric.lapicMmioWrite_length ..))

theorem imcrPortWrite (h : HasCpus count s) (port : Nat) (value : U8) :
    HasCpus count (s.imcrPortWrite port value) := by
  have hfields : ∀ {select imcr : U8}, HasCpus count { s with imcrSelect := select, imcr } :=
    ⟨h.lapics, h.pendingInit, h.pendingSipi⟩
  unfold PlatformInterrupts.imcrPortWrite
  split
  · exact hfields
  · split
    · split
      · exact hfields.setMode _
      · exact h
    · exact h

theorem step (h : HasCpus count s) (op : RouterOp) : HasCpus count (s.step op) := by
  cases op with
  | raiseIrq input => exact h.updateGsiAssertCount _ true
  | lowerIrq input => exact h.updateGsiAssertCount _ false
  | setMode mode => exact h.setMode mode
  | imcrPortWrite port value => exact h.imcrPortWrite port value
  | ioapicMmioWrite offset value => exact h.ioapicMmioWrite offset value
  | lapicMmioWriteForCpu cpu offset data => exact h.lapicMmioWriteForCpu cpu offset data
  | lapicMmioWriteForApic apicId offset data =>
    rw [PlatformInterrupts.step, PlatformInterrupts.lapicMmioWriteForApic]
    split
    · exact h.lapicMmioWriteForCpu _ offset data
    · exact h
  | picPortWrite port value _ => exact ⟨h.lapics, h.pendingInit, h.pendingSipi⟩
  | acknowledgeForCpu cpu vector =>
    rw [PlatformInterrupts.step, PlatformInterrupts.acknowledgeForCpu]
    split
    · split
      · exact h
      · exact ⟨h.lapics, h.pendingInit, h.pendingSipi⟩
    · exact h.with_fabric (List.length_modify ..)
  | eoiForCpu cpu vector =>
    rw [PlatformInterrupts.step, PlatformInterrupts.eoiForCpu]
    split
    · split
      · exact h
      · exact ⟨h.lapics, h.pendingInit, h.pendingSipi⟩
    · exact h.with_fabric (Fabric.lapicEoi_length cpu)
  | tick deltaNs =>
    exact ⟨(List.length_map ..).trans h.lapics, h.pendingInit, h.pendingSipi⟩

end HasCpus

theorem Reachable.hasCpus {cpuCount : U8} (h : Reachable cpuCount s) :
    HasCpus (max cpuCount.toNat 1) s := by
  induction h with
  | new =>
    refine ⟨?_, List.length_replicate .., List.length_replicate ..⟩
    exact (List.length_map ..).trans (List.length_range ..)
  | step _ op ih => exact ih.step op
  | picPortWrite _ _ _ ih => exact ⟨ih.lapics, ih.pendingInit, ih.pendingSipi⟩
  | setIsaIrqOverride _ _ _ ih =>
    unfold PlatformInterrupts.setIsaIrqOverride
    split
    · exact ⟨ih.lapics, ih.pendingInit, ih.pendingSipi⟩
    · exact ih
  | takePendingInit _ _ ih =>
    exact ⟨ih.lapics, (List.length_set ..).trans ih.pendingInit, ih.pendingSipi⟩
  | takePendingSipi _ _ ih =>
    exact ⟨ih.lapics, ih.pendingInit, (List.length_set ..).trans ih.pendingSipi⟩
  | reset _ ih =>
    exact ⟨(List.length_map ..).trans ih.lapics, (List.length_map ..).trans ih.pendingInit,
      (List.length_map ..).trans ih.pendingSipi⟩


-- A LAPIC after a reset.
def restarted (apicId : U8) : LapicState :=
  ((LapicState.new apicId).mmioWrite 0 Reg.svr (u32LeBytes 0x1ff)).state

def idOfWord (word : U32) : U8 :=
  (word >>> 24).setWidth 8

theorem idOfWord_restarted : idOfWord ((restarted apicId).readU32 0 Reg.id) = apicId := by
  revert apicId
  decide

variable (s : PlatformInterrupts) (cpuCount : U8)

def powerOnIds : List U8 :=
  (List.range (max cpuCount.toNat 1)).map (BitVec.ofNat 8)

theorem lapics_reset :
    s.reset.fabric.lapics = (s.fabric.lapics.map LapicState.id).map restarted := by
  rw [List.map_map]
  rfl

theorem lapics_new :
    (newWithCpuCount cpuCount).fabric.lapics = (powerOnIds cpuCount).map restarted := by
  rw [powerOnIds, List.map_map]
  rfl

theorem lapicRead_id {ids : List U8} (hlapics : s.fabric.lapics = ids.map restarted) (cpu : Nat) :
    (s.view.lapicRead cpu Reg.id).map idOfWord = ids[cpu]? := by
  change Option.map _ (Option.map _ _) = _
  rw [hlapics, List.getElem?_map, Option.map_map, Option.map_map]
  exact (Option.map_congr fun _ _ => idOfWord_restarted).trans (Option.map_id' ..)

theorem ids_of_reset_view (h : s.reset.view = (newWithCpuCount cpuCount).view) :
    s.fabric.lapics.map LapicState.id = powerOnIds cpuCount := by
  refine List.ext_getElem? fun cpu => ?_
  rw [← lapicRead_id s.reset (lapics_reset s), h]
  exact lapicRead_id _ (lapics_new cpuCount) cpu

theorem reset_eq_new {s : PlatformInterrupts} (hcpus : HasCpus (max cpuCount.toNat 1) s)
    (h : s.fabric.lapics.map LapicState.id = powerOnIds cpuCount) :
    s.reset = newWithCpuCount cpuCount := by
  have hlapics : s.reset.fabric.lapics = (newWithCpuCount cpuCount).fabric.lapics := by
    rw [lapics_reset, h, lapics_new]
  have hinit : s.reset.pendingInit = (newWithCpuCount cpuCount).pendingInit := by
    change s.pendingInit.map (Function.const _ false) = List.replicate _ false
    rw [List.map_const, hcpus.pendingInit]
  have hsipi : s.reset.pendingSipi = (newWithCpuCount cpuCount).pendingSipi := by
    change s.pendingSipi.map (Function.const _ none) = List.replicate _ none
    rw [List.map_const, hcpus.pendingSipi]
  -- every other field has its power-on value by the definition of `reset`
  have hrest : s.reset =
      { newWithCpuCount cpuCount with
        fabric := ⟨.withEntries numGsis 0, s.reset.fabric.lapics, false⟩
        pendingInit := s.reset.pendingInit
        pendingSipi := s.reset.pendingSipi } := rfl
  rw [hrest, hlapics, hinit, hsipi]
  rfl

-- If one of the three holds, a reset platform and a new one agree in every later run.
theorem reset_tfae (h : Reachable cpuCount s) :
    [s.reset = newWithCpuCount cpuCount, s.reset.view = (newWithCpuCount cpuCount).view,
      s.fabric.lapics.map LapicState.id = powerOnIds cpuCount].TFAE := by
  tfae_have 1 → 2 := congrArg view
  tfae_have 2 → 3 := ids_of_reset_view s cpuCount
  tfae_have 3 → 1 := reset_eq_new cpuCount h.hasCpus
  tfae_finish

theorem reset_tfae_raised :
    ((newWithCpuCount 2).step (.raiseIrq (.isaIrq 1))).reset = newWithCpuCount 2 :=
  ((reset_tfae _ 2 (.step .new (.raiseIrq (.isaIrq 1)))).out 0 2).mpr (by decide)

-- The guest renames the only CPU: after the reset no IPI to it arrives.
theorem reset_keeps_apic_id :
    ((newWithCpuCount 1).step (.lapicMmioWriteForCpu 0 Reg.id [0, 0, 0, 5])).reset.view.lapicRead 0
        Reg.id = some 0x05000000 ∧
      (newWithCpuCount 1).view.lapicRead 0 Reg.id = some 0 ∧
      ((newWithCpuCount 1).step (.lapicMmioWriteForCpu 0 Reg.id [0, 0, 0, 5])).reset.view.ipiTargets
        0 (.decode 0 0) = [] ∧
      (newWithCpuCount 1).view.ipiTargets 0 (.decode 0 0) = [0] := by
  decide

end PlatformInterrupts

end Aero.Interrupts
