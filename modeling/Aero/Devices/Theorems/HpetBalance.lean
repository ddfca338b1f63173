import Aero.Devices.Theorems.HpetLines

namespace Aero.Devices

open RaisedLines HpetTimer List

variable {timer timer' : HpetTimer} {timers : List HpetTimer} {legacy legacy' : Bool} {idx i : Nat}
  {evs : List GsiEvent}

section Lists

theorem moves_forTimers (hf : ∀ i timer, timer ∈ timers → Moves (f i timer).2 (timer.line legacy i)
    ((f i timer).1.line legacy' i)) :
    Moves (forTimers f idx timers).2 (lines legacy idx timers)
      (lines legacy' idx (forTimers f idx timers).1) := by
  induction timers generalizing idx
  case nil => exact .nil
  case cons timer timers ih =>
    exact (hf idx timer mem_cons_self).both
      (ih fun i timer' hmem => hf i timer' (mem_cons_of_mem timer hmem))

theorem forTimers_forall {P : HpetTimer → Prop} (hf : ∀ i timer, timer ∈ timers → P (f i timer).1) :
    ∀ timer ∈ (forTimers f idx timers).1, P timer := by
  induction timers generalizing idx
  case nil => exact fun _ h => (not_mem_nil h).elim
  case cons timer timers ih =>
    rw [forTimers, forall_mem_cons]
    exact ⟨hf idx timer mem_cons_self,
      ih fun i timer' hmem => hf i timer' (mem_cons_of_mem timer hmem)⟩

theorem forTimers_config (hf : ∀ i timer, (f i timer).1.config = timer.config) :
    (forTimers f idx timers).1.map (·.config) = timers.map (·.config) := by
  induction timers generalizing idx
  case nil => rfl
  case cons timer timers ih => rw [forTimers, map_cons, map_cons, hf, ih]

theorem moves_set (hget : timers[i]? = some timer)
    (hmoves : Moves evs (timer.line legacy (idx + i)) (timer'.line legacy (idx + i))) :
    Moves evs (lines legacy idx timers) (lines legacy idx (timers.set i timer')) := by
  induction timers generalizing idx i
  case nil => cases hget
  case cons timer₀ timers ih =>
    cases i
    case zero =>
      cases hget
      exact hmoves.frame_right _
    case succ i =>
      refine (ih hget ?_).frame _
      rwa [show idx + 1 + i = idx + (i + 1) by omega]

theorem lines_map (hconfig : ∀ timer, (g timer).config = timer.config)
    (hasserted : ∀ timer, (g timer).irqAsserted = timer.irqAsserted) :
    lines legacy idx (timers.map g) = lines legacy idx timers := by
  induction timers generalizing idx
  case nil => rfl
  case cons timer timers ih =>
    rw [map_cons, lines, lines, ih, line_congr (hconfig timer) (hasserted timer)]

end Lists

theorem HpetTimer.Weak.congr (h : timer.Weak) (hconfig : timer'.config = timer.config)
    (hasserted : timer'.irqAsserted = true → timer.irqAsserted = true) : timer'.Weak := by
  intro h'
  rw [intEnabled_congr hconfig, isLevelTriggered_congr hconfig]
  exact h (hasserted h')

theorem lowerIfAsserted_fst (timer : HpetTimer) (gsi : U32) :
    (timer.lowerIfAsserted gsi).1 = { timer with irqAsserted := false } := by
  obtain ⟨_, _, _, _, _, _, _, asserted⟩ := timer
  cases asserted <;> rfl

namespace Hpet

variable {h : Hpet} {now value writeMask mainCounter : U64}

theorem Quiet.setTimer (hq : h.Quiet) (hidx : idx < 24) (hget : h.timers[idx]? = some timer)
    (hweak : timer'.Weak) (hoff : timer.irqAsserted = false → timer'.irqAsserted = false)
    (hmoves : Moves evs (timer.line h.legacy idx) (timer'.line h.legacy idx)) :
    Keeps Quiet h ({ h with timers := h.timers.set idx timer' }, evs) := by
  refine ⟨⟨fun t ht => ?_, fun hen t ht => ?_, fun i t ht hint => ?_⟩, ?_⟩
  · obtain hmem | rfl := mem_or_eq_of_mem_set ht
    · exact hq.weak t hmem
    · exact hweak
  · obtain hmem | rfl := mem_or_eq_of_mem_set ht
    · exact hq.off hen t hmem
    · exact hoff (hq.off hen timer (mem_of_getElem? hget))
  · rw [getElem?_set] at ht
    split at ht
    case isTrue heq => omega
    case isFalse => exact hq.reachable i t ht hint
  · refine moves_set hget ?_
    rwa [Nat.zero_add]

theorem moves_redirect (legacy : Bool) (idx : Nat)
    (hasserted : timer.irqAsserted = before.irqAsserted) (hweak : before.Weak) :
    let r := redirect before timer (before.gsi legacy idx) (timer.gsi legacy idx)
    r.1.config = timer.config ∧ r.1.Weak ∧
      (before.irqAsserted = false → r.1.irqAsserted = false) ∧
      Moves r.2 (before.line legacy idx) (r.1.line legacy idx) := by
  cases hheld : before.irqAsserted
  case false =>
    rw [hheld] at hasserted
    simp only [redirect, line, hasserted, hheld, Bool.false_eq_true, if_false]
    refine ⟨trivial, fun h => ?_, fun _ => trivial, .nil⟩
    rw [hasserted] at h
    cases h
  case true =>
    rw [hheld] at hasserted
    obtain ⟨hint, hlevel⟩ := hweak hheld
    simp only [redirect, line, hasserted, hheld, hint, hlevel, true_and, if_true]
    by_cases hkeeps : timer.intEnabled = true ∧ timer.isLevelTriggered = true
    · rw [if_neg (by rw [hkeeps.1, hkeeps.2]; decide)]
      have hweak' : timer.Weak := fun _ => hkeeps
      by_cases hgsi : before.gsi legacy idx = timer.gsi legacy idx
      · rw [if_neg (not_not.mpr hgsi)]
        simp only [hasserted, hgsi]
        exact ⟨trivial, hweak', fun h => (by cases h), .nil⟩
      · rw [if_pos hgsi]
        simp only [hkeeps.2, hasserted, if_true]
        exact ⟨trivial, hweak', fun h => (by cases h), Moves.lower.append .raise⟩
    · rw [if_pos (by rw [← not_and_or]; exact hkeeps)]
      exact ⟨rfl, fun h => (by cases h), fun _ => rfl, .lower⟩

theorem configure_irqAsserted (mainCounter value writeMask : U64) (before : HpetTimer) :
    (configure mainCounter value writeMask before).irqAsserted = before.irqAsserted := by
  simp only [configure]
  split_ifs <;> rfl

theorem moves_writeTimerConfig (legacy : Bool) (mainCounter : U64) (idx : Nat)
    (value writeMask : U64) (hweak : timer.Weak) :
    let r := writeTimerConfig legacy mainCounter idx value writeMask timer
    r.1.Weak ∧ (timer.irqAsserted = false → r.1.irqAsserted = false) ∧
      Moves r.2 (timer.line legacy idx) (r.1.line legacy idx) := by
  obtain ⟨-, hweak', hoff, hmoves⟩ := moves_redirect legacy idx
    (configure_irqAsserted mainCounter value writeMask timer) hweak
  simp only [writeTimerConfig]
  split
  · exact ⟨hweak'.congr rfl id, hoff, hmoves⟩
  · exact ⟨hweak', hoff, hmoves⟩

-- What a timer's line depends on.
structure SameLine (timer timer' : HpetTimer) : Prop where
  asserted : timer'.irqAsserted = timer.irqAsserted
  intEnabled : timer'.intEnabled = timer.intEnabled
  level : timer'.isLevelTriggered = timer.isLevelTriggered
  route : timer'.route = timer.route

theorem SameLine.line_eq (h : SameLine timer timer') :
    timer'.line legacy idx = timer.line legacy idx := by
  rw [line, line, gsi, gsi, h.asserted, h.route]

theorem SameLine.weak (h : SameLine timer timer') (hweak : timer.Weak) : timer'.Weak := by
  rw [Weak, h.asserted, h.intEnabled, h.level]
  exact hweak

theorem and_not_setval (config : U64) (h : ~~~timerCfgSetval &&& mask = mask) :
    config &&& ~~~timerCfgSetval &&& mask = config &&& mask := by
  rw [BitVec.and_assoc, h]

theorem sameLine_writeTimerComparator (mainCounter value writeMask : U64) (timer : HpetTimer) :
    SameLine timer (writeTimerComparator mainCounter value writeMask timer) := by
  simp only [writeTimerComparator]
  generalize merge timer.comparator value _ = newValue
  split_ifs
  · refine ⟨rfl, ?_, ?_, ?_⟩
    · simp only [intEnabled]
      rw [and_not_setval _ (by decide)]
    · simp only [isLevelTriggered]
      rw [and_not_setval _ (by decide)]
    · simp only [route]
      rw [and_not_setval _ (by decide)]
  all_goals exact ⟨rfl, rfl, rfl, rfl⟩

theorem Quiet.setSameLine (hq : h.Quiet) (hidx : idx < 24) (hget : h.timers[idx]? = some timer)
    (hsame : SameLine timer timer') :
    Keeps Quiet h ({ h with timers := h.timers.set idx timer' }, []) := by
  refine hq.setTimer hidx hget (hsame.weak (hq.weak timer (mem_of_getElem? hget)))
    (fun hoff => hsame.asserted.trans hoff) ?_
  rw [hsame.line_eq]
  exact .nil

theorem Quiet.writeTimer (hq : h.Quiet) (hidx : idx < 24) (reg : Nat) (value writeMask : U64) :
    Keeps Quiet h (h.writeTimer idx reg value writeMask) := by
  rw [Hpet.writeTimer]
  cases hget : h.timers[idx]?
  case none => exact ⟨hq, .nil⟩
  case some timer =>
    simp only
    split
    · obtain ⟨hweak, hoff, hmoves⟩ := moves_writeTimerConfig h.legacy h.mainCounter idx value
        writeMask (hq.weak timer (mem_of_getElem? hget))
      exact hq.setTimer hidx hget hweak hoff hmoves
    split
    · exact hq.setSameLine hidx hget (sameLine_writeTimerComparator ..)
    split
    · exact hq.setSameLine hidx hget ⟨rfl, rfl, rfl, rfl⟩
    · exact ⟨hq, .nil⟩

theorem Quiet.writeGeneralIntStatus (hq : h.Quiet) (value writeMask : U64) :
    Keeps Quiet h (h.writeGeneralIntStatus value writeMask) := by
  have hclear : ∀ idx timer, timer ∈ h.timers →
      Moves (clearStatus h.legacy (h.generalIntStatus &&& (value &&& writeMask)) idx timer).2
        (timer.line h.legacy idx)
        ((clearStatus h.legacy (h.generalIntStatus &&& (value &&& writeMask)) idx timer).1.line
          h.legacy idx) := by
    intro idx timer _
    rw [clearStatus]
    split_ifs
    · exact .nil
    · exact moves_lowerIfAsserted timer h.legacy h.legacy idx
    · exact .nil
  have hfst : ∀ idx timer,
      (clearStatus h.legacy (h.generalIntStatus &&& (value &&& writeMask)) idx timer).1.config =
          timer.config ∧
        ((clearStatus h.legacy (h.generalIntStatus &&& (value &&& writeMask)) idx
          timer).1.irqAsserted = true → timer.irqAsserted = true) := by
    intro idx timer
    rw [clearStatus]
    split_ifs
    · exact ⟨rfl, id⟩
    · rw [lowerIfAsserted_fst]
      exact ⟨rfl, fun h => (by cases h)⟩
    · exact ⟨rfl, id⟩
  refine ⟨⟨?_, ?_, ?_⟩, moves_forTimers hclear⟩
  · exact forTimers_forall fun i timer hmem =>
      (hq.weak timer hmem).congr (hfst i timer).1 (hfst i timer).2
  · intro hen
    refine forTimers_forall fun i timer hmem => ?_
    rw [Bool.eq_false_iff]
    intro hasserted
    have := hq.off hen timer hmem
    rw [(hfst i timer).2 hasserted] at this
    cases this
  · exact reachable_of_config (forTimers_config fun i timer => (hfst i timer).1) hq.reachable

theorem updateMainCounter_eq (h : Hpet) (now : U64) : ∃ lastUpdateNs remainderFs mainCounter,
    h.updateMainCounter now = { h with lastUpdateNs, remainderFs, mainCounter } := by
  rw [updateMainCounter]
  split
  · simp only
    split
    · exact ⟨_, _, _, rfl⟩
    · exact ⟨_, _, _, rfl⟩
  · exact ⟨_, _, _, rfl⟩

theorem Quiet.updateMainCounter (hq : h.Quiet) (now : U64) :
    Keeps Quiet h (h.updateMainCounter now, []) := by
  obtain ⟨lastUpdateNs, remainderFs, mainCounter, heq⟩ := updateMainCounter_eq h now
  rw [heq]
  exact ⟨⟨hq.weak, hq.off, hq.reachable⟩, .nil⟩

theorem Quiet.writeMainCounter (hq : h.Quiet) (now value writeMask : U64) :
    Keeps Quiet h (h.writeMainCounter now value writeMask, []) :=
  ⟨⟨hq.weak, hq.off, hq.reachable⟩, .nil⟩

theorem moves_moveLine (timer : HpetTimer) (legacy legacy' : Bool) (idx : Nat) :
    Moves (moveLine legacy legacy' idx timer).2 (timer.line legacy idx)
      ((moveLine legacy legacy' idx timer).1.line legacy' idx) := by
  cases hasserted : timer.irqAsserted <;>
    simp only [moveLine, line, hasserted, Bool.false_eq_true, false_and, true_and, if_false]
  · exact .nil
  · by_cases hgsi : timer.gsi legacy idx = timer.gsi legacy' idx
    · rw [if_neg (not_not.mpr hgsi), hasserted, hgsi]
      exact .nil
    · rw [if_pos hgsi, hasserted]
      exact Moves.lower.append .raise

theorem moveLine_fst (timer : HpetTimer) (legacy legacy' : Bool) (idx : Nat) :
    (moveLine legacy legacy' idx timer).1 = timer := by
  simp only [moveLine]
  split <;> rfl

theorem Quiet.reconfigured (hq : h.Quiet) {after : Hpet}
    (hafter : ∃ g : HpetTimer → HpetTimer, after.timers = h.timers.map g ∧
      ∀ timer, (g timer).config = timer.config ∧ (g timer).irqAsserted = timer.irqAsserted) :
    (∀ timer ∈ after.timers, timer.Weak) ∧
      (h.enabled = false → ∀ timer ∈ after.timers, timer.irqAsserted = false) ∧
      Reachable 0 after.timers ∧ ∀ legacy, lines legacy 0 after.timers = lines legacy 0 h.timers := by
  obtain ⟨g, htimers, hg⟩ := hafter
  rw [htimers]
  refine ⟨?_, fun hen => ?_, reachable_of_config ?_ hq.reachable, fun legacy =>
    lines_map (fun timer => (hg timer).1) (fun timer => (hg timer).2)⟩
  · rw [forall_mem_map]
    exact fun timer hmem => (hq.weak timer hmem).congr (hg timer).1 (hg timer).2.symm.trans
  · rw [forall_mem_map]
    exact fun timer hmem => (hg timer).2.trans (hq.off hen timer hmem)
  · rw [map_map]
    exact map_congr_left fun timer _ => (hg timer).1

theorem writeGeneralConfig_cases (h : Hpet) (now value writeMask : U64) :
    ∃ after : Hpet, (∃ g : HpetTimer → HpetTimer, after.timers = h.timers.map g ∧
        ∀ timer, (g timer).config = timer.config ∧ (g timer).irqAsserted = timer.irqAsserted) ∧
      h.writeGeneralConfig now value writeMask =
        if h.enabled ∧ ¬after.enabled then
          let r := forTimers (fun idx timer => timer.lowerIfAsserted (timer.gsi h.legacy idx)) 0
            after.timers
          ({ after with timers := r.1 }, r.2)
        else if h.legacy ≠ after.legacy then
          let r := forTimers (moveLine h.legacy after.legacy) 0 after.timers
          ({ after with timers := r.1 }, r.2)
        else
          (after, []) := by
  refine ⟨_, ?_, rfl⟩
  split
  · refine ⟨_, rfl, fun timer => ?_⟩
    split <;> exact ⟨rfl, rfl⟩
  · exact ⟨id, (map_id _).symm, fun _ => ⟨rfl, rfl⟩⟩

theorem Quiet.writeGeneralConfig (hq : h.Quiet) (now value writeMask : U64) :
    Keeps Quiet h (h.writeGeneralConfig now value writeMask) := by
  obtain ⟨after, hafter, heq⟩ := writeGeneralConfig_cases h now value writeMask
  obtain ⟨hweak, hoff, hreach, hlines⟩ := hq.reconfigured hafter
  rw [heq]
  by_cases hturned : h.enabled = true ∧ ¬after.enabled = true
  · -- Every line that is held is lowered.
    rw [if_pos hturned]
    have hfst : ∀ idx (timer : HpetTimer),
        (timer.lowerIfAsserted (timer.gsi h.legacy idx)).1.irqAsserted = false := fun idx timer => by
      rw [lowerIfAsserted_fst]
    refine ⟨⟨forTimers_forall fun i timer hmem hasserted => ?_, fun _ => forTimers_forall
      fun i timer _ => hfst i timer, reachable_of_config (forTimers_config fun i timer => by
        rw [lowerIfAsserted_fst]) hreach⟩, ?_⟩
    · rw [hfst] at hasserted
      cases hasserted
    · rw [heldLines, ← hlines]
      exact moves_forTimers fun i timer _ => moves_lowerIfAsserted timer h.legacy after.legacy i
  rw [if_neg hturned]
  have hoff' : after.enabled = false → ∀ timer ∈ after.timers, timer.irqAsserted = false := by
    intro hen
    rw [hen] at hturned
    exact hoff (Bool.eq_false_iff.mpr fun hon => hturned ⟨hon, Bool.false_ne_true⟩)
  by_cases hroute : h.legacy = after.legacy
  · rw [if_neg (not_not.mpr hroute)]
    refine ⟨⟨hweak, hoff', hreach⟩, ?_⟩
    rw [heldLines, heldLines, ← hroute, hlines]
    exact .nil
  · rw [if_pos hroute]
    have hsame : ∀ i timer, (moveLine h.legacy after.legacy i timer).1 = timer :=
      fun i timer => moveLine_fst timer h.legacy after.legacy i
    refine ⟨⟨forTimers_forall fun i timer hmem => ?_, fun hen => forTimers_forall fun i timer hmem =>
      ?_, reachable_of_config (forTimers_config fun i timer => by rw [hsame]) hreach⟩, ?_⟩
    · rw [hsame]
      exact hweak timer hmem
    · rw [hsame]
      exact hoff' hen timer hmem
    · rw [heldLines, ← hlines]
      exact moves_forTimers fun i timer _ => moves_moveLine timer h.legacy after.legacy i

theorem Quiet.writeAlignedU64 (hq : h.Quiet) (now : U64) (hoffset : offset < 0x400)
    (value writeMask : U64) : Keeps Quiet h (h.writeAlignedU64 now offset value writeMask) := by
  rw [Hpet.writeAlignedU64]
  split
  · exact hq.writeGeneralConfig now value writeMask
  split
  · exact hq.writeGeneralIntStatus value writeMask
  split
  · exact hq.writeMainCounter now value writeMask
  split
  · -- The window has room for the registers of 24 timers.
    refine hq.writeTimer ?_ _ value writeMask
    simp only [regTimer0Base, timerStride]
    omega
  · exact ⟨hq, .nil⟩

theorem Keeps.append (hk : Keeps P h (h', evs)) (hk' : Keeps Q h' (h'', evs')) :
    Keeps Q h (h'', evs ++ evs') :=
  ⟨hk'.state, hk.moves.append hk'.moves⟩

theorem Quiet.poll (hq : h.Quiet) (now : U64) : Keeps Settled h (h.poll now) := by
  have hk := hq.updateMainCounter now
  exact hk.append (serviceTimers_settled hk.state)

theorem Quiet.mmioWrite (hq : h.Quiet) (now : U64) (hoffset : offset < 0x400) (size : Nat)
    (value : U64) : Keeps Settled h (h.mmioWrite now offset size value) := by
  have hpoll := hq.poll now
  have hwrite := hpoll.state.quiet.writeAlignedU64 now (by omega : offset - offset % 8 < 0x400)
    ((value &&& accessMask size) <<< (offset % 8 * 8)) (accessMask size <<< (offset % 8 * 8))
  exact (hpoll.append hwrite).append (serviceTimers_settled hwrite.state)

theorem Settled.step (hs : h.Settled) (op : Op) :
    Keeps Settled h ((h.step op).1, (h.step op).2.events) := by
  cases op
  case read now offset size =>
    rw [Hpet.step]
    split
    · exact hs.quiet.poll now
    · exact ⟨hs, .nil⟩
  case write now offset size value =>
    rw [Hpet.step]
    split
    case isTrue hvalid => exact hs.quiet.mmioWrite now hvalid.2.1 size value
    case isFalse => exact ⟨hs, .nil⟩
  case poll now => exact hs.quiet.poll now

def eventsOf (outputs : List Output) : List GsiEvent :=
  outputs.flatMap Output.events

theorem Settled.run (hs : h.Settled) (ops : List Op) :
    Keeps Settled h (Runs.final Hpet.step h ops, eventsOf (Runs.outputs Hpet.step h ops)) := by
  induction ops generalizing h
  case nil => exact ⟨hs, .nil⟩
  case cons op ops ih =>
    have hk := hs.step op
    exact hk.append (ih hk.state)

theorem new_quiet (capabilities : HpetCapabilities) :
    ∀ timer ∈ (new now capabilities).timers,
      timer.irqAsserted = false ∧ timer.intEnabled = false := by
  rw [new, forall_mem_map]
  intro idx _
  refine ⟨rfl, ?_⟩
  simp only [intEnabled, HpetTimer.new]
  rw [BitVec.and_assoc]
  exact bne_eq_false_iff_eq.mpr BitVec.and_zero

theorem settled_new (now : U64) (capabilities : HpetCapabilities) :
    (new now capabilities).Settled := by
  refine ⟨fun i timer hi => ?_, fun i timer hi hint => ?_⟩
  · rw [(new_quiet capabilities timer (mem_of_getElem? hi)).1, drives,
      (new_quiet capabilities timer (mem_of_getElem? hi)).2, Bool.and_false]
    rfl
  · rw [(new_quiet capabilities timer (mem_of_getElem? hi)).2] at hint
    cases hint

theorem lines_eq_zero (h : ∀ timer ∈ timers, timer.irqAsserted = false) :
    lines legacy idx timers = 0 := by
  induction timers generalizing idx
  case nil => rfl
  case cons timer timers ih =>
    obtain ⟨hhead, htail⟩ := forall_mem_cons.mp h
    rw [lines, ih htail, line, hhead]
    rfl

-- The effective GSIs of the timers that are to hold their line.
def drivenLines (self : Hpet) : Multiset U32 :=
  self.timers.zipIdx.filterMap fun (timer, idx) =>
    if self.drives idx timer then some (timer.gsi self.legacy idx) else none

theorem lines_eq_driven (hasserted : ∀ i timer, timers[i]? = some timer →
    timer.irqAsserted = h.drives (idx + i) timer) :
    lines h.legacy idx timers = ((timers.zipIdx idx).filterMap fun (timer, idx) =>
      if h.drives idx timer then some (timer.gsi h.legacy idx) else none : Multiset U32) := by
  induction timers generalizing idx
  case nil => rfl
  case cons timer timers ih =>
    have hhead := hasserted 0 timer rfl
    have hrest : ∀ i timer', timers[i]? = some timer' →
        timer'.irqAsserted = h.drives (idx + 1 + i) timer' := fun i timer' hi => by
      rw [hasserted (i + 1) timer' hi, show idx + 1 + i = idx + (i + 1) by omega]
    rw [lines, ih hrest, line, hhead, zipIdx_cons, filterMap_cons]
    cases hdrives : h.drives idx timer <;> simp only [hdrives, if_true]
    · exact Multiset.zero_add _
    · rfl

theorem Settled.heldLines_eq (hs : h.Settled) : h.heldLines = h.drivenLines :=
  lines_eq_driven fun i timer hi => by rw [hs.asserted i timer hi, Nat.zero_add]

-- No lower comes without its raise, and the raises that are left are one for each timer that is to
-- hold its line.
theorem level_lines_balanced (now : U64) (capabilities : HpetCapabilities) (ops : List Op) :
    let start := Hpet.new now capabilities
    replay 0 (eventsOf (Runs.outputs Hpet.step start ops)) =
      some (Runs.final Hpet.step start ops).drivenLines := by
  intro start
  have hstart := settled_new now capabilities
  have hk := hstart.run ops
  have hheld : start.heldLines = 0 :=
    lines_eq_zero fun timer hmem => (new_quiet capabilities timer hmem).1
  have hmoves := hk.moves 0
  rwa [hheld, hk.state.heldLines_eq, Multiset.zero_add, Multiset.zero_add] at hmoves

end Hpet

end Aero.Devices
