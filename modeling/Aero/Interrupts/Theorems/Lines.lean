import Aero.Interrupts.Router
import Aero.Interrupts.Theorems.IoApic
import Aero.Interrupts.Theorems.PicLines
import Aero.Lib.Runs

namespace Aero.Interrupts

open Function Fabric

structure SamePins {n : Nat} (f f' : Fabric n) : Prop where
  level : f'.ioapic.pinLevel = f.ioapic.pinLevel
  activeLow : f'.ioapic.pinActiveLow = f.ioapic.pinActiveLow

namespace SamePins

theorem refl (f : Fabric n) : SamePins f f :=
  ⟨rfl, rfl⟩

theorem trans (h : SamePins f f') (h' : SamePins f' f'') : SamePins f f'' :=
  ⟨h'.level.trans h.level, h'.activeLow.trans h.activeLow⟩

theorem foldl {α : Type} {g : Fabric n → α → Fabric n} (hg : ∀ f a, SamePins f (g f a)) (f : Fabric n)
    (as : List α) : SamePins f (as.foldl g f) := by
  induction as generalizing f with
  | nil => exact refl f
  | cons a as ih => exact (hg f a).trans (ih (g f a))

end SamePins

namespace Fabric

variable {f : Fabric n}

theorem deliver_samePins : SamePins f (f.deliver now gsi) := by
  refine ⟨deliver_pinLevel, ?_⟩
  by_cases hlocks : Locks (f.ioapic.redirection gsi) f.lapics
  · rw [deliver_of_locks hlocks]
    rfl
  · rw [deliver_of_not_locks hlocks]

theorem maybeDeliverLevel_samePins : SamePins f (f.maybeDeliverLevel now gsi) := by
  rw [maybeDeliverLevel]
  split
  · exact .refl f
  split
  · exact .refl f
  · exact deliver_samePins

theorem setIrqLevel_samePins :
    SamePins { f with ioapic := f.ioapic.setPin gsi (level != f.ioapic.pinActiveLow gsi) }
      (f.setIrqLevel now gsi.val level) := by
  rw [setIrqLevel, dif_pos gsi.isLt]
  dsimp only
  split
  · split
    · exact .refl _
    split
    · exact deliver_samePins
    · exact .refl _
  · split
    · exact .refl _
    split
    · exact maybeDeliverLevel_samePins
    · exact .refl _

theorem samePins_lapics (lapics : List LapicState) : SamePins f { f with lapics } :=
  ⟨rfl, rfl⟩

theorem notifyEoi_samePins : SamePins f (f.notifyEoi now vector) := by
  have hend : SamePins f { f with ioapic := endAll f.ioapic vector } := ⟨rfl, rfl⟩
  exact hend.trans (.foldl (fun _ _ => deliver_samePins) _ _)

theorem notifyEois_samePins : SamePins f (f.notifyEois now vectors) :=
  .foldl (fun _ _ => notifyEoi_samePins) _ _

theorem lapicEoi_samePins : SamePins f (f.lapicEoi now cpu) := by
  rw [lapicEoi]
  split
  · exact .refl f
  · exact (samePins_lapics _).trans notifyEois_samePins

theorem lapicMmioWrite_samePins : SamePins f (f.lapicMmioWrite now cpu offset data).1 := by
  rw [lapicMmioWrite]
  split
  · exact .refl f
  · exact (samePins_lapics _).trans notifyEois_samePins

theorem mmioWrite_samePins : SamePins f (f.mmioWrite now offset size value) := by
  have hcases := mmioWrite_cases f now offset size value
  generalize f.mmioWrite now offset size value = f' at hcases ⊢
  cases hcases with
  | other id ioregsel => exact ⟨rfl, rfl⟩
  | low gsi =>
    have hset e : SamePins f { f with ioapic := f.ioapic.setEntry gsi e } :=
      ⟨rfl, rfl⟩
    rw [writeEntryLow]
    split
    · exact (hset _).trans maybeDeliverLevel_samePins
    · exact hset _
  | high gsi => exact ⟨rfl, rfl⟩

end Fabric

namespace PlatformInterrupts

open Runs

variable {s s' : PlatformInterrupts} {gsi i : Fin numGsis} {irq : Nat}

def routesTo (s : PlatformInterrupts) (gsi : Fin numGsis) (irq : Nat) : Prop :=
  s.legacyPicIrqForGsi gsi.val = some irq

instance decidableRoutesTo : Decidable (s.routesTo gsi irq) :=
  inferInstanceAs (Decidable (_ = _))

-- Every PIC input is the OR of the GSIs that are routed to it.
def PicWired (s : PlatformInterrupts) : Prop :=
  ∀ irq < 16, s.pic.inner.line irq = true ↔ ∃ gsi, s.routesTo gsi irq ∧ s.gsiLevel gsi = true

def PinsWired (s : PlatformInterrupts) : Prop :=
  ∀ gsi, (s.fabric.ioapic.pinLevel gsi != s.fabric.ioapic.pinActiveLow gsi) = s.gsiLevel gsi

def Wired (s : PlatformInterrupts) : Prop :=
  match s.mode with
  | .legacyPic => s.PicWired
  | .apic      => s.PinsWired

theorem wired_of_legacyPic (h : s.mode = .legacyPic) : s.Wired ↔ s.PicWired := by
  rw [Wired, h]

theorem wired_of_apic (h : s.mode = .apic) : s.Wired ↔ s.PinsWired := by
  rw [Wired, h]

-- The levels are those of the counts, outside of a restore.
structure Counted (s : PlatformInterrupts) : Prop where
  baseline : ∀ gsi, s.gsiRestoreBaseline gsi = false
  level : ∀ gsi, s.gsiLevel gsi = decide (0 < s.gsiAssertCount gsi)

structure SameLines (s s' : PlatformInterrupts) : Prop where
  isaIrqToGsi : s'.isaIrqToGsi = s.isaIrqToGsi
  gsiLevel : s'.gsiLevel = s.gsiLevel
  gsiRestoreBaseline : s'.gsiRestoreBaseline = s.gsiRestoreBaseline
  gsiAssertCount : s'.gsiAssertCount = s.gsiAssertCount
  pic : s'.pic.inner.line = s.pic.inner.line

namespace SameLines

theorem refl (s : PlatformInterrupts) : SameLines s s :=
  ⟨rfl, rfl, rfl, rfl, rfl⟩

section

variable (h : SameLines s s')
include h

theorem trans (h' : SameLines s' s'') : SameLines s s'' :=
  ⟨h'.isaIrqToGsi.trans h.isaIrqToGsi, h'.gsiLevel.trans h.gsiLevel,
    h'.gsiRestoreBaseline.trans h.gsiRestoreBaseline, h'.gsiAssertCount.trans h.gsiAssertCount,
    h'.pic.trans h.pic⟩

theorem counted (hc : s.Counted) : s'.Counted :=
  ⟨fun gsi => by rw [h.gsiRestoreBaseline]; exact hc.baseline gsi,
    fun gsi => by rw [h.gsiLevel, h.gsiAssertCount]; exact hc.level gsi⟩

theorem routesTo : s'.routesTo gsi irq ↔ s.routesTo gsi irq := by
  rw [PlatformInterrupts.routesTo, legacyPicIrqForGsi, h.isaIrqToGsi, ← legacyPicIrqForGsi,
    ← PlatformInterrupts.routesTo]

theorem picWired : s'.PicWired ↔ s.PicWired := by
  simp only [PicWired, h.pic, h.gsiLevel, h.routesTo]

theorem pinsWired (hpins : SamePins s.fabric s'.fabric) : s'.PinsWired ↔ s.PinsWired := by
  simp only [PinsWired, hpins.level, hpins.activeLow, h.gsiLevel]

theorem wired (hmode : s'.mode = s.mode) (hpins : SamePins s.fabric s'.fabric) :
    s'.Wired ↔ s.Wired := by
  rw [Wired, Wired, hmode]
  split
  · exact h.picWired
  · exact h.pinsWired hpins

end

end SameLines

-- What a line is driven to, and the condition under which the PIC sees the OR afterwards.

theorem legacyPicIrqForGsi_lt {gsi : Nat} (h : s.legacyPicIrqForGsi gsi = some irq) : irq < 16 := by
  rw [legacyPicIrqForGsi, q35LegacyPicIrqForGsi] at h
  split at h
  case h_1 irq' hwindow =>
    split at hwindow
    · cases hwindow
      cases h
      omega
    · cases hwindow
  case h_2 =>
    split at h
    · cases h
    split at h
    case h_1 found _ =>
      cases h
      exact found.isLt
    case h_2 =>
      cases h
      omega

def setLine (s : PlatformInterrupts) (gsi : Fin numGsis) (level : Bool) : PlatformInterrupts :=
  { s with gsiLevel := Function.update s.gsiLevel gsi level }.driveGsiEffectiveLevel gsi.val level

def Alone (s : PlatformInterrupts) (gsi : Fin numGsis) : Prop :=
  ∀ i, i ≠ gsi → s.gsiLevel i = true → ∀ irq, s.routesTo gsi irq → ¬ s.routesTo i irq

theorem setLine_mode : (s.setLine gsi level).mode = s.mode := by
  rw [setLine, driveGsiEffectiveLevel]
  split
  · split <;> rfl
  · rfl

theorem setLine_gsiLevel :
    (s.setLine gsi level).gsiLevel = update s.gsiLevel gsi level := by
  rw [setLine, driveGsiEffectiveLevel]
  split
  · split <;> rfl
  · rfl

theorem setLine_isaIrqToGsi : (s.setLine gsi level).isaIrqToGsi = s.isaIrqToGsi := by
  rw [setLine, driveGsiEffectiveLevel]
  split
  · split <;> rfl
  · rfl

theorem setLine_routesTo : (s.setLine gsi level).routesTo i irq ↔ s.routesTo i irq := by
  rw [routesTo, legacyPicIrqForGsi, setLine_isaIrqToGsi, ← legacyPicIrqForGsi, ← routesTo]

theorem setLine_line (hmode : s.mode = .legacyPic) (hirq : irq < 16) :
    (s.setLine gsi level).pic.inner.line irq =
      if s.routesTo gsi irq then level else s.pic.inner.line irq := by
  rw [setLine, driveGsiEffectiveLevel]
  rw [hmode]
  dsimp only
  split
  case h_1 irq' hroute =>
    have hroute : s.legacyPicIrqForGsi gsi.val = some irq' := hroute
    have heq : s.routesTo gsi irq ↔ irq = irq' := by
      rw [routesTo, hroute, Option.some.injEq, eq_comm]
    rw [if_congr heq rfl rfl, ← DualPic8259.setIrqLevel_line (legacyPicIrqForGsi_lt hroute) hirq]
    cases level <;> rfl
  case h_2 hroute =>
    have hroute : s.legacyPicIrqForGsi gsi.val = none := hroute
    have hnot : ¬ s.routesTo gsi irq := by simp [routesTo, hroute]
    rw [if_neg hnot]

-- Raising is always seen, lowering if the line was the only high one at its input.
theorem setLine_picWired_iff (hmode : s.mode = .legacyPic) (h : s.PicWired) :
    (s.setLine gsi level).PicWired ↔ (level = false → s.Alone gsi) := by
  constructor
  · rintro hwired rfl i hne hi irq hgsi hroute
    have hlt := legacyPicIrqForGsi_lt hgsi
    have hline : (s.setLine gsi false).pic.inner.line irq = true := by
      refine (hwired irq hlt).mpr ⟨i, setLine_routesTo.mpr hroute, ?_⟩
      rw [setLine_gsiLevel, update_of_ne hne]
      exact hi
    rw [setLine_line hmode hlt, if_pos hgsi] at hline
    cases hline
  · intro halone irq hlt
    rw [setLine_line hmode hlt, setLine_gsiLevel]
    simp only [setLine_routesTo]
    by_cases hgsi : s.routesTo gsi irq
    · rw [if_pos hgsi]
      cases level
      case true => exact iff_of_true rfl ⟨gsi, hgsi, update_self _ _ _⟩
      case false =>
        refine iff_of_false (by decide) ?_
        rintro ⟨i, hroute, hi⟩
        by_cases hne : i = gsi
        · subst hne
          rw [update_self] at hi
          cases hi
        · rw [update_of_ne hne] at hi
          exact halone rfl i hne hi irq hgsi hroute
    · rw [if_neg hgsi, h irq hlt]
      have hne {i : Fin numGsis} (hroute : s.routesTo i irq) : i ≠ gsi := by
        rintro rfl
        exact hgsi hroute
      constructor
      · rintro ⟨i, hroute, hi⟩
        exact ⟨i, hroute, by rw [update_of_ne (hne hroute)]; exact hi⟩
      · rintro ⟨i, hroute, hi⟩
        rw [update_of_ne (hne hroute)] at hi
        exact ⟨i, hroute, hi⟩

theorem setLine_pinsWired (hmode : s.mode = .apic) (h : s.PinsWired) :
    (s.setLine gsi level).PinsWired := by
  have hpins : SamePins _ (s.fabric.setIrqLevel s.lapicClock gsi.val level) :=
    setIrqLevel_samePins
  have hfabric : (s.setLine gsi level).fabric =
      s.fabric.setIrqLevel s.lapicClock gsi.val level := by
    rw [setLine, driveGsiEffectiveLevel]
    rw [hmode]
  intro i
  rw [hfabric, hpins.level, hpins.activeLow, setLine_gsiLevel]
  by_cases hne : i = gsi
  · subst hne
    cases level <;> simp [IoApic.setPin]
  · rw [IoApic.setPin_pinLevel_of_ne hne, update_of_ne hne]
    exact h i

theorem setLine_wired_iff (h : s.Wired) :
    (s.setLine gsi level).Wired ↔ (s.mode = .legacyPic → level = false → s.Alone gsi) := by
  cases hmode : s.mode
  case apic =>
    rw [wired_of_apic (setLine_mode.trans hmode)]
    exact iff_of_true (setLine_pinsWired hmode ((wired_of_apic hmode).mp h)) fun hne => by cases hne
  case legacyPic =>
    rw [wired_of_legacyPic (setLine_mode.trans hmode),
      setLine_picWired_iff hmode ((wired_of_legacyPic hmode).mp h)]
    exact ⟨fun halone _ => halone, fun halone => halone rfl⟩

theorem Counted.update (hc : s.Counted) (gsi : Fin numGsis) {level : Bool}
    (hlevel : level = decide (0 < count)) :
    ({ s with gsiAssertCount := update s.gsiAssertCount gsi count
              gsiLevel := update s.gsiLevel gsi level } : PlatformInterrupts).Counted := by
  refine ⟨hc.baseline, fun i => ?_⟩
  by_cases hne : i = gsi
  · subst hne
    simpa using hlevel
  · simpa [update_of_ne hne] using hc.level i

theorem Counted.setLine {level : Bool}
    (hc : ({ s with gsiAssertCount := counts
                    gsiLevel := Function.update s.gsiLevel gsi level } :
      PlatformInterrupts).Counted) :
    ({ s with gsiAssertCount := counts }.setLine gsi level).Counted := by
  rw [PlatformInterrupts.setLine, driveGsiEffectiveLevel]
  split
  · split <;> exact ⟨hc.baseline, hc.level⟩
  · exact ⟨hc.baseline, hc.level⟩

-- An assertion or deassertion changes a count, and at most one level with it.
inductive CountUpdate (s : PlatformInterrupts) (line : Nat) (asserted : Bool) :
    PlatformInterrupts → Prop
  | same (counts : Fin numGsis → Nat) (hc : { s with gsiAssertCount := counts }.Counted)
      (hlow : asserted = false → ∀ gsi : Fin numGsis, gsi.val = line → s.gsiAssertCount gsi ≠ 1) :
      CountUpdate s line asserted { s with gsiAssertCount := counts }
  | change (gsi : Fin numGsis) (hgsi : gsi.val = line) (counts : Fin numGsis → Nat)
      (hc : ({ s with gsiAssertCount := counts }.setLine gsi asserted).Counted)
      (hlow : asserted = false → s.gsiAssertCount gsi = 1) :
      CountUpdate s line asserted ({ s with gsiAssertCount := counts }.setLine gsi asserted)

theorem updateGsiAssertCount_cases (hc : s.Counted) (line : Nat) (asserted : Bool) :
    CountUpdate s line asserted (s.updateGsiAssertCount line asserted) := by
  rw [updateGsiAssertCount]
  split
  case isFalse hline =>
    exact .same s.gsiAssertCount hc fun _ gsi hgsi => absurd (hgsi ▸ gsi.isLt) hline
  case isTrue hline =>
    obtain ⟨gsi, hgsi⟩ : ∃ gsi : Fin numGsis, gsi = ⟨line, hline⟩ := ⟨_, rfl⟩
    have hline : gsi.val = line := by rw [hgsi]
    dsimp only
    rw [← hgsi, ← hline]
    split
    case h_1 hnext =>
      refine .same s.gsiAssertCount hc ?_
      rintro rfl i hi hcount
      rw [← Fin.ext hi, hcount] at hnext
      cases hnext
    case h_2 count hnext =>
      rw [hc.baseline]
      split
      case isTrue hsame =>
        have hupdate := hc.update gsi hsame.symm
        rw [update_eq_self] at hupdate
        refine .same _ hupdate ?_
        rintro rfl i hi hcount
        rw [hc.level] at hsame
        rw [Fin.ext hi] at hcount
        rw [hcount] at hnext
        cases hnext
        rw [hcount] at hsame
        cases hsame
      case isFalse hchange =>
        have hlevel : decide (0 < count) = asserted := by
          rw [hc.level] at hchange
          cases asserted
          case true =>
            cases hnext
            exact decide_eq_true (by omega)
          case false =>
            rw [nextAssertCount, if_neg (by decide)] at hnext
            split at hnext
            case isTrue hpos =>
              rw [decide_eq_true hpos] at hchange
              simpa using hchange
            case isFalse => cases hnext
        rw [hlevel]
        refine .change gsi rfl _ (Counted.setLine (hc.update gsi hlevel.symm)) ?_
        rintro rfl
        rw [nextAssertCount, if_neg (by decide)] at hnext
        split at hnext
        case isTrue hpos =>
          cases hnext
          simp at hlevel
          omega
        case isFalse => cases hnext

theorem updateGsiAssertCount_wired_iff (hc : s.Counted) (h : s.Wired) :
    (s.updateGsiAssertCount line asserted).Wired ↔
      (s.mode = .legacyPic → asserted = false → ∀ gsi : Fin numGsis, gsi.val = line →
        s.gsiAssertCount gsi = 1 → s.Alone gsi) := by
  have hcases := updateGsiAssertCount_cases hc line asserted
  generalize s.updateGsiAssertCount line asserted = s' at hcases ⊢
  cases hcases with
  | same counts _ hlow =>
    exact iff_of_true h fun _ hasserted gsi hgsi hcount => absurd hcount (hlow hasserted gsi hgsi)
  | change gsi hgsi counts _ hlow =>
    have hwired : { s with gsiAssertCount := counts }.Wired := h
    rw [setLine_wired_iff hwired]
    constructor
    · intro halone hmode hasserted i hi _
      rw [Fin.ext (hi.trans hgsi.symm)]
      exact halone hmode hasserted
    · intro halone hmode hasserted
      exact halone hmode hasserted gsi hgsi (hlow hasserted)

theorem updateGsiAssertCount_counted (hc : s.Counted) :
    (s.updateGsiAssertCount line asserted).Counted := by
  have hcases := updateGsiAssertCount_cases hc line asserted
  generalize s.updateGsiAssertCount line asserted = s' at hcases ⊢
  cases hcases with
  | same counts hc' => exact hc'
  | change gsi _ counts hc' => exact hc'

theorem syncIoapic_pinsWired : s.syncIoapic.PinsWired := by
  -- the lines that were shown, by induction on the rest of them
  have hsync (gsis : List (Fin numGsis)) (f : Fabric numGsis) i
      (hi : i ∈ gsis ∨ (f.ioapic.pinLevel i != f.ioapic.pinActiveLow i) = s.gsiLevel i) :
      let f' := gsis.foldl
        (fun f gsi => f.setIrqLevel s.lapicClock gsi.val (s.gsiLevel gsi)) f
      (f'.ioapic.pinLevel i != f'.ioapic.pinActiveLow i) = s.gsiLevel i := by
    induction gsis generalizing f with
    | nil => exact hi.resolve_left List.not_mem_nil
    | cons gsi gsis ih =>
      have hpins : SamePins _ (f.setIrqLevel s.lapicClock gsi.val (s.gsiLevel gsi)) :=
        setIrqLevel_samePins
      apply ih
      rw [hpins.level, hpins.activeLow]
      by_cases hne : i = gsi
      · subst hne
        right
        cases s.gsiLevel i <;> simp [IoApic.setPin]
      · rw [IoApic.setPin_pinLevel_of_ne hne]
        exact hi.imp_left fun hmem => (List.mem_cons.mp hmem).resolve_left hne
  exact fun i => hsync _ _ i (.inl (List.mem_finRange i))

theorem setMode_sameLines {mode : PlatformInterruptMode} : SameLines s (s.setMode mode) := by
  rw [setMode]
  split <;> exact ⟨rfl, rfl, rfl, rfl, rfl⟩

theorem setMode_mode {mode : PlatformInterruptMode} : (s.setMode mode).mode = mode := by
  rw [setMode]
  split <;> rfl

-- The way back to the PIC leaves its inputs as they are.
theorem setMode_wired_iff (h : s.Wired) {mode : PlatformInterruptMode} :
    (s.setMode mode).Wired ↔ (s.mode = .apic → mode = .legacyPic → s.PicWired) := by
  cases mode
  case legacyPic =>
    rw [wired_of_legacyPic setMode_mode, setMode_sameLines.picWired]
    cases hmode : s.mode
    case legacyPic =>
      exact iff_of_true ((wired_of_legacyPic hmode).mp h) fun hne => by cases hne
    case apic => exact ⟨fun hpic _ _ => hpic, fun hpic => hpic rfl rfl⟩
  case apic =>
    refine iff_of_true ?_ fun _ hne => by cases hne
    rw [setMode]
    split
    case isTrue => exact syncIoapic_pinsWired
    case isFalse hstay =>
      have hmode : s.mode = .apic := by
        cases hmode : s.mode
        case legacyPic => exact absurd ⟨by rw [hmode]; decide, rfl⟩ hstay
        case apic => rfl
      exact (wired_of_apic hmode).mp h

structure Quiet (s s' : PlatformInterrupts) : Prop extends SameLines s s' where
  mode : s'.mode = s.mode
  pins : SamePins s.fabric s'.fabric

namespace Quiet

theorem refl (s : PlatformInterrupts) : Quiet s s :=
  ⟨.refl s, rfl, .refl _⟩

theorem trans (h : Quiet s s') (h' : Quiet s' s'') : Quiet s s'' :=
  ⟨h.toSameLines.trans h'.toSameLines, h'.mode.trans h.mode, h.pins.trans h'.pins⟩

theorem foldl {α : Type} {g : PlatformInterrupts → α → PlatformInterrupts}
    (hg : ∀ s a, Quiet s (g s a)) (s : PlatformInterrupts) (as : List α) :
    Quiet s (as.foldl g s) := by
  induction as generalizing s with
  | nil => exact refl s
  | cons a as ih => exact (hg s a).trans (ih (g s a))

theorem wired_iff (h : Quiet s s') : s'.Wired ↔ s.Wired :=
  h.toSameLines.wired h.mode h.pins

theorem of_fabric (h : SamePins s.fabric f) : Quiet s { s with fabric := f } :=
  ⟨⟨rfl, rfl, rfl, rfl, rfl⟩, rfl, h⟩

theorem of_pic {pic : PlatformPic} (h : pic.inner.line = s.pic.inner.line) :
    Quiet s { s with pic } :=
  ⟨⟨rfl, rfl, rfl, rfl, h⟩, rfl, .refl _⟩

end Quiet

theorem modifyLapic_quiet : Quiet s (s.modifyLapic cpu g) :=
  .of_fabric (samePins_lapics _)

theorem resetLapicAt_quiet : Quiet s (s.resetLapicAt cpu) := by
  rw [resetLapicAt]
  split
  · exact modifyLapic_quiet.trans modifyLapic_quiet
  · exact modifyLapic_quiet

theorem handleIcrIpi_quiet : Quiet s (s.handleIcrIpi srcApicId icr) := by
  rw [handleIcrIpi]
  split
  · exact .foldl (fun _ _ => modifyLapic_quiet) _ _
  · split
    · refine .foldl (fun s cpu => ?_) _ _
      have hpending : Quiet s { s with
          pendingInit := s.pendingInit.set (s.apicIdOf cpu) true } :=
        ⟨⟨rfl, rfl, rfl, rfl, rfl⟩, rfl, .refl _⟩
      exact hpending.trans resetLapicAt_quiet
    · exact .refl s
  · refine .foldl (fun s cpu => ?_) _ _
    exact ⟨⟨rfl, rfl, rfl, rfl, rfl⟩, rfl, .refl _⟩
  · exact .refl s

theorem lapicMmioWriteForCpu_quiet : Quiet s (s.lapicMmioWriteForCpu cpu offset data) := by
  have hfabric : Quiet s
      { s with fabric := (s.fabric.lapicMmioWrite s.lapicClock cpu offset data).1 } :=
    .of_fabric lapicMmioWrite_samePins
  exact hfabric.trans (.foldl (fun _ _ => handleIcrIpi_quiet) _ _)

theorem lapicMmioWriteForApic_quiet : Quiet s (s.lapicMmioWriteForApic apicId offset data) := by
  rw [lapicMmioWriteForApic]
  split
  · exact lapicMmioWriteForCpu_quiet
  · exact .refl s

theorem acknowledgeForCpu_quiet : Quiet s (s.acknowledgeForCpu cpu vector) := by
  rw [acknowledgeForCpu]
  split
  · split
    · exact .refl s
    · exact .of_pic DualPic8259.acknowledge_line
  · exact .of_fabric (samePins_lapics _)

theorem eoiForCpu_quiet : Quiet s (s.eoiForCpu cpu vector) := by
  rw [eoiForCpu]
  split
  · split
    · exact .refl s
    · exact .of_pic PlatformPic.eoi_line
  · exact .of_fabric lapicEoi_samePins

theorem picPortWrite_quiet (h : ¬ Reinitialises port value) : Quiet s (s.picPortWrite port value) :=
  .of_pic (DualPic8259.portWriteU8_line h)

theorem tick_quiet : Quiet s (s.tick deltaNs) :=
  ⟨⟨rfl, rfl, rfl, rfl, rfl⟩, rfl, samePins_lapics _⟩

-- A write to the IOAPIC changes no line; it may leave the PIC mode, and then shows all the lines.
theorem ioapicMmioWrite_cases (s : PlatformInterrupts) (offset : Nat) (value : U32) :
    Quiet s (s.ioapicMmioWrite offset value) ∨
      ∃ s₁, Quiet s s₁ ∧ s.ioapicMmioWrite offset value = s₁.setMode .apic := by
  have hwrite : Quiet s { s with
      fabric := s.fabric.mmioWrite s.lapicClock offset 4 (value.setWidth 64) } :=
    .of_fabric mmioWrite_samePins
  have hclear s : Quiet s s.clearRemoteIrr := .of_fabric ⟨rfl, rfl⟩
  rw [ioapicMmioWrite]
  dsimp only
  split
  · exact .inl hwrite
  split
  · exact .inr ⟨_, hwrite.trans (hclear _), rfl⟩
  · exact .inl (hwrite.trans (hclear _))

theorem ioapicMmioWrite_wired (h : s.Wired) : (s.ioapicMmioWrite offset value).Wired := by
  have hcases := ioapicMmioWrite_cases s offset value
  generalize s.ioapicMmioWrite offset value = s' at hcases ⊢
  obtain hquiet | ⟨s₁, hquiet, rfl⟩ := hcases
  · exact hquiet.wired_iff.mpr h
  · refine (setMode_wired_iff (hquiet.wired_iff.mpr h)).mpr ?_
    intro _ hne
    cases hne

theorem ioapicMmioWrite_sameLines : SameLines s (s.ioapicMmioWrite offset value) := by
  have hcases := ioapicMmioWrite_cases s offset value
  generalize s.ioapicMmioWrite offset value = s' at hcases ⊢
  obtain hquiet | ⟨s₁, hquiet, rfl⟩ := hcases
  · exact hquiet.toSameLines
  · exact hquiet.toSameLines.trans setMode_sameLines

-- What keeps the PIC inputs right: a line goes low in PIC mode only if no other line at its input is
-- high, and the PIC gets the lines back only if its inputs already agree with them.
def LinesKept (s : PlatformInterrupts) : RouterOp → Prop
  | .lowerIrq input =>
    s.mode = .legacyPic → ∀ gsi : Fin numGsis, gsi.val = s.gsiOf input →
      s.gsiAssertCount gsi = 1 → s.Alone gsi
  | .setMode mode => s.mode = .apic → mode = .legacyPic → s.PicWired
  | .imcrPortWrite port value =>
    port = imcrDataPort → s.imcrSelect = imcrIndex → value &&& 1 = 0 → s.mode = .apic → s.PicWired
  | _ => True

theorem imcrPortWrite_wired_iff (h : s.Wired) :
    (s.imcrPortWrite port value).Wired ↔ s.LinesKept (.imcrPortWrite port value) := by
  rw [imcrPortWrite]
  split
  case isTrue hport => exact iff_of_true h fun hport' => absurd (hport.symm.trans hport') (by decide)
  split
  case isFalse hport => exact iff_of_true h fun hport' => absurd hport' hport
  case isTrue hport =>
    split
    case isFalse hselect => exact iff_of_true h fun _ hselect' => absurd hselect' hselect
    case isTrue hselect =>
      have himcr : { s with imcr := value &&& 1 }.Wired := h
      rw [setMode_wired_iff himcr]
      by_cases hvalue : value &&& 1 = 0
      · rw [if_neg (not_not.mpr hvalue)]
        exact ⟨fun hpic _ _ _ hmode => hpic hmode rfl,
          fun hpic hmode _ => hpic hport hselect hvalue hmode⟩
      · rw [if_pos hvalue]
        exact iff_of_true (fun _ hne => by cases hne) fun _ _ hvalue' => absurd hvalue' hvalue

theorem step_wired_iff (hc : s.Counted) (h : s.Wired) (op : RouterOp) :
    (s.step op).Wired ↔ s.LinesKept op := by
  cases op with
  | raiseIrq input =>
    exact iff_of_true ((updateGsiAssertCount_wired_iff hc h).mpr fun _ hne => by cases hne) trivial
  | lowerIrq input =>
    rw [step, lowerIrq, updateGsiAssertCount_wired_iff hc h]
    exact ⟨fun halone hmode => halone hmode rfl, fun halone hmode _ => halone hmode⟩
  | setMode mode => exact setMode_wired_iff h
  | imcrPortWrite port value => exact imcrPortWrite_wired_iff h
  | ioapicMmioWrite offset value => exact iff_of_true (ioapicMmioWrite_wired h) trivial
  | lapicMmioWriteForCpu cpu offset data =>
    exact iff_of_true (lapicMmioWriteForCpu_quiet.wired_iff.mpr h) trivial
  | lapicMmioWriteForApic apicId offset data =>
    exact iff_of_true (lapicMmioWriteForApic_quiet.wired_iff.mpr h) trivial
  | picPortWrite port value hicw =>
    exact iff_of_true ((picPortWrite_quiet hicw).wired_iff.mpr h) trivial
  | acknowledgeForCpu cpu vector =>
    exact iff_of_true (acknowledgeForCpu_quiet.wired_iff.mpr h) trivial
  | eoiForCpu cpu vector => exact iff_of_true (eoiForCpu_quiet.wired_iff.mpr h) trivial
  | tick deltaNs => exact iff_of_true (tick_quiet.wired_iff.mpr h) trivial

theorem imcrPortWrite_sameLines : SameLines s (s.imcrPortWrite port value) := by
  have himcr : SameLines s { s with imcr := value &&& 1 } := ⟨rfl, rfl, rfl, rfl, rfl⟩
  rw [imcrPortWrite]
  split
  · exact ⟨rfl, rfl, rfl, rfl, rfl⟩
  split
  · split
    · exact himcr.trans setMode_sameLines
    · exact .refl s
  · exact .refl s

theorem step_counted (hc : s.Counted) (op : RouterOp) : (s.step op).Counted := by
  cases op with
  | raiseIrq input =>
    rw [step]
    exact updateGsiAssertCount_counted hc
  | lowerIrq input =>
    exact updateGsiAssertCount_counted hc
  | setMode mode => exact setMode_sameLines.counted hc
  | imcrPortWrite port value => exact imcrPortWrite_sameLines.counted hc
  | ioapicMmioWrite offset value => exact ioapicMmioWrite_sameLines.counted hc
  | lapicMmioWriteForCpu cpu offset data => exact lapicMmioWriteForCpu_quiet.counted hc
  | lapicMmioWriteForApic apicId offset data => exact lapicMmioWriteForApic_quiet.counted hc
  | picPortWrite port value hicw => exact (picPortWrite_quiet hicw).counted hc
  | acknowledgeForCpu cpu vector => exact acknowledgeForCpu_quiet.counted hc
  | eoiForCpu cpu vector => exact eoiForCpu_quiet.counted hc
  | tick deltaNs => exact tick_quiet.counted hc

theorem new_counted : (newWithCpuCount cpuCount).Counted :=
  ⟨fun _ => rfl, fun _ => rfl⟩

theorem newPic_line : newPic.inner.line irq = false := by
  have hmaster : newPic.inner.master.lineLevel = 0 := by decide
  have hslave : newPic.inner.slave.lineLevel = 0 := by decide
  simp [DualPic8259.line, Pic8259.line, hmaster, hslave]

theorem new_wired : (newWithCpuCount cpuCount).Wired := by
  intro irq _
  refine iff_of_false ?_ ?_
  · rw [show (newWithCpuCount cpuCount).pic = newPic from rfl, newPic_line]
    decide
  · rintro ⟨gsi, -, hlevel⟩
    cases hlevel

-- Over any run, the active controller sees the lines after every call exactly if all steps keep them.
theorem controller_sees_lines_iff (cpuCount : U8) (ops : List RouterOp) :
    Always step Wired (newWithCpuCount cpuCount) ops ↔
      Each step LinesKept (newWithCpuCount cpuCount) ops :=
  always_iff_each (fun _ op hc => step_counted hc op) (fun _ op hc h => step_wired_iff hc h op)
    new_counted new_wired

-- GSI 20 shares IRQ 10 with GSI 10.
def sharedInput : List RouterOp :=
  [.raiseIrq (.gsi 10), .raiseIrq (.gsi 20), .lowerIrq (.gsi 20)]

-- GSI 5 is raised while the IOAPIC has the lines.
def backToPic : List RouterOp :=
  [.imcrPortWrite 0x22 0x70, .imcrPortWrite 0x23 1, .raiseIrq (.gsi 5), .imcrPortWrite 0x23 0]

def picView (ops : List RouterOp) (gsi : Fin numGsis) (irq : Nat) :
    PlatformInterruptMode × Bool × Bool :=
  let s := ops.foldl step (newWithCpuCount 1)
  (s.mode, s.pic.inner.line irq, decide (s.routesTo gsi irq) && s.gsiLevel gsi)

theorem pic_input_lost :
    picView sharedInput 10 10 = (.legacyPic, false, true) ∧
      picView backToPic 5 5 = (.legacyPic, false, true) := by
  decide +kernel

end PlatformInterrupts

end Aero.Interrupts
