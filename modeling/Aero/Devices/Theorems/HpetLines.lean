import Aero.Devices.Hpet
import Aero.Lib.Runs

namespace Aero.Devices

open RaisedLines HpetTimer Hpet List

variable {timer : HpetTimer} {timers : List HpetTimer} {legacy : Bool} {idx i j : Nat}
  {status mainCounter : U64}

section StatusBit

theorem getLsbD_statusBit : (statusBit idx).getLsbD j = decide (j = idx % 64) := by
  have hlt := Nat.mod_lt idx (by decide : 64 > 0)
  rw [statusBit, BitVec.getLsbD_shiftLeft]
  by_cases hj : j = idx % 64
  · simp [hj, hlt]
  · have hne : j < idx % 64 ∨ j - idx % 64 ≠ 0 := by omega
    rcases hne with h | h <;> simp [h, hj]

theorem and_statusBit : (status &&& statusBit idx != 0) = status.getLsbD (idx % 64) := by
  cases hbit : status.getLsbD (idx % 64)
  case false =>
    rw [bne_eq_false_iff_eq]
    refine BitVec.eq_of_getLsbD_eq fun k hk => ?_
    rw [BitVec.getLsbD_and, getLsbD_statusBit, show (0 : U64).getLsbD k = false from BitVec.getLsbD_zero]
    by_cases hkeq : k = idx % 64
    · rw [hkeq, hbit]
      rfl
    · simp [hkeq]
  case true =>
    rw [bne_iff_ne]
    intro hzero
    have := congrArg (·.getLsbD (idx % 64)) hzero
    simp [getLsbD_statusBit, hbit] at this

theorem getLsbD_or_statusBit :
    (status ||| statusBit idx).getLsbD j = (status.getLsbD j || decide (j = idx % 64)) := by
  rw [BitVec.getLsbD_or, getLsbD_statusBit]

end StatusBit

def HpetTimer.line (self : HpetTimer) (legacy : Bool) (idx : Nat) : Multiset U32 :=
  if self.irqAsserted then {self.gsi legacy idx} else 0

def lines (legacy : Bool) : Nat → List HpetTimer → Multiset U32
  | _,   []              => 0
  | idx, timer :: timers => timer.line legacy idx + lines legacy (idx + 1) timers

theorem line_congr {timer' : HpetTimer} (hconfig : timer'.config = timer.config)
    (hasserted : timer'.irqAsserted = timer.irqAsserted) :
    timer'.line legacy idx = timer.line legacy idx := by
  rw [line, line, gsi, gsi, route, route, hconfig, hasserted]

section Timer

theorem driveLevel_fst (timer : HpetTimer) (gsi : U32) (assert : Bool) :
    (timer.driveLevel gsi assert).1 = { timer with irqAsserted := assert } := by
  obtain ⟨_, _, _, _, _, _, _, asserted⟩ := timer
  cases assert <;> cases asserted <;> rfl

theorem moves_driveLevel (timer : HpetTimer) (legacy : Bool) (idx : Nat) (assert : Bool) :
    Moves (timer.driveLevel (timer.gsi legacy idx) assert).2 (timer.line legacy idx)
      ((timer.driveLevel (timer.gsi legacy idx) assert).1.line legacy idx) := by
  cases hasserted : timer.irqAsserted <;> cases assert <;>
    simp [driveLevel, line, hasserted]
  · exact .nil
  · exact .raise
  · exact .lower
  · exact .nil

theorem moves_lowerIfAsserted (timer : HpetTimer) (legacy legacy' : Bool) (idx : Nat) :
    Moves (timer.lowerIfAsserted (timer.gsi legacy idx)).2 (timer.line legacy idx)
      ((timer.lowerIfAsserted (timer.gsi legacy idx)).1.line legacy' idx) := by
  cases hasserted : timer.irqAsserted <;>
    simp [lowerIfAsserted, line, hasserted]
  · exact .nil
  · exact .lower

theorem moves_fire (timer : HpetTimer) (legacy : Bool) (idx : Nat) :
    Moves (timer.fire (timer.gsi legacy idx)).2 (timer.line legacy idx)
      ((timer.fire (timer.gsi legacy idx)).1.line legacy idx) := by
  rw [fire]
  split
  · cases hasserted : timer.irqAsserted <;>
      simp [line, hasserted]
    · exact .raise
    · exact .nil
  · exact .pulse

theorem fire_config (timer : HpetTimer) (gsi : U32) : (timer.fire gsi).1.config = timer.config := by
  rw [fire]
  split
  · split <;> rfl
  · rfl

theorem fire_irqAsserted (timer : HpetTimer) (gsi : U32) :
    (timer.fire gsi).1.irqAsserted = (timer.isLevelTriggered || timer.irqAsserted) := by
  rw [fire]
  cases hlevel : timer.isLevelTriggered
  · rfl
  · cases hasserted : timer.irqAsserted <;> simp [hasserted]

theorem rearm_config (timer : HpetTimer) (mainCounter : U64) :
    (timer.rearm mainCounter).config = timer.config := by
  rw [rearm]
  split <;> rfl

theorem rearm_irqAsserted (timer : HpetTimer) (mainCounter : U64) :
    (timer.rearm mainCounter).irqAsserted = timer.irqAsserted := by
  rw [rearm]
  split <;> rfl

end Timer

-- The timer may hold its line only if it could be asserted at all.
def HpetTimer.Weak (self : HpetTimer) : Prop :=
  self.irqAsserted = true → self.intEnabled = true ∧ self.isLevelTriggered = true

structure Serviced (legacy : Bool) (idx : Nat) (status : U64) (timer : HpetTimer)
    (r : U64 × HpetTimer × List GsiEvent) : Prop where
  config : r.2.1.config = timer.config
  moves : Moves r.2.2 (timer.line legacy idx) (r.2.1.line legacy idx)
  asserted : r.2.1.irqAsserted = (timer.intEnabled && timer.isLevelTriggered && r.1.getLsbD (idx % 64))
  status : r.1 = status ∨ timer.intEnabled = true ∧ r.1 = status ||| statusBit idx

theorem intEnabled_congr {timer' : HpetTimer} (h : timer'.config = timer.config) :
    timer'.intEnabled = timer.intEnabled := by
  rw [intEnabled, intEnabled, h]

theorem isLevelTriggered_congr {timer' : HpetTimer} (h : timer'.config = timer.config) :
    timer'.isLevelTriggered = timer.isLevelTriggered := by
  rw [isLevelTriggered, isLevelTriggered, h]

theorem gsi_congr {timer' : HpetTimer} (h : timer'.config = timer.config) :
    timer'.gsi legacy idx = timer.gsi legacy idx := by
  rw [gsi, gsi, route, route, h]

-- The line follows the status bit before the comparator is looked at.
theorem syncedLevel (legacy : Bool) (idx : Nat) (status : U64) (hweak : timer.Weak) :
    let r := if timer.isLevelTriggered ∧ timer.intEnabled then
        timer.driveLevel (timer.gsi legacy idx) (status &&& statusBit idx != 0)
      else
        (timer, [])
    r.1 = { timer with irqAsserted :=
        timer.intEnabled && timer.isLevelTriggered && status.getLsbD (idx % 64) } ∧
      Moves r.2 (timer.line legacy idx) (r.1.line legacy idx) := by
  intro r
  by_cases hlevel : timer.isLevelTriggered = true ∧ timer.intEnabled = true
  · simp only [r, if_pos hlevel]
    refine ⟨?_, moves_driveLevel timer legacy idx _⟩
    rw [driveLevel_fst, and_statusBit, hlevel.1, hlevel.2]
    rfl
  · simp only [r, if_neg hlevel]
    refine ⟨?_, .nil⟩
    have hoff : timer.irqAsserted = false := by
      rw [Bool.eq_false_iff]
      intro hasserted
      exact hlevel (hweak hasserted).symm
    have hcond : (timer.intEnabled && timer.isLevelTriggered && status.getLsbD (idx % 64)) = false := by
      rw [Bool.eq_false_iff]
      intro hall
      rw [Bool.and_eq_true, Bool.and_eq_true] at hall
      exact hlevel hall.1.symm
    rw [hcond, ← hoff]

theorem serviced (hweak : timer.Weak) :
    Serviced legacy idx status timer
      (serviceTimer legacy mainCounter idx status timer) := by
  obtain ⟨heq, hmoves⟩ := syncedLevel legacy idx status hweak
  simp only [serviceTimer]
  generalize (if timer.isLevelTriggered ∧ timer.intEnabled then
      timer.driveLevel (timer.gsi legacy idx) (status &&& statusBit idx != 0)
    else
      (timer, [])) = r at heq hmoves
  obtain ⟨timer₁, evs⟩ := r
  simp only at heq hmoves ⊢
  have hconfig : timer₁.config = timer.config := by rw [heq]
  have hasserted : timer₁.irqAsserted =
      (timer.intEnabled && timer.isLevelTriggered && status.getLsbD (idx % 64)) := by rw [heq]
  have hquiet : Serviced legacy idx status timer (status, timer₁, evs) :=
    ⟨hconfig, hmoves, hasserted, .inl rfl⟩
  split
  · exact hquiet
  split
  · exact hquiet
  split
  · exact hquiet
  case isFalse.isFalse.isFalse hint _ _ =>
    have hint' : timer.intEnabled = true := by
      rw [not_not] at hint
      rw [← hint, intEnabled_congr hconfig]
    have hfire := moves_fire timer₁ legacy idx
    rw [gsi_congr hconfig] at hfire
    have hfired := fire_config timer₁ (timer.gsi legacy idx)
    refine ⟨(rearm_config ..).trans (hfired.trans hconfig), hmoves.append ?_, ?_, .inr ⟨hint', rfl⟩⟩
    · rw [line_congr (rearm_config ..) (rearm_irqAsserted ..)]
      exact hfire
    · simp only [rearm_irqAsserted, fire_irqAsserted, isLevelTriggered_congr hconfig,
        getLsbD_or_statusBit, hasserted, hint']
      cases timer.isLevelTriggered <;> simp

structure ServicedAll (legacy : Bool) (idx : Nat) (status : U64) (timers : List HpetTimer)
    (r : U64 × List HpetTimer × List GsiEvent) : Prop where
  config : r.2.1.map (·.config) = timers.map (·.config)
  moves : Moves r.2.2 (lines legacy idx timers) (lines legacy idx r.2.1)
  asserted : ∀ i timer, r.2.1[i]? = some timer → timer.irqAsserted =
    (timer.intEnabled && timer.isLevelTriggered && r.1.getLsbD ((idx + i) % 64))
  status : ∀ j < idx, j < 64 → r.1.getLsbD j = status.getLsbD j

-- A timer whose interrupt can be enabled has registers.
def Reachable (idx : Nat) (timers : List HpetTimer) : Prop :=
  ∀ i timer, timers[i]? = some timer → timer.intEnabled = true → idx + i < 24

theorem servicedAll (hweak : ∀ timer ∈ timers, timer.Weak) (hreach : Reachable idx timers) :
    ServicedAll legacy idx status timers
      (serviceFrom legacy mainCounter idx status timers) := by
  induction timers generalizing idx status
  case nil => exact ⟨rfl, .nil, fun i timer h => (by cases h), fun _ _ _ => rfl⟩
  case cons timer timers ih =>
    obtain ⟨hweak₀, hweak⟩ := forall_mem_cons.mp hweak
    have hreach₀ := hreach 0 timer rfl
    have hreach : Reachable (idx + 1) timers := by
      intro i timer' hi hint
      have := hreach (i + 1) timer' hi hint
      omega
    have hs : Serviced legacy idx status timer
        (serviceTimer legacy mainCounter idx status timer) := serviced hweak₀
    rw [serviceFrom]
    generalize serviceTimer legacy mainCounter idx status timer = r at hs
    obtain ⟨status₁, timer₁, evs₁⟩ := r
    have hrest : ServicedAll legacy (idx + 1) status₁ timers
        (serviceFrom legacy mainCounter (idx + 1) status₁ timers) := ih hweak hreach
    simp only
    generalize serviceFrom legacy mainCounter (idx + 1) status₁ timers = r at hrest
    refine ⟨?_, hs.moves.both hrest.moves, ?_, ?_⟩
    · rw [map_cons, map_cons, hs.config, hrest.config]
    · intro i timer' hi
      cases i
      case zero =>
        cases hi
        rw [hs.asserted, intEnabled_congr hs.config, isLevelTriggered_congr hs.config, Nat.add_zero]
        cases hint : timer.intEnabled
        · rfl
        · have hlt := hreach₀ hint
          rw [Nat.mod_eq_of_lt (by omega : idx < 64), hrest.status idx (by omega) (by omega)]
      case succ i =>
        have := hrest.asserted i timer' hi
        rwa [show idx + 1 + i = idx + (i + 1) by omega] at this
    · intro j hj hlt
      rw [hrest.status j (by omega) hlt]
      have hstatus : status₁ = status ∨ timer.intEnabled = true ∧ status₁ = status ||| statusBit idx :=
        hs.status
      obtain heq | ⟨hint, heq⟩ := hstatus
      · rw [heq]
      · have := hreach₀ hint
        rw [heq, getLsbD_or_statusBit, decide_eq_false (by omega), Bool.or_false]

namespace Hpet

variable {h : Hpet}

def drives (self : Hpet) (idx : Nat) (timer : HpetTimer) : Bool :=
  self.enabled && timer.intEnabled && timer.isLevelTriggered &&
    self.generalIntStatus &&& statusBit idx != 0

def heldLines (self : Hpet) : Multiset U32 :=
  lines self.legacy 0 self.timers

-- Between the steps of a call.
structure Quiet (h : Hpet) : Prop where
  weak : ∀ timer ∈ h.timers, timer.Weak
  off : h.enabled = false → ∀ timer ∈ h.timers, timer.irqAsserted = false
  reachable : Reachable 0 h.timers

structure Settled (h : Hpet) : Prop where
  asserted : ∀ i timer, h.timers[i]? = some timer → timer.irqAsserted = h.drives i timer
  reachable : Reachable 0 h.timers

theorem Settled.quiet (hs : h.Settled) : h.Quiet := by
  refine ⟨fun timer hmem hasserted => ?_, fun hoff timer hmem => ?_, hs.reachable⟩
  · obtain ⟨i, hi⟩ := getElem?_of_mem hmem
    rw [hs.asserted i timer hi, drives] at hasserted
    simp only [Bool.and_eq_true] at hasserted
    exact ⟨hasserted.1.1.2, hasserted.1.2⟩
  · obtain ⟨i, hi⟩ := getElem?_of_mem hmem
    rw [hs.asserted i timer hi, drives, hoff]
    rfl

structure Keeps (P : Hpet → Prop) (h : Hpet) (r : Hpet × List GsiEvent) : Prop where
  state : P r.1
  moves : Moves r.2 h.heldLines r.1.heldLines

theorem reachable_of_config (h : timers'.map (·.config) = timers.map (·.config))
    (hreach : Reachable idx timers) : Reachable idx timers' := by
  intro i timer' hi hint
  have hget := congrArg (·[i]?) h
  simp only [getElem?_map, hi] at hget
  obtain ⟨timer, htimer, hconfig⟩ := Option.map_eq_some_iff.mp hget.symm
  exact hreach i timer htimer (by rw [← hint, intEnabled_congr hconfig])

theorem serviceTimers_settled (hq : h.Quiet) : Keeps Settled h h.serviceTimers := by
  rw [serviceTimers]
  cases hen : h.enabled
  case false =>
    rw [if_neg Bool.false_ne_true]
    refine ⟨⟨fun i timer hi => ?_, hq.reachable⟩, .nil⟩
    rw [hq.off hen timer (mem_of_getElem? hi), drives, hen]
    rfl
  case true =>
    rw [if_pos rfl]
    have hs : ServicedAll h.legacy 0 h.generalIntStatus h.timers
        (serviceFrom h.legacy h.mainCounter 0 h.generalIntStatus h.timers) :=
      servicedAll hq.weak hq.reachable
    generalize serviceFrom h.legacy h.mainCounter 0 h.generalIntStatus h.timers = r at hs
    obtain ⟨status, timers, evs⟩ := r
    refine ⟨⟨fun i timer hi => ?_, reachable_of_config hs.config hq.reachable⟩, hs.moves⟩
    rw [hs.asserted i timer hi, drives, and_statusBit, Nat.zero_add]
    have hen' : enabled { h with generalIntStatus := status, timers := timers } = true := hen
    rw [hen', Bool.true_and]

end Hpet

end Aero.Devices
