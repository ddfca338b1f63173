import Aero.Devices.Pit8254
import Mathlib.Logic.Function.Basic

namespace Aero.Devices

theorem div_carry {n : Nat} (hn : 0 < n) (x y : Nat) :
    x / n + (x % n + y) / n = (x + y) / n ∧ (x % n + y) % n = (x + y) % n := by
  refine ⟨?_, Nat.mod_add_mod ..⟩
  rw [← Nat.mul_add_div hn, ← Nat.add_assoc, Nat.div_add_mod]

namespace Channel

def period (self : Channel) : Option Nat :=
  self.effectiveReload.map fun reload => if self.mode = 3 then squareReload reload else reload

def InPeriod (self : Channel) : Prop :=
  ∀ n ∈ self.period, self.phaseTicks < n

theorem period_pos {self : Channel} (h : n ∈ self.period) : 0 < n := by
  obtain ⟨reload, hreload, rfl⟩ := Option.map_eq_some_iff.mp h
  rw [effectiveReload] at hreload
  split_ifs at hreload with hzero
  cases hreload
  simp only [squareReload]
  split_ifs <;> omega

theorem advanceTicks_eq (self : Channel) (ticks : Nat) : self.advanceTicks ticks =
    match self.period with
    | some n =>
      if self.mode = 2 ∨ self.mode = 3 then
        ({ self with phaseTicks := (self.phaseTicks + ticks) % n }, (self.phaseTicks + ticks) / n)
      else (self, 0)
    | none => (self, 0) := by
  rw [advanceTicks, period]
  cases self.effectiveReload <;> rfl

theorem advanceTicks_add (self : Channel) (a b : Nat) :
    ((self.advanceTicks a).1.advanceTicks b).1 = (self.advanceTicks (a + b)).1 ∧
      (self.advanceTicks a).2 + ((self.advanceTicks a).1.advanceTicks b).2 =
        (self.advanceTicks (a + b)).2 := by
  cases hperiod : self.period
  case none => simp only [advanceTicks_eq, hperiod, and_self]
  case some n =>
    by_cases hmode : self.mode = 2 ∨ self.mode = 3
    case neg => simp only [advanceTicks_eq, hperiod, if_neg hmode, and_self]
    case pos =>
      obtain ⟨hdiv, hmod⟩ := div_carry (period_pos hperiod) (self.phaseTicks + a) b
      have hkeep (ticks : Nat) : { self with phaseTicks := ticks }.period = some n := hperiod
      simp only [advanceTicks_eq, hperiod, hkeep, if_pos hmode, hdiv, hmod, Nat.add_assoc, and_self]

theorem InPeriod.of_zero {self : Channel} (h : self.phaseTicks = 0) : self.InPeriod :=
  fun _ hn => h ▸ period_pos hn

section

variable {self : Channel} (h : self.InPeriod)
include h

theorem InPeriod.advanceTicks (ticks : Nat) : (self.advanceTicks ticks).1.InPeriod := by
  rw [advanceTicks_eq]
  split
  case h_1 n hperiod =>
    split
    case isTrue =>
      intro m hm
      cases hperiod.symm.trans hm
      exact Nat.mod_lt _ (period_pos hperiod)
    case isFalse => exact h
  case h_2 => exact h

theorem InPeriod.latchCount : self.latchCount.InPeriod := by
  rw [Channel.latchCount]
  split <;> exact h

theorem InPeriod.latchStatus : self.latchStatus.InPeriod := by
  rw [Channel.latchStatus]
  split <;> exact h

theorem InPeriod.readData : self.readData.1.InPeriod := by
  rw [Channel.readData]
  split
  · exact h
  · split
    · split <;> exact h
    · exact h
    · exact h

theorem InPeriod.writeData (val : Nat) : (self.writeData val).InPeriod := by
  rw [Channel.writeData]
  split
  · exact .of_zero rfl
  · exact .of_zero rfl
  · exact .of_zero rfl
  · split
    · exact h
    · exact .of_zero rfl

end

end Channel

namespace Pit8254

theorem saturating_add_add (x m n max : Nat) :
    min (min (x + m) max + n) max = min (x + (m + n)) max := by
  omega

theorem advanceNs_add (self : Pit8254) (a b : Nat) :
    ((self.advanceNs a).1.advanceNs b).1 = (self.advanceNs (a + b)).1 ∧
      (self.advanceNs a).2 + ((self.advanceNs a).1.advanceNs b).2 = (self.advanceNs (a + b)).2 := by
  have hpos : 0 < nsPerSec := by decide
  obtain ⟨hdiv, hmod⟩ := div_carry hpos (self.nsRemainder + a * pitHz) (b * pitHz)
  rw [Nat.add_assoc, ← Nat.add_mul] at hdiv hmod
  have h (channel : Fin 3) := hdiv ▸ (self.channels channel).advanceTicks_add
    ((self.nsRemainder + a * pitHz) / nsPerSec)
    (((self.nsRemainder + a * pitHz) % nsPerSec + b * pitHz) / nsPerSec)
  refine ⟨(mk.injEq ..).mpr ⟨funext fun channel => (h channel).1, hmod, ?_⟩, (h 0).2⟩
  change _ = min (self.irq0Pulses + _) _
  rw [← (h 0).2]
  exact saturating_add_add ..

def InPeriod (self : Pit8254) : Prop :=
  ∀ channel, (self.channels channel).InPeriod

section

variable {self : Pit8254} (h : self.InPeriod)
include h

theorem InPeriod.modify (channel : Fin 3) {f : Channel → Channel}
    (hf : ∀ c : Channel, c.InPeriod → (f c).InPeriod) : (self.modify channel f).InPeriod := by
  intro other
  change (Function.update self.channels channel (f (self.channels channel)) other).InPeriod
  by_cases heq : other = channel
  · subst heq
    rw [Function.update_self]
    exact hf _ (h other)
  · rw [Function.update_of_ne heq]
    exact h other

theorem InPeriod.writeControl (val : Nat) : (self.writeControl val).InPeriod := by
  rw [Pit8254.writeControl]
  split
  · dsimp only
    split
    · exact h.modify _ fun _ hc => hc.latchCount
    · exact h.modify _ fun _ _ => .of_zero rfl
  · intro channel
    have hlatched := (h channel).latchCount
    dsimp only
    split
    · exact h channel
    · split <;> split
      · exact h channel
      · exact hlatched
      · exact (h channel).latchStatus
      · exact hlatched.latchStatus

theorem InPeriod.portReadU8 (port : Nat) : (self.portReadU8 port).1.InPeriod := by
  rw [Pit8254.portReadU8]
  split
  · exact h.modify _ fun _ hc => hc.readData
  · exact h

theorem InPeriod.portWriteU8 (port : Nat) (val : U8) : (self.portWriteU8 port val).InPeriod := by
  rw [Pit8254.portWriteU8]
  split
  · exact h.modify _ fun _ hc => hc.writeData _
  · split
    · exact h.writeControl _
    · exact h

end

theorem InPeriod.readBytes {self : Pit8254} (h : self.InPeriod) (port n : Nat) :
    (self.readBytes port n).1.InPeriod := by
  induction n generalizing self
  case zero => exact h
  case succ n ih => exact ih (h.portReadU8 port)

theorem InPeriod.step {self : Pit8254} (h : self.InPeriod) (op : Op) : (self.step op).InPeriod := by
  cases op
  case read port size => exact h.readBytes port _
  case write port size val =>
    exact List.foldlRecOn _ _ h fun _ hself byte _ => hself.portWriteU8 port byte
  case advance ns => exact fun channel => (h channel).advanceTicks _
  case takePulses => exact h
  case reset => exact fun _ => .of_zero rfl

theorem run_inPeriod (ops : List Op) : (run ops).InPeriod :=
  List.foldlRecOn _ _ (fun _ => .of_zero rfl) fun _ hself op _ => hself.step op

theorem advanceNs_additive (ops : List Op) (a b : Nat) :
    (((run ops).advanceNs a).1.advanceNs b).1 = ((run ops).advanceNs (a + b)).1 ∧
      ((run ops).advanceNs a).2 + (((run ops).advanceNs a).1.advanceNs b).2 =
        ((run ops).advanceNs (a + b)).2 ∧
      ∀ channel, ∀ n ∈ ((run ops).channels channel).period,
        ((run ops).channels channel).phaseTicks < n :=
  ⟨(advanceNs_add ..).1, (advanceNs_add ..).2, run_inPeriod ops⟩

-- In mode 3 a count of one runs as a count of two.
theorem phaseTicks_of_count_one :
    ∃ ops, ((run ops).channels 0).effectiveReload = some 1 ∧ ((run ops).channels 0).phaseTicks = 1 :=
  ⟨[.write pitCmd 1 0x16, .write pitCh0 1 1, .advance 1000], by decide⟩

end Pit8254

end Aero.Devices
