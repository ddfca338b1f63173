import Aero.Interrupts.IoApic
import Aero.Interrupts.Theorems.LocalApic

namespace Aero.Interrupts

open List

abbrev KeepAll (ended : List U8) (lapics lapics' : List LapicState) : Prop :=
  List.Forall₂ (LapicState.Keeps ended) lapics lapics'

namespace KeepAll

theorem refl (lapics : List LapicState) : KeepAll ended lapics lapics :=
  forall₂_same.mpr fun l _ => .refl l

theorem map (hg : ∀ l : LapicState, l.Keeps ended (g l)) : KeepAll ended lapics (lapics.map g) :=
  forall₂_map_right_iff.mpr (forall₂_same.mpr fun l _ => hg l)

theorem modify (hg : ∀ l : LapicState, l.Keeps ended (g l)) (cpu : Nat) :
    KeepAll ended lapics (lapics.modify cpu g) := by
  induction lapics generalizing cpu with
  | nil =>
    rw [modify_nil]
    exact refl []
  | cons l lapics ih =>
    cases cpu with
    | zero => exact .cons (hg l) (refl lapics)
    | succ cpu => exact .cons (.refl l) (ih cpu)

theorem set (hget : lapics[cpu]? = some l) (h : l.Keeps ended l') :
    KeepAll ended lapics (lapics.set cpu l') := by
  induction lapics generalizing cpu with
  | nil => cases hget
  | cons l₀ lapics ih =>
    cases cpu with
    | zero =>
      cases hget
      exact .cons h (refl lapics)
    | succ cpu => exact .cons (.refl l₀) (ih hget)

theorem exists_mem (h : KeepAll ended lapics lapics') (hl : l ∈ lapics) :
    ∃ l' ∈ lapics', l.Keeps ended l' := by
  induction h with
  | nil => cases hl
  | cons hhead _ ih =>
    cases hl with
    | head => exact ⟨_, .head _, hhead⟩
    | tail _ hl =>
      obtain ⟨l', hl', hk⟩ := ih hl
      exact ⟨l', .tail _ hl', hk⟩

theorem exists_mem_left (h : KeepAll ended lapics lapics') (hl : l' ∈ lapics') :
    ∃ l ∈ lapics, l.Keeps ended l' := by
  induction h with
  | nil => cases hl
  | cons hhead _ ih =>
    cases hl with
    | head => exact ⟨_, .head _, hhead⟩
    | tail _ hl =>
      obtain ⟨l, hl, hk⟩ := ih hl
      exact ⟨l, .tail _ hl, hk⟩

end KeepAll

namespace RedirectionEntry

variable {e : RedirectionEntry} {lapics lapics' : List LapicState}

theorem matchesDestination_of_retains (h : l.Retains ended l') :
    e.matchesDestination l' = e.matchesDestination l := by
  rw [matchesDestination, h.matchesLogicalDest, h.id, ← matchesDestination]

def Received (e : RedirectionEntry) (lapics : List LapicState) : Prop :=
  ∃ l ∈ lapics, e.matchesDestination l = true ∧ l.enabled = true

instance decidableReceived : Decidable (e.Received lapics) :=
  inferInstanceAs (Decidable (∃ l ∈ lapics, _))

theorem received_congr (h : KeepAll ended lapics lapics') :
    e.Received lapics' ↔ e.Received lapics := by
  constructor
  · rintro ⟨l', hl', hm, he⟩
    obtain ⟨l, hl, hk⟩ := h.exists_mem_left hl'
    exact ⟨l, hl, (matchesDestination_of_retains hk.toRetains).symm.trans hm,
      hk.enabled.symm.trans he⟩
  · rintro ⟨l, hl, hm, he⟩
    obtain ⟨l', hl', hk⟩ := h.exists_mem hl
    exact ⟨l', hl', (matchesDestination_of_retains hk.toRetains).trans hm, hk.enabled.trans he⟩

def Reaches (e : RedirectionEntry) (lapics : List LapicState) : Prop :=
  ∃ l ∈ lapics, e.matchesDestination l = true

theorem Received.reaches (h : e.Received lapics) : e.Reaches lapics := by
  obtain ⟨l, hl, hm, -⟩ := h
  exact ⟨l, hl, hm⟩

end RedirectionEntry

namespace IoApic

variable {a : IoApic n}

@[simp]
theorem setEntry_redirection_self : (a.setEntry gsi e).redirection gsi = e :=
  Function.update_self _ _ _

theorem setEntry_redirection_of_ne (h : i ≠ gsi) :
    (a.setEntry gsi e).redirection i = a.redirection i :=
  Function.update_of_ne h _ _

@[simp]
theorem setPin_pinLevel_self : (a.setPin gsi raw).pinLevel gsi = raw :=
  Function.update_self _ _ _

theorem setPin_pinLevel_of_ne (h : i ≠ gsi) : (a.setPin gsi raw).pinLevel i = a.pinLevel i :=
  Function.update_of_ne h _ _

end IoApic

namespace Fabric

open RedirectionEntry

variable {n : Nat} {f : Fabric n} {now : Nat} {gsi i j : Fin n} {e : RedirectionEntry}
variable {lapics : List LapicState}

theorem endAll_redirection_of_ends {vector : U8} (h : ends vector (a.redirection i)) :
    (endAll a vector).redirection i = { a.redirection i with remoteIrr := false } :=
  if_pos h

theorem endAll_redirection_of_not_ends {vector : U8} (h : ¬ ends vector (a.redirection i)) :
    (endAll a vector).redirection i = a.redirection i :=
  if_neg h

theorem lowestPriority_eq_none_iff : lowestPriority e lapics = none ↔ ¬ e.Reaches lapics := by
  rw [lowestPriority, List.argmin_eq_none, List.filter_eq_nil_iff]
  constructor
  · rintro h ⟨l, hl, hm⟩
    obtain ⟨cpu, hcpu⟩ := List.getElem?_of_mem hl
    have hlt := (List.getElem?_eq_some_iff.mp hcpu).1
    exact h cpu (List.mem_range.mpr hlt) (by rw [hcpu]; exact hm)
  · intro h cpu _ hany
    obtain ⟨l, hl, hm⟩ := (Option.any_eq_true _ _).mp hany
    exact h ⟨l, List.mem_of_getElem? hl, hm⟩

theorem injectExternalInterrupt_keeps {routed : Bool} {vector : U8} {l : LapicState} :
    l.Keeps [] (injectExternalInterrupt routed now vector l) := by
  rw [injectExternalInterrupt]
  split
  · exact LapicState.injectFixedInterrupt_keeps
  · exact .refl l

theorem injectAll_keeps : KeepAll [] f.lapics (f.injectAll now e).1 := by
  rw [injectAll]
  split
  · split
    · exact .modify (fun _ => injectExternalInterrupt_keeps) _
    · exact .refl _
  · refine .map fun l => ?_
    split
    · exact injectExternalInterrupt_keeps
    · exact .refl l

theorem injectAll_delivered : (f.injectAll now e).2 = true ↔ e.Reaches f.lapics := by
  rw [injectAll]
  split
  · cases h : lowestPriority e f.lapics
    case none => simpa using lowestPriority_eq_none_iff.mp h
    case some cpu =>
      have hne : lowestPriority e f.lapics ≠ none := by simp [h]
      simpa using not_not.mp (mt lowestPriority_eq_none_iff.mpr hne)
  · exact any_eq_true

theorem injectAll_holds (hrouted : f.routed = true) (hfixed : e.deliveryMode = 0)
    (hl : l ∈ f.lapics) (hm : e.matchesDestination l = true) (he : l.enabled = true) :
    ∃ l' ∈ (f.injectAll now e).1, e.matchesDestination l' = true ∧ l'.Holds e.vector := by
  have hne : e.deliveryMode ≠ 1 := by simp [hfixed]
  have hk : l.Keeps [] (l.injectFixedInterrupt now e.vector) := LapicState.injectFixedInterrupt_keeps
  refine ⟨l.injectFixedInterrupt now e.vector, ?_,
    (matchesDestination_of_retains hk.toRetains).trans hm, LapicState.injectFixedInterrupt_holds he⟩
  rw [injectAll, if_neg hne, hrouted]
  refine mem_map.mpr ⟨l, hl, ?_⟩
  rw [if_pos hm, injectExternalInterrupt, if_pos rfl]

-- The entries for which a delivery sets Remote-IRR.
def Locks (e : RedirectionEntry) (lapics : List LapicState) : Prop :=
  e.deliveryMode ≤ 1 ∧ e.triggerMode = .level ∧ e.Reaches lapics

theorem deliver_lapics : KeepAll [] f.lapics (f.deliver now gsi).lapics := by
  rw [deliver]
  dsimp only
  split
  · exact .refl _
  split <;> exact injectAll_keeps

theorem deliver_pinLevel : (f.deliver now gsi).ioapic.pinLevel = f.ioapic.pinLevel := by
  rw [deliver]
  dsimp only
  split
  · rfl
  split <;> rfl

theorem deliver_of_locks (h : Locks (f.ioapic.redirection gsi) f.lapics) :
    (f.deliver now gsi).ioapic =
      f.ioapic.setEntry gsi { f.ioapic.redirection gsi with remoteIrr := true } := by
  have hmode : ¬ 1 < (f.ioapic.redirection gsi).deliveryMode := by simpa using h.1
  rw [deliver]
  dsimp only
  rw [if_neg hmode, if_pos ⟨injectAll_delivered.mpr h.2.2, h.2.1⟩]

theorem deliver_lapics_of_locks (h : Locks (f.ioapic.redirection gsi) f.lapics) :
    (f.deliver now gsi).lapics = (f.injectAll now (f.ioapic.redirection gsi)).1 := by
  have hmode : ¬ 1 < (f.ioapic.redirection gsi).deliveryMode := by simpa using h.1
  rw [deliver]
  dsimp only
  rw [if_neg hmode]
  split <;> rfl

theorem deliver_of_not_locks (h : ¬ Locks (f.ioapic.redirection gsi) f.lapics) :
    (f.deliver now gsi).ioapic = f.ioapic := by
  rw [deliver]
  dsimp only
  split
  · rfl
  case isFalse hmode =>
    split
    case isTrue hdel =>
      exact absurd ⟨by simpa using hmode, hdel.2, injectAll_delivered.mp hdel.1⟩ h
    case isFalse => rfl

theorem deliver_redirection_of_ne (h : i ≠ gsi) :
    (f.deliver now gsi).ioapic.redirection i = f.ioapic.redirection i := by
  by_cases hlocks : Locks (f.ioapic.redirection gsi) f.lapics
  · rw [deliver_of_locks hlocks, IoApic.setEntry_redirection_of_ne h]
  · rw [deliver_of_not_locks hlocks]

theorem deliver_redirection_self (hlocks : Locks (f.ioapic.redirection gsi) f.lapics) :
    (f.deliver now gsi).ioapic.redirection gsi =
      { f.ioapic.redirection gsi with remoteIrr := true } := by
  rw [deliver_of_locks hlocks, IoApic.setEntry_redirection_self]

theorem deliver_redirection (i : Fin n) : ∃ b, (f.deliver now gsi).ioapic.redirection i =
    { f.ioapic.redirection i with remoteIrr := b } := by
  by_cases hne : i = gsi
  · subst hne
    by_cases hlocks : Locks (f.ioapic.redirection i) f.lapics
    · exact ⟨true, deliver_redirection_self hlocks⟩
    · exact ⟨_, by rw [deliver_of_not_locks hlocks]⟩
  · exact ⟨_, deliver_redirection_of_ne hne⟩

def SelectsLow (f : Fabric n) (gsi : Fin n) : Prop :=
  f.ioapic.ioregsel.toNat = 0x10 + 2 * gsi.val

def SelectsHigh (f : Fabric n) (gsi : Fin n) : Prop :=
  f.ioapic.ioregsel.toNat = 0x11 + 2 * gsi.val

instance decidableSelectsLow : Decidable (f.SelectsLow gsi) :=
  inferInstanceAs (Decidable (_ = _))

instance decidableSelectsHigh : Decidable (f.SelectsHigh gsi) :=
  inferInstanceAs (Decidable (_ = _))

theorem writeRegister_of_selectsLow (h : f.SelectsLow gsi) :
    f.writeRegister now f.ioapic.ioregsel v = f.writeEntryLow now gsi v := by
  have hidx : (0x10 + 2 * gsi.val - 0x10) / 2 = gsi.val := by omega
  have hne : f.ioapic.ioregsel ≠ 0 := by
    intro h0
    rw [SelectsLow, h0] at h
    simp at h
    omega
  rw [writeRegister, if_neg hne, if_pos (by rw [SelectsLow] at h; omega)]
  rw [SelectsLow] at h
  simp only [h, hidx, gsi.isLt, dite_true]
  rw [if_pos (by omega)]

theorem writeRegister_of_selectsHigh (h : f.SelectsHigh gsi) :
    f.writeRegister now f.ioapic.ioregsel v = f.writeEntryHigh gsi v := by
  have hidx : (0x11 + 2 * gsi.val - 0x10) / 2 = gsi.val := by omega
  have hne : f.ioapic.ioregsel ≠ 0 := by
    intro h0
    rw [SelectsHigh, h0] at h
    simp at h
    omega
  rw [writeRegister, if_neg hne, if_pos (by rw [SelectsHigh] at h; omega)]
  rw [SelectsHigh] at h
  simp only [h, hidx, gsi.isLt, dite_true]
  rw [if_neg (by omega)]

-- Every other register is none of the redirection table.
theorem writeRegister_of_not_selects (hlow : ∀ gsi, ¬ f.SelectsLow gsi)
    (hhigh : ∀ gsi, ¬ f.SelectsHigh gsi) :
    ∃ id, f.writeRegister now f.ioapic.ioregsel v = { f with ioapic := { f.ioapic with id } } := by
  rw [writeRegister]
  split
  · exact ⟨_, rfl⟩
  split
  case isFalse => exact ⟨f.ioapic.id, rfl⟩
  case isTrue hreg =>
    dsimp only
    split
    case isFalse => exact ⟨f.ioapic.id, rfl⟩
    case isTrue hlt =>
      rcases Nat.mod_two_eq_zero_or_one (f.ioapic.ioregsel.toNat - 0x10) with h2 | h2
      · refine absurd ?_ (hlow ⟨_, hlt⟩)
        rw [SelectsLow]
        dsimp only
        omega
      · refine absurd ?_ (hhigh ⟨_, hlt⟩)
        rw [SelectsHigh]
        dsimp only
        omega

theorem SelectsLow.unique (h : f.SelectsLow i) (h' : f.SelectsLow j) : j = i :=
  Fin.ext (by rw [SelectsLow] at h h'; omega)

theorem SelectsHigh.unique (h : f.SelectsHigh i) (h' : f.SelectsHigh j) : j = i :=
  Fin.ext (by rw [SelectsHigh] at h h'; omega)

theorem SelectsLow.not_selectsHigh (h : f.SelectsLow i) : ¬ f.SelectsHigh j := by
  intro h'
  rw [SelectsLow] at h
  rw [SelectsHigh] at h'
  omega

-- What a write to the window comes to.
inductive WindowWrite (f : Fabric n) (now offset size : Nat) (value : U64) : Fabric n → Prop
  | other (id ioregsel : U8)
      (h : offset = 0x10 → size = 4 → ∀ gsi, ¬ f.SelectsLow gsi ∧ ¬ f.SelectsHigh gsi) :
      WindowWrite f now offset size value { f with ioapic := { f.ioapic with id, ioregsel } }
  | low (gsi : Fin n) (hoffset : offset = 0x10) (hsize : size = 4) (h : f.SelectsLow gsi) :
      WindowWrite f now offset size value (f.writeEntryLow now gsi (value.setWidth 32))
  | high (gsi : Fin n) (hoffset : offset = 0x10) (hsize : size = 4) (h : f.SelectsHigh gsi) :
      WindowWrite f now offset size value (f.writeEntryHigh gsi (value.setWidth 32))

theorem mmioWrite_cases (f : Fabric n) (now offset size : Nat) (value : U64) :
    WindowWrite f now offset size value (f.mmioWrite now offset size value) := by
  rw [mmioWrite]
  split
  case isTrue hsize => exact .other f.ioapic.id f.ioapic.ioregsel fun _ h => absurd h hsize
  case isFalse hsize =>
    split
    case isTrue h0 => exact .other f.ioapic.id _ fun h => absurd (h0.symm.trans h) (by decide)
    split
    case isFalse h10 => exact .other f.ioapic.id f.ioapic.ioregsel fun h => absurd h h10
    case isTrue h10 =>
      by_cases hlow : ∃ gsi, f.SelectsLow gsi
      · obtain ⟨gsi, hlow⟩ := hlow
        rw [writeRegister_of_selectsLow hlow]
        exact .low gsi h10 (not_not.mp hsize) hlow
      by_cases hhigh : ∃ gsi, f.SelectsHigh gsi
      · obtain ⟨gsi, hhigh⟩ := hhigh
        rw [writeRegister_of_selectsHigh hhigh]
        exact .high gsi h10 (not_not.mp hsize) hhigh
      · rw [not_exists] at hlow hhigh
        obtain ⟨id, hid⟩ := writeRegister_of_not_selects hlow hhigh
        rw [hid]
        exact .other id f.ioapic.ioregsel fun _ _ gsi => ⟨hlow gsi, hhigh gsi⟩

end Fabric

end Aero.Interrupts
