import Aero.Interrupts.System
import Aero.Interrupts.Theorems.IoApic
import Aero.Lib.Runs

namespace Aero.Interrupts

open LapicState IoApic

namespace RedirectionEntry

-- The entry asks for an interrupt at the raw level `raw` of its pin, and a LAPIC would take it.
def Due (e : RedirectionEntry) (raw : Bool) (lapics : List LapicState) : Prop :=
  e.mask = false ∧ e.triggerMode = .level ∧ e.deliveryMode ≤ 1 ∧ e.interpretLevel raw = true ∧
    e.Received lapics

variable {e : RedirectionEntry} {raw : Bool} {lapics lapics' : List LapicState}

instance decidableDue : Decidable (e.Due raw lapics) :=
  inferInstanceAs (Decidable (_ ∧ _))

theorem due_congr (h : KeepAll ended lapics lapics') : e.Due raw lapics' ↔ e.Due raw lapics := by
  rw [Due, received_congr h, ← Due]

theorem due_remoteIrr : { e with remoteIrr := b }.Due raw lapics ↔ e.Due raw lapics :=
  Iff.rfl

theorem Due.locks (h : e.Due raw lapics) : Fabric.Locks e lapics :=
  ⟨h.2.2.1, h.2.1, h.2.2.2.2.reaches⟩

end RedirectionEntry

namespace Fabric

open RedirectionEntry Runs

variable {n : Nat} {f : Fabric n} {gsi i : Fin n} {gs : List (Fin n)}
variable {vector : U8}

def DueAt (f : Fabric n) (gsi : Fin n) : Prop :=
  (f.ioapic.redirection gsi).Due (f.ioapic.pinLevel gsi) f.lapics

def DeliveredBut (gs : List (Fin n)) (f : Fabric n) : Prop :=
  ∀ gsi, gsi ∉ gs → f.DueAt gsi → (f.ioapic.redirection gsi).remoteIrr = true

def Delivered (f : Fabric n) : Prop :=
  ∀ gsi, f.DueAt gsi → (f.ioapic.redirection gsi).remoteIrr = true

theorem deliveredBut_nil : DeliveredBut [] f ↔ f.Delivered := by
  simp [DeliveredBut, Delivered]

theorem Delivered.but (h : f.Delivered) : DeliveredBut gs f :=
  fun gsi _ => h gsi

theorem DeliveredBut.of_not_due (h : DeliveredBut [gsi] f) (hdue : ¬ f.DueAt gsi) :
    f.Delivered := by
  intro i hi
  by_cases hne : i = gsi
  · exact absurd (hne ▸ hi) hdue
  · exact h i (by simpa using hne) hi

theorem Delivered.keepAll (h : f.Delivered) {lapics : List LapicState}
    (hk : KeepAll ended f.lapics lapics) : { f with lapics }.Delivered :=
  fun gsi hdue => h gsi ((due_congr hk).mp hdue)

theorem dueAt_deliver : (f.deliver now gsi).DueAt i ↔ f.DueAt i := by
  rw [DueAt, DueAt, deliver_pinLevel, due_congr deliver_lapics]
  by_cases hne : i = gsi
  · subst hne
    by_cases hlocks : Locks (f.ioapic.redirection i) f.lapics
    · rw [deliver_redirection_self hlocks, due_remoteIrr]
    · rw [deliver_of_not_locks hlocks]
  · rw [deliver_redirection_of_ne hne]

theorem deliver_delivered (h : DeliveredBut (gsi :: gs) f) :
    DeliveredBut gs (f.deliver now gsi) := by
  intro i hi hdue
  have hdue' := dueAt_deliver.mp hdue
  by_cases hne : i = gsi
  · subst hne
    rw [deliver_redirection_self hdue'.locks]
  · rw [deliver_redirection_of_ne hne]
    exact h i (by simp [hne, hi]) hdue'

theorem deliverAll_delivered (h : DeliveredBut gs f) :
    (gs.foldl (fun f gsi => f.deliver now gsi) f).Delivered := by
  induction gs generalizing f with
  | nil => exact deliveredBut_nil.mp h
  | cons gsi gs ih => exact ih (deliver_delivered h)

theorem maybeDeliverLevel_delivered (h : DeliveredBut [gsi] f) :
    (f.maybeDeliverLevel now gsi).Delivered := by
  rw [maybeDeliverLevel]
  split
  case isTrue hedge => exact h.of_not_due fun hdue => hedge hdue.2.1
  split
  case isTrue hblocked =>
    intro i hi
    by_cases hne : i = gsi
    · subst hne
      have hasserted : f.ioapic.asserted i = true := hi.2.2.2.1
      simpa [hi.1, hasserted] using hblocked
    · exact h i (by simpa using hne) hi
  case isFalse => exact deliveredBut_nil.mp (deliver_delivered h)

theorem setIrqLevel_delivered (h : f.Delivered) : (f.setIrqLevel now line level).Delivered := by
  rw [setIrqLevel]
  split
  case isFalse => exact h
  case isTrue hlt =>
    dsimp only
    generalize hraw : (level != f.ioapic.pinActiveLow ⟨line, hlt⟩) = raw
    generalize hgsi : (⟨line, hlt⟩ : Fin n) = gsi
    have hbut : DeliveredBut [gsi] { f with ioapic := f.ioapic.setPin gsi raw } := by
      intro i hi hdue
      have hpin : (f.ioapic.setPin gsi raw).pinLevel i = f.ioapic.pinLevel i :=
        setPin_pinLevel_of_ne (by simpa using hi)
      rw [DueAt, hpin] at hdue
      exact h i hdue
    split
    case h_1 hedge =>
      have hall := hbut.of_not_due fun hdue => absurd (hedge.symm.trans hdue.2.1) (by decide)
      split
      · exact hall
      split
      · exact deliveredBut_nil.mp (deliver_delivered hall.but)
      · exact hall
    case h_2 hlevel =>
      split
      case isTrue hmask =>
        exact hbut.of_not_due fun hdue => absurd (hmask.symm.trans hdue.1) (by decide)
      split
      case isTrue => exact maybeDeliverLevel_delivered hbut
      case isFalse hlow =>
        refine hbut.of_not_due fun hdue => hlow ?_
        have hasserted := hdue.2.2.2.1
        rwa [setPin_pinLevel_self] at hasserted

theorem dueAt_endAll :
    { f with ioapic := endAll f.ioapic vector }.DueAt i ↔ f.DueAt i := by
  by_cases hends : ends vector (f.ioapic.redirection i)
  · rw [DueAt, endAll_redirection_of_ends hends]
    exact Iff.rfl
  · rw [DueAt, endAll_redirection_of_not_ends hends]
    exact Iff.rfl

section

variable (h : f.Delivered)
include h

theorem notifyEoi_delivered : (f.notifyEoi now vector).Delivered := by
  apply deliverAll_delivered
  intro i hi hdue
  have hdue' := dueAt_endAll.mp hdue
  have hends : ¬ ends vector (f.ioapic.redirection i) := by
    intro hends
    -- a due entry is asserted and unmasked, hence delivered again
    have hasserted : f.ioapic.asserted i = true := hdue'.2.2.2.1
    refine hi (List.mem_filter.mpr ⟨List.mem_finRange i, ?_⟩)
    simp [hends, hasserted, hdue'.1]
  rw [endAll_redirection_of_not_ends hends]
  exact h i hdue'

theorem notifyEois_delivered : (f.notifyEois now vectors).Delivered := by
  induction vectors generalizing f with
  | nil => exact h
  | cons vector vectors ih => exact ih (notifyEoi_delivered h)

theorem lapicEoi_delivered : (f.lapicEoi now cpu).Delivered := by
  rw [lapicEoi]
  split
  case h_1 => exact h
  case h_2 lapic hget =>
    have hk := pollTimer_keeps.trans (eoi_keeps (s := lapic.pollTimer now))
    exact notifyEois_delivered (h.keepAll (.set hget hk))

theorem lapicAck_delivered : (f.lapicAck now cpu vector).Delivered :=
  h.keepAll (.modify (fun _ => pollTimer_keeps.trans ack_keeps) cpu)

theorem setEntry_deliveredBut :
    DeliveredBut [gsi] { f with ioapic := f.ioapic.setEntry gsi e } := by
  intro i hi hdue
  have hother : (f.ioapic.setEntry gsi e).redirection i = f.ioapic.redirection i :=
    setEntry_redirection_of_ne (by simpa using hi)
  rw [DueAt, hother] at hdue
  rw [hother]
  exact h i hdue

theorem setEntry_delivered_iff (gsi : Fin n) (e : RedirectionEntry) :
    { f with ioapic := f.ioapic.setEntry gsi e }.Delivered ↔
      e.remoteIrr = true ∨ ¬ e.Due (f.ioapic.pinLevel gsi) f.lapics := by
  constructor
  · intro hall
    have hgsi := hall gsi
    rw [DueAt, setEntry_redirection_self] at hgsi
    exact or_iff_not_imp_right.mpr fun hdue => hgsi (not_not.mp hdue)
  · intro he i hdue
    by_cases hne : i = gsi
    · subst hne
      rw [DueAt, setEntry_redirection_self] at hdue
      rw [setEntry_redirection_self]
      exact he.resolve_right (not_not.mpr hdue)
    · exact setEntry_deliveredBut h i (by simpa using hne) hdue

-- Only the step from masked to unmasked looks at the pin again.
theorem writeEntryLow_delivered_iff :
    (f.writeEntryLow now gsi v).Delivered ↔
      (f.ioapic.redirection gsi).mask = true ∨ (f.ioapic.redirection gsi).remoteIrr = true ∨
        ¬ ((f.ioapic.redirection gsi).writeLow v).Due (f.ioapic.pinLevel gsi) f.lapics := by
  rw [writeEntryLow]
  generalize hmask : (f.ioapic.redirection gsi).mask = mask
  have hset := setEntry_delivered_iff h gsi ((f.ioapic.redirection gsi).writeLow v)
  cases hmask' : ((f.ioapic.redirection gsi).writeLow v).mask
  case true =>
    have hnot : ¬ ((f.ioapic.redirection gsi).writeLow v).Due (f.ioapic.pinLevel gsi) f.lapics :=
      fun hdue => absurd (hmask'.symm.trans hdue.1) (by decide)
    have hne : maskTransition mask true ≠ .unmasked := by cases mask <;> decide
    rw [if_neg hne]
    exact iff_of_true (hset.mpr (.inr hnot)) (.inr (.inr hnot))
  case false =>
    cases mask
    case true => exact iff_of_true (maybeDeliverLevel_delivered (setEntry_deliveredBut h)) (.inl rfl)
    case false =>
      rw [if_neg (by decide), hset]
      exact ⟨.inr, fun h => h.resolve_left (by decide)⟩

theorem writeEntryHigh_delivered_iff :
    (f.writeEntryHigh gsi v).Delivered ↔
      (f.ioapic.redirection gsi).remoteIrr = true ∨
        ¬ ((f.ioapic.redirection gsi).writeHigh v).Due (f.ioapic.pinLevel gsi) f.lapics :=
  setEntry_delivered_iff h gsi _

end

-- A write to an entry leaves it not due, unless the interrupt is already on its way or the write
-- unmasks the entry.
def Reevaluated (f : Fabric n) : Nat × IoOp → Prop
  | (_, .mmioWrite offset size value) =>
    offset = 0x10 → size = 4 → ∀ gsi : Fin n,
      let e := f.ioapic.redirection gsi
      let raw := f.ioapic.pinLevel gsi
      (f.SelectsLow gsi →
        e.mask = true ∨ e.remoteIrr = true ∨ ¬ (e.writeLow (value.setWidth 32)).Due raw f.lapics) ∧
      (f.SelectsHigh gsi →
        e.remoteIrr = true ∨ ¬ (e.writeHigh (value.setWidth 32)).Due raw f.lapics)
  | _ => True

theorem mmioWrite_delivered_iff (h : f.Delivered) :
    (f.mmioWrite now offset size value).Delivered ↔
      f.Reevaluated (now, .mmioWrite offset size value) := by
  have hcases := mmioWrite_cases f now offset size value
  generalize f.mmioWrite now offset size value = f' at hcases ⊢
  cases hcases with
  | other id ioregsel hother =>
    refine iff_of_true h fun h10 h4 j => ?_
    obtain ⟨hlow, hhigh⟩ := hother h10 h4 j
    exact ⟨fun hj => absurd hj hlow, fun hj => absurd hj hhigh⟩
  | low gsi h10 h4 hlow =>
    rw [writeEntryLow_delivered_iff h]
    constructor
    · intro hgsi _ _ j
      exact ⟨fun hj => hlow.unique hj ▸ hgsi, fun hj => absurd hj hlow.not_selectsHigh⟩
    · intro hall
      exact (hall h10 h4 gsi).1 hlow
  | high gsi h10 h4 hhigh =>
    rw [writeEntryHigh_delivered_iff h]
    constructor
    · intro hgsi _ _ j
      exact ⟨fun hj => absurd hhigh hj.not_selectsHigh, fun hj => hhigh.unique hj ▸ hgsi⟩
    · intro hall
      exact (hall h10 h4 gsi).2 hhigh

theorem stepIo_delivered_iff (h : f.Delivered) (op : Nat × IoOp) :
    (f.stepIo op).Delivered ↔ f.Reevaluated op := by
  obtain ⟨now, op⟩ := op
  cases op with
  | setIrqLevel gsi level => exact iff_of_true (setIrqLevel_delivered h) trivial
  | mmioWrite offset size value => exact mmioWrite_delivered_iff h
  | ack cpu vector => exact iff_of_true (lapicAck_delivered h) trivial
  | eoi cpu => exact iff_of_true (lapicEoi_delivered h) trivial
  | notifyEoi vector => exact iff_of_true (notifyEoi_delivered h) trivial

theorem start_delivered {id : U8} {lapics : List LapicState} : (start n id lapics).Delivered :=
  fun _ hdue => Bool.noConfusion hdue.1

-- Over any run, the due level-triggered interrupts were all delivered exactly if no write to the
-- redirection table made an entry due behind the back of the IOAPIC.
theorem level_interrupts_delivered_iff (n : Nat) (id : U8) (lapics : List LapicState)
    (ops : List (Nat × IoOp)) :
    Always stepIo Delivered (start n id lapics) ops ↔
      Each stepIo Reevaluated (start n id lapics) ops :=
  always_iff_each (fun _ _ (_ : True) => trivial)
    (fun _ op _ h => stepIo_delivered_iff h op) trivial start_delivered

def twoLapics : List LapicState :=
  [{ LapicState.new 0 with svr := 0x1ff }, { LapicState.new 1 with svr := 0x1ff }]

-- The guest unmasks entry 0 as an edge-triggered one and programs it as level-triggered afterwards.
def lateTrigger : List (Nat × IoOp) :=
  [(0, .setIrqLevel 0 true), (0, .mmioWrite 0x00 4 0x10), (0, .mmioWrite 0x10 4 0x0030),
    (0, .mmioWrite 0x10 4 0x8030)]

-- The destination of entry 0 is set to a LAPIC that exists after the entry has been unmasked.
def lateDestination : List (Nat × IoOp) :=
  [(0, .setIrqLevel 0 true), (0, .mmioWrite 0x00 4 0x11), (0, .mmioWrite 0x10 4 0x0500_0000),
    (0, .mmioWrite 0x00 4 0x10), (0, .mmioWrite 0x10 4 0x8030),
    (0, .mmioWrite 0x00 4 0x11), (0, .mmioWrite 0x10 4 0x0100_0000)]

def entryZero (ops : List (Nat × IoOp)) : Bool × Bool :=
  let f := ops.foldl stepIo (start 24 0 twoLapics)
  (decide ((f.ioapic.redirection 0).Due (f.ioapic.pinLevel 0) f.lapics),
    (f.ioapic.redirection 0).remoteIrr)

theorem level_interrupt_lost :
    entryZero lateTrigger = (true, false) ∧ entryZero lateDestination = (true, false) := by
  decide +kernel

end Fabric

end Aero.Interrupts
