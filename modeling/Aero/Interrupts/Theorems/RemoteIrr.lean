import Aero.Interrupts.System
import Aero.Interrupts.Theorems.IoApic
import Aero.Lib.Runs

namespace Aero.Interrupts

open LapicState Reg List IoApic

namespace RedirectionEntry

variable {e : RedirectionEntry} {lapics lapics' : List LapicState}

def Open (e : RedirectionEntry) : Prop :=
  e.remoteIrr = true ∧ e.triggerMode = .level ∧ e.deliveryMode = 0

instance decidableOpen : Decidable e.Open :=
  inferInstanceAs (Decidable (_ ∧ _))

def HeldBy (e : RedirectionEntry) (lapics : List LapicState) : Prop :=
  ∃ l ∈ lapics, e.matchesDestination l = true ∧ l.Holds e.vector

instance decidableHeldBy : Decidable (e.HeldBy lapics) :=
  inferInstanceAs (Decidable (∃ l ∈ lapics, _))

instance decidableReaches : Decidable (e.Reaches lapics) :=
  inferInstanceAs (Decidable (∃ l ∈ lapics, _))

-- A delivery of the entry is not dropped by all its destinations.
def Receptive (e : RedirectionEntry) (lapics : List LapicState) : Prop :=
  e.triggerMode = .level → e.deliveryMode = 0 → e.mask = false → e.Reaches lapics →
    e.Received lapics

instance decidableReceptive : Decidable (e.Receptive lapics) :=
  inferInstanceAs (Decidable (_ → _))

theorem HeldBy.keepAll (h : e.HeldBy lapics) (hk : KeepAll ended lapics lapics')
    (hv : e.vector ∉ ended) : e.HeldBy lapics' := by
  obtain ⟨l, hl, hm, hold⟩ := h
  obtain ⟨l', hl', hkeeps⟩ := hk.exists_mem hl
  exact ⟨l', hl', (matchesDestination_of_retains hkeeps.toRetains).trans hm, hkeeps.holds _ hv hold⟩

theorem HeldBy.set (h : e.HeldBy lapics) (hget : lapics[cpu]? = some l)
    (himp : e.matchesDestination l = true → l.Holds e.vector →
      e.matchesDestination l' = true ∧ l'.Holds e.vector) : e.HeldBy (lapics.set cpu l') := by
  obtain ⟨l₀, hl₀, hm, hold⟩ := h
  obtain ⟨j, hj⟩ := List.getElem?_of_mem hl₀
  by_cases hcpu : cpu = j
  · subst hcpu
    obtain rfl := Option.some.inj (hget.symm.trans hj)
    have hlt := (List.getElem?_eq_some_iff.mp hget).1
    exact ⟨l', List.mem_set hlt l', himp hm hold⟩
  · refine ⟨l₀, List.mem_of_getElem? (i := j) ?_, hm, hold⟩
    rw [List.getElem?_set_ne hcpu, hj]

theorem reaches_congr (h : KeepAll ended lapics lapics') : e.Reaches lapics' → e.Reaches lapics := by
  rintro ⟨l', hl', hm⟩
  obtain ⟨l, hl, hk⟩ := h.exists_mem_left hl'
  exact ⟨l, hl, (matchesDestination_of_retains hk.toRetains).symm.trans hm⟩

theorem Receptive.keepAll (h : e.Receptive lapics) (hk : KeepAll ended lapics lapics') :
    e.Receptive lapics' :=
  fun hlevel hfixed hmask hreach =>
    (received_congr hk).mpr (h hlevel hfixed hmask (reaches_congr hk hreach))

theorem Receptive.remoteIrr (h : e.Receptive lapics) (b : Bool) :
    { e with remoteIrr := b }.Receptive lapics :=
  h

end RedirectionEntry

namespace Fabric

open RedirectionEntry Runs

variable {n : Nat} {f : Fabric n} {now cpu : Nat} {gsi i : Fin n} {gs : List (Fin n)}
variable {vector : U8} {vectors : List U8} {lapics : List LapicState}

def Answered (f : Fabric n) : Prop :=
  ∀ gsi, (f.ioapic.redirection gsi).Open → (f.ioapic.redirection gsi).HeldBy f.lapics

-- The same but for the entries of the vectors that have just been ended; the sinks are LAPICs.
structure Linked (vectors : List U8) (f : Fabric n) : Prop where
  routed : f.routed = true
  held : ∀ gsi, (f.ioapic.redirection gsi).Open → (f.ioapic.redirection gsi).vector ∉ vectors →
    (f.ioapic.redirection gsi).HeldBy f.lapics

theorem Linked.answered (h : Linked [] f) : f.Answered :=
  fun gsi hopen => h.held gsi hopen not_mem_nil

theorem Linked.keepAll (h : Linked [] f) (hk : KeepAll vectors f.lapics lapics) :
    Linked vectors { f with lapics } :=
  ⟨h.routed, fun gsi hopen hv => (h.answered gsi hopen).keepAll hk hv⟩

theorem deliver_routed : (f.deliver now gsi).routed = f.routed := by
  rw [deliver]
  dsimp only
  split
  · rfl
  split <;> rfl

theorem deliver_linked (h : Linked vectors f) (hmask : (f.ioapic.redirection gsi).mask = false)
    (hrec : (f.ioapic.redirection gsi).Receptive f.lapics) :
    Linked vectors (f.deliver now gsi) := by
  refine ⟨deliver_routed.trans h.routed, fun i hopen hv => ?_⟩
  by_cases hlocks : Locks (f.ioapic.redirection gsi) f.lapics
  · by_cases hne : i = gsi
    · subst hne
      rw [deliver_redirection_self hlocks] at hopen hv ⊢
      -- the interrupt gets to an enabled LAPIC
      obtain ⟨l, hl, hm, he⟩ := hrec hlocks.2.1 hopen.2.2 hmask hlocks.2.2
      rw [deliver_lapics_of_locks hlocks]
      exact injectAll_holds h.routed hopen.2.2 hl hm he
    · rw [deliver_redirection_of_ne hne] at hopen hv ⊢
      exact (h.held i hopen hv).keepAll deliver_lapics not_mem_nil
  · rw [deliver_of_not_locks hlocks] at hopen hv ⊢
    exact (h.held i hopen hv).keepAll deliver_lapics not_mem_nil

theorem maybeDeliverLevel_linked (h : Linked vectors f)
    (hrec : (f.ioapic.redirection gsi).remoteIrr = false → f.ioapic.asserted gsi = true →
      (f.ioapic.redirection gsi).Receptive f.lapics) :
    Linked vectors (f.maybeDeliverLevel now gsi) := by
  rw [maybeDeliverLevel]
  split
  · exact h
  split
  · exact h
  case isFalse hblocked =>
    simp only [Bool.or_eq_true, Bool.not_eq_true', not_or, Bool.not_eq_true,
      Bool.not_eq_false] at hblocked
    exact deliver_linked h hblocked.1.1 (hrec hblocked.1.2 hblocked.2)

theorem setIrqLevel_linked (h : Linked [] f)
    (hrec : ∀ gsi : Fin n, gsi.val = line → (f.ioapic.redirection gsi).remoteIrr = false →
      (f.ioapic.redirection gsi).interpretLevel (level != f.ioapic.pinActiveLow gsi) = true →
      (f.ioapic.redirection gsi).Receptive f.lapics) :
    Linked [] (f.setIrqLevel now line level) := by
  rw [setIrqLevel]
  split
  case isFalse => exact h
  case isTrue hlt =>
    have hrec := hrec ⟨line, hlt⟩ rfl
    dsimp only
    generalize (level != f.ioapic.pinActiveLow ⟨line, hlt⟩) = raw at hrec ⊢
    generalize (⟨line, hlt⟩ : Fin n) = gsi at hrec ⊢
    have hpin : Linked [] { f with ioapic := f.ioapic.setPin gsi raw } := ⟨h.routed, h.held⟩
    split
    case h_1 hedge =>
      split
      · exact hpin
      case isFalse hmask =>
        split
        · exact deliver_linked hpin (Bool.not_eq_true _ ▸ hmask) fun hlevel =>
            absurd (hedge.symm.trans hlevel) (by decide)
        · exact hpin
    case h_2 =>
      split
      · exact hpin
      split
      case isTrue hasserted =>
        exact maybeDeliverLevel_linked hpin fun hirr _ => hrec hirr hasserted
      case isFalse => exact hpin

def EoiReady (f : Fabric n) : Prop :=
  ∀ gsi, f.ioapic.asserted gsi = true → (f.ioapic.redirection gsi).Receptive f.lapics

instance decidableEoiReady : Decidable f.EoiReady :=
  inferInstanceAs (Decidable (∀ _ : Fin n, _))

theorem deliver_asserted : (f.deliver now gsi).ioapic.asserted i = f.ioapic.asserted i := by
  obtain ⟨b, hb⟩ := deliver_redirection i
  rw [asserted, hb, deliver_pinLevel]
  rfl

theorem deliver_mask :
    ((f.deliver now gsi).ioapic.redirection i).mask = (f.ioapic.redirection i).mask := by
  obtain ⟨b, hb⟩ := deliver_redirection i
  rw [hb]

theorem deliver_eoiReady (h : f.EoiReady) : (f.deliver now gsi).EoiReady := by
  intro i hi
  obtain ⟨b, hb⟩ := deliver_redirection i
  rw [hb]
  exact ((h i (deliver_asserted.symm.trans hi)).keepAll deliver_lapics).remoteIrr b

theorem deliverAll_linked (h : Linked vectors f) (hready : f.EoiReady)
    (hgs : ∀ gsi ∈ gs, f.ioapic.asserted gsi = true ∧ (f.ioapic.redirection gsi).mask = false) :
    Linked vectors (gs.foldl (fun f gsi => f.deliver now gsi) f) ∧
      (gs.foldl (fun f gsi => f.deliver now gsi) f).EoiReady := by
  induction gs generalizing f with
  | nil => exact ⟨h, hready⟩
  | cons gsi gs ih =>
    obtain ⟨hasserted, hmask⟩ := hgs gsi (.head _)
    refine ih (deliver_linked h hmask (hready gsi hasserted)) (deliver_eoiReady hready) ?_
    intro i hi
    rw [deliver_asserted, deliver_mask]
    exact hgs i (.tail _ hi)

theorem endAll_asserted : (endAll a vector).asserted i = a.asserted i := by
  by_cases hends : ends vector (a.redirection i)
  · rw [asserted, endAll_redirection_of_ends hends]
    rfl
  · rw [asserted, endAll_redirection_of_not_ends hends]
    rfl

theorem endAll_mask : ((endAll a vector).redirection i).mask = (a.redirection i).mask := by
  by_cases hends : ends vector (a.redirection i)
  · rw [endAll_redirection_of_ends hends]
  · rw [endAll_redirection_of_not_ends hends]

theorem endAll_linked (h : Linked (vector :: vectors) f) :
    Linked vectors { f with ioapic := endAll f.ioapic vector } := by
  refine ⟨h.routed, fun i hopen hv => ?_⟩
  by_cases hends : ends vector (f.ioapic.redirection i)
  · rw [endAll_redirection_of_ends hends] at hopen
    exact Bool.noConfusion hopen.1
  · rw [endAll_redirection_of_not_ends hends] at hopen hv ⊢
    have hne : (f.ioapic.redirection i).vector ≠ vector :=
      fun hvector => hends ⟨hopen.2.1, hopen.1, hvector⟩
    exact h.held i hopen (by simp [hne, hv])

theorem endAll_eoiReady (h : f.EoiReady) :
    { f with ioapic := endAll f.ioapic vector }.EoiReady := by
  intro i hi
  have hrec := h i (endAll_asserted.symm.trans hi)
  by_cases hends : ends vector (f.ioapic.redirection i)
  · rw [endAll_redirection_of_ends hends]
    exact hrec.remoteIrr false
  · rw [endAll_redirection_of_not_ends hends]
    exact hrec

theorem notifyEoi_linked (h : Linked (vector :: vectors) f) (hready : f.EoiReady) :
    Linked vectors (f.notifyEoi now vector) ∧ (f.notifyEoi now vector).EoiReady := by
  refine deliverAll_linked (endAll_linked h) (endAll_eoiReady hready) fun i hi => ?_
  rw [endAll_asserted, endAll_mask]
  simpa using (Bool.and_eq_true_iff.mp (mem_filter.mp hi).2).2

theorem notifyEois_linked (h : Linked vectors f) (hready : f.EoiReady) :
    Linked [] (f.notifyEois now vectors) := by
  induction vectors generalizing f with
  | nil => exact h
  | cons vector vectors ih =>
    obtain ⟨h', hready'⟩ := notifyEoi_linked h hready
    exact ih h' hready'

theorem EoiReady.keepAll (h : f.EoiReady) (hk : KeepAll vectors f.lapics lapics) :
    { f with lapics }.EoiReady :=
  fun gsi hgsi => (h gsi hgsi).keepAll hk

theorem lapicEoi_linked (h : Linked [] f) (hready : f.EoiReady) :
    Linked [] (f.lapicEoi now cpu) := by
  rw [lapicEoi]
  split
  case h_1 => exact h
  case h_2 lapic hget =>
    have hk := pollTimer_keeps.trans (eoi_keeps (s := lapic.pollTimer now))
    have hall := KeepAll.set hget hk
    exact notifyEois_linked (h.keepAll hall) (hready.keepAll hall)

theorem setEntry_linked (h : Linked [] f) (he : e.remoteIrr = false) :
    Linked [] { f with ioapic := f.ioapic.setEntry gsi e } := by
  refine ⟨h.routed, fun i hopen hv => ?_⟩
  by_cases hne : i = gsi
  · subst hne
    rw [setEntry_redirection_self] at hopen
    exact absurd (he.symm.trans hopen.1) (by decide)
  · rw [setEntry_redirection_of_ne hne] at hopen hv ⊢
    exact h.held i hopen hv

theorem writeEntryLow_linked (h : Linked [] f)
    (hirr : (f.ioapic.redirection gsi).remoteIrr = false)
    (hrec : (f.ioapic.redirection gsi).mask = true →
      ((f.ioapic.redirection gsi).writeLow v).interpretLevel (f.ioapic.pinLevel gsi) = true →
      ((f.ioapic.redirection gsi).writeLow v).Receptive f.lapics) :
    Linked [] (f.writeEntryLow now gsi v) := by
  have hset : Linked [] { f with
      ioapic := f.ioapic.setEntry gsi ((f.ioapic.redirection gsi).writeLow v) } :=
    setEntry_linked h hirr
  rw [writeEntryLow]
  split
  case isFalse => exact hset
  case isTrue hunmasked =>
    refine maybeDeliverLevel_linked hset fun _ hasserted => ?_
    rw [asserted, setEntry_redirection_self] at hasserted
    rw [setEntry_redirection_self]
    refine hrec ?_ hasserted
    revert hunmasked
    cases (f.ioapic.redirection gsi).mask <;> cases ((f.ioapic.redirection gsi).writeLow v).mask <;>
      decide

theorem mmioWrite_linked (h : Linked [] f)
    (hirr : offset = 0x10 → size = 4 → ∀ gsi, f.SelectsLow gsi ∨ f.SelectsHigh gsi →
      (f.ioapic.redirection gsi).remoteIrr = false)
    (hrec : offset = 0x10 → size = 4 → ∀ gsi, f.SelectsLow gsi →
      (f.ioapic.redirection gsi).mask = true →
      ((f.ioapic.redirection gsi).writeLow (value.setWidth 32)).interpretLevel
        (f.ioapic.pinLevel gsi) = true →
      ((f.ioapic.redirection gsi).writeLow (value.setWidth 32)).Receptive f.lapics) :
    Linked [] (f.mmioWrite now offset size value) := by
  have hcases := mmioWrite_cases f now offset size value
  generalize f.mmioWrite now offset size value = f' at hcases ⊢
  cases hcases with
  | other id ioregsel => exact ⟨h.routed, h.held⟩
  | low gsi h10 h4 hlow =>
    exact writeEntryLow_linked h (hirr h10 h4 gsi (.inl hlow)) (hrec h10 h4 gsi hlow)
  | high gsi h10 h4 hhigh => exact setEntry_linked h (hirr h10 h4 gsi (.inr hhigh))

def Idle (f : Fabric n) (l : LapicState) : Prop :=
  ∀ gsi, (f.ioapic.redirection gsi).Open → (f.ioapic.redirection gsi).matchesDestination l = true →
    ¬ l.Holds (f.ioapic.redirection gsi).vector

instance decidableIdle {l : LapicState} : Decidable (f.Idle l) :=
  inferInstanceAs (Decidable (∀ _ : Fin n, _))

theorem Linked.set_of_idle (h : Linked [] f) (hget : f.lapics[cpu]? = some l) (hidle : f.Idle l) :
    Linked [] { f with lapics := f.lapics.set cpu l' } :=
  ⟨h.routed, fun gsi hopen _ => (h.answered gsi hopen).set hget fun hm hold =>
    absurd hold (hidle gsi hopen hm)⟩

theorem Linked.set_of_retains (h : Linked [] f) (hget : f.lapics[cpu]? = some l)
    (hret : l.Retains [] l') : Linked [] { f with lapics := f.lapics.set cpu l' } :=
  ⟨h.routed, fun gsi hopen _ => (h.answered gsi hopen).set hget fun hm hold =>
    ⟨(matchesDestination_of_retains hret).trans hm, hret.holds _ not_mem_nil hold⟩⟩

theorem lapicReset_linked (h : Linked [] f) (hidle : ∀ l ∈ f.lapics[cpu]?, f.Idle l) :
    Linked [] (f.lapicReset cpu) := by
  rw [lapicReset, modify_eq_set_getElem?]
  cases hget : f.lapics[cpu]?
  case none => exact h
  case some l => exact h.set_of_idle hget (hidle l hget)

open MmioWrite in
theorem lapicMmioWrite_linked (h : Linked [] f) {offset : Nat} {data : List U8}
    (heoi : Covers offset data.length eoi → ¬ Covers offset data.length id ∧
      ¬ Covers offset data.length ldr ∧ ¬ Covers offset data.length svr ∧ f.EoiReady)
    (hidle : Covers offset data.length id ∨ Covers offset data.length ldr →
      ∀ l ∈ f.lapics[cpu]?, f.Idle l) :
    Linked [] (f.lapicMmioWrite now cpu offset data).1 := by
  rw [lapicMmioWrite]
  split
  case h_1 => exact h
  case h_2 l hget =>
    dsimp only
    by_cases hcov : Covers offset data.length eoi
    · obtain ⟨hid, hldr, hsvr, hready⟩ := heoi hcov
      have hkeeps : l.Keeps _ (l.mmioWrite now offset data).state :=
        ⟨mmioWrite_retains hid hldr, mmioWrite_svr hsvr⟩
      have hall := KeepAll.set hget hkeeps
      exact notifyEois_linked (h.keepAll hall) (hready.keepAll hall)
    · have hvectors : (l.mmioWrite now offset data).eoiVectors = [] := mmioWrite_eoiVectors hcov
      rw [hvectors]
      by_cases htarget : Covers offset data.length id ∨ Covers offset data.length ldr
      · exact h.set_of_idle hget (hidle htarget l hget)
      · rw [not_or] at htarget
        have hret : l.Retains _ (l.mmioWrite now offset data).state :=
          mmioWrite_retains htarget.1 htarget.2
        rw [hvectors] at hret
        exact h.set_of_retains hget hret

def NotRewritten (f : Fabric n) : Nat × Op → Prop
  | (_, .io (.mmioWrite offset size _)) =>
    offset = 0x10 → size = 4 → ∀ gsi, f.SelectsLow gsi ∨ f.SelectsHigh gsi →
      (f.ioapic.redirection gsi).remoteIrr = false
  | _ => True

-- No step makes the LAPICs drop or lose the vector of an open entry: what is delivered finds an
-- enabled LAPIC, and a LAPIC that holds such a vector keeps it and its address.
open MmioWrite in
def NotDropped (f : Fabric n) : Nat × Op → Prop
  | (_, .io (.setIrqLevel line level)) =>
    ∀ gsi : Fin n, gsi.val = line → (f.ioapic.redirection gsi).remoteIrr = false →
      (f.ioapic.redirection gsi).interpretLevel (level != f.ioapic.pinActiveLow gsi) = true →
      (f.ioapic.redirection gsi).Receptive f.lapics
  | (_, .io (.mmioWrite offset size value)) =>
    offset = 0x10 → size = 4 → ∀ gsi, f.SelectsLow gsi →
      (f.ioapic.redirection gsi).mask = true →
      ((f.ioapic.redirection gsi).writeLow (value.setWidth 32)).interpretLevel
        (f.ioapic.pinLevel gsi) = true →
      ((f.ioapic.redirection gsi).writeLow (value.setWidth 32)).Receptive f.lapics
  | (_, .io (.ack _ _))       => True
  | (_, .io (.eoi _))         => f.EoiReady
  | (_, .io (.notifyEoi _))   => f.EoiReady
  | (_, .lapicMmioWrite cpu offset data) =>
    (Covers offset data.length Reg.eoi → ¬ Covers offset data.length Reg.id ∧
      ¬ Covers offset data.length Reg.ldr ∧ ¬ Covers offset data.length Reg.svr ∧ f.EoiReady) ∧
    (Covers offset data.length Reg.id ∨ Covers offset data.length Reg.ldr →
      ∀ l ∈ f.lapics[cpu]?, f.Idle l)
  | (_, .lapicInject _ _)     => True
  | (_, .lapicPoll _)         => True
  | (_, .lapicReset cpu)      => ∀ l ∈ f.lapics[cpu]?, f.Idle l

theorem step_linked (h : Linked [] f) (op : Nat × Op) (hrewrite : f.NotRewritten op)
    (hdrop : f.NotDropped op) : Linked [] (f.step op) := by
  obtain ⟨now, op⟩ := op
  cases op with
  | io op =>
    cases op with
    | setIrqLevel line level => exact setIrqLevel_linked h hdrop
    | mmioWrite offset size value => exact mmioWrite_linked h hrewrite hdrop
    | ack cpu vector =>
      exact h.keepAll (.modify (fun _ => pollTimer_keeps.trans ack_keeps) cpu)
    | eoi cpu => exact lapicEoi_linked h hdrop
    | notifyEoi vector =>
      have hbut : Linked [vector] f := ⟨h.routed, fun gsi hopen _ => h.answered gsi hopen⟩
      exact (notifyEoi_linked hbut hdrop).1
  | lapicMmioWrite cpu offset data => exact lapicMmioWrite_linked h hdrop.1 hdrop.2
  | lapicInject cpu vector =>
    exact h.keepAll (.modify (fun _ => injectFixedInterrupt_keeps) cpu)
  | lapicPoll cpu => exact h.keepAll (.modify (fun _ => pollTimer_keeps) cpu)
  | lapicReset cpu => exact lapicReset_linked h hdrop

theorem start_linked {id : U8} : Linked [] (start n id lapics) :=
  ⟨rfl, fun _ hopen _ => Bool.noConfusion hopen.1⟩

-- Over any run that rewrites no entry with Remote-IRR set and in which the LAPICs lose nothing,
-- Remote-IRR always goes with a vector that is still to be ended.
theorem remote_irr_answered (n : Nat) (id : U8) (lapics : List LapicState) (ops : List (Nat × Op))
    (hrewrite : Each step NotRewritten (start n id lapics) ops)
    (hdrop : Each step NotDropped (start n id lapics) ops) :
    Always step Answered (start n id lapics) ops := by
  have hlinked : Always step (Linked []) (start n id lapics) ops :=
    always_of_each (fun _ op h hop => step_linked h op hop.1 hop.2) start_linked
      (hrewrite.and hdrop)
  exact hlinked.mono fun _ h => h.answered

instance decidableAnswered : Decidable f.Answered :=
  inferInstanceAs (Decidable (∀ _ : Fin n, _))

instance decidableNotRewritten : ∀ op, Decidable (f.NotRewritten op)
  | (_, .io (.mmioWrite _ _ _))   => inferInstanceAs (Decidable (_ → _))
  | (_, .io (.setIrqLevel _ _))   => .isTrue trivial
  | (_, .io (.ack _ _))           => .isTrue trivial
  | (_, .io (.eoi _))             => .isTrue trivial
  | (_, .io (.notifyEoi _))       => .isTrue trivial
  | (_, .lapicMmioWrite _ _ _)    => .isTrue trivial
  | (_, .lapicInject _ _)         => .isTrue trivial
  | (_, .lapicPoll _)             => .isTrue trivial
  | (_, .lapicReset _)            => .isTrue trivial

instance decidableNotDropped : ∀ op, Decidable (f.NotDropped op)
  | (_, .io (.setIrqLevel _ _))   => inferInstanceAs (Decidable (∀ _ : Fin n, _))
  | (_, .io (.mmioWrite _ _ _))   => inferInstanceAs (Decidable (_ → _))
  | (_, .io (.ack _ _))           => .isTrue trivial
  | (_, .io (.eoi _))             => inferInstanceAs (Decidable f.EoiReady)
  | (_, .io (.notifyEoi _))       => inferInstanceAs (Decidable f.EoiReady)
  | (_, .lapicMmioWrite _ _ _)    => inferInstanceAs (Decidable (_ ∧ _))
  | (_, .lapicInject _ _)         => .isTrue trivial
  | (_, .lapicPoll _)             => .isTrue trivial
  | (_, .lapicReset cpu)          => inferInstanceAs (Decidable (∀ l ∈ f.lapics[cpu]?, f.Idle l))

def oneLapic : List LapicState :=
  [{ LapicState.new 0 with svr := 0x1ff }]

def programZero : List (Nat × Op) :=
  [(0, .io (.mmioWrite 0x00 4 0x10)), (0, .io (.mmioWrite 0x10 4 0x8030))]

-- The interrupt is delivered, ended through the register while its line is asserted, and ended again
-- after it was lowered; the LAPIC is reset at last.
def servedTwice : List (Nat × Op) :=
  programZero ++ [(0, .io (.setIrqLevel 0 true)), (0, .io (.ack 0 0x30)),
    (0, .lapicMmioWrite 0 0xb0 [0, 0, 0, 0]), (0, .io (.setIrqLevel 0 false)),
    (0, .io (.ack 0 0x30)), (0, .io (.eoi 0)), (0, .lapicReset 0)]

theorem remote_irr_answered_servedTwice :
    Each step NotRewritten (start 24 0 oneLapic) servedTwice ∧
    Each step NotDropped (start 24 0 oneLapic) servedTwice ∧
    Always step Answered (start 24 0 oneLapic) servedTwice :=
  ⟨by decide +kernel, by decide +kernel,
    remote_irr_answered 24 0 oneLapic servedTwice (by decide +kernel) (by decide +kernel)⟩

-- The software enable bit is cleared before the line is raised.
def raisedWhileDisabled : List (Nat × Op) :=
  programZero ++ [(0, .lapicMmioWrite 0 0xf0 [0xff, 0, 0, 0]), (0, .io (.setIrqLevel 0 true))]

def resetWhilePending : List (Nat × Op) :=
  programZero ++ [(0, .io (.setIrqLevel 0 true)), (0, .lapicReset 0)]

theorem remote_irr_stuck :
    (Each step NotRewritten (start 24 0 oneLapic) raisedWhileDisabled ∧
      ¬ (raisedWhileDisabled.foldl step (start 24 0 oneLapic)).Answered) ∧
    (Each step NotRewritten (start 24 0 oneLapic) resetWhilePending ∧
      ¬ (resetWhilePending.foldl step (start 24 0 oneLapic)).Answered) := by
  decide +kernel

end Fabric

end Aero.Interrupts
