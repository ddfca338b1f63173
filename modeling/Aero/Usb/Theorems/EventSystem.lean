import Aero.Usb.Theorems.EventDelivery

namespace Aero.Usb.EventSystem

open SegmentRing List InterrupterRegs XhciController Nat SegmentTable

def Unseen (s : EventSystem) : Prop :=
  s.xhci.interrupter0.erstGen ≠ s.xhci.eventRing.lastErstGen ∨
    s.xhci.interrupter0.erstsz ≠ s.xhci.eventRing.erstsz ∨
      s.xhci.interrupter0.erstba ≠ s.xhci.eventRing.erstba

-- The producer, or that there is nothing in the ring before the controller has looked at it.
def Ringed (t : SegmentTable) (start : RingPos) (s : EventSystem) (seen : Nat) : Prop :=
  (s.Unseen ∧ s.enqueued = []) ∨
    (s.xhci.interrupter0.erstGen = s.xhci.eventRing.lastErstGen ∧
      Producing t (index t.size start) s.xhci.eventRing s.enqueued.length seen)

structure Inv (t : SegmentTable) (start : RingPos) (s : EventSystem) : Prop where
  valid : Valid t.size t.count start
  erstsz : s.xhci.interrupter0.erstsz = t.count
  erstba : s.xhci.interrupter0.erstba = t.erstba
  next : At t.size t.count s.driver.next (index t.size start + s.driver.events.length)
  events : s.driver.events.map (·.setCycle false) <+: s.enqueued.map (·.setCycle false)
  acked_le : s.acked ≤ s.driver.events.length
  erdp : ∃ c, At t.size t.count c (index t.size start + s.acked) ∧
    s.xhci.interrupter0.erdpPtr = t.addr c.pos
  ring : ∃ seen, seen ≤ s.acked ∧
    Filled t (index t.size start) s.mem s.enqueued seen ∧ s.Ringed t start seen

variable {t : SegmentTable} {start : RingPos} {s : EventSystem}

namespace Inv

section

variable (h : Inv t start s)
include h

theorem events_le : s.driver.events.length ≤ s.enqueued.length := by
  have := h.events.length_le
  simpa using this

-- The driver sees an event exactly when there is one that it has not read, and it is the next one.
theorem entry_eq (hget : s.enqueued[s.driver.events.length]? = some trb) :
    s.driver.entry t s.mem = trb.setCycle s.driver.next.cycle := by
  obtain ⟨seen, hseen, hfilled, -⟩ := h.ring
  exact hfilled.entries _ trb _ (le_trans hseen h.acked_le) hget h.next

theorem seesEvent_iff :
    s.driver.seesEvent t s.mem = true ↔ s.driver.events.length < s.enqueued.length := by
  rw [EventDriver.seesEvent, beq_iff_eq]
  constructor
  · intro hcycle
    by_contra hge
    have hlen := le_antisymm (not_lt.mp hge) h.events_le
    obtain ⟨seen, -, hfilled, -⟩ := h.ring
    have hblank := hfilled.blank s.driver.events.length s.driver.next hlen.le
      (by have := t.total_pos; omega) h.next
    rw [EventDriver.entry, hblank] at hcycle
    exact Bool.not_ne_self _ hcycle
  · intro hlt
    rw [h.entry_eq (getElem?_eq_getElem hlt), Trb.cycle_setCycle]

theorem delivers : s.Delivers t start where
  inOrder := h.events
  complete := h.seesEvent_iff
  kept := by
    intro i trb hi hget
    obtain ⟨seen, hseen, hfilled, -⟩ := h.ring
    have hplace := at_place (At.start h.valid) i
    rw [hfilled.entries i trb _ (le_trans hseen hi) hget hplace, Trb.setCycle_setCycle]

theorem post (trb : Trb) :
    Inv t start { s with xhci := s.xhci.postEvent trb, posted := s.posted ++ [trb] } := by
  have hregs : (s.xhci.postEvent trb).interrupter0 = s.xhci.interrupter0 := by
    rw [postEvent]
    split <;> rfl
  have hring : (s.xhci.postEvent trb).eventRing = s.xhci.eventRing := by
    rw [postEvent]
    split <;> rfl
  refine ⟨h.valid, by rw [hregs]; exact h.erstsz, by rw [hregs]; exact h.erstba, h.next, h.events,
    h.acked_le, by rw [hregs]; exact h.erdp, ?_⟩
  simp only [Ringed, Unseen, hregs, hring]
  exact h.ring

theorem poll : Inv t start { s with driver := s.driver.poll t s.mem } := by
  rw [EventDriver.poll]
  by_cases hsees : s.driver.seesEvent t s.mem = true
  case neg =>
    rw [if_neg hsees]
    exact h
  case pos =>
    rw [if_pos hsees]
    have hlt := h.seesEvent_iff.mp hsees
    have hentry := h.entry_eq (getElem?_eq_getElem hlt)
    have hlen : (s.driver.events ++ [s.driver.entry t s.mem]).length =
        s.driver.events.length + 1 := by simp
    refine ⟨h.valid, h.erstsz, h.erstba, ?_, ?_, ?_, h.erdp, h.ring⟩
    · dsimp only
      rw [hlen]
      exact h.next.advance t.size_pos
    · have htake := prefix_iff_eq_take.mp h.events
      rw [length_map] at htake
      have hnext : (s.driver.entry t s.mem).setCycle false =
          (s.enqueued.map (·.setCycle false)).get ⟨s.driver.events.length, by simpa using hlt⟩ := by
        rw [hentry, Trb.setCycle_setCycle, get_eq_getElem, getElem_map]
      rw [map_append, htake, map_singleton, hnext, get_eq_getElem, take_append_getElem]
      exact take_prefix ..
    · dsimp only
      rw [hlen]
      exact le_succ_of_le h.acked_le

theorem writeErdp (flags : Fin 16) : Inv t start (s.writeErdp t flags) := by
  obtain ⟨seen, hseen, hfilled, hring⟩ := h.ring
  refine ⟨h.valid, ?_, ?_, h.next, h.events, le_refl _, ⟨_, h.next, ?_⟩, seen,
    le_trans hseen h.acked_le, hfilled, ?_⟩
  · exact (writeErdp_erstsz ..).trans h.erstsz
  · exact (writeErdp_erstba ..).trans h.erstba
  · exact erdpPtr_writeErdp _ flags (addr_mod h.next.valid)
  · simp only [Ringed, Unseen, EventSystem.writeErdp, writeErdp_erstsz,
      writeErdp_erstba, writeErdp_erstGen]
    exact hring

theorem refreshed (hprog : s.Progress t (.service true 0)) :
    ∃ seen, seen ≤ s.acked ∧ Filled t (index t.size start) s.mem s.enqueued seen ∧
      Producing t (index t.size start) (s.xhci.eventRing.refresh s.mem s.xhci.interrupter0)
        s.enqueued.length seen ∧
      s.xhci.interrupter0.erstGen =
        (s.xhci.eventRing.refresh s.mem s.xhci.interrupter0).lastErstGen := by
  obtain ⟨c, hc, hptr⟩ := h.erdp
  obtain ⟨seen, hseen, hfilled, ⟨hnew, hnil⟩ | ⟨hgen, hprod⟩⟩ := h.ring
  · -- nothing was read, so ERDP is still the start
    have hle := h.events_le
    have hack := h.acked_le
    rw [hnil, length_nil] at hle
    have hzero : s.acked = 0 := by omega
    rw [hzero] at hc
    have hcs := (At.start h.valid).unique hc
    have hseen0 : seen = 0 := by omega
    rw [hcs] at hptr
    obtain ⟨hprod, hlast⟩ := Producing.of_refresh hfilled.stored hnew h.erstsz h.erstba h.valid hptr
    refine ⟨seen, hseen, hfilled, ?_, hlast.symm⟩
    rw [hnil, hseen0]
    exact hprod
  · have hprog' : s.xhci.eventRing.isFull = true →
        s.xhci.interrupter0.erdpGen ≠ s.xhci.eventRing.lastErdpGen →
          c.pos = s.xhci.eventRing.consPos → s.acked = s.enqueued.length := by
      intro hfull hsaw hpos
      exact hprog hfull hsaw (by rw [hptr, hpos])
    obtain ⟨seen', hle, hle', hprod', hlast⟩ := hprod.refresh hfilled.stored hgen h.erstsz h.erstba
      hc hptr hseen (le_trans h.acked_le h.events_le) hprog'
    exact ⟨seen', hle', hfilled.mono hle, hprod', hgen.trans hlast.symm⟩

theorem service (dma : Bool) (budget : Nat) (hprog : s.Progress t (.service dma budget)) :
    Inv t start (s.service dma budget) := by
  have hidle : Inv t start { s with enqueued := s.enqueued ++ s.xhci.pendingEvents.take 0 } := by
    rw [take_zero, append_nil]
    exact h
  rw [EventSystem.service, serviceEventRingBudgeted]
  cases dma with
  | false => exact hidle
  | true =>
    by_cases hhce : s.xhci.hostControllerError = true
    case pos =>
      simp only [if_pos hhce]
      exact hidle
    case neg =>
      simp only [Bool.not_true, Bool.false_eq_true, if_false, if_neg hhce]
      obtain ⟨seen, hseen, hfilled, hprod, hgen⟩ := h.refreshed hprog
      obtain ⟨c, hc, hptr⟩ := h.erdp
      have hne : s.xhci.interrupter0.erdpPtr ≠ 0 := by
        rw [hptr]
        exact pos_iff_ne_zero.mp (addr_pos hc.valid)
      have hdrained := drained (x := { s.xhci with
        eventRing := s.xhci.eventRing.refresh s.mem s.xhci.interrupter0 }) hprod hfilled hne budget
      generalize drainEvents _ s.mem budget = r at hdrained ⊢
      obtain ⟨hprod', hfilled', hlast, iman, hregs⟩ := hdrained
      refine ⟨h.valid, ?_, ?_, h.next, ?_, h.acked_le, ⟨c, hc, ?_⟩, seen, hseen, hfilled',
        .inr ⟨?_, hprod'⟩⟩
      · rw [hregs]
        exact h.erstsz
      · rw [hregs]
        exact h.erstba
      · refine h.events.trans ?_
        rw [map_append]
        exact prefix_append ..
      · rw [hregs]
        exact hptr
      · rw [hregs, hlast]
        exact hgen

theorem step (op : EventOp) (hprog : s.Progress t op) : Inv t start (s.step t op) := by
  cases op with
  | post trb => exact h.post trb
  | service dma budget => exact h.service dma budget hprog
  | poll => exact h.poll
  | writeErdp flags => exact h.writeErdp flags

end

end Inv

theorem drainEvents_pending (x : XhciController) (mem : Mem) (budget : Nat) :
    (x.drainEvents mem budget).1.pendingEvents =
      x.pendingEvents.drop (x.drainEvents mem budget).2.2 := by
  induction budget generalizing x mem with
  | zero => rfl
  | succ budget ih =>
    rw [drainEvents]
    split
    · rfl
    case h_2 trb rest hpending =>
      split
      · rw [hpending, drop_succ_cons]
        exact ih ..
      · rfl
      · rfl

theorem Accounted.step (h : s.Accounted) (op : EventOp) (hroom : s.HasRoom op) :
    (s.step t op).Accounted := by
  cases op with
  | post trb =>
    have hpost : (s.xhci.postEvent trb).pendingEvents = s.xhci.pendingEvents ++ [trb] := by
      rw [postEvent, if_neg (not_le.mpr hroom)]
    rw [Accounted, EventSystem.step, hpost, h, append_assoc]
  | service dma budget =>
    have hdrained : (s.xhci.serviceEventRingBudgeted s.mem dma budget).1.pendingEvents =
        s.xhci.pendingEvents.drop (s.xhci.serviceEventRingBudgeted s.mem dma budget).2.2 := by
      rw [serviceEventRingBudgeted]
      split_ifs
      · rfl
      · rfl
      · exact drainEvents_pending ..
    rw [Accounted, EventSystem.step, EventSystem.service, hdrained, append_assoc,
      take_append_drop]
    exact h
  | poll => exact h
  | writeErdp flags => exact h

theorem Start.inv (h : s.Start t start) : Inv t start s where
  __ := h
  next := by
    rw [h.driver]
    exact At.start h.valid
  events := by
    rw [h.driver]
    exact nil_prefix
  acked_le := by
    rw [h.acked]
    exact zero_le _
  erdp := by
    rw [h.acked]
    exact ⟨_, At.start h.valid, h.erdp⟩
  ring := by
    refine ⟨0, zero_le _, ⟨h.stored, ?_, ?_⟩, .inl ⟨h.unseen, h.enqueued⟩⟩
    · intro i trb c _ hget
      rw [h.enqueued] at hget
      cases hget
    · intro i c _ hi hc
      rw [h.enqueued, length_nil, zero_add] at hi
      have hplace := at_place (At.start h.valid) i
      rw [hplace.unique hc]
      exact h.blank i hi

-- Every event is delivered once and in order as long as the controller meets no repeated ERDP
-- write on a full ring; and the controller loses none of its events when it has room for them.
theorem events_delivered_once (t : SegmentTable) (start : RingPos) (s : EventSystem)
    (ops : List EventOp) (hs : s.Start t start) (h : Runs.Each (step t) (Progress t) s ops) :
    Runs.Always (step t) (Delivers t start) s ops ∧
      (Runs.Each (step t) HasRoom s ops → Runs.Always (step t) Accounted s ops) := by
  have hinv := Runs.always_of_each (fun _ op hi hp => hi.step op hp) hs.inv h
  have hstart : s.Accounted := by rw [Accounted, hs.posted, hs.enqueued, nil_append]
  exact ⟨hinv.mono fun _ hi => hi.delivers,
    Runs.always_of_each (fun _ op ha hroom => ha.step op hroom) hstart⟩

section Lap

instance decidableProgress (t : SegmentTable) (s : EventSystem) :
    ∀ op, Decidable (s.Progress t op)
  | .service true _  => inferInstanceAs (Decidable (_ → _ → _ → _))
  | .service false _ => .isTrue trivial
  | .post _          => .isTrue trivial
  | .poll            => .isTrue trivial
  | .writeErdp _     => .isTrue trivial

instance decidableHasRoom (s : EventSystem) (op : EventOp) : Decidable (s.HasRoom op) := by
  unfold HasRoom
  split
  · infer_instance
  · infer_instance

def oneSegment : SegmentTable where
  erstba := 0x1000
  count := 1
  base := fun _ => 0x2000
  size := fun _ => 16
  erstba_pos := by decide
  table_end := by decide
  count_pos := by decide
  count_le := by decide
  size_pos := fun _ _ => by decide
  size_lt := fun _ _ => by decide
  base_pos := fun _ _ => by decide
  base_aligned := fun _ _ => by decide
  segment_end := fun _ _ => by decide
  disjoint := fun i j hi hj hne => by omega
  table_disjoint := fun _ _ => by decide

def configured : EventSystem where
  mem := fun a => if a = 0x1001 then 0x20 else if a = 0x1008 then 16 else 0
  xhci := {
    interrupter0 := {
      iman := 2, erstsz := 1, erstba := 0x1000, erdp := 0x2000, erstGen := 2, erdpGen := 1 }
    eventRing := {}
    pendingEvents := []
    droppedEventTrbs := 0
    hostControllerError := false }
  driver := ⟨⟨⟨0, 0⟩, true⟩, []⟩
  posted := []
  enqueued := []
  acked := 0

theorem configured_start : configured.Start oneSegment ⟨0, 0⟩ where
  stored := by
    intro i hi
    obtain rfl : i = 0 := by
      simp only [oneSegment] at hi
      omega
    decide +kernel
  erstsz := rfl
  erstba := rfl
  unseen := by decide
  valid := ⟨by decide, by decide⟩
  erdp := rfl
  driver := rfl
  blank := by decide +kernel
  posted := rfl
  enqueued := rfl
  acked := rfl

def postEvents (n : Nat) : List EventOp :=
  (List.range n).map fun i => .post ⟨BitVec.ofNat 64 i, 0, 0⟩

theorem events_delivered_once_lap :
    let ops := postEvents 17 ++ [.service true 64] ++ replicate 16 .poll ++
      [.writeErdp 8, .service true 64, .poll]
    Runs.Always (step oneSegment) (Delivers oneSegment ⟨0, 0⟩) configured ops ∧
      Runs.Always (step oneSegment) Accounted configured ops := by
  obtain ⟨hdelivers, haccounted⟩ := events_delivered_once oneSegment ⟨0, 0⟩ configured
    (postEvents 17 ++ [.service true 64] ++ replicate 16 .poll ++
      [.writeErdp 8, .service true 64, .poll]) configured_start (by decide +kernel)
  exact ⟨hdelivers, haccounted (by decide +kernel)⟩

-- The driver acknowledges the interrupt of a full ring before it reads: the controller takes the
-- ring for empty, the next event replaces the first one, and the driver sees no event at all.
theorem event_overwritten :
    configured.Start oneSegment ⟨0, 0⟩ ∧
      ¬Runs.Always (step oneSegment) (Delivers oneSegment ⟨0, 0⟩) configured
        (postEvents 17 ++ [.service true 64, .writeErdp 8, .service true 64]) := by
  refine ⟨configured_start, fun h => ?_⟩
  have hsees := h.last.complete.mpr (by decide +kernel)
  revert hsees
  decide +kernel

end Lap

end Aero.Usb.EventSystem
