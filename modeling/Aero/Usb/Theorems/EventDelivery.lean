import Aero.Usb.Theorems.EventRing

namespace Aero.Usb

open SegmentRing EventRingProducer SegmentTable Nat

variable {t : SegmentTable} {k seen acked : Nat} {mem : Mem} {es : List Trb} {c : Cursor}
variable {ring : EventRingProducer} {trb : Trb}

-- Memory when the events `es` were written from the place `k` on and the first `seen` of them may
-- be gone.
structure Filled (t : SegmentTable) (k : Nat) (mem : Mem) (es : List Trb) (seen : Nat) :
    Prop where
  stored : t.Stored mem
  entries : ∀ i trb c, seen ≤ i → es[i]? = some trb → At t.size t.count c (k + i) →
    Trb.readFrom mem (t.addr c.pos) = trb.setCycle c.cycle
  blank : ∀ i c, es.length ≤ i → i < es.length + t.total → At t.size t.count c (k + i) →
    (Trb.readFrom mem (t.addr c.pos)).cycle = !c.cycle

structure Producing (t : SegmentTable) (k : Nat) (ring : EventRingProducer) (n seen : Nat) :
    Prop where
  erstsz : ring.erstsz = t.count
  erstba : ring.erstba = t.erstba
  ready : ring.ready = true
  prod : At t.size t.count ⟨ring.prodPos, ring.prodCycle⟩ (k + n)
  cons : At t.size t.count ⟨ring.consPos, ring.consCycle⟩ (k + seen)
  le : seen ≤ n
  room : n ≤ seen + t.total

namespace Filled

theorem mono (h : Filled t k mem es seen) (hle : seen ≤ seen') : Filled t k mem es seen' :=
  ⟨h.stored, fun i trb c hi => h.entries i trb c (le_trans hle hi), h.blank⟩

theorem writeTo (h : Filled t k mem es seen) (hc : At t.size t.count c (k + es.length))
    (hroom : es.length < seen + t.total) (trb : Trb) :
    Filled t k ((trb.setCycle c.cycle).writeTo mem (t.addr c.pos)) (es ++ [trb]) seen where
  stored := h.stored.writeTo _ hc.valid
  entries := by
    intro i trb' c' hi hget hc'
    by_cases hlt : i < es.length
    case pos =>
      rw [List.getElem?_append_left hlt] at hget
      have hne := hc'.pos_ne hc (by omega) (by unfold total at hroom; omega)
      rw [Trb.readFrom_writeTo_of_disjoint _
        (addr_disjoint hc.valid hc'.valid hne.symm)]
      exact h.entries i trb' c' hi hget hc'
    case neg =>
      obtain ⟨hi', -⟩ := List.getElem?_eq_some_iff.mp hget
      rw [List.length_append, List.length_singleton] at hi'
      obtain rfl : i = es.length := by omega
      rw [List.getElem?_append_right (Nat.le_refl _), Nat.sub_self] at hget
      obtain rfl := Option.some.inj hget
      rw [hc.unique hc', Trb.readFrom_writeTo_self]
  blank := by
    intro i c' hi hi' hc'
    rw [List.length_append, List.length_singleton] at hi hi'
    by_cases hlap : i = es.length + t.total
    case pos =>
      -- the entry that was just written, one lap later
      have hc₂ := hc.add_total
      rw [Nat.add_assoc] at hc₂
      rw [hlap] at hc'
      rw [hc₂.unique hc', Trb.readFrom_writeTo_self, Trb.cycle_setCycle, Bool.not_not]
    case neg =>
      have hne := hc.pos_ne hc' (by omega) (by unfold total at hi' hlap; omega)
      rw [Trb.readFrom_writeTo_of_disjoint _ (addr_disjoint hc.valid hc'.valid hne)]
      exact h.blank i c' (by omega) (by omega) hc'

end Filled

namespace Producing

theorem isFull_iff (h : Producing t k ring n seen) : ring.isFull = true ↔ n = seen + t.total := by
  have hroom := h.room
  have hle := h.le
  simp only [isFull, h.ready, Bool.true_and, Bool.and_eq_true, beq_iff_eq, bne_iff_ne]
  constructor
  · rintro ⟨hp, hc⟩
    rcases h.cons.of_pos_eq h.prod (by omega) (by unfold total at hroom; omega) hp
      with ⟨-, heq⟩ | ⟨heq, -⟩
    · exact absurd heq hc
    · unfold total
      omega
  · intro heq
    have hc := h.cons.add_total
    have hn : k + seen + first t.size t.count = k + n := by
      unfold total at heq
      omega
    rw [hn] at hc
    have hu := h.prod.unique hc
    simp only [Cursor.mk.injEq] at hu
    refine ⟨hu.1.symm, ?_⟩
    rw [← hu.2]
    simp

theorem isConfigured (h : Producing t k ring n seen) (hptr : intr.erdpPtr ≠ 0) :
    ring.isConfigured intr = true := by
  have hcount := t.count_pos
  have hba := t.erstba_pos
  simp only [EventRingProducer.isConfigured, h.erstsz, h.erstba, Bool.and_eq_true, bne_iff_ne]
  omega

theorem advanceProducer_eq (h : Producing t k ring n seen) (hst : t.Stored mem) :
    ring.advanceProducer mem =
      ({ ring with
          prodPos := (advance t.size t.count ⟨ring.prodPos, ring.prodCycle⟩).pos
          prodCycle := (advance t.size t.count ⟨ring.prodPos, ring.prodCycle⟩).cycle }, .ok ()) := by
  obtain ⟨hseg, hoff⟩ := h.prod.valid
  dsimp only at hseg hoff
  rw [advanceProducer, h.erstba, read_entry hst hseg]
  have h0 : ¬t.size ring.prodPos.seg = 0 := by omega
  simp only [if_neg h0, h.erstsz, advance]
  by_cases hin : ring.prodPos.off + 1 < t.size ring.prodPos.seg
  case pos => simp only [if_pos hin]
  case neg =>
    simp only [if_neg hin]
    by_cases hlast : ring.prodPos.seg + 1 < t.count
    case pos => simp only [if_pos hlast, if_neg (not_le.mpr hlast)]
    case neg => simp only [if_neg hlast, if_pos (not_lt.mp hlast)]

theorem tryEnqueue (h : Producing t k ring es.length seen) (hf : Filled t k mem es seen)
    (hptr : intr.erdpPtr ≠ 0) (trb : Trb) :
    ring.tryEnqueue mem intr trb = (ring, mem, .error .ringFull) ∨
      ∃ ring' mem', ring.tryEnqueue mem intr trb = (ring', mem', .ok ()) ∧
        ring'.lastErstGen = ring.lastErstGen ∧
          Producing t k ring' (es ++ [trb]).length seen ∧ Filled t k mem' (es ++ [trb]) seen := by
  rw [EventRingProducer.tryEnqueue, h.isConfigured hptr, h.ready]
  simp only [Bool.not_true, Bool.false_eq_true, if_false, if_true, writeEvent]
  by_cases hfull : ring.isFull = true
  case pos =>
    left
    rw [if_pos hfull]
  case neg =>
    right
    have hroom : es.length < seen + t.total := by
      have := h.room
      have := mt h.isFull_iff.mpr hfull
      omega
    have hf' := hf.writeTo h.prod hroom trb
    rw [if_neg hfull, posToPaddr_eq hf.stored h.erstba h.prod.valid]
    simp only [Trb.read_writeTo_self, ne_eq, h.advanceProducer_eq hf'.stored]
    refine ⟨_, _, rfl, rfl, ?_, hf'⟩
    have hadv := h.prod.advance t.size_pos
    have hlen : (es ++ [trb]).length = es.length + 1 := by simp
    rw [hlen]
    exact ⟨h.erstsz, h.erstba, h.ready, hadv, h.cons, by have := h.le; omega, by omega⟩

theorem observe (h : Producing t k ring n seen) (hc : At t.size t.count c (k + acked))
    (hle : seen ≤ acked) (hle' : acked ≤ n)
    (hprog : ring.isFull = true → c.pos = ring.consPos → acked = n) :
    Producing t k (ring.observe c.pos true) n acked := by
  have hroom : n ≤ seen + first t.size t.count := h.room
  have hnear : k + acked ≤ k + seen + first t.size t.count := by omega
  have hcycle : c.cycle =
      if c.pos.Before ring.consPos then !ring.consCycle
      else if c.pos = ring.consPos ∧ True ∧ ring.isFull = true then !ring.consCycle
      else ring.consCycle := by
    rcases c.pos.before_or_eq_or_before ring.consPos with hb | he | hb
    · rw [if_pos hb]
      exact h.cons.cycle_of_before hc (by omega) hnear hb
    · have hnb : ¬c.pos.Before ring.consPos := by
        rw [he]
        simp [Pos.Before]
      rw [if_neg hnb]
      rcases h.cons.of_pos_eq hc (by omega) hnear he with ⟨hk, heq⟩ | ⟨hk, heq⟩
      · -- the driver is where it was, so the ring is not full by the condition
        have hnf : ¬(c.pos = ring.consPos ∧ True ∧ ring.isFull = true) := by
          rintro ⟨-, -, hfull⟩
          have := hprog hfull he
          have := h.isFull_iff.mp hfull
          have := t.total_pos
          omega
        rw [if_neg hnf]
        exact heq
      · have hfull := h.isFull_iff.mpr (by unfold total; omega)
        rw [if_pos ⟨he, trivial, hfull⟩]
        exact heq
    · have hnb : ¬c.pos.Before ring.consPos := by
        simp only [Pos.Before] at hb ⊢
        omega
      have hne : ¬(c.pos = ring.consPos ∧ True ∧ ring.isFull = true) := by
        rintro ⟨he, -⟩
        rw [he] at hb
        simp [Pos.Before] at hb
      rw [if_neg hnb, if_neg hne]
      exact h.cons.cycle_of_after hc (by omega) hnear hb
  simp only [EventRingProducer.observe, ← hcycle, h.ready]
  exact ⟨h.erstsz, h.erstba, rfl, h.prod, hc, hle', le_trans h.room (by omega)⟩

theorem refresh (h : Producing t k ring n seen) (hst : t.Stored mem)
    (hgen : intr.erstGen = ring.lastErstGen) (hsz : intr.erstsz = t.count)
    (hba : intr.erstba = t.erstba) (hc : At t.size t.count c (k + acked))
    (hptr : intr.erdpPtr = t.addr c.pos) (hle : seen ≤ acked) (hle' : acked ≤ n)
    (hprog : ring.isFull = true → intr.erdpGen ≠ ring.lastErdpGen → c.pos = ring.consPos →
      acked = n) :
    ∃ seen', seen ≤ seen' ∧ seen' ≤ acked ∧ Producing t k (ring.refresh mem intr) n seen' ∧
      (ring.refresh mem intr).lastErstGen = ring.lastErstGen := by
  have hadopt : ring.adopt intr = ring := by
    rw [adopt]
    rw [hgen, hsz, hba, h.erstsz, h.erstba]
    simp
  have hconf : ring.isConfigured intr = true := by
    apply h.isConfigured
    rw [hptr]
    exact pos_iff_ne_zero.mp (addr_pos hc.valid)
  simp only [EventRingProducer.refresh, hadopt, hconf, Bool.not_true, Bool.false_eq_true, if_false]
  by_cases hsaw : intr.erdpGen = ring.lastErdpGen
  case pos =>
    rw [if_pos (by simp [hsaw, h.ready])]
    exact ⟨seen, le_refl _, hle, h, rfl⟩
  case neg =>
    have hbne := bne_iff_ne.mpr hsaw
    have h' : Producing t k { ring with lastErdpGen := intr.erdpGen } n seen :=
      ⟨h.erstsz, h.erstba, h.ready, h.prod, h.cons, h.le, h.room⟩
    rw [hbne, hptr, mapPtrToPos_eq hst h'.erstba h'.erstsz hc.valid]
    refine ⟨acked, hle, le_refl _, ?_, ?_⟩
    · exact h'.observe hc hle hle' fun hfull hpos => hprog hfull hsaw hpos
    · simp [EventRingProducer.observe, h.ready]

theorem of_refresh {start : RingPos} (hst : t.Stored mem)
    (hnew : intr.erstGen ≠ ring.lastErstGen ∨ intr.erstsz ≠ ring.erstsz ∨
      intr.erstba ≠ ring.erstba)
    (hsz : intr.erstsz = t.count) (hba : intr.erstba = t.erstba)
    (hv : Valid t.size t.count start) (hptr : intr.erdpPtr = t.addr start) :
    Producing t (index t.size start) (ring.refresh mem intr) 0 0 ∧
      (ring.refresh mem intr).lastErstGen = intr.erstGen := by
  have hcount := t.count_pos
  have hpos := t.erstba_pos
  have haddr := addr_pos hv
  have hadopt : ring.adopt intr =
      { lastErstGen := intr.erstGen, erstsz := t.count, erstba := t.erstba } := by
    rw [adopt, if_pos hnew, hsz, hba]
  have hconf : (ring.adopt intr).isConfigured intr = true := by
    simp only [hadopt, EventRingProducer.isConfigured, Bool.and_eq_true, bne_iff_ne]
    omega
  have hmap : { ring.adopt intr with lastErdpGen := intr.erdpGen }.mapPtrToPos mem (t.addr start) =
      some start := by
    rw [hadopt]
    exact mapPtrToPos_eq hst rfl rfl hv
  have hnot : ¬start.Before ⟨0, 0⟩ := by simp [Pos.Before]
  simp only [EventRingProducer.refresh, hconf, Bool.not_true, hptr, hmap]
  rw [hadopt]
  simp only [Bool.and_false, Bool.false_eq_true, if_false, EventRingProducer.observe, if_neg hnot,
    isFull, Bool.false_and, and_false]
  have hstart := At.start hv
  exact ⟨⟨rfl, rfl, rfl, hstart, hstart, le_refl _, zero_le _⟩, trivial⟩

end Producing

structure Drained (t : SegmentTable) (k : Nat) (es : List Trb) (seen : Nat) (x : XhciController)
    (r : XhciController × Mem × Nat) : Prop where
  producing : Producing t k r.1.eventRing (es ++ x.pendingEvents.take r.2.2).length seen
  filled : Filled t k r.2.1 (es ++ x.pendingEvents.take r.2.2) seen
  lastErstGen : r.1.eventRing.lastErstGen = x.eventRing.lastErstGen
  regs : ∃ iman, r.1.interrupter0 = { x.interrupter0 with iman := iman }

theorem Drained.stop (h : Producing t k x.eventRing es.length seen) (hf : Filled t k mem es seen) :
    Drained t k es seen x (x, mem, 0) :=
  ⟨by simpa using h, by simpa using hf, rfl, x.interrupter0.iman, rfl⟩

theorem drained (h : Producing t k x.eventRing es.length seen) (hf : Filled t k mem es seen)
    (hptr : x.interrupter0.erdpPtr ≠ 0) (budget : Nat) :
    Drained t k es seen x (x.drainEvents mem budget) := by
  induction budget generalizing x mem es with
  | zero => exact .stop h hf
  | succ budget ih =>
    rw [XhciController.drainEvents]
    cases hp : x.pendingEvents with
    | nil => exact .stop h hf
    | cons trb rest =>
      rcases h.tryEnqueue hf hptr trb with he | ⟨ring, mem', he, hgen, h', hf'⟩
      · simp only [he, ← hp]
        exact .stop h hf
      · simp only [he]
        -- the rest of the queue, from the ring with the event
        have hrest := ih (x := { x with
          eventRing := ring
          pendingEvents := rest
          interrupter0 := x.interrupter0.setInterruptPending true }) h' hf' hptr
        generalize XhciController.drainEvents _ mem' budget = r at hrest ⊢
        obtain ⟨hprod, hfill, hlast, iman, hregs⟩ := hrest
        have htake w : es ++ x.pendingEvents.take (w + 1) = es ++ [trb] ++ rest.take w := by
          rw [hp]
          simp
        refine ⟨?_, ?_, hlast.trans hgen, iman, hregs⟩
        · rw [htake]
          exact hprod
        · rw [htake]
          exact hfill

end Aero.Usb
