import Aero.Shared.Framebuffer

namespace Aero.Shared.Framebuffer

open List BitVec Function

@[simp]
theorem slotOf_indexOf (slot : Bool) : slotOf (indexOf slot) = slot := by
  cases slot <;> decide

variable {n d : Nat}

namespace Producer

def Writing : Producer n d → Prop
  | .loadActive _ | .write .. | .storeBufferSeq .. | .storeActive .. | .storeSeq .. => True
  | _ => False

def Resting : Producer n d → Prop
  | .idle | .done _ | .loadDirty _ => True
  | _ => False

def Ok (header : SharedFramebufferHeader) (slots : Bool → Frame n d) : Producer n d → Prop
  | .write back todo frame =>
    back = !slotOf header.activeIndex ∧ todo.foldl Frame.write (slots back) = frame
  | .storeBufferSeq back newSeq frame =>
    back = !slotOf header.activeIndex ∧ slots back = frame ∧ newSeq = header.frameSeq + 1
  | .storeActive back newSeq frame =>
    back = !slotOf header.activeIndex ∧ slots back = frame ∧ newSeq = header.frameSeq + 1 ∧
    header.bufferFrameSeq back = newSeq
  | .storeSeq back newSeq frame =>
    back = slotOf header.activeIndex ∧ slots back = frame ∧ newSeq = header.frameSeq + 1 ∧
    header.bufferFrameSeq back = newSeq
  | _ => True

def current (header : SharedFramebufferHeader) : Producer n d → Bool
  | .storeSeq back _ _ => !back
  | _                  => slotOf header.activeIndex

end Producer

namespace Consumer

-- The consumer has no frame and finds none while `seq` stays the last one.
def Rests (seq : U32) : Consumer → Prop
  | .detached | .attach             => True
  | .idle lastSeq | .pollSeq lastSeq => lastSeq = seq
  | _                               => False

def Ok (header : SharedFramebufferHeader) (published : Nat) : Consumer → Prop
  | .detached | .attach => True
  | .idle lastSeq | .pollSeq lastSeq => lastSeq.toNat ≤ published
  | .pollActive seq | .ackSeq seq | .ackStore seq => seq = header.frameSeq ∧ 0 < published
  | .pollBufferSeq seq active | .scan seq active _ | .view seq active =>
    seq = header.frameSeq ∧ 0 < published ∧ active = slotOf header.activeIndex

end Consumer

def Read.Ok (frames : List (Frame n d)) : Read n d → Prop
  | .bufferSeq seq value => value = seq ∧ 0 < seq.toNat ∧ seq.toNat ≤ frames.length
  | .pixel seq i value => 0 < seq.toNat ∧
    ∃ frame, frames[seq.toNat - 1]? = some frame ∧ value = frame.pixels i
  | .dirtyWord seq j value => 0 < seq.toNat ∧
    ∃ frame, frames[seq.toNat - 1]? = some frame ∧ value = frame.dirtyWords j

theorem Read.Ok.append {read : Read n d} (h : read.Ok frames) (frame : Frame n d) :
    read.Ok (frames ++ [frame]) := by
  cases read
  case bufferSeq =>
    refine ⟨h.1, h.2.1, h.2.2.trans ?_⟩
    rw [List.length_append]
    exact Nat.le_add_right ..
  all_goals
    obtain ⟨hpos, f, hf, hv⟩ := h
    refine ⟨hpos, f, ?_, hv⟩
    rw [List.getElem?_append_left (List.getElem?_eq_some_iff.mp hf).1]
    exact hf

namespace System

-- While the producer writes, and also while it could begin to write, the consumer has no frame.
def Exclusive (s : System n d) : Prop :=
  s.producer.Writing ∨ (s.producer.Resting ∧ s.header.frameDirty = 0) →
    s.consumer.Rests s.header.frameSeq

structure Inv (s : System n d) : Prop where
  few : s.frames.length < 2 ^ 32
  seq : s.header.frameSeq = BitVec.ofNat 32 s.frames.length
  last : ∀ frame, s.frames.getLast? = some frame →
    s.slots (s.producer.current s.header) = frame ∧
    s.header.bufferFrameSeq (s.producer.current s.header) = s.header.frameSeq
  producer : s.producer.Ok s.header s.slots
  consumer : s.consumer.Ok s.header s.frames.length
  exclusive : s.Exclusive
  reads : ∀ read ∈ s.reads, read.Ok s.frames

variable {s : System n d}

theorem Inv.toNat_seq (hi : s.Inv) : s.header.frameSeq.toNat = s.frames.length := by
  rw [hi.seq, toNat_ofNat, Nat.mod_eq_of_lt hi.few]

theorem Inv.init (slots : Bool → Frame n d) : (System.init slots).Inv where
  few := by simp [System.init]
  seq := rfl
  last := by simp [System.init]
  producer := trivial
  consumer := trivial
  exclusive := fun _ => trivial
  reads := by simp [System.init]

theorem Inv.setProducer (hi : s.Inv) (hok : state.Ok s.header s.slots)
    (hcur : state.current s.header = s.producer.current s.header)
    (hex : (s.setProducer state).Exclusive) : (s.setProducer state).Inv where
  __ := hi
  last frame hf := by
    exact hcur ▸ hi.last frame hf
  producer := hok
  exclusive := hex

theorem Inv.setConsumer (hi : s.Inv) (hok : state.Ok s.header s.frames.length)
    (hex : (s.setConsumer state).Exclusive) : (s.setConsumer state).Inv where
  __ := hi
  consumer := hok
  exclusive := hex

theorem Inv.log (hi : s.Inv) {read : Read n d} (h : read.Ok s.frames) : (s.log read).Inv where
  __ := hi
  reads r hr := by
    rcases mem_append.mp hr with hr | hr
    · exact hi.reads r hr
    · rw [mem_singleton.mp hr]
      exact h

section Producer

theorem Inv.writeSlot (hi : s.Inv) (hp : s.producer = .write back (w :: todo) frame) :
    ((s.writeSlot back w).setProducer (.write back todo frame)).Inv := by
  obtain ⟨hback, hframe⟩ := hp ▸ hi.producer
  refine ⟨hi.few, hi.seq, ?_, ⟨hback, ?_⟩, hi.consumer, ?_, hi.reads⟩
  · intro f hf
    have hlast := hi.last f hf
    rw [hp] at hlast
    have hne : slotOf s.header.activeIndex ≠ back := by
      rw [hback]
      simp
    refine ⟨?_, hlast.2⟩
    exact (update_of_ne hne ..).trans hlast.1
  · change todo.foldl Frame.write (update s.slots back _ back) = frame
    rw [update_self]
    exact hframe
  · exact fun _ => hi.exclusive (.inl (hp ▸ trivial))

theorem Inv.storeBufferSeq (hi : s.Inv) (hp : s.producer = .storeBufferSeq back newSeq frame) :
    s.stepProducer.Inv := by
  obtain ⟨hback, hslot, hseq⟩ := hp ▸ hi.producer
  rw [stepProducer, hp]
  refine ⟨hi.few, hi.seq, ?_, ⟨hback, hslot, hseq, update_self ..⟩, ?_, ?_, hi.reads⟩
  · intro f hf
    have hlast := hi.last f hf
    rw [hp] at hlast
    have hne : slotOf s.header.activeIndex ≠ back := by
      rw [hback]
      simp
    exact ⟨hlast.1, (update_of_ne hne ..).trans hlast.2⟩
  · have hc := hi.consumer
    change s.consumer.Ok _ _
    cases h : s.consumer <;> rw [h] at hc <;> exact hc
  · exact fun _ => hi.exclusive (.inl (hp ▸ trivial))

theorem Inv.storeActive (hi : s.Inv) (hp : s.producer = .storeActive back newSeq frame) :
    s.stepProducer.Inv := by
  obtain ⟨hback, hslot, hseq, hbuf⟩ := hp ▸ hi.producer
  have hrests := hi.exclusive (.inl (hp ▸ trivial))
  rw [stepProducer, hp]
  refine ⟨hi.few, hi.seq, ?_, ⟨(slotOf_indexOf back).symm, hslot, hseq, hbuf⟩, ?_,
    fun _ => hrests, hi.reads⟩
  · intro f hf
    have hlast := hi.last f hf
    rw [hp] at hlast
    have hcur : (!back) = slotOf s.header.activeIndex := by
      rw [hback, Bool.not_not]
    change s.slots (!back) = f ∧ s.header.bufferFrameSeq (!back) = _
    rw [hcur]
    exact hlast
  · -- a consumer without a frame does not depend on the index
    have hc := hi.consumer
    change s.consumer.Ok _ _
    cases h : s.consumer <;> rw [h] at hc hrests <;> first | exact hc | cases hrests

theorem Inv.storeSeq (hi : s.Inv) (hp : s.producer = .storeSeq back newSeq frame)
    (hfew : s.stepProducer.frames.length < 2 ^ 32) : s.stepProducer.Inv := by
  obtain ⟨hback, hslot, hseq, hbuf⟩ := hp ▸ hi.producer
  have hrests := hi.exclusive (.inl (hp ▸ trivial))
  have hlen : s.stepProducer.frames.length = s.frames.length + 1 := by
    rw [stepProducer, hp, length_append, length_singleton]
  rw [hlen] at hfew
  rw [stepProducer, hp]
  refine ⟨?_, ?_, ?_, trivial, ?_, ?_, fun read hr => (hi.reads read hr).append frame⟩
  · simpa using hfew
  · change newSeq = BitVec.ofNat 32 (s.frames ++ [frame]).length
    rw [hseq, hi.seq, length_append, BitVec.ofNat_add]
    rfl
  · intro f hf
    rw [getLast?_concat, Option.some.injEq] at hf
    subst hf
    exact ⟨hback ▸ hslot, hback ▸ hbuf⟩
  · have hc := hi.consumer
    rw [length_append]
    cases h : s.consumer <;> rw [h] at hc hrests <;>
      first | trivial | exact Nat.le_add_right_of_le hc
  · rintro (h | h)
    · cases h
    · cases h.1

theorem Inv.storeDirty (hi : s.Inv) (hp : s.producer = .storeDirty newSeq) :
    s.stepProducer.Inv := by
  rw [stepProducer, hp]
  refine ⟨hi.few, hi.seq, ?_, trivial, ?_, ?_, hi.reads⟩
  · intro f hf
    have hlast := hi.last f hf
    rw [hp] at hlast
    exact hlast
  · have hc := hi.consumer
    change s.consumer.Ok _ _
    cases h : s.consumer <;> rw [h] at hc <;> exact hc
  · rintro (h | h)
    · cases h
    · have hzero : (1 : U32) = 0 := h.2
      exact absurd hzero (by decide)

theorem Inv.stepProducer (hi : s.Inv) (hfew : s.stepProducer.frames.length < 2 ^ 32) :
    s.stepProducer.Inv := by
  cases hp : s.producer
  case idle | done =>
    rw [System.stepProducer, hp]
    exact hi
  case loadDirty writes =>
    rw [System.stepProducer, hp]
    split_ifs with hdirty
    · refine hi.setProducer trivial (hp ▸ rfl) ?_
      rintro (h | h)
      · cases h
      · exact absurd h.2 hdirty
    · refine hi.setProducer trivial (hp ▸ rfl) fun _ => hi.exclusive (.inr ⟨hp ▸ trivial, ?_⟩)
      exact not_not.mp hdirty
  case loadActive writes =>
    rw [System.stepProducer, hp]
    exact hi.setProducer ⟨rfl, rfl⟩ (hp ▸ rfl) fun _ => hi.exclusive (.inl (hp ▸ trivial))
  case write back todo frame =>
    rw [System.stepProducer, hp]
    cases todo
    case nil =>
      obtain ⟨hback, hframe⟩ := hp ▸ hi.producer
      exact hi.setProducer ⟨hback, hframe, rfl⟩ (hp ▸ rfl)
        fun _ => hi.exclusive (.inl (hp ▸ trivial))
    case cons w todo => exact hi.writeSlot hp
  case storeBufferSeq => exact hi.storeBufferSeq hp
  case storeActive => exact hi.storeActive hp
  case storeSeq => exact hi.storeSeq hp hfew
  case storeDirty => exact hi.storeDirty hp

end Producer

section Consumer

theorem Inv.held (hi : s.Inv) {seq : U32} (hrests : ¬s.consumer.Rests s.header.frameSeq)
    (hok : seq = s.header.frameSeq ∧ 0 < s.frames.length ∧ active = slotOf s.header.activeIndex) :
    0 < seq.toNat ∧ seq.toNat ≤ s.frames.length ∧ s.header.bufferFrameSeq active = seq ∧
      s.frames[seq.toNat - 1]? = some (s.slots active) := by
  obtain ⟨rfl, hpos, rfl⟩ := hok
  have hcur : s.producer.current s.header = slotOf s.header.activeIndex := by
    cases hp : s.producer
    case storeSeq => exact absurd (hi.exclusive (.inl (hp ▸ trivial))) hrests
    all_goals rfl
  rw [hi.toNat_seq]
  have hf := getLast?_eq_some_getLast (ne_nil_of_length_pos hpos)
  have hlast := hi.last _ hf
  rw [hcur] at hlast
  refine ⟨hpos, le_rfl, hlast.2, ?_⟩
  rw [hlast.1, ← getLast?_eq_getElem?, hf]

theorem Inv.held_of_view (hi : s.Inv) {seq : U32} (hc : s.consumer = .view seq active) :
    0 < seq.toNat ∧ seq.toNat ≤ s.frames.length ∧ s.header.bufferFrameSeq active = seq ∧
      s.frames[seq.toNat - 1]? = some (s.slots active) := by
  have hok := hi.consumer
  rw [hc] at hok
  exact hi.held (hc ▸ id) hok

theorem Inv.exclusive_of_not_rests (hi : s.Inv) (hrests : ¬s.consumer.Rests s.header.frameSeq)
    (state : Consumer) : (s.setConsumer state).Exclusive :=
  fun h => absurd (hi.exclusive h) hrests

theorem Consumer.ok_scanFrom {header : SharedFramebufferHeader} (j : Nat)
    (hok : seq = header.frameSeq ∧ 0 < published ∧ active = slotOf header.activeIndex) :
    (scanFrom (d := d) seq active j).Ok header published := by
  rw [scanFrom]
  split_ifs <;> exact hok

theorem Inv.stepConsumer (hi : s.Inv) : s.stepConsumer.Inv := by
  have hc := hi.consumer
  cases h : s.consumer
  all_goals
    rw [System.stepConsumer, h]
    rw [h] at hc
    dsimp only
  case detached | idle | view => exact hi
  case attach =>
    exact hi.setConsumer hi.toNat_seq.le fun _ => rfl
  case pollSeq lastSeq =>
    split_ifs with heq
    · exact hi.setConsumer hc fun _ => heq.symm
    · refine hi.setConsumer ⟨rfl, ?_⟩ (hi.exclusive_of_not_rests ?_ _)
      · by_contra hzero
        apply heq
        apply eq_of_toNat_eq
        have hle : lastSeq.toNat ≤ s.frames.length := hc
        rw [hi.toNat_seq]
        omega
      · rw [h]
        exact fun hr => heq hr.symm
  case pollActive seq =>
    exact hi.setConsumer ⟨hc.1, hc.2, rfl⟩ (hi.exclusive_of_not_rests (h ▸ id) _)
  case pollBufferSeq seq active =>
    have hrests : ¬s.consumer.Rests s.header.frameSeq := h ▸ id
    obtain ⟨hpos, hle, hbuf, -⟩ := hi.held hrests hc
    have hread : (Read.bufferSeq seq (s.header.bufferFrameSeq active) : Read n d).Ok s.frames :=
      ⟨hbuf, hpos, hle⟩
    exact (hi.log hread).setConsumer (Consumer.ok_scanFrom 0 hc)
      (hi.exclusive_of_not_rests hrests _)
  case scan seq active j =>
    have hrests : ¬s.consumer.Rests s.header.frameSeq := h ▸ id
    obtain ⟨hpos, -, -, hframe⟩ := hi.held hrests hc
    have hread (hj : j < d) : (Read.dirtyWord seq ⟨j, hj⟩ _ : Read n d).Ok s.frames :=
      ⟨hpos, _, hframe, rfl⟩
    split_ifs with hj
    · exact (hi.log (hread hj)).setConsumer (Consumer.ok_scanFrom (j + 1) hc)
        (hi.exclusive_of_not_rests hrests _)
    · exact (hi.log (hread hj)).setConsumer hc (hi.exclusive_of_not_rests hrests _)
    · exact hi
  case ackSeq seq =>
    have hrests : ¬s.consumer.Rests s.header.frameSeq := h ▸ id
    split_ifs with hne
    · exact absurd hc.1.symm hne
    · exact hi.setConsumer hc (hi.exclusive_of_not_rests hrests _)
  case ackStore seq =>
    refine ⟨hi.few, hi.seq, ?_, ?_, ?_, ?_, hi.reads⟩
    · intro f hf
      have hlast := hi.last f hf
      change s.slots (s.producer.current _) = f ∧ s.header.bufferFrameSeq (s.producer.current _) = _
      cases hp : s.producer <;> rw [hp] at hlast <;> exact hlast
    · have hok := hi.producer
      change s.producer.Ok _ _
      cases hp : s.producer <;> rw [hp] at hok <;> exact hok
    · change seq.toNat ≤ s.frames.length
      rw [hc.1, hi.toNat_seq]
    · exact fun _ => hc.1

end Consumer

theorem Inv.step (hi : s.Inv) (hfew : (s.step a).frames.length < 2 ^ 32) : (s.step a).Inv := by
  cases a
  case writeFrame writes =>
    rw [System.step]
    split
    case h_1 hp | h_2 hp =>
      refine hi.setProducer trivial (hp ▸ rfl) fun h => ?_
      rcases h with h | h
      · cases h
      · exact hi.exclusive (.inr ⟨hp ▸ trivial, h.2⟩)
    case h_3 => exact hi
  case producer => exact hi.stepProducer hfew
  case attach =>
    rw [System.step]
    split
    case h_1 => exact hi.setConsumer trivial fun _ => trivial
    case h_2 => exact hi
  case poll =>
    rw [System.step]
    split
    case h_1 lastSeq hc =>
      refine hi.setConsumer (hc ▸ hi.consumer : (Consumer.idle lastSeq).Ok _ _) fun h => ?_
      have hrests := hi.exclusive h
      rw [hc] at hrests
      exact hrests
    case h_2 => exact hi
  case readPixel i =>
    rw [System.step]
    split
    case h_1 seq active hc =>
      obtain ⟨hpos, -, -, hframe⟩ := hi.held_of_view hc
      have hread : (Read.pixel seq i _ : Read n d).Ok s.frames := ⟨hpos, _, hframe, rfl⟩
      exact hi.log hread
    case h_2 => exact hi
  case readDirtyWord j =>
    rw [System.step]
    split
    case h_1 seq active hc =>
      obtain ⟨hpos, -, -, hframe⟩ := hi.held_of_view hc
      have hread : (Read.dirtyWord seq j _ : Read n d).Ok s.frames := ⟨hpos, _, hframe, rfl⟩
      exact hi.log hread
    case h_2 => exact hi
  case ack =>
    rw [System.step]
    split
    case h_1 seq active hc =>
      have hok := hc ▸ hi.consumer
      exact hi.setConsumer ⟨hok.1, hok.2.1⟩ (hi.exclusive_of_not_rests (hc ▸ id) _)
    case h_2 => exact hi
  case consumer => exact hi.stepConsumer

theorem Reachable.inv (h : Reachable allowed s) : s.Inv := by
  induction h
  case start slots => exact .init slots
  case step _ _ hfew ih => exact ih.step hfew

end System

end Aero.Shared.Framebuffer
