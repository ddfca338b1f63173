import Aero.Ipc.RingSystem
import Aero.Ipc.Theorems.Ring

namespace Aero.Ipc

open LeBytes CircularLog RingBuffer Function

namespace System

variable {ι : Type*} [DecidableEq ι] {ring : RingBuffer} {s : System ι} {p : ι}

theorem Reachable.next (h : Reachable FewSinceTail ring s) (a : Action ι) (s' : System ι)
    (ha : s.FewSinceTail a) (hs : s.step a = s') : Reachable FewSinceTail ring s' :=
  hs ▸ .step a h ha

theorem Reachable.copyBytes (h : Reachable FewSinceTail ring s)
    (hp : s.producers p = .copy t tail newTail todo) :
    Reachable FewSinceTail ring { s with
      ring := { s.ring with data := todo.foldl store s.ring.data }
      producers := update s.producers p (.copy t tail newTail []) } := by
  induction todo generalizing s
  case nil =>
    rw [← hp, update_eq_self]
    exact h
  case cons w todo ih =>
    have hstep : s.step (.producer p) = s.copyByte p t tail newTail w todo := by
      rw [System.step, stepProducer, hp]
    have := ih (h.next (.producer p) _ (by rw [FewSinceTail, hp]; trivial) hstep)
      (update_self ..)
    rwa [copyByte, update_idem] at this

def solo (s : System ι) (p : ι) (payload : List U8) (padding reserve : Nat) (ring' : RingBuffer) :
    System ι :=
  { s with
    ring := ring'
    producers := Function.update s.producers p (.done (.ok ()))
    reservations := s.reservations ++ [⟨p, payload, s.reserved, padding, reserve⟩]
    reserved := s.reserved + reserve
    commits := s.commits + 1 }

theorem solo_producers_self {padding reserve : Nat} :
    (s.solo p payload padding reserve ring').producers p = .done (.ok ()) :=
  update_self ..

theorem solo_producers_of_ne (hp : p' ≠ p) {padding reserve : Nat} :
    (s.solo p payload padding reserve ring').producers p' = s.producers p' :=
  update_of_ne hp ..

section

variable (h : Reachable FewSinceTail ring s)
include h

theorem Reachable.push (hp : s.producers p = .idle ∨ ∃ r, s.producers p = .done r)
    (hpush : s.ring.tryPush payload = some (.ok (), ring')) :
    ∃ n padding wrap reserve, pushSize s.ring.cap payload = some n ∧
      attempt s.ring.cap s.ring.head s.ring.tailReserve n = .exchange padding wrap reserve ∧
      Reachable FewSinceTail ring (s.solo p payload padding reserve ring') := by
  rw [tryPush] at hpush
  cases hn : pushSize s.ring.cap payload
  case none => simp [hn] at hpush
  case some n =>
    cases ha : attempt s.ring.cap s.ring.head s.ring.tailReserve n
    case retry => simp [hn, ha] at hpush
    case full => simp [hn, ha] at hpush
    case exchange padding wrap reserve =>
      simp only [hn, ha] at hpush
      split at hpush
      case isFalse => cases hpush
      case isTrue hcommit =>
        obtain rfl := (Prod.mk.inj (Option.some.inj hpush)).2
        refine ⟨n, padding, wrap, reserve, rfl, ha, ?_⟩
        have h₁ := h.next (.push p payload) (s.setProducer p (.loadHead payload n)) trivial (by
          rcases hp with hp | ⟨r, hp⟩ <;> simp only [System.step, hp, beginPush, hn])
        have h₂ := h₁.next (.producer p)
          (s.setProducer p (.loadTail payload n s.ring.head s.reserved))
          (by simp [FewSinceTail, setProducer]) (by
            simp [System.step, stepProducer, setProducer])
        have h₃ := h₂.next (.producer p) (s.setProducer p (.exchange payload n s.ring.tailReserve
            padding wrap reserve s.reserved s.reserved))
          (by simp [FewSinceTail, setProducer]) (by
            simp [System.step, stepProducer, setProducer, afterLoads, ha])
        have h₄ := h₃.next (.producer p)
          (s.reserve p payload s.ring.tailReserve padding wrap reserve)
          (by simp [FewSinceTail, setProducer]) (by
            simp [System.step, stepProducer, setProducer, System.reserve])
        have h₅ := h₄.copyBytes (update_self ..)
        have h₆ := h₅.next (.producer p) _ (by simp [FewSinceTail]) rfl
        simp only [System.step, stepProducer, update_self, System.reserve, hcommit,
          if_true, setProducer] at h₆
        have h₇ := h₆.next (.producer p) _ (by simp [FewSinceTail]) rfl
        simpa only [System.step, stepProducer, update_self, commit, update_idem, solo] using h₇

theorem Reachable.readLength {head tail : U32} (hindex : headIndex s.ring.cap head = index)
    (hcon : s.consumer = .readLength head tail []) :
    Reachable FewSinceTail ring (s.setConsumer
      (s.readByte head tail (readBytes s.ring.data index 3))) := by
  have hstep : ∀ n < 3, ∀ s' : System ι, s' = s.setConsumer (.readLength head tail
      (readBytes s.ring.data index n)) → Reachable FewSinceTail ring s' →
      Reachable FewSinceTail ring (s.setConsumer (.readLength head tail
        (readBytes s.ring.data index (n + 1)))) := by
    rintro n hn s' rfl hr
    refine hr.next .consumer _ trivial ?_
    have hlen : n + 1 < 4 := by omega
    simp only [System.step, stepConsumer, setConsumer, readByte, hindex, length_readBytes,
      ← readBytes_succ, if_pos hlen]
  have h₀ : s = s.setConsumer (.readLength head tail (readBytes s.ring.data index 0)) := by
    simp [setConsumer, readBytes, ← hcon]
  have h₁ := hstep 0 (by omega) s h₀ h
  have h₂ := hstep 1 (by omega) _ rfl h₁
  have h₃ := hstep 2 (by omega) _ rfl h₂
  exact h₃.next .consumer _ trivial rfl

theorem Reachable.copyPayload {head newHead : U32} (hindex : headIndex s.ring.cap head = index)
    (hn : n ≤ len) (hcon : s.consumer = .copy head newHead len []) :
    Reachable FewSinceTail ring (s.setConsumer
      (.copy head newHead len (readBytes s.ring.data (index + 4) n))) := by
  induction n
  case zero =>
    have : s.setConsumer (.copy head newHead len []) = s := by rw [← hcon]; rfl
    simpa [readBytes, this] using h
  case succ n ih =>
    refine (ih (by omega)).next .consumer _ trivial ?_
    have hlt : n < len := by omega
    simp only [System.step, stepConsumer, setConsumer, length_readBytes, if_pos hlt, hindex,
      readBytes_succ]

theorem Reachable.pop (hcon : s.consumer = .loadHead)
    (hpop : s.ring.tryPop fuel = some (.ok out, ring')) :
    Reachable FewSinceTail ring { s with
      ring := ring'
      consumer := .done (.ok out)
      popped := s.popped ++ [out] } := by
  induction fuel generalizing s
  case zero => simp [tryPop] at hpop
  case succ fuel ih =>
    have h₁ := h.next .consumer (s.setConsumer (.loadTail s.ring.head)) trivial (by
      simp only [System.step, stepConsumer, hcon])
    have h₂ := h₁.next .consumer (s.setConsumer (s.lookAt s.ring.head)) trivial rfl
    have hskip : ∀ newHead, tryPop fuel { s.ring with head := newHead } = some (.ok out, ring') →
        Reachable FewSinceTail ring (s.setConsumer (.skip newHead)) →
        Reachable FewSinceTail ring { s with
          ring := ring'
          consumer := .done (.ok out)
          popped := s.popped ++ [out] } := by
      intro newHead hpop hr
      have := ih (hr.next .consumer { s with
        ring := { s.ring with head := newHead }
        consumer := .loadHead } trivial rfl) rfl hpop
      exact this
    rw [tryPop] at hpop
    rw [lookAt] at h₂
    cases hlook : look s.ring.cap s.ring.head s.ring.tailCommit
    case empty => simp [hlook] at hpop
    case skip newHead =>
      simp only [hlook] at hpop h₂
      exact hskip newHead hpop h₂
    case length =>
      simp only [hlook] at hpop h₂
      have h₃ := h₂.readLength rfl rfl
      have hbytes : readBytes s.ring.data (headIndex s.ring.cap s.ring.head) 3 ++
          [s.ring.data (headIndex s.ring.cap s.ring.head + 3)] =
          readBytes s.ring.data (headIndex s.ring.cap s.ring.head) 4 := (readBytes_succ ..).symm
      simp only [setConsumer, readByte, length_readBytes, hbytes, Nat.lt_irrefl] at h₃
      cases hfind : find s.ring.cap s.ring.head s.ring.tailCommit
        (BitVec.ofNat 32 (ofLe (readBytes s.ring.data (headIndex s.ring.cap s.ring.head) 4)))
      case corrupt => simp [hfind] at hpop
      case skip newHead =>
        simp only [hfind] at hpop h₃
        exact hskip newHead hpop h₃
      case record newHead =>
        simp only [hfind] at hpop h₃
        obtain ⟨hout, hring⟩ := Prod.mk.inj (Option.some.inj hpop)
        cases hout
        subst hring
        have h₄ := h₃.copyPayload rfl le_rfl rfl
        refine h₄.next .consumer _ trivial ?_
        simp [System.step, stepConsumer, setConsumer]

end

section StaleHead

variable {ring : RingBuffer} {s : System Bool} {x : Nat}

theorem capacity_four : Capacity 4 :=
  ⟨by decide, by decide, by decide, by decide⟩

-- One producer has loaded the head at the start, the other one is between its calls, and the ring
-- of four bytes is empty.
structure Waiting (ring : RingBuffer) (s : System Bool) (x : Nat) : Prop where
  reachable : Reachable FewSinceTail ring s
  idle      : Idle s.ring 4 x
  waits     : s.producers false = .loadTail [] 4 0 0
  rests     : s.producers true = .idle ∨ ∃ r, s.producers true = .done r
  consumer  : s.consumer = .idle ∨ ∃ r, s.consumer = .done r
  reserved  : s.reserved = x
  commits   : s.reservations.length = s.commits
  popped    : s.popped.length = s.commits

theorem Waiting.push (h : Waiting ring s x) (hx : 4 ∣ x)
    (hpush : s.ring.tryPush [] = some (.ok (), pushed)) :
    Reachable FewSinceTail ring (s.solo true [] 0 4 pushed) := by
  obtain ⟨n, padding, wrap, reserve, hn, ha, hr⟩ := h.reachable.push h.rests hpush
  rw [pushSize_eq_some_iff] at hn
  obtain rfl : n = 4 := hn.2
  rw [h.idle.cap, h.idle.tailReserve] at ha
  obtain ⟨rfl, -, rfl⟩ := capacity_four.attempt_exchange hx ha
  rwa [gap_of_ge (by omega)] at hr

theorem Waiting.round (h : Waiting ring s x) (hx : 4 ∣ x) (hx' : x < 2 ^ 32) :
    ∃ s', Waiting ring s' (x + 4) := by
  obtain ⟨pushed, ring', hpush, hpop, hidle, -⟩ := h.idle.round (by decide) (by decide) (by decide)
    hx hx' 0
  have hs := h.push hx hpush
  have hcall : (s.solo true [] 0 4 pushed).step .pop =
      (s.solo true [] 0 4 pushed).setConsumer .loadHead := by
    rcases h.consumer with hc | ⟨r, hc⟩ <;> simp only [step, solo, hc]
  have hr := (hs.next .pop _ trivial hcall).pop rfl hpop
  have hown : (s.solo true [] 0 4 pushed).producers true = .done (.ok ()) := solo_producers_self
  have hother : (s.solo true [] 0 4 pushed).producers false = s.producers false :=
    solo_producers_of_ne (by decide)
  exact ⟨_, {
    reachable := hr
    idle := hidle
    waits := hother.trans h.waits
    rests := .inr ⟨_, hown⟩
    consumer := .inr ⟨_, rfl⟩
    reserved := congrArg (· + 4) h.reserved
    commits := by
      simp [setConsumer, solo, h.commits]
    popped := by
      simp [setConsumer, solo, h.popped]
  }⟩

theorem Waiting.rounds (h : Waiting ring s 0) (hn : 4 * n < 2 ^ 32) :
    ∃ s', Waiting ring s' (4 * n) := by
  induction n
  case zero => exact ⟨s, h⟩
  case succ n ih =>
    obtain ⟨s₁, h₁⟩ := ih (by omega)
    exact h₁.round ⟨n, rfl⟩ (by omega)

theorem waiting_start (hring : new 4 = some ring) : ∃ s, Waiting ring s 0 := by
  cases hring
  have h₀ : Reachable FewSinceTail ⟨4, 0, 0, 0, fun _ => 0⟩ (init _ : System Bool) := .start
  have h₁ := h₀.next (.push false []) _ trivial rfl
  have h₂ := h₁.next (.producer false) _ trivial rfl
  exact ⟨_, h₂, ⟨rfl, rfl, rfl, rfl⟩, rfl, .inl rfl, .inl rfl, rfl, rfl, rfl⟩

end StaleHead

end System

end Aero.Ipc
