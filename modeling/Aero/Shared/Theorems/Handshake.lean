import Aero.Shared.Theorems.Framebuffer

namespace Aero.Shared.Framebuffer

namespace System

variable {n d : Nat} {s : System n d}

def anyStep (_ : System n d) (_ : Action n d) : Prop :=
  True

def run (s : System n d) (actions : List (Action n d)) : System n d :=
  actions.foldl step s

theorem frames_length_step_le (s : System n d) (a : Action n d) :
    s.frames.length ≤ (s.step a).frames.length := by
  cases a <;> rw [step]
  case producer =>
    rw [stepProducer]
    split <;> try exact le_rfl
    case h_3 => split_ifs <;> exact le_rfl
    case h_9 => simp
  case consumer =>
    rw [stepConsumer]
    split <;> try exact le_rfl
    all_goals split_ifs <;> exact le_rfl
  all_goals split <;> exact le_rfl

theorem frames_length_run_le (s : System n d) (actions : List (Action n d)) :
    s.frames.length ≤ (s.run actions).frames.length := by
  induction actions generalizing s
  case nil => exact le_rfl
  case cons a actions ih => exact (frames_length_step_le s a).trans (ih (s.step a))

def RunAllowed (allowed : System n d → Action n d → Prop) : System n d → List (Action n d) → Prop
  | _, []           => True
  | s, a :: actions => allowed s a ∧ RunAllowed allowed (s.step a) actions

theorem Reachable.run (h : Reachable allowed s) (hallowed : RunAllowed allowed s actions)
    (hfew : (s.run actions).frames.length < 2 ^ 32) : Reachable allowed (s.run actions) := by
  induction actions generalizing s
  case nil => exact h
  case cons a actions ih =>
    have hle := frames_length_run_le (s.step a) actions
    exact ih (h.step a hallowed.1 (hle.trans_lt hfew)) hallowed.2 hfew

theorem runAllowed_anyStep (s : System n d) (actions : List (Action n d)) :
    RunAllowed anyStep s actions := by
  induction actions generalizing s
  case nil => trivial
  case cons a actions ih => exact ⟨trivial, ih (s.step a)⟩

def Quiescent (s : System n d) : Prop :=
  (s.producer = .idle ∨ ∃ result, s.producer = .done result) ∧
  ∃ lastSeq, s.consumer = .idle lastSeq

def PollsNothing (s : System n d) : Prop :=
  ∃ lastSeq, (s.run [.poll, .consumer]).consumer = .idle lastSeq

def Refuses (s : System n d) (writes : List (Write n d)) : Prop :=
  (s.run [.writeFrame writes, .producer]).producer = .done none

-- A consumer attaches only while the last frame is acknowledged and its dirty flag not about to be
-- set, and it acknowledges a frame only when the dirty flag of the frame has been set.
def NotEarly (s : System n d) : Action n d → Prop
  | .consumer =>
    match s.consumer with
    | .attach     => s.header.frameDirty = 0 ∧ ∀ newSeq, s.producer ≠ .storeDirty newSeq
    | .ackStore _ => ∀ newSeq, s.producer ≠ .storeDirty newSeq
    | _           => True
  | _ => True

end System

namespace Producer

def Waits {n d : Nat} (header : SharedFramebufferHeader) : Producer n d → Prop
  | .storeDirty _                  => True
  | .idle | .done _ | .loadDirty _ => header.frameDirty ≠ 0
  | _                              => False

end Producer

namespace Consumer

def CaughtUp (seq : U32) : Consumer → Prop
  | .idle lastSeq | .pollSeq lastSeq => lastSeq = seq
  | _                                => False

theorem Rests.not_caughtUp_succ {c : Consumer} (h : c.Rests seq) : ¬c.CaughtUp (seq + 1) := by
  cases c
  case idle | pollSeq =>
    intro hc
    have hs := h.symm.trans hc
    exact absurd hs (by bv_omega)
  all_goals exact id

end Consumer

namespace System

variable {n d : Nat} {s : System n d}

-- As long as the producer waits for an acknowledgement, the consumer still has the frame before it.
def Awake (s : System n d) : Prop :=
  s.producer.Waits s.header → ¬s.consumer.CaughtUp s.header.frameSeq

theorem Awake.stepProducer (hi : s.Inv) (ha : s.Awake) : s.stepProducer.Awake := by
  cases hp : s.producer
  all_goals rw [System.stepProducer, hp]
  case idle | done => exact ha
  case loadDirty writes =>
    split_ifs with hdirty
    · exact fun _ => ha (hp ▸ hdirty)
    · exact fun h => absurd h id
  case write back todo frame =>
    cases todo
    all_goals exact fun h => absurd h id
  case storeSeq back newSeq frame =>
    intro _
    have hrests := hi.exclusive (.inl (hp ▸ trivial))
    have hok := hp ▸ hi.producer
    rw [hok.2.2.1]
    exact hrests.not_caughtUp_succ
  case storeDirty newSeq => exact fun _ => ha (hp ▸ trivial)
  all_goals exact fun h => absurd h id

theorem Awake.stepConsumer (hi : s.Inv) (ha : s.Awake) (hearly : s.NotEarly .consumer) :
    s.stepConsumer.Awake := by
  have hc := hi.consumer
  cases h : s.consumer
  all_goals
    rw [System.stepConsumer, h]
    rw [NotEarly, h] at hearly
    rw [h] at hc
    dsimp only
  case detached | idle | view => exact ha
  case attach =>
    intro hw
    change s.producer.Waits s.header at hw
    cases hp : s.producer <;> rw [hp] at hw
    case storeDirty newSeq => exact absurd hp (hearly.2 newSeq)
    case idle | done | loadDirty => exact absurd hearly.1 hw
    all_goals exact absurd hw id
  case pollSeq lastSeq =>
    split_ifs with heq
    · intro hw
      have hnot := ha hw
      rw [h] at hnot
      exact hnot
    · exact fun _ => id
  case pollActive => exact fun _ => id
  case pollBufferSeq =>
    rw [scanFrom]
    split_ifs <;> exact fun _ => id
  case scan =>
    rw [scanFrom]
    split_ifs
    · exact fun _ => id
    · exact fun _ => id
    · exact fun _ => id
    · exact ha
  case ackSeq seq =>
    split_ifs with hne
    · exact absurd hc.1.symm hne
    · exact fun _ => id
  case ackStore seq =>
    intro hw
    change s.producer.Waits { s.header with frameDirty := 0 } at hw
    cases hp : s.producer <;> rw [hp] at hw
    case storeDirty newSeq => exact absurd hp (hearly newSeq)
    case idle | done | loadDirty => exact absurd rfl hw
    all_goals exact absurd hw id

theorem Awake.step (hi : s.Inv) (ha : s.Awake) (hearly : s.NotEarly a) : (s.step a).Awake := by
  cases a
  case producer => exact ha.stepProducer hi
  case consumer => exact ha.stepConsumer hi hearly
  case writeFrame writes =>
    rw [System.step]
    split
    case h_1 hp | h_2 hp => exact fun h => ha (hp ▸ h)
    case h_3 => exact ha
  case attach | ack =>
    rw [System.step]
    split
    case h_1 => exact fun _ => id
    case h_2 => exact ha
  case poll =>
    rw [System.step]
    split
    case h_1 hc =>
      intro h
      have hnot := ha h
      rw [hc] at hnot
      exact hnot
    case h_2 => exact ha
  case readPixel i | readDirtyWord j =>
    rw [System.step]
    split <;> exact ha

theorem Reachable.awake (h : Reachable NotEarly s) : s.Awake := by
  induction h
  case start slots => exact fun hw => absurd rfl hw
  case step h hearly _ ih => exact ih.step h.inv hearly

-- When neither side is inside a call and the poll finds no frame, the producer can write.
theorem not_wedged (h : Reachable NotEarly s) (hq : s.Quiescent) (hpoll : s.PollsNothing)
    (writes : List (Write n d)) : ¬s.Refuses writes := by
  obtain ⟨hp, lastSeq, hc⟩ := hq
  obtain ⟨seq, hseq⟩ := hpoll
  have hcaught : s.header.frameSeq = lastSeq := by
    by_contra hne
    simp [run, step, hc, stepConsumer, setConsumer, hne] at hseq
  have hdirty : s.header.frameDirty = 0 := by
    by_contra hne
    refine h.awake ?_ (hc ▸ hcaught.symm)
    rcases hp with hp | ⟨result, hp⟩
    · exact hp ▸ hne
    · exact hp ▸ hne
  intro hrefuses
  rw [Refuses, run, List.foldl_cons, List.foldl_cons, List.foldl_nil] at hrefuses
  rcases hp with hp | ⟨result, hp⟩
  · simp [hp, step, stepProducer, setProducer, hdirty] at hrefuses
  · simp [hp, step, stepProducer, setProducer, hdirty] at hrefuses

def blank : Bool → Frame 4 0 :=
  fun _ => ⟨fun _ => 0, fun _ => 0⟩

theorem not_wedged_acknowledged : ∃ s : System 4 0, Reachable NotEarly s ∧ s.Quiescent ∧
    s.PollsNothing ∧ ¬s.Refuses [.pixel 0 7] := by
  let actions : List (Action 4 0) :=
    [.attach, .consumer, .writeFrame [], .producer, .producer, .producer, .producer, .producer,
      .producer, .producer, .poll, .consumer, .consumer, .consumer, .ack, .consumer, .consumer]
  have hallowed : RunAllowed NotEarly (init blank) actions := by
    refine ⟨trivial, ⟨rfl, by rintro _ ⟨⟩⟩, trivial, trivial, trivial, trivial, trivial, trivial,
      trivial, trivial, trivial, trivial, trivial, trivial, trivial, trivial, ?_, trivial⟩
    rintro _ ⟨⟩
  have h : Reachable NotEarly ((init blank).run actions) :=
    (Reachable.start blank).run hallowed (by decide)
  have hq : ((init blank).run actions).Quiescent := ⟨.inr ⟨_, rfl⟩, _, rfl⟩
  have hpoll : ((init blank).run actions).PollsNothing := ⟨_, rfl⟩
  exact ⟨_, h, hq, hpoll, not_wedged h hq hpoll _⟩

-- The consumer acknowledges the frame before the producer sets the dirty flag.
def earlyAck : List (Action 4 0) :=
  [.attach, .consumer, .writeFrame [], .producer, .producer, .producer, .producer, .producer,
    .producer, .poll, .consumer, .consumer, .consumer, .ack, .consumer, .consumer, .producer]

-- The consumer attaches when the frame has been published.
def lateAttach : List (Action 4 0) :=
  [.writeFrame [], .producer, .producer, .producer, .producer, .producer, .producer, .producer,
    .attach, .consumer]

structure Wedged (s : System n d) : Prop where
  quiescent : s.Quiescent
  pollsNothing : s.PollsNothing
  refuses : ∀ writes, s.Refuses writes

theorem wedged :
    (Reachable anyStep ((init blank).run earlyAck) ∧ ((init blank).run earlyAck).Wedged) ∧
    (Reachable anyStep ((init blank).run lateAttach) ∧ ((init blank).run lateAttach).Wedged) := by
  refine ⟨⟨?_, ?_⟩, ?_, ?_⟩
  · exact (Reachable.start blank).run (runAllowed_anyStep _ _) (by decide)
  · exact ⟨⟨.inr ⟨_, rfl⟩, _, rfl⟩, ⟨_, rfl⟩, fun _ => rfl⟩
  · exact (Reachable.start blank).run (runAllowed_anyStep _ _) (by decide)
  · exact ⟨⟨.inr ⟨_, rfl⟩, _, rfl⟩, ⟨_, rfl⟩, fun _ => rfl⟩

end System

end Aero.Shared.Framebuffer
