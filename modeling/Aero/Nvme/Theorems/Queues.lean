import Aero.Nvme.Controller

namespace Aero.Nvme

open CyclicRange Event NvmeController Option

variable {D : Type} {s : System D} {nvme nvme' : NvmeController D} {log log' : List Event}
  {cq cq' : CompletionQueue} {sq : SubmissionQueue} {q c slot t : Nat}

@[simp]
theorem outstanding_created :
    Outstanding q slot (.created c base size :: log) ↔ c ≠ q ∧ Outstanding q slot log := by
  simp [Outstanding, posts, frees]

@[simp]
theorem outstanding_consumed :
    Outstanding q slot (.consumed sq cid :: log) ↔ Outstanding q slot log := by
  simp [Outstanding, posts, frees]

@[simp]
theorem outstanding_posted :
    Outstanding q slot (.posted c t addr entry :: log) ↔
      c = q ∧ t = slot ∨ Outstanding q slot log := by
  simp [Outstanding, posts, frees]

-- The completions that the consumed commands get.
def granted : List Event → List (Nat × Nat × U16)
  | [] => []
  | .consumed sq cid :: log =>
    if HasRoom sq.cqid log then (sq.id, sq.cqid, cid) :: granted log else granted log
  | _ :: log => granted log

def Accounted (log : List Event) : Prop :=
  log.filterMap Event.brings = granted log

theorem length_granted_le (log : List Event) :
    (granted log).length ≤ (log.filterMap asks).length := by
  induction log
  case nil => exact Nat.le_refl _
  case cons ev log ih =>
    cases ev
    case consumed sq cid =>
      by_cases hroom : HasRoom sq.cqid log
      · simpa [granted, asks, hroom] using ih
      · simpa [granted, asks, hroom] using Nat.le_succ_of_le ih
    all_goals simpa [List.filterMap_cons, granted, asks] using ih

theorem granted_eq_asks_iff (log : List Event) :
    granted log = log.filterMap asks ↔ RoomForEach log := by
  induction log
  case nil => simp [RoomForEach, granted]
  case cons ev log ih =>
    cases ev
    case consumed sq cid =>
      by_cases hroom : HasRoom sq.cqid log
      · simp [granted, asks, hroom, RoomForEach, ih]
      -- a command without a completion cannot be made up for by the other commands
      · have hlen := length_granted_le log
        refine iff_of_false (fun h => ?_) fun h => hroom h.1
        have := congrArg List.length h
        simp [granted, asks, hroom] at this
        omega
    all_goals simpa [List.filterMap_cons, granted, asks, RoomForEach] using ih

theorem Accounted.eachCompleted_iff (h : Accounted log) : EachCompleted log ↔ RoomForEach log := by
  rw [EachCompleted, h, granted_eq_asks_iff]

-- The entries that a driver sees in a queue did not become more.
structure SameRing (q : Nat) (log log' : List Event) : Prop where
  ring : ringOf q log' = ringOf q log
  outstanding : ∀ slot, Outstanding q slot log' → Outstanding q slot log

theorem SameRing.trans (h : SameRing q log log') (h' : SameRing q log' log'') :
    SameRing q log log'' :=
  ⟨h'.ring.trans h.ring, fun slot hslot => h.outstanding slot (h'.outstanding slot hslot)⟩

-- The queue that an event is about.
def Event.queue : Event → Option Nat
  | created c _ _ | posted c _ _ _ | headMoved c _ => some c
  | consumed .. | stored .. | transferred .. => none

theorem SameRing.cons (h : ev.queue ≠ some q) : SameRing q log (ev :: log) := by
  cases ev <;> exact ⟨by simp_all [queue, ringOf], by simp_all [queue, Outstanding, posts, frees]⟩

-- Events that say nothing about the completion queues.
structure SameQueues (log log' : List Event) : Prop where
  ring : ∀ q, SameRing q log log'
  entriesKept : EntriesKept log → EntriesKept log'
  accounted : Accounted log → Accounted log'

theorem SameQueues.refl (log : List Event) : SameQueues log log :=
  ⟨fun _ => ⟨rfl, fun _ => id⟩, id, id⟩

theorem SameQueues.stored : SameQueues log (.stored addr bytes :: log) :=
  ⟨fun _ => .cons nofun, id, id⟩

theorem SameQueues.transferred : SameQueues log (.transferred mem :: log) :=
  ⟨fun _ => .cons nofun, id, id⟩

structure SubmissionQueue.Valid (sq : SubmissionQueue) : Prop where
  size_le : sq.size ≤ nvmeMaxQueueEntries
  head_lt : sq.head < sq.size
  tail_lt : sq.tail < sq.size

theorem succ_mod (hn : n ≤ nvmeMaxQueueEntries) (hi : i < n) :
    (i + 1) % 0x10000 % n = (i + 1) % n := by
  rw [nvmeMaxQueueEntries] at hn
  rw [Nat.mod_eq_of_lt (a := i + 1) (by omega)]

theorem SubmissionQueue.Valid.advance (h : sq.Valid) : sq.advance.Valid :=
  ⟨h.size_le, Nat.mod_lt _ (Nat.zero_lt_of_lt h.head_lt), h.tail_lt⟩

-- The driver's view of a completion queue is that of the controller, and the entries that the
-- driver has not taken lie between its head and tail.
structure Kept (log : List Event) (cq : CompletionQueue) : Prop where
  size_le : cq.size ≤ nvmeMaxQueueEntries
  head_lt : cq.head < cq.size
  tail_lt : cq.tail < cq.size
  ring : ∃ posted, ringOf cq.id log = some ⟨cq.base, cq.size, cq.head, posted⟩ ∧
    posted % cq.size = cq.tail
  outstanding : ∀ slot, Outstanding cq.id slot log → Between cq.size cq.head cq.tail slot

theorem Kept.mono (h : Kept log cq) (hs : SameRing cq.id log log') : Kept log' cq :=
  ⟨h.size_le, h.head_lt, h.tail_lt, by rw [hs.ring]; exact h.ring,
    fun slot hslot => h.outstanding slot (hs.outstanding slot hslot)⟩

theorem Kept.moveHead (h : Kept log cq) (hid : cq.id = q) (val : Nat) :
    Kept (.headMoved q val :: log) { cq with head := val % cq.size } := by
  subst hid
  have hlt := Nat.mod_lt val (Nat.zero_lt_of_lt h.head_lt)
  obtain ⟨posted, hring, htail⟩ := h.ring
  refine ⟨h.size_le, hlt, h.tail_lt, ⟨posted, ?_, htail⟩, fun slot hslot => ?_⟩
  · simp [ringOf, hring]
  · obtain hslot | ⟨hkept, hslot⟩ := hslot
    · exact hslot.elim
    · refine (h.outstanding slot hslot).of_start h.head_lt hlt fun hpass => hkept ?_
      exact ⟨rfl, _, hring, hpass⟩

theorem Kept.full_iff (h : Kept log cq) : cq.Full ↔ ¬HasRoom cq.id log := by
  obtain ⟨posted, hring, htail⟩ := h.ring
  rw [CompletionQueue.Full, CompletionQueue.nextTail, succ_mod h.size_le h.tail_lt,
    succ_mod_eq_iff h.head_lt h.tail_lt, HasRoom, hring]
  simp [Ring.waiting, Ring.tail, htail]

structure Completed (log log' : List Event) (cq cq' : CompletionQueue) : Prop where
  id_eq : cq'.id = cq.id
  kept : Kept log' cq'
  entriesKept : EntriesKept log'
  accounted : Accounted log'
  others : ∀ q, q ≠ cq.id → SameRing q log log'

theorem postCompletion_nvme (s : System D) (cq : CompletionQueue) (sq : SubmissionQueue) (cid : U16)
    (result : Result) :
    (s.postCompletion cq sq cid result).1.nvme = s.nvme := by
  rw [System.postCompletion]
  split <;> rfl

theorem Kept.posted (h : Kept log cq) (hroom : ¬cq.Full) (addr : Nat) (entry : CqEntry) :
    Kept (.posted cq.id cq.tail addr entry :: log)
      { cq with tail := cq.nextTail, phase := phase } := by
  have hnext := succ_mod h.size_le h.tail_lt
  rw [CompletionQueue.Full, CompletionQueue.nextTail, hnext] at hroom
  obtain ⟨posted, hring, htail⟩ := h.ring
  refine ⟨h.size_le, h.head_lt, ?_, ⟨posted + 1, ?_, ?_⟩, fun slot hslot => ?_⟩
  · exact Nat.mod_lt _ (Nat.zero_lt_of_lt h.head_lt)
  · simp [ringOf, hring]
  · rw [CompletionQueue.nextTail, hnext, ← htail, Nat.mod_add_mod]
  · simp only [CompletionQueue.nextTail, hnext]
    rw [outstanding_posted] at hslot
    refine Between.succ h.head_lt h.tail_lt hroom ?_
    exact hslot.elim (fun h => .inr h.2.symm) fun hslot => .inl (h.outstanding slot hslot)

theorem postCompletion_completed (hk : Kept s.log cq) (hn : EntriesKept s.log)
    (ha : Accounted s.log) (hcq : sq.cqid = cq.id) (cid : U16) (result : Result) :
    let r := { s with log := .consumed sq cid :: s.log }.postCompletion cq sq.advance cid result
    Completed s.log r.1.log cq r.2 := by
  have hcons : ∀ q, SameRing q s.log (.consumed sq cid :: s.log) := fun q => .cons nofun
  have hroom := hk.full_iff
  rw [System.postCompletion]
  by_cases hfull : cq.Full
  case pos =>
    rw [if_pos hfull]
    refine ⟨rfl, hk.mono (hcons _), hn, ?_, fun q _ => hcons q⟩
    simpa [Accounted, List.filterMap_cons, brings, granted, hcq, hroom.mp hfull] using ha
  case neg =>
    rw [if_neg hfull]
    obtain ⟨posted, hring, htail⟩ := hk.ring
    refine ⟨rfl, (hk.mono (hcons _)).posted hfull _ _, ⟨⟨?_, ?_⟩, hn⟩, ?_, fun q hq => ?_⟩
    · exact ⟨_, hring, htail.symm, rfl⟩
    -- the tail is the first slot after the entries that are outstanding
    · exact fun hout => not_between_end (hk.outstanding _ (outstanding_consumed.mp hout))
    · have hroom' : HasRoom cq.id s.log := not_not.mp fun h => hfull (hroom.mpr h)
      simpa [Accounted, List.filterMap_cons, brings, granted, hcq, hroom',
        SubmissionQueue.advance] using ha
    · exact (hcons q).trans (.cons fun h => hq (some.inj h).symm)

-- The admin queues are checked where they are: in the controller or in the hands of the loop.
structure AdminOk (log : List Event) (sq : SubmissionQueue) (cq : CompletionQueue) : Prop where
  valid : sq.Valid
  cqid_eq : sq.cqid = 0
  id_eq : cq.id = 0
  kept : Kept log cq

theorem AdminOk.mono (h : AdminOk log sq cq) (hs : SameRing 0 log log') : AdminOk log' sq cq :=
  ⟨h.valid, h.cqid_eq, h.id_eq, h.kept.mono (h.id_eq ▸ hs)⟩

structure QueuesOk (nvme : NvmeController D) (log : List Event) : Prop where
  entriesKept : EntriesKept log
  accounted : Accounted log
  sq : ∀ q sq, nvme.ioSqs.lookup q = some sq →
    sq.Valid ∧ ∃ cq, nvme.ioCqs.lookup sq.cqid = some cq
  cq : ∀ q cq, nvme.ioCqs.lookup q = some cq → q ≠ 0 ∧ cq.id = q ∧ Kept log cq

-- Guest memory is what the events of the log have made of it.
structure Good (mem : Mem) (s : System D) : Prop where
  queues : QueuesOk s.nvme s.log
  admin : s.nvme.adminSq = none ∧ s.nvme.adminCq = none ∨
    ∃ sq cq, s.nvme.adminSq = some sq ∧ s.nvme.adminCq = some cq ∧ AdminOk s.log sq cq
  memory : s.mem = s.log.foldr Event.apply mem

theorem QueuesOk.congr (h : QueuesOk nvme log) (hsqs : nvme'.ioSqs = nvme.ioSqs)
    (hcqs : nvme'.ioCqs = nvme.ioCqs) (hlog : SameQueues log log') : QueuesOk nvme' log' := by
  refine ⟨hlog.entriesKept h.entriesKept, hlog.accounted h.accounted, by rw [hsqs, hcqs]; exact h.sq,
    fun q cq hcq => ?_⟩
  rw [hcqs] at hcq
  obtain ⟨hq, hid, hk⟩ := h.cq q cq hcq
  exact ⟨hq, hid, hk.mono (hlog.ring _)⟩

section Refresh

@[simp]
theorem refresh_ioSqs (nvme : NvmeController D) : nvme.refreshIntxLevel.ioSqs = nvme.ioSqs := by
  rw [refreshIntxLevel]
  split <;> rfl

@[simp]
theorem refresh_ioCqs (nvme : NvmeController D) : nvme.refreshIntxLevel.ioCqs = nvme.ioCqs := by
  rw [refreshIntxLevel]
  split <;> rfl

@[simp]
theorem refresh_adminSq (nvme : NvmeController D) :
    nvme.refreshIntxLevel.adminSq = nvme.adminSq := by
  rw [refreshIntxLevel]
  split <;> rfl

@[simp]
theorem refresh_adminCq (nvme : NvmeController D) :
    nvme.refreshIntxLevel.adminCq = nvme.adminCq := by
  rw [refreshIntxLevel]
  split <;> rfl

end Refresh

theorem Good.congr (h : Good mem s) (hsq : nvme.adminSq = s.nvme.adminSq)
    (hcq : nvme.adminCq = s.nvme.adminCq) (hsqs : nvme.ioSqs = s.nvme.ioSqs)
    (hcqs : nvme.ioCqs = s.nvme.ioCqs) : Good mem { s with nvme := nvme } :=
  ⟨h.queues.congr hsqs hcqs (.refl _), by rw [hsq, hcq]; exact h.admin, h.memory⟩

theorem enable_cases (nvme : NvmeController D) :
    (∃ csts, nvme.enable = { nvme with csts := csts }) ∨
      ∃ asqs acqs, 0 < asqs ∧ asqs ≤ nvmeMaxQueueEntries ∧
        0 < acqs ∧ acqs ≤ nvmeMaxQueueEntries ∧
        nvme.enable = { nvme with
          adminSq := some ⟨0, asqs, nvme.asq, 0, 0, 0⟩
          adminCq := some ⟨0, acqs, nvme.acq, 0, 0, true, true⟩
          ioSqs := ∅
          ioCqs := ∅
          pendingSqTail := []
          csts := 1 }.refreshIntxLevel := by
  rw [enable]
  simp only
  split
  · exact .inl ⟨2, rfl⟩
  split
  · exact .inl ⟨0, rfl⟩
  split
  · exact .inl ⟨0, rfl⟩
  case isFalse hsize =>
    rw [not_or] at hsize
    split
    · exact .inl ⟨0, rfl⟩
    · exact .inr ⟨_, _, Nat.succ_pos _, Nat.le_of_not_gt hsize.1, Nat.succ_pos _,
        Nat.le_of_not_gt hsize.2, rfl⟩

theorem queuesOk_empty (hsqs : nvme.ioSqs = ∅) (hcqs : nvme.ioCqs = ∅) (hkept : EntriesKept log)
    (hacc : Accounted log) : QueuesOk nvme log := by
  refine ⟨hkept, hacc, fun q sq h => ?_, fun q cq h => ?_⟩
  · rw [hsqs] at h
    cases h
  · rw [hcqs] at h
    cases h

theorem good_enabled (nvme : NvmeController D) (mem : Mem) :
    Good mem (System.enabled nvme mem) := by
  rw [System.enabled]
  obtain ⟨csts, h⟩ | ⟨asqs, acqs, hasqs, hasqs', hacqs, hacqs', h⟩ := enable_cases nvme.disable
  · rw [h]
    exact ⟨queuesOk_empty rfl rfl trivial rfl, .inl ⟨rfl, rfl⟩, rfl⟩
  · rw [h]
    simp only [refresh_adminCq, toList_some, List.map_cons, List.map_nil]
    refine ⟨queuesOk_empty (refresh_ioSqs _) (refresh_ioCqs _) trivial rfl, .inr ⟨_, _,
      refresh_adminSq _, refresh_adminCq _, ⟨hasqs', hasqs, hasqs⟩, rfl, rfl, hacqs', hacqs, hacqs,
      ⟨0, rfl, Nat.zero_mod _⟩, fun slot hslot => ?_⟩, rfl⟩
    exact ((outstanding_created.mp hslot).1 rfl).elim

end Aero.Nvme
