import Aero.Nvme.Theorems.Queues

namespace Aero.Nvme

open CyclicRange NvmeController Nvme.System AList Event Option

variable {D : Type} {data : DataCommands D} {s s' : System D} {nvme nvme' : NvmeController D}
  {log log' : List Event} {cq : CompletionQueue} {sq : SubmissionQueue} {mem : Mem}

namespace QueuesOk

theorem mono (h : QueuesOk nvme log) (hkept : EntriesKept log') (hacc : Accounted log')
    (hs : ∀ q cq, nvme.ioCqs.lookup q = some cq → SameRing q log log') : QueuesOk nvme log' := by
  refine ⟨hkept, hacc, h.sq, fun q cq hcq => ?_⟩
  obtain ⟨hq, rfl, hk⟩ := h.cq q cq hcq
  exact ⟨hq, rfl, hk.mono (hs _ cq hcq)⟩

theorem insertCq (h : QueuesOk nvme log) (hq : q ≠ 0) (hid : cq.id = q) (hk : Kept log' cq)
    (hkept : EntriesKept log') (hacc : Accounted log') (hs : ∀ q', q' ≠ q → SameRing q' log log') :
    QueuesOk { nvme with ioCqs := nvme.ioCqs.insert q cq } log' := by
  refine ⟨hkept, hacc, fun q' sq hsq => ?_, fun q' cq' hcq => ?_⟩
  · obtain ⟨hvalid, cq', hcq⟩ := h.sq q' sq hsq
    refine ⟨hvalid, ?_⟩
    by_cases heq : sq.cqid = q
    · exact ⟨cq, by rw [heq]; exact lookup_insert _⟩
    · exact ⟨cq', by rw [lookup_insert_ne heq]; exact hcq⟩
  · by_cases heq : q' = q
    · subst heq
      rw [lookup_insert, some.injEq] at hcq
      subst hcq
      exact ⟨hq, hid, hk⟩
    · rw [lookup_insert_ne heq] at hcq
      obtain ⟨hq', rfl, hk'⟩ := h.cq q' cq' hcq
      exact ⟨hq', rfl, hk'.mono (hs _ heq)⟩

theorem insertSq (h : QueuesOk nvme log) (hvalid : sq.Valid)
    (hcq : ∃ cq, nvme.ioCqs.lookup sq.cqid = some cq) :
    QueuesOk { nvme with ioSqs := nvme.ioSqs.insert q sq } log := by
  refine ⟨h.entriesKept, h.accounted, fun q' sq' hsq => ?_, h.cq⟩
  by_cases heq : q' = q
  · subst heq
    rw [lookup_insert, some.injEq] at hsq
    subst hsq
    exact ⟨hvalid, hcq⟩
  · rw [lookup_insert_ne heq] at hsq
    exact h.sq q' sq' hsq

theorem eraseSq (h : QueuesOk nvme log) : QueuesOk { nvme with ioSqs := nvme.ioSqs.erase q } log := by
  refine ⟨h.entriesKept, h.accounted, fun q' sq hsq => ?_, h.cq⟩
  by_cases heq : q' = q
  · subst heq
    rw [lookup_erase] at hsq
    cases hsq
  · rw [lookup_erase_ne heq] at hsq
    exact h.sq q' sq hsq

theorem eraseCq (h : QueuesOk nvme log)
    (hunused : ∀ q' sq, nvme.ioSqs.lookup q' = some sq → sq.cqid ≠ q) :
    QueuesOk { nvme with ioCqs := nvme.ioCqs.erase q } log := by
  refine ⟨h.entriesKept, h.accounted, fun q' sq hsq => ?_, fun q' cq hcq => ?_⟩
  · obtain ⟨hvalid, cq, hcq⟩ := h.sq q' sq hsq
    exact ⟨hvalid, cq, by rw [lookup_erase_ne (hunused q' sq hsq)]; exact hcq⟩
  · by_cases heq : q' = q
    · subst heq
      rw [lookup_erase] at hcq
      cases hcq
    · rw [lookup_erase_ne heq] at hcq
      exact h.cq q' cq hcq

end QueuesOk

-- A command was executed, and its completion is still to come.
structure Executed (mem : Mem) (s s' : System D) : Prop where
  queues : QueuesOk s'.nvme s'.log
  adminSq : s'.nvme.adminSq = s.nvme.adminSq
  adminCq : s'.nvme.adminCq = s.nvme.adminCq
  ring : SameRing 0 s.log s'.log
  memory : s.mem = s.log.foldr Event.apply mem → s'.mem = s'.log.foldr Event.apply mem

namespace Executed

-- A command that configures the controller moves no data.
theorem configured (h : QueuesOk nvme s.log) (hsq : nvme.adminSq = s.nvme.adminSq)
    (hcq : nvme.adminCq = s.nvme.adminCq) : Executed mem s { s with nvme := nvme } :=
  ⟨h, hsq, hcq, (SameQueues.refl _).ring 0, id⟩

theorem same (h : QueuesOk s.nvme s.log) : Executed mem s s :=
  configured h rfl rfl

theorem transfer (h : QueuesOk s.nvme s.log) (command : NvmeCommand → D → Mem → Result × D × Mem)
    (cmd : NvmeCommand) : Executed mem s (s.transfer command cmd).1 :=
  ⟨h.congr rfl rfl .transferred, rfl, rfl, .cons nofun, fun _ => rfl⟩

theorem cmdDeleteIoSq (h : QueuesOk s.nvme s.log) (cmd : NvmeCommand) :
    Executed mem s (s.configure s.nvme.cmdDeleteIoSq cmd).1 := by
  rw [configure, NvmeController.cmdDeleteIoSq]
  split_ifs
  · exact same h
  · exact same h
  · exact same h
  · exact configured (h.eraseSq.congr (refresh_ioSqs _) (refresh_ioCqs _) (.refl _))
      (refresh_adminSq _) (refresh_adminCq _)

theorem cmdDeleteIoCq_cases (nvme : NvmeController D) (cmd : NvmeCommand) :
    nvme.cmdDeleteIoCq cmd = (nvme, NvmeStatus.invalidField, 0) ∨
      (∀ q sq, nvme.ioSqs.lookup q = some sq → sq.cqid ≠ cmd.cdw10.toNat % 0x10000) ∧
        nvme.cmdDeleteIoCq cmd =
          ({ nvme with ioCqs := nvme.ioCqs.erase (cmd.cdw10.toNat % 0x10000) }.refreshIntxLevel,
            NvmeStatus.success, 0) := by
  rw [NvmeController.cmdDeleteIoCq]
  split_ifs with hpsdt hzero habsent hused
  case neg =>
    refine .inr ⟨fun q sq hsq heq => hused ?_, rfl⟩
    exact List.any_eq_true.mpr ⟨⟨q, sq⟩, mem_lookup_iff.mp hsq, by simpa using heq⟩
  all_goals exact .inl rfl

section

variable (h : QueuesOk s.nvme s.log)
include h

theorem cmdDeleteIoCq (cmd : NvmeCommand) :
    Executed mem s (s.configure s.nvme.cmdDeleteIoCq cmd).1 := by
  rw [configure]
  obtain hfail | ⟨hunused, hok⟩ := cmdDeleteIoCq_cases s.nvme cmd
  · simp only [hfail]
    exact same h
  · simp only [hok]
    exact configured ((h.eraseCq hunused).congr (refresh_ioSqs _) (refresh_ioCqs _) (.refl _))
      (refresh_adminSq _) (refresh_adminCq _)

theorem cmdSetFeatures (cmd : NvmeCommand) :
    Executed mem s (s.configure s.nvme.cmdSetFeatures cmd).1 := by
  rw [configure, NvmeController.cmdSetFeatures]
  simp only
  split_ifs
  all_goals exact configured (h.congr rfl rfl (.refl _)) rfl rfl

theorem cmdGetFeatures (cmd : NvmeCommand) :
    Executed mem s (s.configure s.nvme.cmdGetFeatures cmd).1 := by
  rw [configure, NvmeController.cmdGetFeatures]
  split_ifs
  all_goals exact same h

theorem createIoCq (cmd : NvmeCommand) : Executed mem s (s.createIoCq cmd).1 := by
  rw [System.createIoCq, NvmeController.cmdCreateIoCq]
  split_ifs with _ hzero _ _ _ hsize
  case neg =>
    rw [not_or] at hsize
    have hpos := Nat.pos_of_ne_zero hsize.1
    refine ⟨h.insertCq hzero rfl ⟨Nat.le_of_not_gt hsize.2, hpos, hpos, ⟨0, ?_, Nat.zero_mod _⟩,
      fun slot hslot => ?_⟩ h.entriesKept h.accounted ?_, rfl, rfl, ?_, id⟩
    · exact if_pos rfl
    · exact ((outstanding_created.mp hslot).1 rfl).elim
    · exact fun q' hq' => .cons fun heq => hq' (some.inj heq).symm
    · exact .cons fun heq => hzero (some.inj heq)
  all_goals exact same h

theorem cmdCreateIoSq (cmd : NvmeCommand) :
    Executed mem s (s.configure s.nvme.cmdCreateIoSq cmd).1 := by
  rw [configure, NvmeController.cmdCreateIoSq]
  split_ifs with _ _ _ _ _ hsize _ hcq
  case neg =>
    rw [not_or] at hsize
    rw [isNone_iff_eq_none] at hcq
    have hpos := Nat.pos_of_ne_zero hsize.1
    exact configured (h.insertSq ⟨Nat.le_of_not_gt hsize.2, hpos, hpos⟩
      (ne_none_iff_exists'.mp hcq)) rfl rfl
  all_goals exact same h

theorem executeAdmin (cmd : NvmeCommand) : Executed mem s (s.executeAdmin data cmd).1 := by
  rw [System.executeAdmin]
  split
  · exact cmdDeleteIoSq h cmd
  · exact cmdDeleteIoCq h cmd
  · exact cmdSetFeatures h cmd
  · exact cmdGetFeatures h cmd
  · split
    · exact same h
    · exact transfer h _ cmd
  · exact createIoCq h cmd
  · exact cmdCreateIoSq h cmd
  · split
    · exact same h
    · exact transfer h _ cmd
  · exact same h
  · exact same h

end

end Executed

-- An I/O command leaves the queues alone.
structure QueuesUntouched (mem : Mem) (s s' : System D) : Prop where
  adminSq : s'.nvme.adminSq = s.nvme.adminSq
  adminCq : s'.nvme.adminCq = s.nvme.adminCq
  ioSqs : s'.nvme.ioSqs = s.nvme.ioSqs
  ioCqs : s'.nvme.ioCqs = s.nvme.ioCqs
  log : SameQueues s.log s'.log
  memory : s.mem = s.log.foldr Event.apply mem → s'.mem = s'.log.foldr Event.apply mem

theorem executeIo_untouched (cmd : NvmeCommand) :
    QueuesUntouched mem s (s.executeIo data cmd).1 := by
  rw [executeIo]
  split
  · exact ⟨rfl, rfl, rfl, rfl, .refl _, id⟩
  · split
    case h_6 => exact ⟨rfl, rfl, rfl, rfl, .refl _, id⟩
    all_goals exact ⟨rfl, rfl, rfl, rfl, .transferred, fun _ => rfl⟩

theorem postCompletion_memory (cq : CompletionQueue) (sq sq' : SubmissionQueue) (cid : U16)
    (result : Result) (h : s.mem = s.log.foldr Event.apply mem) :
    let r := { s with log := .consumed sq cid :: s.log }.postCompletion cq sq' cid result
    r.1.mem = r.1.log.foldr Event.apply mem := by
  rw [postCompletion]
  split
  · exact h
  · exact congrArg (ByteStore.write · _ _) h

-- The loop over the admin queue, with the queues in its hands.
structure Draining (mem : Mem) (s : System D) (sq : SubmissionQueue) (cq : CompletionQueue) :
    Prop where
  queues : QueuesOk s.nvme s.log
  admin : AdminOk s.log sq cq
  memory : s.mem = s.log.foldr Event.apply mem

theorem Draining.consumeAdmin (data : DataCommands D) (h : Draining mem s sq cq) :
    let r := s.consumeAdmin data sq cq
    Draining mem r.1 r.2.1 r.2.2 := by
  have he : Executed mem s (s.executeAdmin data (readCommand sq.base sq.head s.mem)).1 :=
    Executed.executeAdmin h.queues _
  rw [System.consumeAdmin]
  generalize s.executeAdmin data (readCommand sq.base sq.head s.mem) = r at he
  have ha := h.admin.mono he.ring
  have hc := postCompletion_completed ha.kept he.queues.entriesKept he.queues.accounted
    (ha.cqid_eq.trans ha.id_eq.symm) (readCommand sq.base sq.head s.mem).cid r.2
  have hnvme := postCompletion_nvme { r.1 with
    log := .consumed sq (readCommand sq.base sq.head s.mem).cid :: r.1.log }
    cq sq.advance (readCommand sq.base sq.head s.mem).cid r.2
  refine ⟨?_, ⟨ha.valid.advance, ha.cqid_eq, hc.id_eq.trans ha.id_eq, hc.kept⟩,
    postCompletion_memory _ _ _ _ _ (he.memory h.memory)⟩
  refine (he.queues.mono hc.entriesKept hc.accounted fun q cq' hcq' => hc.others q ?_).congr
    (congrArg _ hnvme) (congrArg _ hnvme) (.refl _)
  rw [ha.id_eq]
  exact (he.queues.cq q cq' hcq').1

theorem Draining.drainAdmin (data : DataCommands D) (rounds : Nat) (h : Draining mem s sq cq) :
    let r := s.drainAdmin data rounds sq cq
    Draining mem r.1 r.2.1 r.2.2 := by
  induction rounds generalizing s sq cq
  case zero => exact h
  case succ rounds ih =>
    rw [System.drainAdmin]
    split
    · exact h
    · exact ih (h.consumeAdmin data)

theorem Good.processQueuePairAdmin (h : Good mem s) : Good mem (s.processQueuePairAdmin data) := by
  rw [System.processQueuePairAdmin]
  obtain ⟨hsq, hcq⟩ | ⟨sq, cq, hsq, hcq, ha⟩ := h.admin
  · simp only [hsq]
    exact h
  · simp only [hsq, hcq]
    have hd : Draining mem { s with nvme := { s.nvme with adminSq := none, adminCq := none } } sq cq :=
      ⟨h.queues.congr rfl rfl (.refl _), ha, h.memory⟩
    obtain ⟨hq', ha', hmem⟩ := hd.drainAdmin data sq.size
    exact ⟨hq'.congr (refresh_ioSqs _) (refresh_ioCqs _) (.refl _),
      .inr ⟨_, _, refresh_adminSq _, refresh_adminCq _, ha'⟩, hmem⟩

theorem Good.consumeIo (data : DataCommands D) (h : Good mem s) (hsq : s.nvme.ioSqs.lookup q = some sq) :
    Good mem (s.consumeIo data q sq.cqid sq) ∧
      (s.consumeIo data q sq.cqid sq).nvme.ioSqs.lookup q = some sq.advance := by
  have hu : QueuesUntouched mem s (s.executeIo data (readCommand sq.base sq.head s.mem)).1 :=
    executeIo_untouched _
  obtain ⟨hvalid, cq, hcq⟩ := h.queues.sq q sq hsq
  rw [System.consumeIo]
  generalize s.executeIo data (readCommand sq.base sq.head s.mem) = r at hu
  have hq : QueuesOk r.1.nvme r.1.log := h.queues.congr hu.ioSqs hu.ioCqs hu.log
  rw [← hu.ioCqs] at hcq
  obtain ⟨hcqid, hid, hk⟩ := hq.cq _ cq hcq
  simp only [hcq]
  have hc := postCompletion_completed
    (s := ⟨{ r.1.nvme with ioSqs := r.1.nvme.ioSqs.insert q sq.advance }, r.1.mem, r.1.log⟩)
    hk hq.entriesKept hq.accounted hid.symm (readCommand sq.base sq.head s.mem).cid r.2
  have hnvme := postCompletion_nvme ⟨{ r.1.nvme with ioSqs := r.1.nvme.ioSqs.insert q sq.advance },
    r.1.mem, .consumed sq (readCommand sq.base sq.head s.mem).cid :: r.1.log⟩
    cq sq.advance (readCommand sq.base sq.head s.mem).cid r.2
  have hq' := (hq.insertSq (q := q) hvalid.advance ⟨cq, hcq⟩).insertCq hcqid
    (hc.id_eq.trans hid) hc.kept hc.entriesKept hc.accounted fun q' hq' => hc.others q' (hid ▸ hq')
  have hmem := postCompletion_memory
    (s := ⟨{ r.1.nvme with ioSqs := r.1.nvme.ioSqs.insert q sq.advance }, r.1.mem, r.1.log⟩)
    cq sq sq.advance (readCommand sq.base sq.head s.mem).cid r.2 (hu.memory h.memory)
  rw [hnvme]
  refine ⟨⟨hq', ?_, hmem⟩, lookup_insert _⟩
  refine h.admin.imp (fun hn => ⟨hu.adminSq.trans hn.1, hu.adminCq.trans hn.2⟩) ?_
  rintro ⟨sq₀, cq₀, hsq₀, hcq₀, ha⟩
  refine ⟨sq₀, cq₀, hu.adminSq.trans hsq₀, hu.adminCq.trans hcq₀, ha.mono ?_⟩
  exact (hu.log.ring 0).trans (hc.others 0 (by rw [hid]; exact hcqid.symm))

theorem Good.drainIo (data : DataCommands D) (rounds : Nat) (h : Good mem s)
    (hsq : s.nvme.ioSqs.lookup q = some sq) (hcqid : sq.cqid = cqid) :
    Good mem (s.drainIo data q cqid rounds) := by
  induction rounds generalizing s sq
  case zero => exact h
  case succ rounds ih =>
    subst hcqid
    simp only [drainIo, hsq]
    split
    · exact h
    · obtain ⟨h', hsq'⟩ := h.consumeIo data hsq
      exact ih h' hsq' rfl

theorem Good.processQueuePairIo (data : DataCommands D) (h : Good mem s) (qid : Nat) :
    Good mem (s.processQueuePairIo data qid) := by
  rw [System.processQueuePairIo]
  cases hsq : s.nvme.ioSqs.lookup qid
  case none => exact h
  case some sq =>
    exact (h.drainIo data sq.size hsq rfl).congr (refresh_adminSq _) (refresh_adminCq _)
      (refresh_ioSqs _) (refresh_ioCqs _)

theorem Good.setSqTail (h : Good mem s) (qid tail : Nat) :
    Good mem { s with nvme := s.nvme.setSqTail qid tail } := by
  rw [NvmeController.setSqTail]
  by_cases hzero : qid = 0
  · rw [if_pos hzero]
    refine ⟨h.queues.congr rfl rfl (.refl _), ?_, h.memory⟩
    obtain ⟨hsq, hcq⟩ | ⟨sq, cq, hsq, hcq, ha⟩ := h.admin
    · exact .inl ⟨by rw [hsq]; rfl, hcq⟩
    · have hlt := Nat.mod_lt tail (Nat.zero_lt_of_lt ha.valid.head_lt)
      exact .inr ⟨{ sq with tail := tail % sq.size }, cq, by rw [hsq]; rfl, hcq,
        ⟨ha.valid.size_le, ha.valid.head_lt, hlt⟩, ha.cqid_eq, ha.id_eq, ha.kept⟩
  · rw [if_neg hzero]
    cases hsq : s.nvme.ioSqs.lookup qid
    case none => exact h
    case some sq =>
      obtain ⟨hvalid, hcq⟩ := h.queues.sq qid sq hsq
      have hlt := Nat.mod_lt tail (Nat.zero_lt_of_lt hvalid.head_lt)
      exact ⟨h.queues.insertSq ⟨hvalid.size_le, hvalid.head_lt, hlt⟩ hcq, h.admin, h.memory⟩

theorem Good.processPending (data : DataCommands D) (h : Good mem s) (pending : Nat × Nat) :
    Good mem (s.processPending data pending) := by
  have htail := h.setSqTail pending.1 pending.2
  rw [System.processPending, System.processSq]
  split
  · exact htail.processQueuePairAdmin
  · exact htail.processQueuePairIo data pending.1

theorem Good.process (data : DataCommands D) (h : Good mem s) : Good mem (s.process data) := by
  rw [System.process]
  split
  · have hpending : ∀ (pending : List (Nat × Nat)) s, Good mem s →
        Good mem (pending.foldl (System.processPending data) s) := by
      intro pending
      induction pending with
      | nil => exact fun s h => h
      | cons p pending ih => exact fun s h => ih _ (h.processPending data p)
    have hstart : Good mem { s with nvme := { s.nvme with pendingSqTail := [] } } :=
      h.congr rfl rfl rfl rfl
    exact (hpending s.nvme.pendingSqTail _ hstart).congr (refresh_adminSq _) (refresh_adminCq _)
      (refresh_ioSqs _) (refresh_ioCqs _)
  · exact h.congr rfl rfl rfl rfl

theorem Good.ringTail (h : Good mem s) (qid val : Nat) :
    Good mem { s with nvme := (s.nvme.setSqTail qid val).recordSqTail qid val } := by
  have htail := h.setSqTail qid val
  rw [recordSqTail]
  split_ifs
  all_goals first | exact htail | exact htail.congr rfl rfl rfl rfl

-- A head doorbell frees slots of its own queue only.
theorem sameRing_headMoved (h : q' ≠ q) : SameRing q' log (.headMoved q val :: log) :=
  .cons fun heq => h (some.inj heq).symm

theorem Good.moveHead (h : Good mem s) (qid val : Nat) : Good mem (s.moveHead qid val) := by
  rw [System.moveHead, setCqHead]
  by_cases hzero : qid = 0
  case pos =>
    subst hzero
    have hq : QueuesOk s.nvme (.headMoved 0 val :: s.log) :=
      h.queues.mono h.queues.entriesKept h.queues.accounted fun q cq hcq =>
        sameRing_headMoved (h.queues.cq q cq hcq).1
    refine ⟨hq.congr (refresh_ioSqs _) (refresh_ioCqs _) (.refl _), ?_, h.memory⟩
    obtain ⟨hsq, hcq⟩ | ⟨sq, cq, hsq, hcq, ha⟩ := h.admin
    · exact .inl ⟨(refresh_adminSq _).trans hsq, (refresh_adminCq _).trans (by simp [hcq])⟩
    · exact .inr ⟨sq, { cq with head := val % cq.size }, (refresh_adminSq _).trans hsq,
        (refresh_adminCq _).trans (by simp [hcq]), ha.valid, ha.cqid_eq, ha.id_eq,
        ha.kept.moveHead ha.id_eq val⟩
  case neg =>
    rw [if_neg hzero]
    have hadmin : s.nvme.adminSq = none ∧ s.nvme.adminCq = none ∨ ∃ sq cq,
        s.nvme.adminSq = some sq ∧ s.nvme.adminCq = some cq ∧
          AdminOk (.headMoved qid val :: s.log) sq cq :=
      h.admin.imp_right fun ⟨sq, cq, hsq, hcq, ha⟩ =>
        ⟨sq, cq, hsq, hcq, ha.mono (sameRing_headMoved (Ne.symm hzero))⟩
    cases hcq : s.nvme.ioCqs.lookup qid
    case none =>
      have hq : QueuesOk s.nvme (.headMoved qid val :: s.log) :=
        h.queues.mono h.queues.entriesKept h.queues.accounted fun q cq hcq' =>
          sameRing_headMoved fun heq => by rw [heq, hcq] at hcq'; cases hcq'
      exact ⟨hq.congr (refresh_ioSqs _) (refresh_ioCqs _) (.refl _),
        by simpa using hadmin, h.memory⟩
    case some cq =>
      obtain ⟨-, hid, hk⟩ := h.queues.cq qid cq hcq
      have hq := h.queues.insertCq hzero (by exact hid) (hk.moveHead hid val)
        h.queues.entriesKept h.queues.accounted fun q' hq' => sameRing_headMoved hq'
      exact ⟨hq.congr (refresh_ioSqs _) (refresh_ioCqs _) (.refl _), by simpa using hadmin, h.memory⟩

theorem Good.writeDoorbell (h : Good mem s) (offset : Nat) (value : U32) :
    Good mem (s.writeDoorbell offset value) := by
  simp only [System.writeDoorbell]
  split_ifs
  · exact h.moveHead _ _
  · exact h.ringTail _ _
  · exact h

theorem Good.step (data : DataCommands D) (h : Good mem s) (op : Op) : Good mem (s.step data op) := by
  cases op
  case doorbell offset writeVal beMask =>
    rw [System.step, System.mmioWriteU32]
    by_cases hlow : offset < 0x1000
    · rw [if_pos hlow]
      exact h
    · rw [if_neg hlow]
      split
      · exact h
      · exact h.writeDoorbell _ _
  case process => exact h.process data
  case store addr bytes =>
    refine ⟨h.queues.congr rfl rfl .stored, ?_, congrArg (ByteStore.write · _ _) h.memory⟩
    exact h.admin.imp_right fun ⟨sq, cq, hsq, hcq, ha⟩ => ⟨sq, cq, hsq, hcq, ha.mono (.cons nofun)⟩

theorem Good.run (data : DataCommands D) (h : Good mem s) (ops : List Op) : Good mem (s.run data ops) := by
  induction ops generalizing s
  case nil => exact h
  case cons op ops ih => exact ih (h.step data op)

end Aero.Nvme
