import Aero.Types
import Aero.Lib.ByteStore
import Aero.Lib.CyclicRange
import Aero.Lib.LeBytes
import Mathlib.Data.List.AList

namespace Aero.Nvme

abbrev Mem := Nat → U8

def pageSize : Nat := 4096

def nvmeMaxQueueEntries : Nat := 128

def nvmeMaxIoQueues : Nat := 256

def nvmeMaxPendingSqTailUpdates : Nat := nvmeMaxIoQueues + 1

structure NvmeStatus where
  sct : U8
  sc : U8
  dnr : Bool
  deriving DecidableEq, Repr

namespace NvmeStatus

def success : NvmeStatus := ⟨0, 0, false⟩

def invalidOpcode : NvmeStatus := ⟨0, 0x1, true⟩

def invalidField : NvmeStatus := ⟨0, 0x2, true⟩

def invalidQid : NvmeStatus := ⟨0, 0x1c, true⟩

def encodeWithoutPhase (self : NvmeStatus) : U16 :=
  (self.sc.setWidth 16 <<< 1) ||| (self.sct.setWidth 16 <<< 9) |||
    (if self.dnr then 1 <<< 14 else 0)

end NvmeStatus

structure NvmeCommand where
  opc : U8
  cid : U16
  nsid : U32
  psdt : Nat
  prp1 : Nat
  prp2 : Nat
  cdw10 : U32
  cdw11 : U32
  cdw12 : U32
  deriving DecidableEq, Repr

def NvmeCommand.parse (bytes : List U8) : NvmeCommand :=
  let le (start size : Nat) : Nat := LeBytes.ofLe ((bytes.drop start).take size)
  { opc := BitVec.ofNat 8 (le 0 4)
    psdt := le 0 4 / 2 ^ 14 % 4
    cid := BitVec.ofNat 16 (le 2 2)
    nsid := BitVec.ofNat 32 (le 4 4)
    prp1 := le 24 8
    prp2 := le 32 8
    cdw10 := BitVec.ofNat 32 (le 40 4)
    cdw11 := BitVec.ofNat 32 (le 44 4)
    cdw12 := BitVec.ofNat 32 (le 48 4) }

structure CqEntry where
  dw0 : U32
  dw1 : U32
  sqhd : Nat
  sqid : Nat
  cid : U16
  status : U16
  deriving DecidableEq, Repr

def CqEntry.toBytes (self : CqEntry) : List U8 :=
  LeBytes.toLe 4 self.dw0.toNat ++ LeBytes.toLe 4 self.dw1.toNat ++
    LeBytes.toLe 4 (self.sqid * 0x10000 + self.sqhd) ++
      LeBytes.toLe 4 (self.status.toNat * 0x10000 + self.cid.toNat)

structure CompletionQueue where
  id : Nat
  size : Nat
  base : Nat
  head : Nat
  tail : Nat
  phase : Bool
  irqEnabled : Bool
  deriving DecidableEq, Repr

namespace CompletionQueue

def nextTail (self : CompletionQueue) : Nat :=
  (self.tail + 1) % 0x10000 % self.size

-- One slot stays free, so that a full queue differs from an empty one.
def Full (self : CompletionQueue) : Prop :=
  self.nextTail = self.head

instance decidableFull (self : CompletionQueue) : Decidable self.Full :=
  inferInstanceAs (Decidable (_ = _))

def pending (self : CompletionQueue) : Bool :=
  self.head != self.tail && self.irqEnabled

end CompletionQueue

structure SubmissionQueue where
  id : Nat
  size : Nat
  base : Nat
  head : Nat
  tail : Nat
  cqid : Nat
  deriving DecidableEq, Repr

def SubmissionQueue.advance (self : SubmissionQueue) : SubmissionQueue :=
  { self with head := (self.head + 1) % 0x10000 % self.size }

abbrev Queues (α : Type) := AList fun _ : Nat => α

variable {D : Type}

structure NvmeController (D : Type) where
  disk : D
  cap : U64
  intms : U32
  cc : U32
  csts : U32
  aqa : U32
  asq : Nat
  acq : Nat
  featureNumIoSqs : Nat
  featureNumIoCqs : Nat
  featureInterruptCoalescing : U16
  featureVolatileWriteCache : Bool
  adminSq : Option SubmissionQueue
  adminCq : Option CompletionQueue
  ioSqs : Queues SubmissionQueue
  ioCqs : Queues CompletionQueue
  -- ascending in the queue ids
  pendingSqTail : List (Nat × Nat)
  intxLevel : Bool

-- What the driver can observe, the latest first: a completion queue that was created, a command that
-- was taken from a submission queue, an entry that was written to a slot, a head doorbell, and the
-- changes of the memory by the driver and by the commands that move data.
inductive Event
  | created (cqid base size : Nat)
  | consumed (sq : SubmissionQueue) (cid : U16)
  | posted (cqid slot addr : Nat) (entry : CqEntry)
  | headMoved (cqid value : Nat)
  | stored (addr : Nat) (bytes : List U8)
  | transferred (mem : Mem)

-- `log` only observes.
structure System (D : Type) where
  nvme : NvmeController D
  mem : Mem
  log : List Event

abbrev Result := NvmeStatus × U32

-- The commands that move data.
structure DataCommands (D : Type) where
  identify : NvmeCommand → D → Mem → Result × D × Mem
  getLogPage : NvmeCommand → D → Mem → Result × D × Mem
  flush : NvmeCommand → D → Mem → Result × D × Mem
  write : NvmeCommand → D → Mem → Result × D × Mem
  read : NvmeCommand → D → Mem → Result × D × Mem
  writeZeroes : NvmeCommand → D → Mem → Result × D × Mem
  datasetManagement : NvmeCommand → D → Mem → Result × D × Mem

namespace NvmeController

def new (disk : D) : NvmeController D where
  disk := disk
  cap := 127 ||| (1 <<< 37) ||| (0x08 <<< 24)
  intms := 0
  cc := 0
  csts := 0
  aqa := 0
  asq := 0
  acq := 0
  featureNumIoSqs := nvmeMaxIoQueues - 1
  featureNumIoCqs := nvmeMaxIoQueues - 1
  featureInterruptCoalescing := 0
  featureVolatileWriteCache := false
  adminSq := none
  adminCq := none
  ioSqs := ∅
  ioCqs := ∅
  pendingSqTail := []
  intxLevel := false

def ready (self : NvmeController D) : Bool :=
  self.csts &&& 1 != 0

def refreshIntxLevel (self : NvmeController D) : NvmeController D :=
  if self.intms &&& 1 ≠ 0 then { self with intxLevel := false }
  else
    { self with
      intxLevel := self.adminCq.any CompletionQueue.pending ||
        self.ioCqs.entries.any fun e => e.2.pending }

def disable (self : NvmeController D) : NvmeController D :=
  { self with
    csts := 0
    adminSq := none
    adminCq := none
    ioSqs := ∅
    ioCqs := ∅
    pendingSqTail := []
    intxLevel := false }

def enable (self : NvmeController D) : NvmeController D :=
  let mps := (self.cc.toNat / 2 ^ 7) % 16
  let mpsmin := self.cap.toNat / 2 ^ 48 % 16
  let mpsmax := self.cap.toNat / 2 ^ 52 % 16
  if mps < mpsmin ∨ mps > mpsmax then { self with csts := 2 }
  else
    let acqs := self.aqa.toNat % 0x1000 + 1
    let asqs := self.aqa.toNat / 2 ^ 16 % 0x1000 + 1
    if asqs = 0 ∨ acqs = 0 ∨ self.asq = 0 ∨ self.acq = 0 then { self with csts := 0 }
    else if asqs > nvmeMaxQueueEntries ∨ acqs > nvmeMaxQueueEntries then
      { self with csts := 0 }
    else if self.asq % pageSize ≠ 0 ∨ self.acq % pageSize ≠ 0 then { self with csts := 0 }
    else
      refreshIntxLevel
        { self with
          adminSq := some ⟨0, asqs, self.asq, 0, 0, 0⟩
          adminCq := some ⟨0, acqs, self.acq, 0, 0, true, true⟩
          ioSqs := ∅
          ioCqs := ∅
          pendingSqTail := []
          csts := 1 }

def setSqTail (self : NvmeController D) (qid tail : Nat) : NvmeController D :=
  if qid = 0 then
    { self with adminSq := self.adminSq.map fun sq => { sq with tail := tail % sq.size } }
  else
    match self.ioSqs.lookup qid with
    | none => self
    | some sq => { self with ioSqs := self.ioSqs.insert qid { sq with tail := tail % sq.size } }

def setCqHead (self : NvmeController D) (qid head : Nat) : NvmeController D :=
  if qid = 0 then
    { self with adminCq := self.adminCq.map fun cq => { cq with head := head % cq.size } }
  else
    match self.ioCqs.lookup qid with
    | none => self
    | some cq => { self with ioCqs := self.ioCqs.insert qid { cq with head := head % cq.size } }

def cq? (self : NvmeController D) (qid : Nat) : Option CompletionQueue :=
  if qid = 0 then self.adminCq else self.ioCqs.lookup qid

def sq? (self : NvmeController D) (qid : Nat) : Option SubmissionQueue :=
  if qid = 0 then self.adminSq else self.ioSqs.lookup qid

def insertTail (qid tail : Nat) : List (Nat × Nat) → List (Nat × Nat)
  | [] => [(qid, tail)]
  | (q, t) :: rest =>
    if qid < q then (qid, tail) :: (q, t) :: rest
    else if qid = q then (qid, tail) :: rest
    else (q, t) :: insertTail qid tail rest

-- The map is bounded. The admin queue always gets a place in it.
def recordSqTail (self : NvmeController D) (qid val : Nat) : NvmeController D :=
  if self.pendingSqTail.any (·.1 == qid) then
    { self with pendingSqTail := insertTail qid val self.pendingSqTail }
  else if self.pendingSqTail.length ≥ nvmeMaxPendingSqTailUpdates then
    if qid = 0 then { self with pendingSqTail := insertTail qid val self.pendingSqTail.dropLast }
    else self
  else
    { self with pendingSqTail := insertTail qid val self.pendingSqTail }

def cmdCreateIoCq (self : NvmeController D) (cmd : NvmeCommand) : NvmeController D × Result :=
  let qid := cmd.cdw10.toNat % 0x10000
  let qsize := (cmd.cdw10.toNat / 0x10000 % 0x10000 + 1) % 0x10000
  if cmd.psdt ≠ 0 then (self, NvmeStatus.invalidField, 0)
  else if qid = 0 then (self, NvmeStatus.invalidField, 0)
  else if qid > min (self.featureNumIoCqs + 1) 0xffff then (self, NvmeStatus.invalidField, 0)
  else if (self.ioCqs.lookup qid).isSome then (self, NvmeStatus.invalidField, 0)
  else if self.ioCqs.keys.length ≥ nvmeMaxIoQueues then (self, NvmeStatus.invalidField, 0)
  else if qsize = 0 ∨ qsize > nvmeMaxQueueEntries then (self, NvmeStatus.invalidField, 0)
  else if cmd.prp1 = 0 ∨ cmd.prp1 % pageSize ≠ 0 then (self, NvmeStatus.invalidField, 0)
  else
    let ien := cmd.cdw11 &&& 0x2 != 0
    ({ self with ioCqs := self.ioCqs.insert qid ⟨qid, qsize, cmd.prp1, 0, 0, true, ien⟩ },
      NvmeStatus.success, 0)

def cmdCreateIoSq (self : NvmeController D) (cmd : NvmeCommand) : NvmeController D × Result :=
  let qid := cmd.cdw10.toNat % 0x10000
  let qsize := (cmd.cdw10.toNat / 0x10000 % 0x10000 + 1) % 0x10000
  let cqid := cmd.cdw11.toNat % 0x10000
  if cmd.psdt ≠ 0 then (self, NvmeStatus.invalidField, 0)
  else if qid = 0 then (self, NvmeStatus.invalidField, 0)
  else if qid > min (self.featureNumIoSqs + 1) 0xffff then (self, NvmeStatus.invalidField, 0)
  else if (self.ioSqs.lookup qid).isSome then (self, NvmeStatus.invalidField, 0)
  else if self.ioSqs.keys.length ≥ nvmeMaxIoQueues then (self, NvmeStatus.invalidField, 0)
  else if qsize = 0 ∨ qsize > nvmeMaxQueueEntries then (self, NvmeStatus.invalidField, 0)
  else if cmd.prp1 = 0 ∨ cmd.prp1 % pageSize ≠ 0 then (self, NvmeStatus.invalidField, 0)
  else if (self.ioCqs.lookup cqid).isNone then (self, NvmeStatus.invalidQid, 0)
  else
    ({ self with ioSqs := self.ioSqs.insert qid ⟨qid, qsize, cmd.prp1, 0, 0, cqid⟩ },
      NvmeStatus.success, 0)

def cmdDeleteIoSq (self : NvmeController D) (cmd : NvmeCommand) : NvmeController D × Result :=
  let qid := cmd.cdw10.toNat % 0x10000
  if cmd.psdt ≠ 0 then (self, NvmeStatus.invalidField, 0)
  else if qid = 0 then (self, NvmeStatus.invalidField, 0)
  else if (self.ioSqs.lookup qid).isNone then (self, NvmeStatus.invalidField, 0)
  else
    (refreshIntxLevel
      { self with
        ioSqs := self.ioSqs.erase qid
        pendingSqTail := self.pendingSqTail.filter (·.1 != qid) },
      NvmeStatus.success, 0)

def cmdDeleteIoCq (self : NvmeController D) (cmd : NvmeCommand) : NvmeController D × Result :=
  let qid := cmd.cdw10.toNat % 0x10000
  if cmd.psdt ≠ 0 then (self, NvmeStatus.invalidField, 0)
  else if qid = 0 then (self, NvmeStatus.invalidField, 0)
  else if (self.ioCqs.lookup qid).isNone then (self, NvmeStatus.invalidField, 0)
  else if self.ioSqs.entries.any (·.2.cqid == qid) then (self, NvmeStatus.invalidField, 0)
  else
    (refreshIntxLevel { self with ioCqs := self.ioCqs.erase qid }, NvmeStatus.success, 0)

def numQueues (self : NvmeController D) : U32 :=
  BitVec.ofNat 32 (self.featureNumIoSqs * 0x10000 + self.featureNumIoCqs)

def cmdGetFeatures (self : NvmeController D) (cmd : NvmeCommand) : NvmeController D × Result :=
  let fid := cmd.cdw10.toNat % 0x100
  let sel := cmd.cdw10.toNat / 0x100 % 8
  let max := nvmeMaxIoQueues - 1
  if cmd.psdt ≠ 0 then (self, NvmeStatus.invalidField, 0)
  else if fid = 0x07 ∧ sel = 3 then
    (self, NvmeStatus.success, BitVec.ofNat 32 (max * 0x10000 + max))
  else if fid = 0x07 ∧ sel ≤ 2 then (self, NvmeStatus.success, self.numQueues)
  else if fid = 0x08 ∧ sel ≤ 2 then
    (self, NvmeStatus.success, self.featureInterruptCoalescing.setWidth 32)
  else if fid = 0x06 ∧ sel ≤ 2 then
    (self, NvmeStatus.success, (BitVec.ofBool self.featureVolatileWriteCache).setWidth 32)
  else (self, NvmeStatus.invalidField, 0)

def highestId {α : Type} (queues : Queues α) : Nat :=
  queues.keys.foldl max 0

def cmdSetFeatures (self : NvmeController D) (cmd : NvmeCommand) : NvmeController D × Result :=
  let fid := cmd.cdw10.toNat % 0x100
  if cmd.psdt ≠ 0 then (self, NvmeStatus.invalidField, 0)
  else if fid = 0x07 then
    let allocCqs := min (cmd.cdw11.toNat % 0x10000 + 1) nvmeMaxIoQueues
    let allocSqs := min (cmd.cdw11.toNat / 0x10000 % 0x10000 + 1) nvmeMaxIoQueues
    if allocCqs < highestId self.ioCqs ∨ allocSqs < highestId self.ioSqs then
      (self, NvmeStatus.invalidField, 0)
    else
      let self := { self with featureNumIoCqs := allocCqs - 1, featureNumIoSqs := allocSqs - 1 }
      (self, NvmeStatus.success, self.numQueues)
  else if fid = 0x08 then
    let self := { self with featureInterruptCoalescing := cmd.cdw11.setWidth 16 }
    (self, NvmeStatus.success, self.featureInterruptCoalescing.setWidth 32)
  else if fid = 0x06 then
    let self := { self with featureVolatileWriteCache := cmd.cdw11 &&& 1 != 0 }
    (self, NvmeStatus.success, (BitVec.ofBool self.featureVolatileWriteCache).setWidth 32)
  else (self, NvmeStatus.invalidField, 0)

end NvmeController

def readCommand (sqBase head : Nat) (mem : Mem) : NvmeCommand :=
  NvmeCommand.parse (ByteStore.read mem (sqBase + head * 64) 64)

namespace System

variable (data : DataCommands D)

def transfer (s : System D) (command : NvmeCommand → D → Mem → Result × D × Mem)
    (cmd : NvmeCommand) : System D × Result :=
  let (result, disk, mem) := command cmd s.nvme.disk s.mem
  ({ nvme := { s.nvme with disk := disk }, mem := mem, log := .transferred mem :: s.log }, result)

def configure (s : System D) (command : NvmeCommand → NvmeController D × Result)
    (cmd : NvmeCommand) : System D × Result :=
  let (nvme, result) := command cmd
  ({ s with nvme := nvme }, result)

def createIoCq (s : System D) (cmd : NvmeCommand) : System D × Result :=
  let (nvme, result) := s.nvme.cmdCreateIoCq cmd
  let created := .created (cmd.cdw10.toNat % 0x10000) cmd.prp1
    ((cmd.cdw10.toNat / 0x10000 % 0x10000 + 1) % 0x10000)
  ({ s with
    nvme := nvme
    log := if result.1 = NvmeStatus.success then created :: s.log else s.log }, result)

def executeAdmin (s : System D) (cmd : NvmeCommand) : System D × Result :=
  match cmd.opc.toNat with
  | 0x00 => s.configure s.nvme.cmdDeleteIoSq cmd
  | 0x04 => s.configure s.nvme.cmdDeleteIoCq cmd
  | 0x09 => s.configure s.nvme.cmdSetFeatures cmd
  | 0x0a => s.configure s.nvme.cmdGetFeatures cmd
  | 0x06 => if cmd.psdt > 1 then (s, NvmeStatus.invalidField, 0) else s.transfer data.identify cmd
  | 0x05 => s.createIoCq cmd
  | 0x01 => s.configure s.nvme.cmdCreateIoSq cmd
  | 0x02 =>
    if cmd.psdt > 1 then (s, NvmeStatus.invalidField, 0) else s.transfer data.getLogPage cmd
  | 0x0c => (s, NvmeStatus.success, 0)
  | _    => (s, NvmeStatus.invalidOpcode, 0)

def executeIo (s : System D) (cmd : NvmeCommand) : System D × Result :=
  if cmd.psdt > 1 then (s, NvmeStatus.invalidField, 0)
  else
    match cmd.opc.toNat with
    | 0x00 => s.transfer data.flush cmd
    | 0x01 => s.transfer data.write cmd
    | 0x02 => s.transfer data.read cmd
    | 0x08 => s.transfer data.writeZeroes cmd
    | 0x09 => s.transfer data.datasetManagement cmd
    | _    => (s, NvmeStatus.invalidOpcode, 0)

def postCompletion (s : System D) (cq : CompletionQueue) (sq : SubmissionQueue) (cid : U16)
    (result : Result) : System D × CompletionQueue :=
  if cq.Full then (s, cq)
  else
    let entry : CqEntry :=
      { dw0 := result.2
        dw1 := 0
        sqhd := sq.head
        sqid := sq.id
        cid := cid
        status := result.1.encodeWithoutPhase ||| (BitVec.ofBool cq.phase).setWidth 16 }
    let addr := cq.base + cq.tail * 16
    ({ s with
      mem := ByteStore.write s.mem addr entry.toBytes
      log := .posted cq.id cq.tail addr entry :: s.log },
      { cq with
        tail := cq.nextTail
        phase := if cq.nextTail = 0 then !cq.phase else cq.phase })

-- One round of the loop over the admin queue, which is not in the controller meanwhile.
def consumeAdmin (s : System D) (sq : SubmissionQueue) (cq : CompletionQueue) :
    System D × SubmissionQueue × CompletionQueue :=
  let cmd := readCommand sq.base sq.head s.mem
  let (s, result) := s.executeAdmin data cmd
  let s := { s with log := .consumed sq cmd.cid :: s.log }
  let sq := sq.advance
  let (s, cq) := s.postCompletion cq sq cmd.cid result
  (s, sq, cq)

def drainAdmin : Nat → System D → SubmissionQueue → CompletionQueue →
    System D × SubmissionQueue × CompletionQueue
  | 0,          s, sq, cq => (s, sq, cq)
  | rounds + 1, s, sq, cq =>
    if sq.head = sq.tail then (s, sq, cq)
    else
      let (s, sq, cq) := s.consumeAdmin data sq cq
      drainAdmin rounds s sq cq

-- The number of rounds is the size of the queue, which is more than there are commands in it.
def processQueuePairAdmin (s : System D) : System D :=
  match s.nvme.adminSq, s.nvme.adminCq with
  | some sq, some cq =>
    let s := { s with nvme := { s.nvme with adminSq := none, adminCq := none } }
    let (s, sq, cq) := s.drainAdmin data sq.size sq cq
    { s with nvme := { s.nvme with adminSq := some sq, adminCq := some cq }.refreshIntxLevel }
  | _, _ => s

-- One round of the loop over an I/O queue. The source unwraps the lookup of the completion queue.
def consumeIo (s : System D) (qid cqid : Nat) (sq : SubmissionQueue) : System D :=
  let cmd := readCommand sq.base sq.head s.mem
  let (s, result) := s.executeIo data cmd
  match s.nvme.ioCqs.lookup cqid with
  | none => s
  | some cq =>
    let s := { s with
      nvme := { s.nvme with ioSqs := s.nvme.ioSqs.insert qid sq.advance }
      log := .consumed sq cmd.cid :: s.log }
    let (s, cq) := s.postCompletion cq sq.advance cmd.cid result
    { s with nvme := { s.nvme with ioCqs := s.nvme.ioCqs.insert cqid cq } }

def drainIo (qid cqid : Nat) : Nat → System D → System D
  | 0,          s => s
  | rounds + 1, s =>
    match s.nvme.ioSqs.lookup qid with
    | none => s
    | some sq => if sq.head = sq.tail then s else drainIo qid cqid rounds (s.consumeIo data qid cqid sq)

def processQueuePairIo (s : System D) (qid : Nat) : System D :=
  match s.nvme.ioSqs.lookup qid with
  | none => s
  | some sq =>
    let s := s.drainIo data qid sq.cqid sq.size
    { s with nvme := s.nvme.refreshIntxLevel }

def processSq (s : System D) (qid : Nat) : System D :=
  if qid = 0 then s.processQueuePairAdmin data else s.processQueuePairIo data qid

def processPending (s : System D) (pending : Nat × Nat) : System D :=
  let s := { s with nvme := s.nvme.setSqTail pending.1 pending.2 }
  s.processSq data pending.1

def process (s : System D) : System D :=
  if s.nvme.ready then
    let pending := s.nvme.pendingSqTail
    let s := { s with nvme := { s.nvme with pendingSqTail := [] } }
    let s := pending.foldl (processPending data) s
    { s with nvme := s.nvme.refreshIntxLevel }
  else
    { s with nvme := { s.nvme with pendingSqTail := [] } }

def stride (nvme : NvmeController D) : Nat :=
  4 * 2 ^ (nvme.cap.toNat / 2 ^ 32 % 16)

def moveHead (s : System D) (qid val : Nat) : System D :=
  { s with
    nvme := (s.nvme.setCqHead qid val).refreshIntxLevel
    log := .headMoved qid val :: s.log }

def writeDoorbell (s : System D) (offset : Nat) (value : U32) : System D :=
  if s.nvme.ready then
    let idx := (offset - 0x1000) / stride s.nvme
    let qid := idx / 2 % 0x10000
    let val := value.toNat % 0x10000
    if idx % 2 = 1 then s.moveHead qid val
    else { s with nvme := (s.nvme.setSqTail qid val).recordSqTail qid val }
  else
    s

-- The part of `mmio_write_u32` that handles doorbells. The bytes that are not written keep the
-- value of the doorbell.
def mmioWriteU32 (s : System D) (offset : Nat) (writeVal beMask : U32) : System D :=
  if offset < 0x1000 then s
  else if (offset - 0x1000) % stride s.nvme ≥ 4 then s
  else
    let idx := (offset - 0x1000) / stride s.nvme
    let qid := idx / 2 % 0x10000
    let val :=
      if ¬s.nvme.ready then 0
      else if idx % 2 = 1 then ((s.nvme.cq? qid).map (·.head)).getD 0
      else ((s.nvme.sq? qid).map (·.tail)).getD 0
    let current := BitVec.ofNat 32 val
    s.writeDoorbell offset ((current &&& ~~~beMask) ||| (writeVal &&& beMask))

end System

-- What happens to an enabled controller: writes of the doorbells, processing, and the driver's own
-- stores to guest memory.
inductive Op
  | doorbell (offset : Nat) (writeVal beMask : U32)
  | process
  | store (addr : Nat) (bytes : List U8)
  deriving DecidableEq, Repr

def System.step (data : DataCommands D) (s : System D) : Op → System D
  | .doorbell offset writeVal beMask => s.mmioWriteU32 offset writeVal beMask
  | .process => s.process data
  | .store addr bytes =>
    { s with mem := ByteStore.write s.mem addr bytes, log := .stored addr bytes :: s.log }

def System.run (data : DataCommands D) (s : System D) (ops : List Op) : System D :=
  ops.foldl (System.step data) s

def System.enabled (nvme : NvmeController D) (mem : Mem) : System D :=
  let nvme := nvme.disable.enable
  ⟨nvme, mem, nvme.adminCq.toList.map fun cq => .created 0 cq.base cq.size⟩

-- A completion queue as the driver knows it: where it is, the value of its head doorbell, and the
-- number of entries that were posted to it.
structure Ring where
  base : Nat
  size : Nat
  head : Nat
  posted : Nat

namespace Ring

def tail (r : Ring) : Nat :=
  r.posted % r.size

-- The entries that were posted and that the head doorbell has not passed.
def waiting (r : Ring) : Nat :=
  CyclicRange.dist r.size r.head r.tail

end Ring

def ringOf (cqid : Nat) : List Event → Option Ring
  | [] => none
  | .created cqid' base size :: log =>
    if cqid' = cqid then some ⟨base, size, 0, 0⟩ else ringOf cqid log
  | .posted cqid' .. :: log =>
    if cqid' = cqid then (ringOf cqid log).map fun r => { r with posted := r.posted + 1 }
    else ringOf cqid log
  | .headMoved cqid' value :: log =>
    if cqid' = cqid then (ringOf cqid log).map fun r => { r with head := value % r.size }
    else ringOf cqid log
  | _ :: log => ringOf cqid log

namespace Event

-- What the event does to guest memory.
def apply : Event → Mem → Mem
  | posted _ _ addr entry, mem => ByteStore.write mem addr entry.toBytes
  | stored addr bytes,     mem => ByteStore.write mem addr bytes
  | transferred mem,       _   => mem
  | _,                     mem => mem

def posts (cqid slot : Nat) : Event → Prop
  | posted cqid' slot' _ _ => cqid' = cqid ∧ slot' = slot
  | _ => False

-- A head doorbell moves past the slots that it leaves behind.
def frees (cqid slot : Nat) (log : List Event) : Event → Prop
  | headMoved cqid' value => cqid' = cqid ∧ ∃ r, ringOf cqid log = some r ∧
    CyclicRange.Between r.size r.head (value % r.size) slot
  | created cqid' _ _ => cqid' = cqid
  | _ => False

-- The completion that a consumed command asks for, and the one that an entry brings: the
-- submission queue, the completion queue and the command.
def asks : Event → Option (Nat × Nat × U16)
  | consumed sq cid => some (sq.id, sq.cqid, cid)
  | _ => none

def brings : Event → Option (Nat × Nat × U16)
  | posted cqid _ _ entry => some (entry.sqid, cqid, entry.cid)
  | _ => none

end Event

-- The slot holds an entry that the head doorbell has not moved past.
def Outstanding (cqid slot : Nat) : List Event → Prop
  | []        => False
  | ev :: log => ev.posts cqid slot ∨ ¬ev.frees cqid slot log ∧ Outstanding cqid slot log

def HasRoom (cqid : Nat) (log : List Event) : Prop :=
  (ringOf cqid log).any fun r => r.waiting + 1 < r.size
  deriving Decidable

-- Entries go to the slots of their ring one after the other.
def InPlace (cqid slot addr : Nat) (log : List Event) : Prop :=
  ∃ r, ringOf cqid log = some r ∧ slot = r.tail ∧ addr = r.base + slot * 16

-- Every entry is written to the next slot, and to none that holds an entry.
def EntriesKept : List Event → Prop
  | [] => True
  | .posted cqid slot addr _ :: log =>
    (InPlace cqid slot addr log ∧ ¬Outstanding cqid slot log) ∧ EntriesKept log
  | _ :: log => EntriesKept log

-- Every command that is consumed brings one completion, in its completion queue.
def EachCompleted (log : List Event) : Prop :=
  log.filterMap Event.brings = log.filterMap Event.asks

-- When a command is consumed, there is a free slot in its completion queue.
def RoomForEach : List Event → Prop
  | [] => True
  | .consumed sq _ :: log => HasRoom sq.cqid log ∧ RoomForEach log
  | _ :: log => RoomForEach log

end Aero.Nvme
