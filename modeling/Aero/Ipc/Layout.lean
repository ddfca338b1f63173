import Aero.Lib.ByteStore
import Aero.Ipc.Ring

namespace Aero.Ipc

open LeBytes

def ipcMagic : U32 := 0x43504941
def ipcVersion : U32 := 1

namespace ringCtrl

def head : Nat := 0
def tailReserve : Nat := 1
def tailCommit : Nat := 2
def capacity : Nat := 3
def bytes : Nat := 16

end ringCtrl

namespace ipcHeader

def magic : Nat := 0
def version : Nat := 1
def totalBytes : Nat := 2
def queueCount : Nat := 3
def bytes : Nat := 16

end ipcHeader

namespace queueDesc

def kind : Nat := 0
def offsetBytes : Nat := 1
def capacityBytes : Nat := 2
def reserved : Nat := 3
def bytes : Nat := 16

end queueDesc

-- The source clears the low bits of a sum that may wrap around.
def alignUp (width : PointerWidth) (value align : Nat) : Nat :=
  width.wrappingAdd value (align - 1) / align * align

structure IpcQueueInfo where
  kind : U32
  offsetBytes : Nat
  capacityBytes : Nat
  deriving DecidableEq, Repr

structure IpcLayout where
  totalBytes : Nat
  queues : List IpcQueueInfo
  deriving DecidableEq, Repr

structure IpcQueueSpec where
  kind : U32
  capacityBytes : Nat
  deriving DecidableEq, Repr

inductive IpcLayoutError
  | bufferTooSmallForHeader (actualBytes : Nat)
  | badMagic (expected got : U32)
  | unsupportedVersion (expected got : U32)
  | lengthMismatch (headerTotalBytes : U32) (actualBytes : Nat)
  | descriptorRegionOverflow (queueCount : U32)
  | bufferTooSmallForDescriptors (requiredBytes actualBytes : Nat)
  | queueReservedNotZero (index : Nat) (reserved : U32)
  | queueOffsetMisaligned (index : Nat) (offsetBytes : U32) (align : Nat)
  | queueCapacityMisaligned (index : Nat) (capacityBytes : U32) (align : Nat)
  | queueOutOfBounds (index : Nat) (offsetBytes capacityBytes : U32) (bufferLen : Nat)
  | ringHeaderCapacityMismatch (index : Nat)
      (descriptorCapacityBytes ringHeaderCapacityBytes : U32)
  | unexpectedEof (offset needed actualBytes : Nat)
  deriving DecidableEq, Repr

-- A slice of bytes.
structure Bytes where
  len : Nat
  data : Nat → U8

variable (width : PointerWidth)

def readU32Le (bytes : Bytes) (offset : Nat) : Except IpcLayoutError U32 :=
  match width.checkedAdd offset 4 with
  | none => .error (.unexpectedEof offset 4 bytes.len)
  | some endOffset =>
    if endOffset ≤ bytes.len then .ok (BitVec.ofNat 32 (ofLe (ByteStore.read bytes.data offset 4)))
    else .error (.unexpectedEof offset 4 bytes.len)

-- `none` is a panic.
def writeU32Le (bytes : Bytes) (word : Nat × U32) : Option Bytes :=
  if word.1 + 4 ≤ bytes.len then
    some { bytes with data := ByteStore.write bytes.data word.1 (toLe 4 word.2.toNat) }
  else
    none

-- One turn of the loop of `parse_ipc_buffer`.
def parseQueue (bytes : Bytes) (i : Nat) : Except IpcLayoutError IpcQueueInfo := do
  let base := ipcHeader.bytes + i * queueDesc.bytes
  let kind ← readU32Le width bytes (base + queueDesc.kind * 4)
  let offsetBytes ← readU32Le width bytes (base + queueDesc.offsetBytes * 4)
  let capacityBytes ← readU32Le width bytes (base + queueDesc.capacityBytes * 4)
  let reserved ← readU32Le width bytes (base + queueDesc.reserved * 4)
  if reserved ≠ 0 then
    throw (.queueReservedNotZero i reserved)
  if offsetBytes.toNat % recordAlign ≠ 0 then
    throw (.queueOffsetMisaligned i offsetBytes recordAlign)
  if capacityBytes.toNat % recordAlign ≠ 0 then
    throw (.queueCapacityMisaligned i capacityBytes recordAlign)
  let outOfBounds := IpcLayoutError.queueOutOfBounds i offsetBytes capacityBytes bytes.len
  match (width.checkedAdd offsetBytes.toNat ringCtrl.bytes).bind
      (width.checkedAdd · capacityBytes.toNat) with
  | none => throw outOfBounds
  | some regionEnd =>
    if regionEnd > bytes.len then
      throw outOfBounds
  let ringHeaderCap ← readU32Le width bytes (offsetBytes.toNat + ringCtrl.capacity * 4)
  if ringHeaderCap ≠ capacityBytes then
    throw (.ringHeaderCapacityMismatch i capacityBytes ringHeaderCap)
  return ⟨kind, offsetBytes.toNat, capacityBytes.toNat⟩

def parseQueues (bytes : Bytes) : (i n : Nat) → Except IpcLayoutError (List IpcQueueInfo)
  | _, 0     => .ok []
  | i, n + 1 => do
    let queue ← parseQueue width bytes i
    let queues ← parseQueues bytes (i + 1) n
    return queue :: queues

def parseIpcBuffer (bytes : Bytes) : Except IpcLayoutError IpcLayout := do
  if bytes.len < ipcHeader.bytes then
    throw (.bufferTooSmallForHeader bytes.len)
  let magic ← readU32Le width bytes (ipcHeader.magic * 4)
  if magic ≠ ipcMagic then
    throw (.badMagic ipcMagic magic)
  let version ← readU32Le width bytes (ipcHeader.version * 4)
  if version ≠ ipcVersion then
    throw (.unsupportedVersion ipcVersion version)
  let totalBytes ← readU32Le width bytes (ipcHeader.totalBytes * 4)
  if totalBytes.toNat ≠ bytes.len then
    throw (.lengthMismatch totalBytes bytes.len)
  let queueCount ← readU32Le width bytes (ipcHeader.queueCount * 4)
  -- a product that overflows fails like the sum
  match width.checkedAdd ipcHeader.bytes (queueCount.toNat * queueDesc.bytes) with
  | none => throw (.descriptorRegionOverflow queueCount)
  | some descBytes =>
    if bytes.len < descBytes then
      throw (.bufferTooSmallForDescriptors descBytes bytes.len)
  let queues ← parseQueues width bytes 0 queueCount.toNat
  return ⟨bytes.len, queues⟩

-- The loop of `create_ipc_buffer` that gives every queue its place, and the offset that it ends
-- with. `none` is a failed assertion.
def placeQueues : Nat → List IpcQueueSpec → Option (List IpcQueueInfo × Nat)
  | offset, []            => some ([], offset)
  | offset, spec :: specs =>
    if spec.capacityBytes % recordAlign = 0 ∧ spec.capacityBytes < 2 ^ 32 then
      let ringOffset := alignUp width offset recordAlign
      let offset := width.wrappingAdd ringOffset (ringCtrl.bytes + spec.capacityBytes)
      (placeQueues offset specs).map fun (queues, offset) =>
        (⟨spec.kind, ringOffset, spec.capacityBytes⟩ :: queues, offset)
    else
      none

-- The words that are written for the header, in order.
def headerWords (totalBytes queueCount : Nat) : List (Nat × U32) :=
  [(ipcHeader.magic * 4, ipcMagic), (ipcHeader.version * 4, ipcVersion),
    (ipcHeader.totalBytes * 4, BitVec.ofNat 32 totalBytes),
    (ipcHeader.queueCount * 4, BitVec.ofNat 32 queueCount)]

-- The words that are written for a queue: its descriptor and the header of its ring. A word whose
-- offset would wrap comes behind one that is out of bounds.
def queueWords (i : Nat) (q : IpcQueueInfo) : List (Nat × U32) :=
  let base := ipcHeader.bytes + i * queueDesc.bytes
  let ringBase := q.offsetBytes
  [(base + queueDesc.kind * 4, q.kind),
    (base + queueDesc.offsetBytes * 4, BitVec.ofNat 32 q.offsetBytes),
    (base + queueDesc.capacityBytes * 4, BitVec.ofNat 32 q.capacityBytes),
    (base + queueDesc.reserved * 4, 0),
    (ringBase + ringCtrl.head * 4, 0),
    (ringBase + ringCtrl.tailReserve * 4, 0),
    (ringBase + ringCtrl.tailCommit * 4, 0),
    (ringBase + ringCtrl.capacity * 4, BitVec.ofNat 32 q.capacityBytes)]

def bufferWords (totalBytes : Nat) (queues : List IpcQueueInfo) : List (Nat × U32) :=
  headerWords totalBytes queues.length ++ queues.zipIdx.flatMap fun (q, i) => queueWords i q

-- `none` is a panic, also the one of `vec!` for more than `isize::MAX` bytes.
def createIpcBuffer (specs : List IpcQueueSpec) : Option Bytes :=
  if specs.length < 2 ^ 32 then
    match placeQueues width (width.wrappingAdd ipcHeader.bytes (specs.length * queueDesc.bytes))
      specs with
    | none => none
    | some (queues, offset) =>
      if offset < 2 ^ 32 ∧ offset ≤ width.usizeMax / 2 then
        (bufferWords offset queues).foldlM writeU32Le ⟨offset, fun _ => 0⟩
      else
        none
  else
    none

end Aero.Ipc
