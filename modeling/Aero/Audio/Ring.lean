import Aero.Types
import Aero.Lib.ByteStore

namespace Aero.Audio

-- The bits of an `f32`. The rings copy samples and never compute with them.
abbrev Sample := U32

def clamp (value lo hi : Nat) : Nat :=
  if value < lo then lo else if hi < value then hi else value

-- The copies into the storage of `capacity` frames with `cc` samples each: `count` frames go to the
-- frame `pos` and behind it, and those that do not fit go to the begin of the storage.
def copyIn (capacity cc pos count : Nat) (storage : Nat → Sample) (samples : List Sample) :
    Nat → Sample :=
  let first := min count (capacity - pos)
  let second := count - first
  let storage := ByteStore.write storage (pos * cc) (samples.take (first * cc))
  if second > 0 then ByteStore.write storage 0 ((samples.drop (first * cc)).take (second * cc))
  else storage

def copyOut (capacity cc pos count : Nat) (storage : Nat → Sample) : List Sample :=
  let first := min count (capacity - pos)
  let second := count - first
  ByteStore.read storage (pos * cc) (first * cc) ++
    if second > 0 then ByteStore.read storage 0 (second * cc) else []

section Worklet

def maxRingCapacityFrames : Nat := 1048576

def maxRingChannelCount : Nat := 2

def framesAvailable (readIdx writeIdx : U32) : Nat :=
  (writeIdx - readIdx).toNat

def framesAvailableClamped (readIdx writeIdx : U32) (capacityFrames : Nat) : Nat :=
  min (framesAvailable readIdx writeIdx) capacityFrames

def framesFree (readIdx writeIdx : U32) (capacityFrames : Nat) : Nat :=
  capacityFrames - framesAvailableClamped readIdx writeIdx capacityFrames

structure InterleavedRingBuffer where
  capacityFrames : Nat
  channelCount : Nat
  readIdx : U32
  writeIdx : U32
  storage : Nat → Sample

namespace InterleavedRingBuffer

def new (capacityFrames channelCount : Nat) : InterleavedRingBuffer where
  capacityFrames := clamp capacityFrames 1 maxRingCapacityFrames
  channelCount := clamp channelCount 1 maxRingChannelCount
  readIdx := 0
  writeIdx := 0
  storage := fun _ => 0

def writeInterleaved (self : InterleavedRingBuffer) (samples : List Sample) :
    InterleavedRingBuffer × Nat :=
  let requestedFrames := samples.length % 2 ^ 32 / self.channelCount
  if requestedFrames = 0 then (self, 0)
  else
    let free := framesFree self.readIdx self.writeIdx self.capacityFrames
    let framesToWrite := min requestedFrames free
    if framesToWrite = 0 then (self, 0)
    else
      let writePos := self.writeIdx.toNat % self.capacityFrames
      ({ self with
        storage := copyIn self.capacityFrames self.channelCount writePos framesToWrite self.storage
          samples
        writeIdx := self.writeIdx + BitVec.ofNat 32 framesToWrite }, framesToWrite)

-- `out` is filled from its begin, and keeps what is behind the frames that were read.
def readInterleaved (self : InterleavedRingBuffer) (out : List Sample) :
    InterleavedRingBuffer × List Sample × Nat :=
  let requestedFrames := out.length % 2 ^ 32 / self.channelCount
  if requestedFrames = 0 then (self, out, 0)
  else
    let available := framesAvailableClamped self.readIdx self.writeIdx self.capacityFrames
    let framesToRead := min requestedFrames available
    if framesToRead = 0 then (self, out, 0)
    else
      let readPos := self.readIdx.toNat % self.capacityFrames
      ({ self with readIdx := self.readIdx + BitVec.ofNat 32 framesToRead },
        copyOut self.capacityFrames self.channelCount readPos framesToRead self.storage ++
          out.drop (framesToRead * self.channelCount),
        framesToRead)

end InterleavedRingBuffer

end Worklet

section Mic

def maxRingCapacitySamples : Nat := 1048576

def samplesAvailable (readPos writePos : U32) : Nat :=
  (writePos - readPos).toNat

def samplesAvailableClamped (readPos writePos : U32) (capacitySamples : Nat) : Nat :=
  min (samplesAvailable readPos writePos) capacitySamples

structure MonoRingBuffer where
  capacitySamples : Nat
  readPos : U32
  writePos : U32
  droppedSamples : U64
  storage : Nat → Sample

def saturatingAdd (a : U64) (n : Nat) : U64 :=
  if a.toNat + n < 2 ^ 64 then a + BitVec.ofNat 64 n else BitVec.allOnes 64

namespace MonoRingBuffer

def new (capacitySamples : Nat) : MonoRingBuffer where
  capacitySamples := clamp capacitySamples 1 maxRingCapacitySamples
  readPos := 0
  writePos := 0
  droppedSamples := 0
  storage := fun _ => 0

def write (self : MonoRingBuffer) (samples : List Sample) : MonoRingBuffer × Nat :=
  let requested := samples.length % 2 ^ 32
  if requested = 0 then (self, 0)
  else
    let used := samplesAvailable self.readPos self.writePos
    if used > self.capacitySamples then
      ({ self with droppedSamples := saturatingAdd self.droppedSamples samples.length }, 0)
    else
      let free := self.capacitySamples - used
      if free = 0 then
        ({ self with droppedSamples := saturatingAdd self.droppedSamples samples.length }, 0)
      else
        let toWrite := min requested free
        let dropped := requested - toWrite
        let slice := if dropped > 0 then samples.drop dropped else samples
        let start := self.writePos.toNat % self.capacitySamples
        ({ self with
          droppedSamples := saturatingAdd self.droppedSamples dropped
          storage := copyIn self.capacitySamples 1 start toWrite self.storage slice
          writePos := self.writePos + BitVec.ofNat 32 toWrite }, toWrite)

def read (self : MonoRingBuffer) (out : List Sample) : MonoRingBuffer × List Sample × Nat :=
  let requested := out.length % 2 ^ 32
  if requested = 0 then (self, out, 0)
  else
    let available := samplesAvailableClamped self.readPos self.writePos self.capacitySamples
    let toRead := min requested available
    if toRead = 0 then (self, out, 0)
    else
      let start := self.readPos.toNat % self.capacitySamples
      ({ self with readPos := self.readPos + BitVec.ofNat 32 toRead },
        copyOut self.capacitySamples 1 start toRead self.storage ++ out.drop toRead, toRead)

end MonoRingBuffer

end Mic

inductive Op
  | write (samples : List Sample)
  | read (out : List Sample)
  deriving DecidableEq, Repr

inductive Result
  | written (count : Nat)
  | read (out : List Sample) (count : Nat)
  deriving DecidableEq, Repr

def InterleavedRingBuffer.apply (self : InterleavedRingBuffer) :
    Op → InterleavedRingBuffer × Result
  | .write samples =>
    let (self, count) := self.writeInterleaved samples
    (self, .written count)
  | .read out =>
    let (self, out, count) := self.readInterleaved out
    (self, .read out count)

def MonoRingBuffer.apply (self : MonoRingBuffer) : Op → MonoRingBuffer × Result
  | .write samples =>
    let (self, count) := self.write samples
    (self, .written count)
  | .read out =>
    let (self, out, count) := self.read out
    (self, .read out count)

-- The purpose of the rings: a bounded queue of frames. A block that does not fit is cut to the
-- frames for which there is room, either its first or its last ones.
structure Queue where
  capacity : Nat
  channels : Nat
  keepsNewest : Bool
  samples : List Sample

namespace Queue

def level (self : Queue) : Nat :=
  self.samples.length / self.channels

def accepted (self : Queue) (block : List Sample) (count : Nat) : List Sample :=
  if self.keepsNewest then block.drop (block.length - count * self.channels)
  else block.take (count * self.channels)

def apply (self : Queue) : Op → Queue × Result
  | .write block =>
    let count := min (block.length % 2 ^ 32 / self.channels) (self.capacity - self.level)
    ({ self with samples := self.samples ++ self.accepted block count }, .written count)
  | .read out =>
    let count := min (out.length % 2 ^ 32 / self.channels) self.level
    ({ self with samples := self.samples.drop (count * self.channels) },
      .read (self.samples.take (count * self.channels) ++ out.drop (count * self.channels)) count)

end Queue

end Aero.Audio
