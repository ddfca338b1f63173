import Aero.Types
import Aero.Lib.LeBytes

namespace Aero.Ipc

open LeBytes

def recordAlign : Nat := 4

def wrapMarker : U32 := 0xFFFF_FFFF

-- `usize` has 64 bits.
def checkedAdd (a b : Nat) : Option Nat :=
  if a + b < 2 ^ 64 then some (a + b) else none

-- The source clears the low bits of a multiple of a power of two.
def alignUpChecked (value align : Nat) : Option Nat :=
  (checkedAdd value (align - 1)).map fun v => v / align * align

def recordSizeChecked (payloadLen : Nat) : Option Nat :=
  (checkedAdd 4 payloadLen).bind (alignUpChecked · recordAlign)

inductive PushError
  | full
  | tooLarge
  deriving DecidableEq, Repr

inductive PopError
  | empty
  | corrupt
  deriving DecidableEq, Repr

structure RingBuffer where
  cap : U32
  head : U32
  tailReserve : U32
  tailCommit : U32
  data : Nat → U8

namespace RingBuffer

def new (capacityBytes : Nat) : Option RingBuffer :=
  if 0 < capacityBytes ∧ capacityBytes % recordAlign = 0 ∧ capacityBytes < 2 ^ 32 - 1 then
    some {
      cap := BitVec.ofNat 32 capacityBytes
      head := 0
      tailReserve := 0
      tailCommit := 0
      data := fun _ => 0
    }
  else
    none

-- The size of the record for a payload that `try_push` does not turn down.
def pushSize (cap : U32) (payload : List U8) : Option Nat :=
  if payload.length > 2 ^ 32 - 2 then none
  else (recordSizeChecked payload.length).filter (· ≤ cap.toNat)

def remaining (cap counter : U32) : Nat :=
  cap.toNat - (counter % cap).toNat

def padding (cap tail : U32) (recordSize : Nat) : Nat × Bool :=
  if remaining cap tail < 4 then (remaining cap tail, false)
  else if remaining cap tail < recordSize then (remaining cap tail, true)
  else (0, false)

inductive Attempt
  | retry
  | full
  | exchange (padding : Nat) (writeWrapMarker : Bool) (reserve : Nat)
  deriving DecidableEq, Repr

-- What a round of the loop of `try_push` does with the counters it has loaded.
def attempt (cap head tail : U32) (recordSize : Nat) : Attempt :=
  let used := tail - head
  if used > cap then .retry
  else
    let (padding, writeWrapMarker) := padding cap tail recordSize
    let reserve := padding + recordSize
    if BitVec.ofNat 32 reserve > cap - used then .full
    else .exchange padding writeWrapMarker reserve

def bytesAt : Nat → List U8 → List (Nat × U8)
  | _, []      => []
  | i, b :: bs => (i, b) :: bytesAt (i + 1) bs

def recordWrites (cap tail : U32) (padding : Nat) (writeWrapMarker : Bool) (payload : List U8) :
    List (Nat × U8) :=
  let startIndex := ((tail + BitVec.ofNat 32 padding) % cap).toNat
  (if writeWrapMarker then bytesAt (tail % cap).toNat (toLe 4 wrapMarker.toNat) else [])
    ++ bytesAt startIndex (toLe 4 payload.length) ++ bytesAt (startIndex + 4) payload

def store (data : Nat → U8) (w : Nat × U8) : Nat → U8 :=
  fun i => if i = w.1 then w.2 else data i

-- `none` means that the call does not return: nobody else changes the counters that its loops wait
-- for.
def tryPush (ring : RingBuffer) (payload : List U8) :
    Option (Except PushError Unit × RingBuffer) :=
  match pushSize ring.cap payload with
  | none => some (.error .tooLarge, ring)
  | some recordSize =>
    let tail := ring.tailReserve
    match attempt ring.cap ring.head tail recordSize with
    | .retry => none
    | .full  => some (.error .full, ring)
    | .exchange padding writeWrapMarker reserve =>
      let newTail := tail + BitVec.ofNat 32 reserve
      if ring.tailCommit = tail then
        some (.ok (), { ring with
          tailReserve := newTail
          tailCommit := newTail
          data := (recordWrites ring.cap tail padding writeWrapMarker payload).foldl store
            ring.data })
      else
        none

def readBytes (data : Nat → U8) (i n : Nat) : List U8 :=
  (List.range n).map fun k => data (i + k)

inductive Look
  | empty
  | skip (newHead : U32)
  | length
  deriving DecidableEq, Repr

def look (cap head tail : U32) : Look :=
  if head = tail then .empty
  else if remaining cap head < 4 then .skip (head + BitVec.ofNat 32 (remaining cap head))
  else .length

inductive Found
  | skip (newHead : U32)
  | corrupt
  | record (newHead : U32)
  deriving DecidableEq, Repr

def find (cap head tail len : U32) : Found :=
  if len = wrapMarker then .skip (head + BitVec.ofNat 32 (remaining cap head))
  else
    match recordSizeChecked len.toNat with
    | none       => .corrupt
    | some total =>
      if total > remaining cap head ∨ tail - head < BitVec.ofNat 32 total then .corrupt
      else .record (head + BitVec.ofNat 32 total)

def headIndex (cap head : U32) : Nat :=
  (head % cap).toNat

-- `none` means that the loop has not ended after `fuel` rounds.
def tryPop : Nat → RingBuffer → Option (Except PopError (List U8) × RingBuffer)
  | 0,        _    => none
  | fuel + 1, ring =>
    let index := headIndex ring.cap ring.head
    match look ring.cap ring.head ring.tailCommit with
    | .empty        => some (.error .empty, ring)
    | .skip newHead => tryPop fuel { ring with head := newHead }
    | .length       =>
      let len := BitVec.ofNat 32 (ofLe (readBytes ring.data index 4))
      match find ring.cap ring.head ring.tailCommit len with
      | .skip newHead   => tryPop fuel { ring with head := newHead }
      | .corrupt        => some (.error .corrupt, ring)
      | .record newHead =>
        some (.ok (readBytes ring.data (index + 4) len.toNat), { ring with head := newHead })

inductive Op
  | push (payload : List U8)
  | pop

inductive Result
  | pushed (result : Except PushError Unit)
  | popped (result : Except PopError (List U8))

def apply (fuel : Nat) (ring : RingBuffer) : Op → Option (Result × RingBuffer)
  | .push payload => (ring.tryPush payload).map fun (r, ring) => (.pushed r, ring)
  | .pop          => (ring.tryPop fuel).map fun (r, ring) => (.popped r, ring)

def run (fuel : Nat) (ring : RingBuffer) : List Op → Option (List Result)
  | []        => some []
  | op :: ops => (ring.apply fuel op).bind fun (r, ring) => (ring.run fuel ops).map (r :: ·)

end RingBuffer

-- The results that a queue with the payloads `queue` may give to a sequence of calls. A push may be
-- turned down; a pop returns the oldest payload, or `Empty` if there is none.
def IsFifo : List (List U8) → List RingBuffer.Op → List RingBuffer.Result → Prop
  | _,     [],              []                   => True
  | queue, .push p :: ops,  .pushed (.ok _) :: rs    => IsFifo (queue ++ [p]) ops rs
  | queue, .push _ :: ops,  .pushed (.error _) :: rs => IsFifo queue ops rs
  | queue, .pop :: ops,     .popped (.ok p) :: rs    =>
    ∃ rest, queue = p :: rest ∧ IsFifo rest ops rs
  | queue, .pop :: ops,     .popped (.error .empty) :: rs => queue = [] ∧ IsFifo queue ops rs
  | _,     _,               _                    => False

end Aero.Ipc
