import Aero.Ipc.Ring

namespace Aero.Ipc

open LeBytes RingBuffer

-- Where a producer stands in `try_push`, with the locals that it still needs. `seenHead` and
-- `seenTail` are the bytes that had been reserved when it loaded the head and the tail, and `ticket`
-- is the number of its reservation; these are only observed.
inductive Producer
  | idle
  | loadHead (payload : List U8) (recordSize : Nat)
  | loadTail (payload : List U8) (recordSize : Nat) (head : U32) (seenHead : Nat)
  | exchange (payload : List U8) (recordSize : Nat) (tail : U32) (padding : Nat)
    (writeWrapMarker : Bool) (reserve : Nat) (seenHead seenTail : Nat)
  -- without bytes left it waits for its turn to commit
  | copy (ticket : Nat) (tail newTail : U32) (writes : List (Nat × U8))
  | storeCommit (ticket : Nat) (newTail : U32)
  | done (result : Except PushError Unit)

-- Where the consumer stands in `try_pop`.
inductive Consumer
  | idle
  | loadHead
  | loadTail (head : U32)
  | readLength (head tail : U32) (bytes : List U8)
  -- with all bytes copied it stores the new head
  | copy (head newHead : U32) (len : Nat) (bytes : List U8)
  | skip (newHead : U32)
  | done (result : Except PopError (List U8))

structure Reservation (ι : Type*) where
  owner : ι
  payload : List U8
  start : Nat
  padding : Nat
  reserve : Nat

-- The last four fields only record what has happened.
structure System (ι : Type*) where
  ring : RingBuffer
  producers : ι → Producer
  consumer : Consumer
  reservations : List (Reservation ι)
  reserved : Nat
  commits : Nat
  popped : List (List U8)

inductive Action (ι : Type*)
  | push (p : ι) (payload : List U8)
  | producer (p : ι)
  | pop
  | consumer

namespace System

variable {ι : Type*} [DecidableEq ι]

def init (ring : RingBuffer) : System ι where
  ring := ring
  producers := fun _ => .idle
  consumer := .idle
  reservations := []
  reserved := 0
  commits := 0
  popped := []

def setProducer (s : System ι) (p : ι) (state : Producer) : System ι :=
  { s with producers := Function.update s.producers p state }

def setConsumer (s : System ι) (state : Consumer) : System ι :=
  { s with consumer := state }

def beginPush (s : System ι) (payload : List U8) : Producer :=
  match pushSize s.ring.cap payload with
  | none            => .done (.error .tooLarge)
  | some recordSize => .loadHead payload recordSize

def afterLoads (s : System ι) (payload : List U8) (recordSize : Nat) (head : U32) (seenHead : Nat) :
    Producer :=
  match attempt s.ring.cap head s.ring.tailReserve recordSize with
  | .retry => .loadHead payload recordSize
  | .full  => .done (.error .full)
  | .exchange padding writeWrapMarker reserve =>
    .exchange payload recordSize s.ring.tailReserve padding writeWrapMarker reserve seenHead
      s.reserved

def reserve (s : System ι) (p : ι) (payload : List U8) (tail : U32) (padding : Nat)
    (writeWrapMarker : Bool) (reserve : Nat) : System ι :=
  let newTail := tail + BitVec.ofNat 32 reserve
  let writes := recordWrites s.ring.cap tail padding writeWrapMarker payload
  { s with
    ring := { s.ring with tailReserve := newTail }
    producers := Function.update s.producers p (.copy s.reservations.length tail newTail writes)
    reservations := s.reservations ++ [⟨p, payload, s.reserved, padding, reserve⟩]
    reserved := s.reserved + reserve }

def copyByte (s : System ι) (p : ι) (ticket : Nat) (tail newTail : U32) (w : Nat × U8)
    (writes : List (Nat × U8)) : System ι :=
  { s with
    ring := { s.ring with data := store s.ring.data w }
    producers := Function.update s.producers p (.copy ticket tail newTail writes) }

def commit (s : System ι) (p : ι) (newTail : U32) : System ι :=
  { s with
    ring := { s.ring with tailCommit := newTail }
    producers := Function.update s.producers p (.done (.ok ()))
    commits := s.commits + 1 }

def stepProducer (s : System ι) (p : ι) : System ι :=
  match s.producers p with
  | .idle                      => s
  | .done _                    => s
  | .loadHead payload recordSize =>
    s.setProducer p (.loadTail payload recordSize s.ring.head s.reserved)
  | .loadTail payload recordSize head seenHead =>
    s.setProducer p (s.afterLoads payload recordSize head seenHead)
  | .exchange payload recordSize tail padding writeWrapMarker reserve _ _ =>
    if s.ring.tailReserve = tail then s.reserve p payload tail padding writeWrapMarker reserve
    else s.setProducer p (.loadHead payload recordSize)
  | .copy ticket tail newTail (w :: writes) => s.copyByte p ticket tail newTail w writes
  | .copy ticket tail newTail []            =>
    if s.ring.tailCommit = tail then s.setProducer p (.storeCommit ticket newTail) else s
  | .storeCommit _ newTail => s.commit p newTail

def lookAt (s : System ι) (head : U32) : Consumer :=
  match look s.ring.cap head s.ring.tailCommit with
  | .empty        => .done (.error .empty)
  | .skip newHead => .skip newHead
  | .length       => .readLength head s.ring.tailCommit []

def readByte (s : System ι) (head tail : U32) (bytes : List U8) : Consumer :=
  let bytes := bytes ++ [s.ring.data (headIndex s.ring.cap head + bytes.length)]
  if bytes.length < 4 then .readLength head tail bytes
  else
    let len := BitVec.ofNat 32 (ofLe bytes)
    match find s.ring.cap head tail len with
    | .skip newHead   => .skip newHead
    | .corrupt        => .done (.error .corrupt)
    | .record newHead => .copy head newHead len.toNat []

def stepConsumer (s : System ι) : System ι :=
  match s.consumer with
  | .idle                       => s
  | .done _                     => s
  | .loadHead                   => s.setConsumer (.loadTail s.ring.head)
  | .loadTail head              => s.setConsumer (s.lookAt head)
  | .readLength head tail bytes => s.setConsumer (s.readByte head tail bytes)
  | .copy head newHead len bytes =>
    if bytes.length < len then
      s.setConsumer (.copy head newHead len
        (bytes ++ [s.ring.data (headIndex s.ring.cap head + 4 + bytes.length)]))
    else
      { s with
        ring := { s.ring with head := newHead }
        consumer := .done (.ok bytes)
        popped := s.popped ++ [bytes] }
  | .skip newHead =>
    { s with
      ring := { s.ring with head := newHead }
      consumer := .loadHead }

-- A call begins only after the previous call of the same thread has returned.
def step (s : System ι) : Action ι → System ι
  | .push p payload =>
    match s.producers p with
    | .idle   => s.setProducer p (s.beginPush payload)
    | .done _ => s.setProducer p (s.beginPush payload)
    | _       => s
  | .producer p => s.stepProducer p
  | .pop =>
    match s.consumer with
    | .idle   => s.setConsumer .loadHead
    | .done _ => s.setConsumer .loadHead
    | _       => s
  | .consumer => s.stepConsumer

inductive Reachable (allowed : System ι → Action ι → Prop) (ring : RingBuffer) : System ι → Prop
  | start : Reachable allowed ring (init ring)
  | step {s : System ι} (a : Action ι) :
    Reachable allowed ring s → allowed s a → Reachable allowed ring (s.step a)

def FewSinceTail (s : System ι) : Action ι → Prop
  | .producer p =>
    match s.producers p with
    | .exchange _ _ _ _ _ _ _ seenTail => s.reserved - seenTail < 2 ^ 32
    | _                                => True
  | _ => True

-- Fewer than `2 ^ 32 - cap` bytes are reserved between the load of the head and the exchange.
def FewSinceHead (s : System ι) : Action ι → Prop
  | .producer p =>
    match s.producers p with
    | .exchange _ _ _ _ _ _ seenHead _ => s.reserved - seenHead < 2 ^ 32 - s.ring.cap.toNat
    | _                                => True
  | _ => True

end System

namespace Reservation

variable {ι : Type*}

def Covers (r : Reservation ι) (cap index : Nat) : Prop :=
  ∃ k < r.reserve, (r.start + k) % cap = index

def RecordCovers (r : Reservation ι) (cap index : Nat) : Prop :=
  ∃ k < r.reserve, r.padding ≤ k ∧ (r.start + k) % cap = index

end Reservation

structure System.Safe {ι : Type*} (s : System ι) : Prop where
  -- the popped payloads are the first reserved ones
  popped : s.popped <+: s.reservations.map (·.payload)
  -- a byte copy leaves the committed records that are not popped yet alone
  committed : ∀ p ticket tail newTail w writes, s.producers p = .copy ticket tail newTail (w :: writes) →
    ∀ i r, s.popped.length ≤ i → i < s.commits → s.reservations[i]? = some r →
      ¬r.RecordCovers s.ring.cap.toNat w.1
  -- and what others have reserved and not committed
  pending : ∀ p ticket tail newTail w writes, s.producers p = .copy ticket tail newTail (w :: writes) →
    ∀ i r, s.commits ≤ i → s.reservations[i]? = some r → r.owner ≠ p →
      ¬r.Covers s.ring.cap.toNat w.1
  corrupt : s.consumer ≠ .done (.error .corrupt)

end Aero.Ipc
