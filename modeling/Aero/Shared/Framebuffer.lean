import Aero.Types

namespace Aero.Shared.Framebuffer

structure Frame (n d : Nat) where
  pixels : Fin n → U8
  dirtyWords : Fin d → U32

inductive Write (n d : Nat)
  | pixel (i : Fin n) (value : U8)
  | dirtyWord (j : Fin d) (value : U32)

def Frame.write {n d : Nat} (frame : Frame n d) : Write n d → Frame n d
  | .pixel i value     => { frame with pixels := Function.update frame.pixels i value }
  | .dirtyWord j value => { frame with dirtyWords := Function.update frame.dirtyWords j value }

-- The dirty words are cleared before the closure of the producer gets the slot.
def fill {n d : Nat} : List (Write n d) :=
  (List.finRange d).map (.dirtyWord · 0)

structure SharedFramebufferHeader where
  activeIndex : U32
  frameSeq : U32
  frameDirty : U32
  bufferFrameSeq : Bool → U32

-- A corrupted index is clamped to one of the two slots.
def slotOf (activeIndex : U32) : Bool :=
  activeIndex &&& 1 = 1

def indexOf (slot : Bool) : U32 :=
  if slot then 1 else 0

-- Where the producer stands in `try_write_frame`. `frame` is what it writes for the frame as a
-- whole; it is only observed.
inductive Producer (n d : Nat)
  | idle
  | loadDirty (writes : List (Write n d))
  | loadActive (writes : List (Write n d))
  -- with everything written it loads the sequence number
  | write (back : Bool) (todo : List (Write n d)) (frame : Frame n d)
  | storeBufferSeq (back : Bool) (newSeq : U32) (frame : Frame n d)
  | storeActive (back : Bool) (newSeq : U32) (frame : Frame n d)
  | storeSeq (back : Bool) (newSeq : U32) (frame : Frame n d)
  | storeDirty (newSeq : U32)
  | done (result : Option U32)

-- Where the consumer stands in `from_shared_memory`, `poll_frame` and `ack_frame`. `view` is between
-- a poll that has returned a frame and its acknowledgement.
inductive Consumer
  | detached
  | attach
  | idle (lastSeq : U32)
  | pollSeq (lastSeq : U32)
  | pollActive (seq : U32)
  | pollBufferSeq (seq : U32) (active : Bool)
  | scan (seq : U32) (active : Bool) (j : Nat)
  | view (seq : U32) (active : Bool)
  | ackSeq (seq : U32)
  | ackStore (seq : U32)

inductive Read (n d : Nat)
  | bufferSeq (seq : U32) (value : U32)
  | pixel (seq : U32) (i : Fin n) (value : U8)
  | dirtyWord (seq : U32) (j : Fin d) (value : U32)
  deriving DecidableEq

-- The last two fields only record what has happened: the frames that were published, and what the
-- consumer has read for which sequence number.
structure System (n d : Nat) where
  header : SharedFramebufferHeader
  slots : Bool → Frame n d
  producer : Producer n d
  consumer : Consumer
  frames : List (Frame n d)
  reads : List (Read n d)

inductive Action (n d : Nat)
  | writeFrame (writes : List (Write n d))
  | producer
  | attach
  | poll
  | readPixel (i : Fin n)
  | readDirtyWord (j : Fin d)
  | ack
  | consumer

namespace System

variable {n d : Nat}

def init (slots : Bool → Frame n d) : System n d where
  header := ⟨0, 0, 0, fun _ => 0⟩
  slots := slots
  producer := .idle
  consumer := .detached
  frames := []
  reads := []

def setProducer (s : System n d) (state : Producer n d) : System n d :=
  { s with producer := state }

def setConsumer (s : System n d) (state : Consumer) : System n d :=
  { s with consumer := state }

def setHeader (s : System n d) (header : SharedFramebufferHeader) : System n d :=
  { s with header := header }

def writeSlot (s : System n d) (back : Bool) (w : Write n d) : System n d :=
  { s with slots := Function.update s.slots back ((s.slots back).write w) }

def beginWrite (s : System n d) (writes : List (Write n d)) : Producer n d :=
  let back := !slotOf s.header.activeIndex
  .write back (fill ++ writes) ((fill ++ writes).foldl Frame.write (s.slots back))

def stepProducer (s : System n d) : System n d :=
  match s.producer with
  | .idle   => s
  | .done _ => s
  | .loadDirty writes =>
    if s.header.frameDirty ≠ 0 then s.setProducer (.done none)
    else s.setProducer (.loadActive writes)
  | .loadActive writes => s.setProducer (s.beginWrite writes)
  | .write back (w :: todo) frame => (s.writeSlot back w).setProducer (.write back todo frame)
  | .write back [] frame => s.setProducer (.storeBufferSeq back (s.header.frameSeq + 1) frame)
  | .storeBufferSeq back newSeq frame =>
    (s.setHeader { s.header with
      bufferFrameSeq := Function.update s.header.bufferFrameSeq back newSeq }).setProducer
        (.storeActive back newSeq frame)
  | .storeActive back newSeq frame =>
    (s.setHeader { s.header with activeIndex := indexOf back }).setProducer
      (.storeSeq back newSeq frame)
  | .storeSeq _ newSeq frame =>
    { s with
      header := { s.header with frameSeq := newSeq }
      producer := .storeDirty newSeq
      frames := s.frames ++ [frame] }
  | .storeDirty newSeq =>
    (s.setHeader { s.header with frameDirty := 1 }).setProducer (.done (some newSeq))

def log (s : System n d) (read : Read n d) : System n d :=
  { s with reads := s.reads ++ [read] }

def scanFrom (seq : U32) (active : Bool) (j : Nat) : Consumer :=
  if j < d then .scan seq active j else .view seq active

def stepConsumer (s : System n d) : System n d :=
  match s.consumer with
  | .detached | .idle _ | .view _ _ => s
  | .attach => s.setConsumer (.idle s.header.frameSeq)
  | .pollSeq lastSeq =>
    if s.header.frameSeq = lastSeq then s.setConsumer (.idle lastSeq)
    else s.setConsumer (.pollActive s.header.frameSeq)
  | .pollActive seq => s.setConsumer (.pollBufferSeq seq (slotOf s.header.activeIndex))
  | .pollBufferSeq seq active =>
    (s.log (.bufferSeq seq (s.header.bufferFrameSeq active))).setConsumer
      (scanFrom (d := d) seq active 0)
  | .scan seq active j =>
    if h : j < d then
      let word := (s.slots active).dirtyWords ⟨j, h⟩
      (s.log (.dirtyWord seq ⟨j, h⟩ word)).setConsumer
        (if word = 0 then scanFrom (d := d) seq active (j + 1) else .view seq active)
    else
      s
  | .ackSeq seq =>
    if s.header.frameSeq ≠ seq then s.setConsumer (.idle seq)
    else s.setConsumer (.ackStore seq)
  | .ackStore seq => (s.setHeader { s.header with frameDirty := 0 }).setConsumer (.idle seq)

-- A call begins only after the previous call of the same side has returned.
def step (s : System n d) : Action n d → System n d
  | .writeFrame writes =>
    match s.producer with
    | .idle | .done _ => s.setProducer (.loadDirty writes)
    | _               => s
  | .producer => s.stepProducer
  | .attach =>
    match s.consumer with
    | .detached => s.setConsumer .attach
    | _         => s
  | .poll =>
    match s.consumer with
    | .idle lastSeq => s.setConsumer (.pollSeq lastSeq)
    | _             => s
  | .readPixel i =>
    match s.consumer with
    | .view seq active => s.log (.pixel seq i ((s.slots active).pixels i))
    | _                => s
  | .readDirtyWord j =>
    match s.consumer with
    | .view seq active => s.log (.dirtyWord seq j ((s.slots active).dirtyWords j))
    | _                => s
  | .ack =>
    match s.consumer with
    | .view seq _ => s.setConsumer (.ackSeq seq)
    | _           => s
  | .consumer => s.stepConsumer

-- Fewer than `2 ^ 32` frames are published.
inductive Reachable (allowed : System n d → Action n d → Prop) : System n d → Prop
  | start (slots : Bool → Frame n d) : Reachable allowed (init slots)
  | step {s : System n d} (a : Action n d) : Reachable allowed s → allowed s a →
    (s.step a).frames.length < 2 ^ 32 → Reachable allowed (s.step a)

end System

end Aero.Shared.Framebuffer
