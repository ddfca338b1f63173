import Aero.Interrupts.LocalApic

namespace Aero.Interrupts

namespace LapicState

def highestDeliverableVector (s : LapicState) (ppr : U8) : Option U8 :=
  ((List.range 256).reverse.map (BitVec.ofNat 8)).find? fun vector =>
    s.irr.isSet vector && decide (ppr < vectorPriorityClass vector)

def getPendingVector (s : LapicState) (now : Nat) : LapicState × Option U8 :=
  let s := s.pollTimer now
  if s.enabled = false then (s, none) else (s, s.highestDeliverableVector s.ppr)

def acks (s : LapicState) (vector : U8) : Bool :=
  s.enabled && s.irr.isSet vector && !decide (vectorPriorityClass vector ≤ s.ppr)

-- `LocalApic::ack` and `LocalApic::eoi`, which look at the timer first.
def ackAt (s : LapicState) (now : Nat) (vector : U8) : LapicState × Bool :=
  ((s.pollTimer now).ack vector, (s.pollTimer now).acks vector)

def eoiAt (s : LapicState) (now : Nat) : LapicState × Option U8 :=
  (s.pollTimer now).eoi

end LapicState

inductive LapicOp
  | injectFixedInterrupt (now : Nat) (vector : U8)
  | getPendingVector (now : Nat)
  | ack (now : Nat) (vector : U8)
  | eoi (now : Nat)
  -- the registers that the guest writes, four bytes at a time
  | writeEoi (now : Nat) (b₀ b₁ b₂ b₃ : U8)
  | writeTpr (now : Nat) (b₀ b₁ b₂ b₃ : U8)
  | setTprFromCr8 (cr8 : U64)

-- The local APIC with a history, which only observes: the vectors that were acknowledged and not
-- ended, the last one first.
structure Served where
  lapic : LapicState
  nested : List U8

namespace Served

def ended (s : Served) (lapic : LapicState) (vectors : List U8) : Served :=
  ⟨lapic, vectors.foldl List.erase s.nested⟩

def step (s : Served) : LapicOp → Served
  | .injectFixedInterrupt now vector => { s with lapic := s.lapic.injectFixedInterrupt now vector }
  | .getPendingVector now => { s with lapic := (s.lapic.getPendingVector now).1 }
  | .ack now vector =>
    let (lapic, taken) := s.lapic.ackAt now vector
    ⟨lapic, if taken then vector :: s.nested else s.nested⟩
  | .eoi now =>
    let (lapic, vector) := s.lapic.eoiAt now
    s.ended lapic vector.toList
  | .writeEoi now b₀ b₁ b₂ b₃ =>
    let w := s.lapic.mmioWrite now Reg.eoi [b₀, b₁, b₂, b₃]
    s.ended w.state w.eoiVectors
  | .writeTpr now b₀ b₁ b₂ b₃ =>
    let w := s.lapic.mmioWrite now Reg.tpr [b₀, b₁, b₂, b₃]
    s.ended w.state w.eoiVectors
  | .setTprFromCr8 cr8 => { s with lapic := s.lapic.setTprFromCr8 cr8 }

def run (lapic : LapicState) (ops : List LapicOp) : Served :=
  ops.foldl step ⟨lapic, []⟩

end Served

end Aero.Interrupts
