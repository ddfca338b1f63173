import Aero.Types

namespace Aero.Tier0

inductive Exception
  | generalProtection (code : U16)
  | stackSegment (code : U16)
  | divideError
  | pageFault (addr : U64) (errorCode : U32)
  | memoryFault

inductive Register
  | low (gpr : Gpr) (width : Width)
  | high8 (gpr : Gpr)

namespace Register

def gpr : Register → Gpr
  | low gpr _ => gpr
  | high8 gpr => gpr

def width : Register → Width
  | low _ width => width
  | high8 _     => .w8

def offset : Register → Nat
  | low _ _ => 0
  | high8 _ => 8

def merge (reg : Register) (cur val : U64) : U64 :=
  match reg.width with
  | .w64  => val
  | .w32  => Width.w32.truncate val
  | width => cur &&& ~~~(width.mask <<< reg.offset) ||| width.truncate val <<< reg.offset

end Register

structure CpuState where
  gpr : Gpr → U64

namespace CpuState

def readReg (state : CpuState) (reg : Register) : U64 :=
  reg.width.truncate (state.gpr reg.gpr >>> reg.offset)

def writeReg (state : CpuState) (reg : Register) (val : U64) : CpuState where
  gpr := Function.update state.gpr reg.gpr (reg.merge (state.gpr reg.gpr) val)

end CpuState

inductive Operand
  | register (reg : Register)
  | memory (width : Width) (value : Except Exception (BitVec width.bits))

namespace Operand

def width : Operand → Width
  | register reg   => reg.width
  | memory width _ => width

def read (state : CpuState) : Operand → Except Exception U64
  | register reg   => .ok (reg.width.truncate (state.readReg reg))
  | memory _ value => value.map (·.setWidth 64)

end Operand

inductive Mnemonic
  | div
  | idiv
  deriving DecidableEq

namespace Mnemonic

-- The integer that the bits are for an instruction.
def int {w : Nat} : Mnemonic → BitVec w → Int
  | div,  x => x.toNat
  | idiv, x => x.toInt

def min (w : Nat) : Mnemonic → Int
  | div  => 0
  | idiv => -2 ^ (w - 1)

def max (w : Nat) : Mnemonic → Int
  | div  => 2 ^ w - 1
  | idiv => 2 ^ (w - 1) - 1

def pair {w : Nat} : Mnemonic → BitVec w → BitVec w → BitVec (w + w)
  | div,  hi, lo => hi.setWidth (w + w) <<< w ||| lo.setWidth (w + w)
  | idiv, hi, lo =>
    hi.signExtend (w + w) <<< w ||| lo.signExtend (w + w) &&& (BitVec.allOnes w).setWidth (w + w)

def dividend (mnemonic : Mnemonic) (state : CpuState) :
    (width : Width) → BitVec (width.bits + width.bits)
  | .w8  => (state.readReg (.low .rax .w16)).setWidth 16
  | w    => mnemonic.pair ((state.readReg (.low .rdx w)).setWidth w.bits)
      ((state.readReg (.low .rax w)).setWidth w.bits)

-- The one quotient that the host's integers of twice the width `w` cannot hold.
abbrev Overflows (mnemonic : Mnemonic) (w : Nat) (dividend div : Int) : Prop :=
  mnemonic = idiv ∧ dividend = -2 ^ (w + w - 1) ∧ div = -1

-- The division at twice the width of the operand. The host panics when the quotient overflows, and
-- when it divides by zero.
def divide (mnemonic : Mnemonic) (w : Nat) (dividend : BitVec (w + w)) (divisor : U64)
    (quotient remainder : Register) (state : CpuState) : Option (Except Exception CpuState) :=
  let dividend := mnemonic.int dividend
  let div := mnemonic.int (divisor.setWidth w)
  if div = 0 ∨ mnemonic.Overflows w dividend div then none
  else
    let q := dividend.tdiv div
    let r := dividend.tmod div
    if q < mnemonic.min w ∨ mnemonic.max w < q then some (.error .divideError)
    else
      some (.ok ((state.writeReg quotient ((BitVec.ofInt w q).setWidth 64)).writeReg remainder
        ((BitVec.ofInt w r).setWidth 64)))

end Mnemonic

def quotientReg (width : Width) : Register :=
  .low .rax width

def remainderReg : Width → Register
  | .w8  => .high8 .rax
  | width => .low .rdx width

-- The result is `none` when the host panics.
def execDiv (mnemonic : Mnemonic) (operand : Operand) (state : CpuState) :
    Option (Except Exception CpuState) :=
  match operand.read state with
  | .error e => some (.error e)
  | .ok divisor =>
    if divisor = 0 then some (.error .divideError)
    else
      mnemonic.divide operand.width.bits (mnemonic.dividend state operand.width) divisor
        (quotientReg operand.width) (remainderReg operand.width) state

end Aero.Tier0
