import Aero.Types

namespace Aero.Tier2

open Aero

structure FlagValues where
  cf : Bool
  pf : Bool
  af : Bool
  zf : Bool
  sf : Bool
  of : Bool
  deriving DecidableEq, Repr, Inhabited

def FlagValues.get (v : FlagValues) : Flag → Bool
  | .cf => v.cf
  | .pf => v.pf
  | .af => v.af
  | .zf => v.zf
  | .sf => v.sf
  | .of => v.of

abbrev ValueId := Nat

inductive Operand
  | value (v : ValueId)
  | const (c : U64)
  deriving DecidableEq, Repr

namespace Operand

def asValue : Operand → Option ValueId
  | value v => some v
  | const _ => none

end Operand

inductive BinOp
  | add | sub | mul | and | or | xor | shl | shr | sar | eq | ltU
  deriving DecidableEq, Repr

def BinOp.isCommutative : BinOp → Bool
  | add | mul | and | or | xor | eq => true
  | sub | shl | shr | sar | ltU     => false

def parityEven (byte : U8) : Bool :=
  (List.range 8).countP (byte.getLsbD ·) % 2 == 0

-- The flags that every operation but the additive ones and the comparisons reports.
def resultFlags (res : U64) : FlagValues where
  cf := false
  pf := parityEven (res.setWidth 8)
  af := false
  zf := res == 0
  sf := res >>> 63 != 0
  of := false

def boolToU64 (b : Bool) : U64 :=
  if b then 1 else 0

def compareFlags (res : U64) : FlagValues where
  cf := false
  pf := parityEven (res.setWidth 8)
  af := false
  zf := res == 0
  sf := false
  of := false

def evalBinop (op : BinOp) (lhs rhs : U64) : U64 × FlagValues :=
  let sh := (rhs &&& 63).toNat
  match op with
  | .add =>
    let res := lhs + rhs
    (res, {
      cf := lhs.uaddOverflow rhs
      pf := parityEven (res.setWidth 8)
      af := (lhs ^^^ rhs ^^^ res) &&& 0x10 != 0
      zf := res == 0
      sf := res >>> 63 != 0
      of := (lhs ^^^ res) &&& (rhs ^^^ res) &&& (1#64 <<< 63) != 0 })
  | .sub =>
    let res := lhs - rhs
    (res, {
      cf := lhs.ult rhs
      pf := parityEven (res.setWidth 8)
      af := (lhs ^^^ rhs ^^^ res) &&& 0x10 != 0
      zf := res == 0
      sf := res >>> 63 != 0
      of := (lhs ^^^ rhs) &&& (lhs ^^^ res) &&& (1#64 <<< 63) != 0 })
  | .mul => (lhs * rhs, resultFlags (lhs * rhs))
  | .and => (lhs &&& rhs, resultFlags (lhs &&& rhs))
  | .or  => (lhs ||| rhs, resultFlags (lhs ||| rhs))
  | .xor => (lhs ^^^ rhs, resultFlags (lhs ^^^ rhs))
  | .shl => (lhs <<< sh, resultFlags (lhs <<< sh))
  | .shr => (lhs >>> sh, resultFlags (lhs >>> sh))
  | .sar => (lhs.sshiftRight sh, resultFlags (lhs.sshiftRight sh))
  | .eq  => (boolToU64 (lhs == rhs), compareFlags (boolToU64 (lhs == rhs)))
  | .ltU => (boolToU64 (lhs.ult rhs), compareFlags (boolToU64 (lhs.ult rhs)))

def evalAddr (base index : U64) (scale : U8) (disp : U64) : U64 :=
  base + index * scale.setWidth 64 + disp

inductive Instr
  | nop
  | const (dst : ValueId) (value : U64)
  | loadReg (dst : ValueId) (reg : Gpr)
  | storeReg (reg : Gpr) (src : Operand)
  | loadMem (dst : ValueId) (addr : Operand) (width : Width)
  | storeMem (addr src : Operand) (width : Width)
  | loadFlag (dst : ValueId) (flag : Flag)
  | setFlags (mask : FlagSet) (values : FlagValues)
  | binOp (dst : ValueId) (op : BinOp) (lhs rhs : Operand) (flags : FlagSet)
  | addr (dst : ValueId) (base index : Operand) (scale : U8) (disp : U64)
  | guard (cond : Operand) (expected : Bool) (exitRip : U64)
  | guardCodeVersion (page : U64) (expected : U32) (exitRip : U64)
  | sideExit (exitRip : U64)
  deriving DecidableEq, Repr

namespace Instr

def dst : Instr → Option ValueId
  | const dst _ | loadReg dst _ | loadMem dst _ _ | loadFlag dst _ | binOp dst _ _ _ _
  | addr dst _ _ _ _ => some dst
  | nop | storeReg _ _ | storeMem _ _ _ | setFlags _ _ | guard _ _ _ | guardCodeVersion _ _ _
  | sideExit _ => none

def flagsWritten : Instr → FlagSet
  | binOp _ _ _ _ flags => flags
  | setFlags mask _     => mask
  | _                   => .empty

def flagsRead : Instr → FlagSet
  | loadFlag _ flag => flagToSet flag
  | _               => .empty

def hasSideEffects : Instr → Bool
  | storeReg _ _ | loadMem _ _ _ | storeMem _ _ _ | guard _ _ _ | guardCodeVersion _ _ _
  | sideExit _ => true
  | setFlags mask _ => !mask.isEmpty
  | binOp _ _ _ _ flags => !flags.isEmpty
  | nop | const _ _ | loadReg _ _ | loadFlag _ _ | addr _ _ _ _ _ => false

def operands : Instr → List Operand
  | binOp _ _ lhs rhs _     => [lhs, rhs]
  | storeReg _ src          => [src]
  | loadMem _ a _           => [a]
  | storeMem a src _        => [a, src]
  | addr _ base index _ _   => [base, index]
  | guard cond _ _          => [cond]
  | nop | const _ _ | loadReg _ _ | loadFlag _ _ | setFlags _ _ | guardCodeVersion _ _ _
  | sideExit _ => []

def mapOperands (f : Operand → Operand) : Instr → Instr
  | binOp dst op lhs rhs flags         => binOp dst op (f lhs) (f rhs) flags
  | storeReg reg src                   => storeReg reg (f src)
  | loadMem dst a width                => loadMem dst (f a) width
  | storeMem a src width               => storeMem (f a) (f src) width
  | addr dst base index scale disp     => addr dst (f base) (f index) scale disp
  | guard cond expected exitRip        => guard (f cond) expected exitRip
  | nop                                => nop
  | const dst value                    => const dst value
  | loadReg dst reg                    => loadReg dst reg
  | loadFlag dst flag                  => loadFlag dst flag
  | setFlags mask values               => setFlags mask values
  | guardCodeVersion page expected rip => guardCodeVersion page expected rip
  | sideExit exitRip                   => sideExit exitRip

def uses (i : Instr) : List ValueId :=
  i.operands.filterMap Operand.asValue

end Instr

inductive TraceKind
  | linear
  | loop
  deriving DecidableEq, Repr

structure TraceIr where
  prologue : List Instr
  body : List Instr
  kind : TraceKind
  deriving DecidableEq, Repr

namespace TraceIr

def instrs (t : TraceIr) : List Instr :=
  t.prologue ++ t.body

def bodyRegsWritten (t : TraceIr) (reg : Gpr) : Bool :=
  t.body.any fun
    | .storeReg r _ => r == reg
    | _             => false

end TraceIr

end Aero.Tier2
