import Aero.Tier2.Opt.Passes.BooleanSimplify

namespace Aero.Tier2.StrengthReduction

open AddrSimplify (AddrDef)
open BooleanSimplify (pureOp)

def decodeBoolNot : Instr → Option (ValueId × ValueId)
  | .binOp dst .eq lhs rhs flags =>
    if !flags.isEmpty then none
    else match lhs, rhs with
      | .value v, .const 0 | .const 0, .value v => some (dst, v)
      | _, _ => none
  | .binOp dst .xor lhs rhs flags =>
    if !flags.isEmpty then none
    else match lhs, rhs with
      | .value v, .const 1 | .const 1, .value v => some (dst, v)
      | _, _ => none
  | _ => none

def decodeMulByValue (inst : Instr) (factor : ValueId) : Option (ValueId × Operand) :=
  match inst with
  | .binOp dst .mul lhs rhs flags =>
    if !flags.isEmpty then none
    else if lhs = .value factor then some (dst, rhs)
    else if rhs = .value factor then some (dst, lhs)
    else none
  | _ => none

def decodeAddPair (inst : Instr) (a b : ValueId) : Option ValueId :=
  match inst with
  | .binOp dst .add (.value x) (.value y) flags =>
    if !flags.isEmpty then none
    else if (x = a ∧ y = b) ∨ (x = b ∧ y = a) then some dst
    else none
  | _ => none

-- The lowering of a select, as four consecutive instructions:
--   condBool = !condIsZero, thenDst = ifTrue * condBool, elseDst = ifFalse * condIsZero,
--   sumDst = thenDst + elseDst
structure SelectMul where
  condBool : ValueId
  condIsZero : ValueId
  thenDst : ValueId
  ifTrue : Operand
  elseDst : ValueId
  ifFalse : Operand
  sumDst : ValueId

def matchSelectMul (uses : ValueId → Nat) (boolValues : Finset ValueId)
    (i₀ i₁ i₂ i₃ : Instr) : Option SelectMul := do
  let (condBool, condIsZero) ← decodeBoolNot i₀
  if condIsZero ∉ boolValues then none
  if uses condBool ≠ 1 then none
  let (thenDst, ifTrue) ← decodeMulByValue i₁ condBool
  let (elseDst, ifFalse) ← decodeMulByValue i₂ condIsZero
  if uses thenDst ≠ 1 ∨ uses elseDst ≠ 1 then none
  let sumDst ← decodeAddPair i₃ thenDst elseDst
  return { condBool, condIsZero, thenDst, ifTrue, elseDst, ifFalse, sumDst }

-- The instructions to which it is rewritten, which mask the difference of the two values.
def SelectMul.masked (w : SelectMul) : List Instr :=
  [ pureOp w.condBool .sub (.const 0) (.value w.condIsZero),
    pureOp w.thenDst .sub w.ifFalse w.ifTrue,
    pureOp w.elseDst .and (.value w.thenDst) (.value w.condBool),
    pureOp w.sumDst .add w.ifTrue (.value w.elseDst) ]

def reduceSelectMulPattern (uses : ValueId → Nat) (boolValues : Finset ValueId) :
    List Instr → List Instr × Bool
  | i₀ :: i₁ :: i₂ :: i₃ :: is =>
    match matchSelectMul uses boolValues i₀ i₁ i₂ i₃ with
    | some w => (w.masked ++ (reduceSelectMulPattern uses boolValues is).1, true)
    | none =>
      let (is', changed) := reduceSelectMulPattern uses boolValues (i₁ :: i₂ :: i₃ :: is)
      (i₀ :: is', changed)
  | is => (is, false)

def isBoolInst (boolValues : Finset ValueId) : Instr → Bool
  | .const _ value => value == 0 || value == 1
  | .loadFlag _ _ => true
  | .binOp _ op lhs rhs _ =>
    match op with
    | .eq | .ltU => true
    | .and | .or | .xor => isBoolOperand lhs boolValues && isBoolOperand rhs boolValues
    | _ => false
  | _ => false

def addBoolValue (boolValues : Finset ValueId) (inst : Instr) : Finset ValueId :=
  match inst.dst with
  | none     => boolValues
  | some dst => if isBoolInst boolValues inst then insert dst boolValues else boolValues

def computeBoolValues (t : TraceIr) : Finset ValueId :=
  t.instrs.foldl addBoolValue ∅

structure ScaledDef where
  inner : Operand
  scale : U8

structure AndDef where
  base : Operand
  mask : U64

structure Facts where
  addrDefs : AssocMap ValueId AddrDef := .empty
  scaledDefs : AssocMap ValueId ScaledDef := .empty
  andDefs : AssocMap ValueId AndDef := .empty
  changed : Bool := false

def forget (f : Facts) (inst : Instr) : Facts :=
  match inst with
  | .addr dst _ _ _ _ =>
    { f with scaledDefs := f.scaledDefs.remove dst, andDefs := f.andDefs.remove dst }
  | _ =>
    match inst.dst with
    | none => f
    | some dst =>
      { f with
        scaledDefs := f.scaledDefs.remove dst
        andDefs := f.andDefs.remove dst
        addrDefs := f.addrDefs.remove dst }

def splitConst (lhs rhs : Operand) : Option (Operand × U64) :=
  BooleanSimplify.eqConst lhs rhs

def isPowerOfTwo (c : U64) : Bool :=
  (List.range 64).countP c.getLsbD == 1

def trailingZeros (c : U64) : Nat :=
  ((List.range 64).find? c.getLsbD).getD 64

def keep (f : Facts) (inst : Instr) : Straight.Rewritten Instr Facts :=
  { out := [inst], facts := f }

def noteScaled (f : Facts) (dst : ValueId) (x : Operand) (sh : Nat) : Facts :=
  if sh ≤ 3 then
    { f with scaledDefs := f.scaledDefs.insert dst { inner := x, scale := 1#8 <<< sh } }
  else
    f

def reduceMul (f : Facts) (boolValues : Finset ValueId) (dst : ValueId) (lhs rhs : Operand)
    (flags : FlagSet) : Straight.Rewritten Instr Facts :=
  if isBoolOperand lhs boolValues && isBoolOperand rhs boolValues then
    { out := [.binOp dst .and lhs rhs flags], facts := { f with changed := true } }
  else
    match splitConst lhs rhs with
    | none => keep f (.binOp dst .mul lhs rhs flags)
    | some (x, c) =>
      if isPowerOfTwo c then
        let sh := trailingZeros c
        { out := [.binOp dst .shl x (.const (BitVec.ofNat 64 sh)) flags]
          facts := { noteScaled f dst x sh with changed := true } }
      else
        keep f (.binOp dst .mul lhs rhs flags)

def mergeMask (f : Facts) (x : Operand) (mask : U64) : Operand × U64 :=
  match x with
  | .const _ => (x, mask)
  | .value v =>
    match f.andDefs.get v with
    | some inner => (inner.base, inner.mask &&& mask)
    | none       => (x, mask)

def reduceAnd (f : Facts) (dst : ValueId) (lhs rhs : Operand) (flags : FlagSet) :
    Straight.Rewritten Instr Facts :=
  match splitConst lhs rhs with
  | none => keep f (.binOp dst .and lhs rhs flags)
  | some (x, mask) =>
    let (base, newMask) := mergeMask f x mask
    if newMask = 0 then { out := [.const dst 0], facts := { f with changed := true } }
    else
      let f' := { f with andDefs := f.andDefs.insert dst { base, mask := newMask } }
      if base ≠ x ∨ newMask ≠ mask then
        { out := [.binOp dst .and base (.const newMask) flags], facts := { f' with changed := true } }
      else
        keep f' (.binOp dst .and lhs rhs flags)

def toAddr (f : Facts) (dst : ValueId) (a : AddrDef) : Straight.Rewritten Instr Facts :=
  { out := [.addr dst a.base a.index a.scale a.disp]
    facts := { f with addrDefs := f.addrDefs.insert dst a, changed := true } }

-- `x + c` as an address, where `x` can be an address or a scaled value itself.
def addConst (f : Facts) (x : Operand) (c : U64) : AddrDef :=
  let plain : AddrDef := { base := x, index := .const 0, scale := 1, disp := c }
  match x with
  | .const _ => plain
  | .value v =>
    match f.addrDefs.get v with
    | some a => { a with disp := a.disp + c }
    | none =>
      match f.scaledDefs.get v with
      | some d => { base := .const 0, index := d.inner, scale := d.scale, disp := c }
      | none   => plain

def scaledOf (f : Facts) (op : Operand) : Option ScaledDef :=
  op.asValue.bind f.scaledDefs.get

def reduceAdd (f : Facts) (dst : ValueId) (lhs rhs : Operand) (flags : FlagSet) :
    Straight.Rewritten Instr Facts :=
  match splitConst lhs rhs with
  | some (x, c) => toAddr f dst (addConst f x c)
  | none =>
    match scaledOf f lhs with
    | some d => toAddr f dst { base := rhs, index := d.inner, scale := d.scale, disp := 0 }
    | none =>
      match scaledOf f rhs with
      | some d => toAddr f dst { base := lhs, index := d.inner, scale := d.scale, disp := 0 }
      | none   => keep f (.binOp dst .add lhs rhs flags)

def reduceInst (boolValues : Finset ValueId) (f : Facts) (inst : Instr) :
    Straight.Rewritten Instr Facts :=
  match inst with
  | .addr dst base index scale disp =>
    keep { f with addrDefs := f.addrDefs.insert dst { base, index, scale, disp } } inst
  | .binOp dst op lhs rhs flags =>
    if !flags.isEmpty then keep f inst
    else
      match op, rhs with
      | .mul, _ => reduceMul f boolValues dst lhs rhs flags
      | .shl, .const k => keep (noteScaled f dst lhs (k &&& 63).toNat) inst
      | .and, _ => reduceAnd f dst lhs rhs flags
      | .add, _ => reduceAdd f dst lhs rhs flags
      -- `x - c` is `x + (-c)` in wrapping arithmetic.
      | .sub, .const c => toAddr f dst (addConst f lhs (-c))
      | _, _ => keep f inst
  | _ => keep f inst

def step (boolValues : Finset ValueId) (f : Facts) (inst : Instr) :
    Straight.Rewritten Instr Facts :=
  reduceInst boolValues (forget f inst) inst

def run (t : TraceIr) : TraceIr × Bool :=
  let boolValuesPre := computeBoolValues t
  let uses := useCount t
  let (prologue, c₁) := reduceSelectMulPattern uses boolValuesPre t.prologue
  let (body, c₂) := reduceSelectMulPattern uses boolValuesPre t.body
  let t := { t with prologue, body }
  let boolValues := computeBoolValues t
  let p := Straight.rewrite (step boolValues) (fun f _ => f) { changed := c₁ || c₂ } t.prologue
  let b := Straight.rewrite (step boolValues) (fun f _ => f) p.facts t.body
  ({ t with prologue := p.out, body := b.out }, b.facts.changed)

end Aero.Tier2.StrengthReduction
