import Aero.Tier2.Opt.Passes.AddrSimplify

namespace Aero.Tier2

def useCount (t : TraceIr) (v : ValueId) : Nat :=
  (t.instrs.flatMap Instr.uses).count v

def isBoolOperand (op : Operand) (boolValues : Finset ValueId) : Bool :=
  match op with
  | .const c => c == 0 || c == 1
  | .value v => v ∈ boolValues

namespace BooleanSimplify

open AddrSimplify (resolveConst)

def eqConst (lhs rhs : Operand) : Option (Operand × U64) :=
  match lhs, rhs with
  | .const c, other => some (other, c)
  | other, .const c => some (other, c)
  | _, _            => none

def eqZeroOther (lhs rhs : Operand) : Option Operand :=
  match eqConst lhs rhs with
  | some (other, c) => if c = 0 then some other else none
  | none            => none

structure Facts where
  consts : AssocMap ValueId U64 := .empty
  boolValues : Finset ValueId := ∅
  -- `eqZero v = x` when `v` is `x == 0`.
  eqZero : AssocMap ValueId Operand := .empty
  -- `ltuZero v = x` when `v` is `0 < x`.
  ltuZero : AssocMap ValueId Operand := .empty
  -- `notBool v = b` when `v` is the negation of the boolean `b`.
  notBool : AssocMap ValueId Operand := .empty
  changed : Bool := false

-- Looks through a comparison with zero or a negation.
def lookThrough (f : Facts) (cond : Operand) (expected : Bool) : Operand × Bool :=
  match cond with
  | .const _ => (cond, expected)
  | .value v =>
    match f.eqZero.get v with
    | some x => (x, !expected)
    | none =>
      match f.ltuZero.get v with
      | some x => (x, expected)
      | none =>
        match f.notBool.get v with
        | some x => (x, !expected)
        | none   => (cond, expected)

def simplifyGuard (f : Facts) (cond : Operand) (expected : Bool) (exitRip : U64) : Instr :=
  let (cond', expected') := lookThrough f (resolveConst cond f.consts) expected
  match resolveConst cond' f.consts with
  | .const c => if (c != 0) == expected' then .nop else .sideExit exitRip
  | cond'    => .guard cond' expected' exitRip

def pureOp (dst : ValueId) (op : BinOp) (lhs rhs : Operand) : Instr :=
  .binOp dst op lhs rhs .empty

def simplifyEqEqZero (f : Facts) (uses : ValueId → Nat) (dst : ValueId) (lhs rhs : Operand) :
    Option Instr :=
  match eqZeroOther lhs rhs with
  | some (.value inner) =>
    match f.eqZero.get inner with
    | some x =>
      if isBoolOperand x f.boolValues then some (pureOp dst .xor x (.const 0))
      else if 1 < uses inner then some (pureOp dst .xor (.value inner) (.const 1))
      else some (pureOp dst .ltU (.const 0) x)
    | none =>
      match f.notBool.get inner with
      | some x => some (pureOp dst .xor x (.const 0))
      | none   => none
  | _ => none

def simplifyEqLtU (f : Facts) (dst : ValueId) (other : Operand) (old : Instr) : Instr :=
  match other with
  | .const _ => old
  | .value inner =>
    match f.ltuZero.get inner with
    | some x => pureOp dst .eq x (.const 0)
    | none   => old

def simplifyEqZero (f : Facts) (dst : ValueId) (lhs rhs : Operand) : Option Instr :=
  match eqZeroOther lhs rhs with
  | none => none
  | some other =>
    let old := pureOp dst .eq lhs rhs
    let new := simplifyEqLtU f dst other old
    if new = old && isBoolOperand other f.boolValues then some (pureOp dst .xor other (.const 1))
    else some new

def simplifyEqOne (f : Facts) (dst : ValueId) (lhs rhs : Operand) : Option Instr :=
  match eqConst lhs rhs with
  | some (other, c) =>
    if c = 1 && isBoolOperand other f.boolValues then some (pureOp dst .xor other (.const 0))
    else none
  | none => none

-- Each rewriting is tried only while the instruction is still the old one.
def orElse (old new : Instr) (next : Option Instr) : Instr :=
  if new = old then next.getD old else new

def simplifyEq (f : Facts) (uses : ValueId → Nat) (dst : ValueId) (lhs rhs : Operand) : Instr :=
  let old := pureOp dst .eq lhs rhs
  let new := (simplifyEqEqZero f uses dst lhs rhs).getD old
  let new := orElse old new (simplifyEqZero f dst lhs rhs)
  orElse old new (simplifyEqOne f dst lhs rhs)

def simplifyXor (f : Facts) (dst : ValueId) (lhs rhs : Operand) : Instr :=
  let old := pureOp dst .xor lhs rhs
  match eqConst lhs rhs with
  | some (.value inner, c) =>
    match f.notBool.get inner with
    | some x =>
      if c = 1 && isBoolOperand x f.boolValues then pureOp dst .xor x (.const 0) else old
    | none => old
  | _ => old

def simplifyLtU (f : Facts) (dst : ValueId) (lhs rhs : Operand) : Instr :=
  if lhs = .const 0 && isBoolOperand rhs f.boolValues then pureOp dst .xor rhs (.const 0)
  else if rhs = .const 1 && isBoolOperand lhs f.boolValues then pureOp dst .xor lhs (.const 1)
  else pureOp dst .ltU lhs rhs

def simplify (f : Facts) (uses : ValueId → Nat) (inst : Instr) : Instr :=
  match inst with
  | .guard cond expected exitRip => simplifyGuard f cond expected exitRip
  | .binOp dst op lhs rhs flags =>
    if flags.isEmpty then
      match op with
      | .eq  => simplifyEq f uses dst lhs rhs
      | .xor => simplifyXor f dst lhs rhs
      | .ltU => simplifyLtU f dst lhs rhs
      | _    => inst
    else
      inst
  | _ => inst

def learnBool (f : Facts) (dst : ValueId) (op : BinOp) (lhs rhs : Operand) : Facts :=
  if op = .eq || op = .ltU ||
      ((op = .and || op = .or || op = .xor) &&
        isBoolOperand lhs f.boolValues && isBoolOperand rhs f.boolValues) then
    { f with boolValues := insert dst f.boolValues }
  else
    f

def learnCompare (f : Facts) (dst : ValueId) (op : BinOp) (lhs rhs : Operand) : Facts :=
  match op with
  | .eq =>
    match eqZeroOther lhs rhs with
    | some other =>
      let f := { f with eqZero := f.eqZero.insert dst other }
      if isBoolOperand other f.boolValues then { f with notBool := f.notBool.insert dst other }
      else f
    | none => f
  | .ltU => if lhs = .const 0 then { f with ltuZero := f.ltuZero.insert dst rhs } else f
  | .xor =>
    match eqConst lhs rhs with
    | some (other, c) =>
      if c = 1 && isBoolOperand other f.boolValues then
        { f with notBool := f.notBool.insert dst other }
      else
        f
    | none => f
  | _ => f

def learn (f : Facts) (inst : Instr) : Facts :=
  match inst with
  | .const dst value =>
    { f with
      consts := f.consts.insert dst value
      boolValues := if value = 0 ∨ value = 1 then insert dst f.boolValues else f.boolValues }
  | .loadFlag dst _ => { f with boolValues := insert dst f.boolValues }
  | .binOp dst op lhs rhs flags =>
    let f := learnBool f dst op lhs rhs
    if flags.isEmpty then learnCompare f dst op lhs rhs else f
  | _ => f

def step (uses : ValueId → Nat) (f : Facts) (inst : Instr) : Straight.Rewritten Instr Facts :=
  let inst' := simplify f uses inst
  { out := [inst'], facts := learn { f with changed := f.changed || inst' != inst } inst' }

def run (t : TraceIr) : TraceIr × Bool :=
  let p := Straight.rewrite (step (useCount t)) (fun f _ => f) {} t.prologue
  let b := Straight.rewrite (step (useCount t)) (fun f _ => f) p.facts t.body
  ({ t with prologue := p.out, body := b.out }, b.facts.changed)

end BooleanSimplify

end Aero.Tier2
