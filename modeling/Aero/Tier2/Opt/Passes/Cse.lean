import Aero.Tier2.Opt.Passes.ConstFold

namespace Aero.Tier2.Cse

inductive ExprKey
  | const (value : U64)
  | bin (op : BinOp) (lhs rhs : Operand)
  | addr (base index : Operand) (scale : U8) (disp : U64)
  deriving DecidableEq

def operandKey : Operand → Nat × Nat
  | .value v => (0, v)
  | .const c => (1, c.toNat)

def operandGt (a b : Operand) : Bool :=
  let (ka, va) := operandKey a
  let (kb, vb) := operandKey b
  kb < ka || (kb == ka && vb < va)

structure Facts where
  repl : AssocMap ValueId Operand := .empty
  exprs : AssocMap ExprKey ValueId := .empty
  regState : Gpr → Option Operand := fun _ => none
  changed : Bool := false

def resolveOperand (f : Facts) (op : Operand) : Operand :=
  resolveRepl f.repl op

def shareExpr (f : Facts) (key : ExprKey) (dst : ValueId) (inst inst' : Instr) :
    Straight.Rewritten Instr Facts :=
  match f.exprs.get key with
  | some existing =>
    { out := [], facts := { f with repl := f.repl.insert dst (.value existing), changed := true } }
  | none =>
    { out := [inst']
      facts := { f with exprs := f.exprs.insert key dst, changed := f.changed || inst' != inst } }

def keep (f : Facts) (inst inst' : Instr) : Straight.Rewritten Instr Facts :=
  { out := [inst'], facts := { f with changed := f.changed || inst' != inst } }

def orderOperands (op : BinOp) (lhs rhs : Operand) : Operand × Operand :=
  if op.isCommutative && operandGt lhs rhs then (rhs, lhs) else (lhs, rhs)

def processInst (f : Facts) (inst : Instr) : Straight.Rewritten Instr Facts :=
  let resolve := resolveOperand f
  match inst with
  | .nop => { out := [], facts := { f with changed := true } }
  | .sideExit _ => { out := [inst], facts := f, stop := true }
  | .const dst value => shareExpr f (.const value) dst inst inst
  | .loadReg dst reg =>
    match f.regState reg with
    | some current =>
      { out := [], facts := { f with repl := f.repl.insert dst current, changed := true } }
    | none =>
      { out := [inst]
        facts := { f with regState := Function.update f.regState reg (some (.value dst)) } }
  | .storeReg reg src =>
    let r := keep f inst (.storeReg reg (resolve src))
    { r with
      facts.regState := Function.update r.facts.regState reg (some (resolve src)) }
  -- Memory operations are barriers for expressions.
  | .loadMem dst addr width =>
    let r := keep f inst (.loadMem dst (resolve addr) width)
    { r with facts.exprs := .empty }
  | .storeMem addr src width =>
    let r := keep f inst (.storeMem (resolve addr) (resolve src) width)
    { r with facts.exprs := .empty }
  | .loadFlag _ _ | .setFlags _ _ | .guardCodeVersion _ _ _ => { out := [inst], facts := f }
  | .binOp dst op lhs rhs flags =>
    let (lhs', rhs') := orderOperands op (resolve lhs) (resolve rhs)
    let inst' := .binOp dst op lhs' rhs' flags
    if !flags.isEmpty then keep f inst inst'
    else shareExpr f (.bin op lhs' rhs') dst inst inst'
  | .addr dst base index scale disp =>
    let base' := resolve base
    let index' := resolve index
    shareExpr f (.addr base' index' scale disp) dst inst (.addr dst base' index' scale disp)
  | .guard cond expected exitRip => keep f inst (.guard (resolve cond) expected exitRip)

-- What is known about registers at the head of a loop has to survive its body.
def enterBody (t : TraceIr) (f : Facts) : Facts :=
  if t.kind = .loop then
    { f with regState := fun reg => if t.bodyRegsWritten reg then none else f.regState reg }
  else
    f

def run (t : TraceIr) : TraceIr × Bool :=
  let p := Straight.rewrite processInst (fun f _ => f) {} t.prologue
  if p.stop then ({ prologue := p.out, body := [], kind := .linear }, true)
  else
    let b := Straight.rewrite processInst (fun f _ => f) (enterBody t p.facts) t.body
    let kind := if b.stop then .linear else t.kind
    if b.facts.changed then ({ prologue := p.out, body := b.out, kind }, true)
    else ({ t with kind }, false)

end Aero.Tier2.Cse
