import Aero.Tier2.Opt.Passes.AddrSimplify

namespace Aero.Tier2

-- Follows the replacements from an operand. The loop of the source has no bound; on a map without
-- cycles it visits each key at most once, so that the size of the map bounds its iterations.
def followRepl (repl : AssocMap ValueId Operand) : Nat → Operand → Operand
  | 0,        op => op
  | fuel + 1, op =>
    match op with
    | .const _ => op
    | .value v =>
      match repl.get v with
      | some rep => followRepl repl fuel rep
      | none     => op

def resolveRepl (repl : AssocMap ValueId Operand) (op : Operand) : Operand :=
  followRepl repl (repl.size + 1) op

namespace ConstFold

structure Facts where
  repl : AssocMap ValueId Operand := .empty
  consts : AssocMap ValueId U64 := .empty
  changed : Bool := false

def resolveOperand (f : Facts) (op : Operand) : Operand :=
  AddrSimplify.resolveConst (resolveRepl f.repl op) f.consts

def algebraicSimplify (op : BinOp) (lhs rhs : Operand) : Option Operand :=
  match op with
  | .add =>
    if rhs = .const 0 then some lhs
    else if lhs = .const 0 then some rhs
    else none
  | .sub =>
    if rhs = .const 0 then some lhs
    else if lhs = rhs then some (.const 0)
    else none
  | .mul =>
    if rhs = .const 0 ∨ lhs = .const 0 then some (.const 0)
    else if rhs = .const 1 then some lhs
    else if lhs = .const 1 then some rhs
    else none
  | .and =>
    if rhs = .const 0 ∨ lhs = .const 0 then some (.const 0)
    else if rhs = .const .max then some lhs
    else if lhs = .const .max then some rhs
    else if lhs = rhs then some lhs
    else none
  | .or =>
    if rhs = .const 0 then some lhs
    else if lhs = .const 0 then some rhs
    else if lhs = rhs then some lhs
    else none
  | .xor =>
    if rhs = .const 0 then some lhs
    else if lhs = .const 0 then some rhs
    else if lhs = rhs then some (.const 0)
    else none
  | .shl | .shr | .sar =>
    if lhs = .const 0 then some (.const 0)
    else if rhs = .const 0 then some lhs
    else none
  | .eq  => if lhs = rhs then some (.const 1) else none
  | .ltU => if lhs = rhs then some (.const 0) else none

def constRight (op : BinOp) (lhs rhs : Operand) : Operand × Operand :=
  if op.isCommutative then
    match lhs, rhs with
    | .const _, .value _ => (rhs, lhs)
    | _, _               => (lhs, rhs)
  else
    (lhs, rhs)

def foldInst (f : Facts) (inst : Instr) : Straight.Rewritten Instr Facts :=
  match inst with
  | .nop => { out := [], facts := { f with changed := true } }
  | .const dst value => { out := [inst], facts := { f with consts := f.consts.insert dst value } }
  | .loadReg _ _ | .loadFlag _ _ | .guardCodeVersion _ _ _ => { out := [inst], facts := f }
  | .loadMem dst addr width =>
    let addr' := resolveOperand f addr
    { out := [.loadMem dst addr' width]
      facts := { f with changed := f.changed || addr' != addr } }
  | .setFlags mask _ =>
    if mask.isEmpty then { out := [], facts := { f with changed := true } }
    else { out := [inst], facts := f }
  | .storeReg reg src =>
    let src' := resolveOperand f src
    { out := [.storeReg reg src'], facts := { f with changed := f.changed || src' != src } }
  | .storeMem addr src width =>
    let addr' := resolveOperand f addr
    let src' := resolveOperand f src
    { out := [.storeMem addr' src' width]
      facts := { f with changed := f.changed || addr' != addr || src' != src } }
  | .addr dst base index scale disp =>
    let base' := resolveOperand f base
    let index' := resolveOperand f index
    match base', index' with
    | .const b, .const i =>
      let value := evalAddr b i scale disp
      { out := [.const dst value]
        facts := { f with consts := f.consts.insert dst value, changed := true } }
    | _, _ =>
      { out := [.addr dst base' index' scale disp]
        facts := { f with changed := f.changed || base' != base || index' != index } }
  | .binOp dst op lhs rhs flags =>
    let (lhs', rhs') := constRight op (resolveOperand f lhs) (resolveOperand f rhs)
    match (if flags.isEmpty then algebraicSimplify op lhs' rhs' else none) with
    | some replacement =>
      { out := [], facts := { f with repl := f.repl.insert dst replacement, changed := true } }
    | none =>
      match lhs', rhs' with
      | .const a, .const b =>
        let (res, computedFlags) := evalBinop op a b
        { out := .const dst res :: (if flags.isEmpty then [] else [.setFlags flags computedFlags])
          facts := { f with consts := f.consts.insert dst res, changed := true } }
      | _, _ =>
        { out := [.binOp dst op lhs' rhs' flags]
          facts := { f with changed := f.changed || lhs' != lhs || rhs' != rhs } }
  | .guard cond expected exitRip =>
    match resolveOperand f cond with
    | .const c =>
      if (c != 0) == expected then { out := [], facts := { f with changed := true } }
      else { out := [.sideExit exitRip], facts := { f with changed := true }, stop := true }
    | cond' =>
      { out := [.guard cond' expected exitRip]
        facts := { f with changed := f.changed || cond' != cond } }
  | .sideExit _ => { out := [inst], facts := f, stop := true }

-- Dropping instructions behind a side exit is a change.
def cut (f : Facts) (rest : List Instr) : Facts :=
  { f with changed := f.changed || !rest.isEmpty }

def run (t : TraceIr) : TraceIr × Bool :=
  let p := Straight.rewrite foldInst cut {} t.prologue
  if p.stop then ({ prologue := p.out, body := [], kind := .linear }, true)
  else
    let b := Straight.rewrite foldInst cut p.facts t.body
    if b.facts.changed then ({ t with prologue := p.out, body := b.out }, true)
    else (t, false)

end ConstFold

end Aero.Tier2
