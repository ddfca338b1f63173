import Aero.Lib.AssocMap
import Aero.Lib.Straight
import Aero.Tier2.Ir

namespace Aero.Tier2.AddrSimplify

structure AddrDef where
  base : Operand
  index : Operand
  scale : U8
  disp : U64
  deriving DecidableEq

structure Facts where
  consts : AssocMap ValueId U64 := .empty
  addrDefs : AssocMap ValueId AddrDef := .empty
  changed : Bool := false

def resolveConst (op : Operand) (consts : AssocMap ValueId U64) : Operand :=
  match op with
  | .value v => (consts.get v).elim op .const
  | .const _ => op

def dropZeroScale (a : AddrDef) : AddrDef :=
  if a.scale = 0 then { a with scale := 1, index := .const 0 } else a

def foldBase (addrDefs : AssocMap ValueId AddrDef) (a : AddrDef) : AddrDef × Bool :=
  match a.base with
  | .const _ => (a, false)
  | .value v =>
    match addrDefs.get v with
    | none => (a, false)
    | some inner =>
      if inner.index = .const 0 ∨ inner.scale = 0 then
        ({ a with base := inner.base, disp := a.disp + inner.disp }, true)
      else
        (a, false)

def foldConstIndex (a : AddrDef) : AddrDef × Bool :=
  match a.index with
  | .value _ => (a, false)
  | .const idx =>
    ({ a with disp := idx * a.scale.setWidth 64 + a.disp, index := .const 0, scale := 1 }, true)

def foldConstBase (a : AddrDef) : AddrDef × Bool :=
  match a.base with
  | .value _ => (a, false)
  | .const b => ({ a with disp := b + a.disp, base := .const 0 }, true)

def simplifyAddr (f : Facts) (a : AddrDef) : AddrDef × Bool :=
  let a₀ := dropZeroScale
    { a with base := resolveConst a.base f.consts, index := resolveConst a.index f.consts }
  let (a₁, c₁) := foldBase f.addrDefs a₀
  let (a₂, c₂) := foldConstIndex a₁
  let (a₃, c₃) := foldConstBase a₂
  (a₃, c₁ || c₂ || c₃)

def step (f : Facts) (inst : Instr) : Straight.Rewritten Instr Facts :=
  match inst with
  | .const dst value => { out := [inst], facts := { f with consts := f.consts.insert dst value } }
  | .binOp dst op lhs rhs flags =>
    if flags.isEmpty then
      let lhs' := resolveConst lhs f.consts
      let rhs' := resolveConst rhs f.consts
      match lhs', rhs' with
      | .const a, .const b =>
        let res := (evalBinop op a b).1
        { out := [.const dst res]
          facts := { f with consts := f.consts.insert dst res, changed := true } }
      | _, _ =>
        { out := [.binOp dst op lhs' rhs' flags]
          facts := { f with changed := f.changed || lhs' != lhs || rhs' != rhs } }
    else
      { out := [inst], facts := f }
  | .addr dst base index scale disp =>
    let a : AddrDef := { base, index, scale, disp }
    let (a', folded) := simplifyAddr f a
    match a'.base, a'.index with
    | .const b, .const i =>
      let value := evalAddr b i a'.scale a'.disp
      { out := [.const dst value]
        facts := { consts := f.consts.insert dst value
                   addrDefs := f.addrDefs.remove dst
                   changed := true } }
    | _, _ =>
      { out := [.addr dst a'.base a'.index a'.scale a'.disp]
        facts := { f with addrDefs := f.addrDefs.insert dst a'
                          changed := f.changed || folded || a' != a } }
  | _ => { out := [inst], facts := f }

def run (t : TraceIr) : TraceIr × Bool :=
  let p := Straight.rewrite step (fun f _ => f) {} t.prologue
  let b := Straight.rewrite step (fun f _ => f) p.facts t.body
  ({ t with prologue := p.out, body := b.out }, b.facts.changed)

end Aero.Tier2.AddrSimplify
