import Aero.Tier2.Opt.Passes.AddrSimplify
import Aero.Tier2.Theorems.Agrees

namespace Aero.Tier2.AddrSimplify

open Tier2.Core Instr AddrDef List

variable {β : Type} {bus : Tier1Bus β} {d : Finset ValueId} {c e : Core β}

def AddrDef.eval (c : Core β) (a : AddrDef) : U64 :=
  evalAddr (c.evalOperand a.base) (c.evalOperand a.index) a.scale a.disp

def AddrDef.InScope (d : Finset ValueId) (a : AddrDef) : Prop :=
  a.base.InScope d ∧ a.index.InScope d

theorem AddrDef.InScope.mono {a : AddrDef} (h : a.InScope d) (hd : d ⊆ d') : a.InScope d' :=
  ⟨h.1.mono hd, h.2.mono hd⟩

theorem AddrDef.eval_of_inScope {a : AddrDef} (h : a.InScope d)
    (he : ∀ v ∈ d, e.values v = c.values v) : a.eval e = a.eval c := by
  rw [eval, eval, evalOperand_of_inScope h.1 he, evalOperand_of_inScope h.2 he]

structure Facts.Scoped (d : Finset ValueId) (f : Facts) : Prop where
  consts : f.consts.All fun v _ => v ∈ d
  addrDefs : f.addrDefs.All fun v a => v ∈ d ∧ a.InScope d

structure Facts.Sound (f : Facts) (c : Core β) : Prop where
  consts : f.consts.All fun v k => c.values v = k
  addrDefs : f.addrDefs.All fun v a => c.values v = a.eval c

theorem Facts.Scoped.mono {f : Facts} (h : f.Scoped d) (hd : d ⊆ d') : f.Scoped d' where
  consts := h.consts.mono fun _ _ hv => hd hv
  addrDefs := h.addrDefs.mono fun _ _ ⟨hv, ha⟩ => ⟨hd hv, ha.mono hd⟩

theorem Facts.Sound.frame {f : Facts} (hf : f.Scoped d) (h : f.Sound c)
    (he : ∀ v ∈ d, e.values v = c.values v) : f.Sound e where
  consts := h.consts.mono' hf.consts fun v _ hd hk => (he v hd).trans hk
  addrDefs := h.addrDefs.mono' hf.addrDefs fun v _ ⟨hd, ha⟩ hk => by
    rwa [he v hd, eval_of_inScope ha he]

section Simplify

variable {f : Facts}

theorem resolveConst_inScope (h : op.InScope d) (consts : AssocMap ValueId U64) :
    (resolveConst op consts).InScope d := by
  cases op
  case const k => exact h
  case value v =>
    cases hv : consts.get v
    case none => simpa [resolveConst, hv] using h
    case some k => simpa [resolveConst, hv] using .const k

theorem resolveConst_eval (h : consts.All fun v k => c.values v = k) (op : Operand) :
    c.evalOperand (resolveConst op consts) = c.evalOperand op := by
  cases op
  case const k => rfl
  case value v =>
    cases hv : consts.get v
    case none => simp [resolveConst, hv]
    case some k => simp [resolveConst, hv, h v k hv]

theorem dropZeroScale_inScope (h : a.InScope d) : (dropZeroScale a).InScope d := by
  unfold dropZeroScale
  split
  · exact ⟨h.1, .const 0⟩
  · exact h

theorem dropZeroScale_eval (a : AddrDef) : (dropZeroScale a).eval c = a.eval c := by
  unfold dropZeroScale
  split
  case isTrue h => simp [eval, evalAddr, h]
  case isFalse => rfl

theorem foldBase_inScope (hf : f.Scoped d) (h : a.InScope d) :
    (foldBase f.addrDefs a).1.InScope d := by
  unfold foldBase
  split
  · exact h
  split
  · exact h
  split
  case isTrue hv _ => exact ⟨(hf.addrDefs _ _ hv).2.1, h.2⟩
  case isFalse => exact h

theorem foldBase_eval (hf : f.Sound c) (a : AddrDef) :
    (foldBase f.addrDefs a).1.eval c = a.eval c := by
  unfold foldBase
  split
  · rfl
  · case h_2 v hb =>
    split
    · rfl
    · case h_2 inner hv =>
      have hi := hf.addrDefs v inner hv
      split
      case isTrue hz =>
        have : c.values v = c.evalOperand inner.base + inner.disp := by
          rcases hz with hz | hz <;> simp [hi, eval, evalAddr, hz]
        simp only [eval, evalAddr, hb, evalOperand_value, this]
        ac_rfl
      case isFalse => rfl

theorem foldConstIndex_inScope (h : a.InScope d) : (foldConstIndex a).1.InScope d := by
  unfold foldConstIndex
  split
  · exact h
  · exact ⟨h.1, .const 0⟩

theorem foldConstIndex_eval (a : AddrDef) : (foldConstIndex a).1.eval c = a.eval c := by
  unfold foldConstIndex
  split
  · rfl
  · case h_2 idx hi =>
    have : c.evalOperand a.index = idx := by rw [hi]; rfl
    simp [eval, evalAddr, this]
    ac_rfl

theorem foldConstBase_inScope (h : a.InScope d) : (foldConstBase a).1.InScope d := by
  unfold foldConstBase
  split
  · exact h
  · exact ⟨.const 0, h.2⟩

theorem foldConstBase_eval (a : AddrDef) : (foldConstBase a).1.eval c = a.eval c := by
  unfold foldConstBase
  split
  · rfl
  · case h_2 b hb =>
    have : c.evalOperand a.base = b := by rw [hb]; rfl
    simp [eval, evalAddr, this]
    ac_rfl

theorem simplifyAddr_inScope (hf : f.Scoped d) (h : a.InScope d) : (simplifyAddr f a).1.InScope d :=
  foldConstBase_inScope <| foldConstIndex_inScope <| foldBase_inScope hf <| dropZeroScale_inScope
    ⟨resolveConst_inScope h.1 _, resolveConst_inScope h.2 _⟩

theorem simplifyAddr_eval (hf : f.Sound c) (a : AddrDef) :
    (simplifyAddr f a).1.eval c = a.eval c := by
  simp only [simplifyAddr, foldConstBase_eval, foldConstIndex_eval, foldBase_eval hf,
    dropZeroScale_eval]
  simp only [eval, resolveConst_eval hf.consts]

end Simplify

section Step

theorem step_out (f : Facts) (i : Instr) :
    ∃ j, step f i = { out := [j], facts := (step f i).facts } ∧ i.Keeps j := by
  unfold step
  split
  case h_1 => exact ⟨_, rfl, .refl _⟩
  case h_2 =>
    split
    case isTrue h =>
      dsimp only
      split
      · exact ⟨_, rfl, .of_pure (.binOp _ _ _ _ h) ⟨rfl, rfl⟩⟩
      · exact ⟨_, rfl, .binOp _ _ _ _ _ _ _ _⟩
    case isFalse => exact ⟨_, rfl, .refl _⟩
  case h_3 =>
    dsimp only
    split <;> exact ⟨_, rfl, .of_pure ⟨rfl, rfl⟩ ⟨rfl, rfl⟩⟩
  case h_4 => exact ⟨_, rfl, .refl _⟩

theorem step_replaces (hi : i.Scoped d) (hf : f.Scoped d) :
    ∀ j ∈ (step f i).out, Replaces bus Facts.Scoped Facts.Sound d f i j (step f i).facts := by
  have hf' := hf.mono (subset_define d i)
  have hs : ∀ c e : Core β, f.Sound c → exec bus i c = (e, none) → f.Sound e := by
    intro c e hc he
    refine hc.frame hf fun v hv => ?_
    rw [← exec_values_of_mem bus c hi hv, he]
  cases i
  case const dst value =>
    refine forall_mem_singleton.mpr ⟨fun _ => hi.operand, ?_, fun _ _ => rfl, ?_⟩
    · exact ⟨hf'.consts.insert (mem_define_dst rfl), hf'.addrDefs⟩
    · intro c e hc he
      have hk := (hs c e hc he).consts.insert (k := dst) (v := value) (by cases he; simp)
      exact ⟨hk, (hs c e hc he).addrDefs⟩
  case binOp dst op lhs rhs flags =>
    obtain ⟨hl, hr⟩ := hi.binOp
    by_cases hfl : flags.isEmpty
    case neg =>
      simp only [step, hfl]
      exact forall_mem_singleton.mpr ⟨fun _ => hi.operand, hf', fun _ _ => rfl, hs⟩
    case pos =>
      cases FlagSet.eq_empty_of_isEmpty hfl
      simp only [step, hfl, if_true]
      split
      case h_1 a b ha hb =>
        have hv : ∀ c : Core β, f.Sound c → c.evalOperand lhs = a ∧ c.evalOperand rhs = b :=
          fun c hc => ⟨by rw [← resolveConst_eval hc.consts lhs, ha]; rfl,
            by rw [← resolveConst_eval hc.consts rhs, hb]; rfl⟩
        refine forall_mem_singleton.mpr ⟨by simp [operands], ?_, ?_, ?_⟩
        · exact ⟨hf'.consts.insert (mem_define_dst rfl), hf'.addrDefs⟩
        · exact fun c hc => by simp [exec, hv c hc]
        · intro c e hc he
          have hk := (hs c e hc he).consts.insert (k := dst) (v := (evalBinop op a b).1)
            (by cases he; simp [hv c hc])
          exact ⟨hk, (hs c e hc he).addrDefs⟩
      case h_2 =>
        refine forall_mem_singleton.mpr ⟨?_, ⟨hf'.consts, hf'.addrDefs⟩, ?_, ?_⟩
        · simp [operands, resolveConst_inScope hl, resolveConst_inScope hr]
        · exact fun c hc => by simp [exec, resolveConst_eval hc.consts]
        · exact fun c e hc he => ⟨(hs c e hc he).consts, (hs c e hc he).addrDefs⟩
  case addr dst base index scale disp =>
    have ha : AddrDef.InScope d { base, index, scale, disp } := hi.addr
    have ha' := simplifyAddr_inScope hf ha
    have hv : ∀ c : Core β, f.Sound c → (simplifyAddr f { base, index, scale, disp }).1.eval c =
        evalAddr (c.evalOperand base) (c.evalOperand index) scale disp :=
      fun c hc => simplifyAddr_eval hc _
    simp only [step]
    generalize simplifyAddr f { base, index, scale, disp } = r at ha' hv
    split
    case h_1 b x hb hx =>
      have hv : ∀ c : Core β, f.Sound c → evalAddr b x r.1.scale r.1.disp =
          evalAddr (c.evalOperand base) (c.evalOperand index) scale disp := fun c hc => by
        rw [← hv c hc, eval, hb, hx]
        rfl
      refine forall_mem_singleton.mpr ⟨by simp [operands], ?_, ?_, ?_⟩
      · exact ⟨hf'.consts.insert (mem_define_dst rfl), hf'.addrDefs.remove dst⟩
      · exact fun c hc => by simp [exec, hv c hc]
      · intro c e hc he
        have hk := (hs c e hc he).consts.insert (k := dst) (v := evalAddr b x r.1.scale r.1.disp)
          (by cases he; simp [hv c hc])
        exact ⟨hk, (hs c e hc he).addrDefs.remove dst⟩
    case h_2 =>
      refine forall_mem_singleton.mpr ⟨?_, ?_, ?_, ?_⟩
      · simp [operands, ha'.1, ha'.2]
      · have ha' := ha'.mono (subset_define d (.addr dst base index scale disp))
        exact ⟨hf'.consts, hf'.addrDefs.insert ⟨mem_define_dst rfl, ha'⟩⟩
      · exact fun c hc => by simp [exec, ← hv c hc, eval]
      · intro c e hc he
        refine ⟨(hs c e hc he).consts, (hs c e hc he).addrDefs.insert ?_⟩
        have hd : ∀ v ∈ d, e.values v = c.values v := fun v hv => by
          rw [← exec_values_of_mem bus c hi hv, he]
        rw [eval_of_inScope ha' hd, hv c hc]
        cases he
        simp
  all_goals
    exact forall_mem_singleton.mpr ⟨fun _ => hi.operand, hf', fun _ _ => rfl, hs⟩

end Step

variable (bus) in
theorem inPlace : InPlace bus step (fun _ => True) Facts.Scoped Facts.Sound where
  out := step_out
  replaces _ _ _ hi _ hf := step_replaces hi hf
  frame _ _ _ _ _ hf hc _ he := hc.frame hf he

theorem scoped_empty : Facts.Scoped ∅ {} :=
  ⟨.empty _, .empty _⟩

theorem run_agrees {t : TraceIr} (ht : t.WellScoped) : t.Agrees bus (run t).1 :=
  (inPlace bus).agrees ht (fun _ _ => trivial) scoped_empty fun _ _ => ⟨.empty _, .empty _⟩

theorem run_wellScoped (ht : t.WellScoped) : (run t).1.WellScoped :=
  (inPlace (default : Tier1Bus Unit)).wellScoped ht (fun _ _ => trivial) scoped_empty

end Aero.Tier2.AddrSimplify
