import Aero.Tier2.Opt.Passes.BooleanSimplify
import Aero.Tier2.Opt.Theorems.AddrSimplify

namespace Aero.Tier2

open Tier2.Core AddrSimplify Finset

def IsBool (x : U64) : Prop :=
  x = 0#64 ∨ x = 1#64

theorem isBool_boolToU64 (b : Bool) : IsBool (boolToU64 b) := by
  cases b
  · exact .inl rfl
  · exact .inr rfl

@[simp]
theorem boolToU64_beq_zero (b : Bool) : (boolToU64 b == 0#64) = !b := by
  cases b <;> rfl

@[simp]
theorem boolToU64_bne_zero (b : Bool) : (boolToU64 b != 0#64) = b := by
  cases b <;> rfl

@[simp]
theorem boolToU64_xor_one (b : Bool) : boolToU64 b ^^^ 1#64 = boolToU64 !b := by
  cases b <;> rfl

@[simp]
theorem zero_ult (x : U64) : (0#64).ult x = (x != 0#64) := by
  by_cases h : x = 0#64
  case pos => simp [h]
  case neg =>
    have := Nat.pos_of_ne_zero fun h' => h (BitVec.eq_of_toNat_eq h')
    simp [BitVec.ult, h, this]

namespace IsBool

theorem not_beq_zero (h : IsBool x) : boolToU64 (!(x == 0#64)) = x := by
  rcases h with rfl | rfl <;> rfl

theorem xor_one (h : IsBool x) : x ^^^ 1#64 = boolToU64 (x == 0#64) := by
  rcases h with rfl | rfl <;> rfl

theorem beq_one (h : IsBool x) : boolToU64 (x == 1#64) = x := by
  rcases h with rfl | rfl <;> rfl

theorem ult_one (h : IsBool x) : x.ult 1#64 = (x == 0#64) := by
  rcases h with rfl | rfl <;> rfl

section

variable (hx : IsBool x) (hy : IsBool y)
include hx hy

theorem and : IsBool (x &&& y) := by
  rcases hx with rfl | rfl <;> rcases hy with rfl | rfl <;> simp [IsBool]

theorem or : IsBool (x ||| y) := by
  rcases hx with rfl | rfl <;> rcases hy with rfl | rfl <;> simp [IsBool]

theorem xor : IsBool (x ^^^ y) := by
  rcases hx with rfl | rfl <;> rcases hy with rfl | rfl <;> simp [IsBool]

theorem mul_eq_and : x * y = x &&& y := by
  rcases hx with rfl | rfl <;> rcases hy with rfl | rfl <;> rfl

end

end IsBool

section BoolOperand

variable {c : Core β}

theorem isBoolOperand_eval (h : ∀ v ∈ boolValues, IsBool (c.values v))
    (ho : isBoolOperand op boolValues = true) : IsBool (c.evalOperand op) := by
  cases op
  case const k => simpa [isBoolOperand, IsBool] using ho
  case value v => exact h v (by simpa [isBoolOperand] using ho)

theorem isBool_evalBinop (h : ∀ v ∈ boolValues, IsBool (c.values v))
    (ho : (op = .eq ∨ op = .ltU) ∨ ((op = .and ∨ op = .or) ∨ op = .xor) ∧
      isBoolOperand lhs boolValues = true ∧ isBoolOperand rhs boolValues = true) :
    IsBool (evalBinop op (c.evalOperand lhs) (c.evalOperand rhs)).1 := by
  rcases ho with (rfl | rfl) | ⟨(rfl | rfl) | rfl, hl, hr⟩
  · exact isBool_boolToU64 _
  · exact isBool_boolToU64 _
  · exact (isBoolOperand_eval h hl).and (isBoolOperand_eval h hr)
  · exact (isBoolOperand_eval h hl).or (isBoolOperand_eval h hr)
  · exact (isBoolOperand_eval h hl).xor (isBoolOperand_eval h hr)

end BoolOperand

namespace BooleanSimplify

variable {β : Type} {bus : Tier1Bus β} {d : Finset ValueId} {c e : Core β} {f : Facts}

structure Facts.Scoped (d : Finset ValueId) (f : Facts) : Prop where
  consts : f.consts.All fun v _ => v ∈ d
  boolValues : f.boolValues ⊆ d
  eqZero : f.eqZero.All fun v x => v ∈ d ∧ x.InScope d
  ltuZero : f.ltuZero.All fun v x => v ∈ d ∧ x.InScope d
  notBool : f.notBool.All fun v x => v ∈ d ∧ x.InScope d

structure Facts.Sound (f : Facts) (c : Core β) : Prop where
  consts : f.consts.All fun v k => c.values v = k
  boolValues : ∀ v ∈ f.boolValues, IsBool (c.values v)
  eqZero : f.eqZero.All fun v x => c.values v = boolToU64 (c.evalOperand x == 0#64)
  ltuZero : f.ltuZero.All fun v x => c.values v = boolToU64 (c.evalOperand x != 0#64)
  notBool : f.notBool.All fun v x =>
    IsBool (c.evalOperand x) ∧ c.values v = boolToU64 (c.evalOperand x == 0#64)

theorem Facts.Scoped.mono (h : f.Scoped d) (hd : d ⊆ d') : f.Scoped d' where
  consts := h.consts.mono fun _ _ hv => hd hv
  boolValues := h.boolValues.trans hd
  eqZero := h.eqZero.mono fun _ _ ⟨hv, hx⟩ => ⟨hd hv, hx.mono hd⟩
  ltuZero := h.ltuZero.mono fun _ _ ⟨hv, hx⟩ => ⟨hd hv, hx.mono hd⟩
  notBool := h.notBool.mono fun _ _ ⟨hv, hx⟩ => ⟨hd hv, hx.mono hd⟩

theorem Facts.Sound.frame (hf : f.Scoped d) (h : f.Sound c)
    (he : ∀ v ∈ d, e.values v = c.values v) : f.Sound e where
  consts := h.consts.mono' hf.consts fun v _ hd hk => (he v hd).trans hk
  boolValues v hv := he v (hf.boolValues hv) ▸ h.boolValues v hv
  eqZero := h.eqZero.mono' hf.eqZero fun v _ ⟨hd, hx⟩ hk => by
    rwa [he v hd, evalOperand_of_inScope hx he]
  ltuZero := h.ltuZero.mono' hf.ltuZero fun v _ ⟨hd, hx⟩ hk => by
    rwa [he v hd, evalOperand_of_inScope hx he]
  notBool := h.notBool.mono' hf.notBool fun v _ ⟨hd, hx⟩ hk => by
    rwa [he v hd, evalOperand_of_inScope hx he]

section Simplify

theorem eqConst_cases (h : eqConst lhs rhs = some (x, k)) :
    (lhs = .const k ∧ rhs = x) ∨ (lhs = x ∧ rhs = .const k) := by
  unfold eqConst at h
  split at h <;> simp_all

theorem eqConst_inScope (hl : lhs.InScope d) (hr : rhs.InScope d)
    (h : eqConst lhs rhs = some (x, k)) : x.InScope d := by
  rcases eqConst_cases h with ⟨-, rfl⟩ | ⟨rfl, -⟩
  · exact hr
  · exact hl

theorem eqConst_beq (h : eqConst lhs rhs = some (x, k)) :
    (c.evalOperand lhs == c.evalOperand rhs) = (c.evalOperand x == k) := by
  rcases eqConst_cases h with ⟨rfl, rfl⟩ | ⟨rfl, rfl⟩
  · exact Bool.beq_comm
  · rfl

theorem eqConst_xor (h : eqConst lhs rhs = some (x, k)) :
    c.evalOperand lhs ^^^ c.evalOperand rhs = c.evalOperand x ^^^ k := by
  rcases eqConst_cases h with ⟨rfl, rfl⟩ | ⟨rfl, rfl⟩
  · exact BitVec.xor_comm _ _
  · rfl

theorem eqConst_of_eqZeroOther (h : eqZeroOther lhs rhs = some x) :
    eqConst lhs rhs = some (x, 0#64) := by
  unfold eqZeroOther at h
  split at h
  case h_1 other k hk =>
    split at h
    case isTrue h₀ => cases h; rw [hk, h₀]; rfl
    case isFalse => cases h
  case h_2 => cases h

variable {dst : ValueId} {op : BinOp} {lhs rhs : Operand} {j : Instr}

def Computes (f : Facts) (dst : ValueId) (op : BinOp) (lhs rhs : Operand) (j : Instr) : Prop :=
  ∃ op' l r, j = pureOp dst op' l r ∧
    (∀ d, f.Scoped d → lhs.InScope d → rhs.InScope d → l.InScope d ∧ r.InScope d) ∧
    ∀ {β : Type} (c : Core β), f.Sound c → (evalBinop op' (c.evalOperand l) (c.evalOperand r)).1 =
      (evalBinop op (c.evalOperand lhs) (c.evalOperand rhs)).1

theorem Computes.exec (h : Computes f dst op lhs rhs j) (hc : f.Sound c) :
    exec bus j c = exec bus (pureOp dst op lhs rhs) c := by
  obtain ⟨op', l, r, rfl, _, hv⟩ := h
  simp [exec, pureOp, hv c hc]

theorem Computes.operands (h : Computes f dst op lhs rhs j) (hf : f.Scoped d) (hl : lhs.InScope d)
    (hr : rhs.InScope d) : ∀ o ∈ j.operands, o.InScope d := by
  obtain ⟨op', l, r, rfl, hs, _⟩ := h
  simp [pureOp, Instr.operands, hs d hf hl hr]

theorem pureOp_pure (dst : ValueId) (op : BinOp) (lhs rhs : Operand) :
    (pureOp dst op lhs rhs).Pure dst :=
  .binOp _ _ _ _ rfl

theorem Computes.pure (h : Computes f dst op lhs rhs j) : j.Pure dst := by
  obtain ⟨op', l, r, rfl, _⟩ := h
  exact pureOp_pure ..

theorem Computes.refl : Computes f dst op lhs rhs (pureOp dst op lhs rhs) :=
  ⟨_, _, _, rfl, fun _ _ hl hr => ⟨hl, hr⟩, fun _ _ => rfl⟩

theorem computes_orElse (ho : Computes f dst op lhs rhs old) (hn : Computes f dst op lhs rhs new)
    (hx : ∀ j, next = some j → Computes f dst op lhs rhs j) :
    Computes f dst op lhs rhs (orElse old new next) := by
  unfold orElse
  split
  · cases h : next
    case none => exact ho
    case some j => exact hx j h
  · exact hn

theorem simplifyEqEqZero_computes (h : simplifyEqEqZero f uses dst lhs rhs = some j) :
    Computes f dst .eq lhs rhs j := by
  unfold simplifyEqEqZero at h
  split at h
  case h_2 => cases h
  case h_1 inner ho =>
    have ho := eqConst_of_eqZeroOther ho
    split at h
    case h_1 x hx =>
      split at h
      case isTrue hb =>
        cases h
        refine ⟨_, _, _, rfl, fun _ hf _ _ => ⟨(hf.eqZero _ _ hx).2, .const 0⟩, fun c hc => ?_⟩
        have := (isBoolOperand_eval hc.boolValues hb).not_beq_zero
        simp [evalBinop, eqConst_beq ho, hc.eqZero _ _ hx, this]
      case isFalse =>
        split at h
        case isTrue =>
          cases h
          refine ⟨_, _, _, rfl, fun _ _ hl hr => ⟨eqConst_inScope hl hr ho, .const 1⟩,
            fun c hc => ?_⟩
          simp [evalBinop, eqConst_beq ho, hc.eqZero _ _ hx]
        case isFalse =>
          cases h
          refine ⟨_, _, _, rfl, fun _ hf _ _ => ⟨.const 0, (hf.eqZero _ _ hx).2⟩, fun c hc => ?_⟩
          simp [evalBinop, eqConst_beq ho, hc.eqZero _ _ hx, bne]
    case h_2 =>
      split at h
      case h_2 => cases h
      case h_1 x hx =>
        cases h
        refine ⟨_, _, _, rfl, fun _ hf _ _ => ⟨(hf.notBool _ _ hx).2, .const 0⟩, fun c hc => ?_⟩
        have ⟨hb, hv⟩ := hc.notBool _ _ hx
        simp [evalBinop, eqConst_beq ho, hv, hb.not_beq_zero]

theorem simplifyEqLtU_computes (ho : eqConst lhs rhs = some (other, 0#64)) :
    Computes f dst .eq lhs rhs (simplifyEqLtU f dst other (pureOp dst .eq lhs rhs)) := by
  unfold simplifyEqLtU
  split
  · exact .refl
  split
  case h_1 x hx =>
    refine ⟨_, _, _, rfl, fun _ hf _ _ => ⟨(hf.ltuZero _ _ hx).2, .const 0⟩, fun c hc => ?_⟩
    simp [evalBinop, eqConst_beq ho, hc.ltuZero _ _ hx, bne]
  case h_2 => exact .refl

theorem simplifyEqZero_computes (h : simplifyEqZero f dst lhs rhs = some j) :
    Computes f dst .eq lhs rhs j := by
  unfold simplifyEqZero at h
  split at h
  case h_1 => cases h
  case h_2 other ho =>
    have ho := eqConst_of_eqZeroOther ho
    have hnew : Computes f dst .eq lhs rhs _ := simplifyEqLtU_computes ho
    dsimp only at h
    split_ifs at h with hb
    · cases h
      refine ⟨_, _, _, rfl, fun _ _ hl hr => ⟨eqConst_inScope hl hr ho, .const 1⟩, fun c hc => ?_⟩
      simp only [Bool.and_eq_true] at hb
      have := (isBoolOperand_eval hc.boolValues hb.2).xor_one
      simp [evalBinop, eqConst_beq ho, this]
    · exact Option.some_inj.mp h ▸ hnew

theorem simplifyEqOne_computes (h : simplifyEqOne f dst lhs rhs = some j) :
    Computes f dst .eq lhs rhs j := by
  unfold simplifyEqOne at h
  split at h
  case h_2 => cases h
  case h_1 other k ho =>
    split at h
    case isFalse => cases h
    case isTrue hb =>
      cases h
      simp only [Bool.and_eq_true, decide_eq_true_eq] at hb
      obtain ⟨rfl, hb⟩ := hb
      refine ⟨_, _, _, rfl, fun _ _ hl hr => ⟨eqConst_inScope hl hr ho, .const 0⟩, fun c hc => ?_⟩
      have := (isBoolOperand_eval hc.boolValues hb).beq_one
      simp [evalBinop, eqConst_beq ho, this]

theorem simplifyEq_computes (f : Facts) (uses : ValueId → Nat) (dst : ValueId)
    (lhs rhs : Operand) : Computes f dst .eq lhs rhs (simplifyEq f uses dst lhs rhs) := by
  refine computes_orElse .refl (computes_orElse .refl ?_ fun _ => simplifyEqZero_computes)
    fun _ => simplifyEqOne_computes
  cases h : simplifyEqEqZero f uses dst lhs rhs
  case none => exact .refl
  case some j => exact simplifyEqEqZero_computes h

theorem simplifyXor_computes (f : Facts) (dst : ValueId) (lhs rhs : Operand) :
    Computes f dst .xor lhs rhs (simplifyXor f dst lhs rhs) := by
  unfold simplifyXor
  split
  case h_2 => exact .refl
  case h_1 inner k ho =>
    split
    case h_2 => exact .refl
    case h_1 x hx =>
      split
      case isFalse => exact .refl
      case isTrue hb =>
        simp only [Bool.and_eq_true, decide_eq_true_eq] at hb
        obtain ⟨rfl, hb⟩ := hb
        refine ⟨_, _, _, rfl, fun _ hf _ _ => ⟨(hf.notBool _ _ hx).2, .const 0⟩, fun c hc => ?_⟩
        have ⟨hb, hv⟩ := hc.notBool _ _ hx
        simp [evalBinop, eqConst_xor ho, hv, hb.not_beq_zero]

theorem simplifyLtU_computes (f : Facts) (dst : ValueId) (lhs rhs : Operand) :
    Computes f dst .ltU lhs rhs (simplifyLtU f dst lhs rhs) := by
  unfold simplifyLtU
  split
  case isTrue hb =>
    simp only [Bool.and_eq_true, decide_eq_true_eq] at hb
    obtain ⟨rfl, hb⟩ := hb
    refine ⟨_, _, _, rfl, fun _ _ _ hr => ⟨hr, .const 0⟩, fun c hc => ?_⟩
    have := (isBoolOperand_eval hc.boolValues hb).not_beq_zero
    simp [evalBinop, bne, this]
  case isFalse =>
    split
    case isTrue hb =>
      simp only [Bool.and_eq_true, decide_eq_true_eq] at hb
      obtain ⟨rfl, hb⟩ := hb
      refine ⟨_, _, _, rfl, fun _ _ hl _ => ⟨hl, .const 1⟩, fun c hc => ?_⟩
      have hb := isBoolOperand_eval hc.boolValues hb
      simp [evalBinop, hb.ult_one, hb.xor_one]
    case isFalse => exact .refl

theorem lookThrough_inScope (hf : f.Scoped d) {cond : Operand} (h : cond.InScope d)
    (expected : Bool) : (lookThrough f cond expected).1.InScope d := by
  unfold lookThrough
  split
  · exact h
  split
  case h_1 hx => exact (hf.eqZero _ _ hx).2
  case h_2 =>
    split
    case h_1 hx => exact (hf.ltuZero _ _ hx).2
    case h_2 =>
      split
      case h_1 hx => exact (hf.notBool _ _ hx).2
      case h_2 => exact h

theorem lookThrough_eval (hc : f.Sound c) (cond : Operand) (expected : Bool) :
    ((c.evalOperand (lookThrough f cond expected).1 != 0#64) != (lookThrough f cond expected).2) =
      ((c.evalOperand cond != 0#64) != expected) := by
  unfold lookThrough
  split
  · rfl
  split
  case h_1 hx => cases expected <;> simp [hc.eqZero _ _ hx, bne]
  case h_2 =>
    split
    case h_1 hx => simp [hc.ltuZero _ _ hx]
    case h_2 =>
      split
      case h_1 hx => cases expected <;> simp [(hc.notBool _ _ hx).2, bne]
      case h_2 => rfl

theorem simplifyGuard_operands (hf : f.Scoped d) {cond : Operand} (h : cond.InScope d)
    (expected : Bool) (exitRip : U64) :
    ∀ op ∈ (simplifyGuard f cond expected exitRip).operands, op.InScope d := by
  have hr := resolveConst_inScope
    (lookThrough_inScope hf (resolveConst_inScope h f.consts) expected) f.consts
  simp only [simplifyGuard]
  split
  · split <;> simp [Instr.operands]
  case h_2 => simpa [Instr.operands] using hr

theorem simplifyGuard_exec (hc : f.Sound c) (cond : Operand) (expected : Bool) (exitRip : U64) :
    exec bus (simplifyGuard f cond expected exitRip) c =
      exec bus (.guard cond expected exitRip) c := by
  have hv := lookThrough_eval hc (resolveConst cond f.consts) expected
  rw [← resolveConst_eval hc.consts (lookThrough f _ expected).1,
    resolveConst_eval hc.consts cond] at hv
  have hg : ∀ x b, exec bus (.guard x b exitRip) c =
      if (c.evalOperand x != 0#64) != b then (c.setRip exitRip, some (.sideExit exitRip))
      else (c, none) := fun _ _ => rfl
  simp only [simplifyGuard]
  split
  case h_1 k hk =>
    have hk : ((k != 0) == (lookThrough f (resolveConst cond f.consts) expected).2) =
        !((c.evalOperand cond != 0#64) != expected) := by
      rw [← hv, hk]
      exact (Bool.not_not _).symm
    rw [hk, hg]
    cases (c.evalOperand cond != 0#64) != expected <;> rfl
  case h_2 => rw [hg, hg, hv]

theorem simplifyGuard_keeps (f : Facts) (cond : Operand) (expected : Bool) (exitRip : U64) :
    (Instr.guard cond expected exitRip).Keeps (simplifyGuard f cond expected exitRip) := by
  simp only [simplifyGuard]
  split
  · split <;> exact ⟨⟨rfl, fun _ => rfl⟩, by simp [Instr.anchors]⟩
  · exact ⟨⟨rfl, fun _ => rfl⟩, by simp [Instr.anchors]⟩

theorem simplify_keeps (f : Facts) (uses : ValueId → Nat) (i : Instr) :
    i.Keeps (simplify f uses i) := by
  unfold simplify
  split
  case h_1 => exact simplifyGuard_keeps _ _ _ _
  case h_2 =>
    split
    case isTrue h =>
      split
      · exact .of_pure (.binOp _ _ _ _ h) (simplifyEq_computes ..).pure
      · exact .of_pure (.binOp _ _ _ _ h) (simplifyXor_computes ..).pure
      · exact .of_pure (.binOp _ _ _ _ h) (simplifyLtU_computes ..).pure
      · exact .refl _
    case isFalse => exact .refl _
  case h_3 => exact .refl _

theorem simplify_operands (hf : f.Scoped d) (hi : i.Scoped d) (uses : ValueId → Nat) :
    ∀ op ∈ (simplify f uses i).operands, op.InScope d := by
  unfold simplify
  split
  case h_1 => exact simplifyGuard_operands hf (hi.operand (by simp [Instr.operands])) _ _
  case h_2 dst op lhs rhs flags =>
    obtain ⟨hl, hr⟩ := hi.binOp
    split
    · split
      · exact (simplifyEq_computes ..).operands hf hl hr
      · exact (simplifyXor_computes ..).operands hf hl hr
      · exact (simplifyLtU_computes ..).operands hf hl hr
      · exact fun _ => hi.operand
    · exact fun _ => hi.operand
  case h_3 => exact fun _ => hi.operand

theorem simplify_exec (hc : f.Sound c) (uses : ValueId → Nat) (i : Instr) :
    exec bus (simplify f uses i) c = exec bus i c := by
  unfold simplify
  split
  case h_1 => exact simplifyGuard_exec hc _ _ _
  case h_2 dst op lhs rhs flags =>
    split
    case isTrue hfl =>
      cases FlagSet.eq_empty_of_isEmpty hfl
      split
      · exact (simplifyEq_computes ..).exec hc
      · exact (simplifyXor_computes ..).exec hc
      · exact (simplifyLtU_computes ..).exec hc
      · rfl
    case isFalse => rfl
  case h_3 => rfl

end Simplify

section Learn

theorem learnBool_scoped (op : BinOp) (lhs rhs : Operand) (hf : f.Scoped d) (hd : dst ∈ d) :
    (learnBool f dst op lhs rhs).Scoped d := by
  unfold learnBool
  split
  · exact { hf with boolValues := insert_subset hd hf.boolValues }
  · exact hf

theorem learnBool_sound (hc : f.Sound c)
    (hv : c.values dst = (evalBinop op (c.evalOperand lhs) (c.evalOperand rhs)).1) :
    (learnBool f dst op lhs rhs).Sound c := by
  unfold learnBool
  split
  case isTrue h =>
    simp only [Bool.or_eq_true, Bool.and_eq_true, decide_eq_true_eq, and_assoc] at h
    have hb := hv ▸ isBool_evalBinop hc.boolValues h
    refine { hc with boolValues := fun v hv => ?_ }
    rcases mem_insert.mp hv with rfl | hv
    · exact hb
    · exact hc.boolValues v hv
  case isFalse => exact hc

theorem learnCompare_scoped (hf : f.Scoped d) (hd : dst ∈ d) (hl : lhs.InScope d)
    (hr : rhs.InScope d) : (learnCompare f dst op lhs rhs).Scoped d := by
  unfold learnCompare
  split
  · split
    case h_1 other ho =>
      have hx := eqConst_inScope hl hr (eqConst_of_eqZeroOther ho)
      dsimp only
      split
      · exact { hf with eqZero := hf.eqZero.insert ⟨hd, hx⟩, notBool := hf.notBool.insert ⟨hd, hx⟩ }
      · exact { hf with eqZero := hf.eqZero.insert ⟨hd, hx⟩ }
    case h_2 => exact hf
  · split
    · exact { hf with ltuZero := hf.ltuZero.insert ⟨hd, hr⟩ }
    · exact hf
  · split
    case h_1 other k ho =>
      split
      · exact { hf with notBool := hf.notBool.insert ⟨hd, eqConst_inScope hl hr ho⟩ }
      · exact hf
    case h_2 => exact hf
  · exact hf

theorem learnCompare_sound (hc : f.Sound c)
    (hv : c.values dst = (evalBinop op (c.evalOperand lhs) (c.evalOperand rhs)).1) :
    (learnCompare f dst op lhs rhs).Sound c := by
  unfold learnCompare
  split
  · split
    case h_1 other ho =>
      have hx := hv.trans (congrArg boolToU64 (eqConst_beq (eqConst_of_eqZeroOther ho)))
      dsimp only
      split
      case isTrue hb =>
        have hb := isBoolOperand_eval hc.boolValues hb
        exact { hc with eqZero := hc.eqZero.insert hx, notBool := hc.notBool.insert ⟨hb, hx⟩ }
      case isFalse => exact { hc with eqZero := hc.eqZero.insert hx }
    case h_2 => exact hc
  · split
    case isTrue h =>
      have hx : c.values dst = boolToU64 (c.evalOperand rhs != 0#64) := by
        rw [hv, h, ← zero_ult]
        rfl
      exact { hc with ltuZero := hc.ltuZero.insert hx }
    case isFalse => exact hc
  · split
    case h_1 other k ho =>
      split
      case isTrue hb =>
        simp only [Bool.and_eq_true, decide_eq_true_eq] at hb
        obtain ⟨rfl, hb⟩ := hb
        have hb := isBoolOperand_eval hc.boolValues hb
        have hx := hv.trans ((eqConst_xor ho).trans hb.xor_one)
        exact { hc with notBool := hc.notBool.insert ⟨hb, hx⟩ }
      case isFalse => exact hc
    case h_2 => exact hc
  · exact hc

theorem learn_scoped (hf : f.Scoped d) (hj : ∀ op ∈ j.operands, op.InScope d) :
    (learn f j).Scoped (j.define d) := by
  have hf' := hf.mono (Instr.subset_define d j)
  have hj' : ∀ op ∈ j.operands, op.InScope (j.define d) :=
    fun op ho => (hj op ho).mono (Instr.subset_define d j)
  cases j
  case const dst value =>
    have hd : dst ∈ (Instr.const dst value).define d := Instr.mem_define_dst rfl
    simp only [learn]
    refine { hf' with consts := hf'.consts.insert hd, boolValues := ?_ }
    split
    · exact insert_subset hd hf'.boolValues
    · exact hf'.boolValues
  case loadFlag dst flag =>
    exact { hf' with boolValues := insert_subset (Instr.mem_define_dst rfl) hf'.boolValues }
  case binOp dst op lhs rhs flags =>
    have hd : dst ∈ (Instr.binOp dst op lhs rhs flags).define d := Instr.mem_define_dst rfl
    have hb := learnBool_scoped op lhs rhs hf' hd
    simp only [learn]
    split
    · exact learnCompare_scoped hb hd (hj' lhs (by simp [Instr.operands]))
        (hj' rhs (by simp [Instr.operands]))
    · exact hb
  all_goals exact hf'

theorem learn_sound (hf : f.Scoped d) (hj : j.Scoped d) (hc : f.Sound c)
    (he : exec bus j c = (e, none)) : (learn f j).Sound e := by
  have hd : ∀ v ∈ d, e.values v = c.values v := fun v hv => by
    rw [← exec_values_of_mem bus c hj hv, he]
  have hs := hc.frame hf hd
  cases j
  case const dst value =>
    have hv : e.values dst = value := by cases he; simp
    simp only [learn]
    refine { hs with consts := hs.consts.insert hv, boolValues := ?_ }
    split
    case isTrue hb =>
      intro v hv'
      rcases mem_insert.mp hv' with rfl | hv'
      · exact hv ▸ hb
      · exact hs.boolValues v hv'
    case isFalse => exact hs.boolValues
  case loadFlag dst flag =>
    refine { hs with boolValues := fun v hv => ?_ }
    rcases mem_insert.mp hv with rfl | hv
    · cases he
      simpa using isBool_boolToU64 _
    · exact hs.boolValues v hv
  case binOp dst op lhs rhs flags =>
    have hls : lhs.InScope d := hj.operand (by simp [Instr.operands])
    have hl := evalOperand_of_inScope hls hd
    have hrs : rhs.InScope d := hj.operand (by simp [Instr.operands])
    have hr := evalOperand_of_inScope hrs hd
    have hv : e.values dst = (evalBinop op (e.evalOperand lhs) (e.evalOperand rhs)).1 := by
      rw [hl, hr]
      cases he
      simp
    have hb := learnBool_sound hs hv
    simp only [learn]
    split
    · exact learnCompare_sound hb hv
    · exact hb
  all_goals exact hs

end Learn

variable (bus) in
theorem inPlace (uses : ValueId → Nat) :
    InPlace bus (step uses) (fun _ => True) Facts.Scoped Facts.Sound where
  out f i := ⟨simplify f uses i, rfl, simplify_keeps f uses i⟩
  replaces d f i hi _ hf := by
    refine List.forall_mem_singleton.mpr ?_
    have hd := (simplify_keeps f uses i).dst
    have hu := simplify_operands hf hi uses
    have hj : (simplify f uses i).Scoped d :=
      ⟨Instr.uses_mem_of_operands hu, fun v hv => hi.2 v (hd ▸ hv)⟩
    have hf' : Facts.Scoped d { f with changed := f.changed || simplify f uses i != i } :=
      { hf with }
    refine ⟨hu, ?_, fun c hc => simplify_exec hc uses i, fun c e hc he => ?_⟩
    · have : i.define d = (simplify f uses i).define d := by simp [Instr.define, hd]
      exact this ▸ learn_scoped hf' hu
    · have hc' : Facts.Sound { f with changed := f.changed || simplify f uses i != i } c :=
        { hc with }
      rw [← simplify_exec hc uses i] at he
      exact learn_sound hf' hj hc' he
  frame _ _ _ _ _ hf hc _ he := hc.frame hf he

theorem scoped_empty : Facts.Scoped ∅ {} :=
  ⟨.empty _, empty_subset _, .empty _, .empty _, .empty _⟩

theorem sound_empty (c : Core β) : Facts.Sound {} c :=
  ⟨.empty _, by simp, .empty _, .empty _, .empty _⟩

theorem run_agrees {t : TraceIr} (ht : t.WellScoped) : t.Agrees bus (run t).1 :=
  (inPlace bus _).agrees ht (fun _ _ => trivial) scoped_empty fun _ _ => sound_empty _

theorem run_wellScoped (ht : t.WellScoped) : (run t).1.WellScoped :=
  (inPlace (default : Tier1Bus Unit) _).wellScoped ht (fun _ _ => trivial) scoped_empty

end BooleanSimplify

end Aero.Tier2
