import Aero.Tier2.Opt.Passes.StrengthReduction
import Aero.Tier2.Opt.Theorems.BooleanSimplify
import Aero.Tier2.Theorems.Flags

namespace Aero.Tier2.StrengthReduction

open Tier2.Core List BitVec Bool
open Instr (binOp mem_define_dst operands subset_define)

open AddrSimplify (AddrDef)
open BooleanSimplify (eqConst_cases eqConst_inScope)

variable {β : Type} {bus : Tier1Bus β} {d : Finset ValueId} {c e : Core β} {f : Facts}
variable {boolValues : Finset ValueId}

section Arithmetic

-- A power of two has exactly one bit set, and that is where its trailing zeros end.
theorem eq_shiftLeft_of_isPowerOfTwo (h : isPowerOfTwo k = true) :
    k = 1#64 <<< trailingZeros k ∧ trailingZeros k < 64 := by
  simp only [isPowerOfTwo, beq_iff_eq, countP_eq_length_filter] at h
  obtain ⟨n, hn⟩ := length_eq_one_iff.mp h
  have hm : ∀ i, i < 64 ∧ k.getLsbD i = true ↔ i = n := fun i => by
    have : i ∈ (range 64).filter k.getLsbD ↔ _ := mem_filter
    rw [hn, mem_singleton, mem_range] at this
    exact this.symm
  have ht : trailingZeros k = n := by
    rw [trailingZeros, ← head?_filter, hn]
    rfl
  have hlt : n < 64 := ((hm n).mpr rfl).1
  refine ⟨eq_of_getLsbD_eq fun i hi => ?_, ht ▸ hlt⟩
  rw [ht, getLsbD_one_shiftLeft hlt, Bool.eq_iff_iff, decide_eq_true_eq, ← hm i]
  simp [hi]

theorem mul_shiftLeft_one (x : U64) (n : Nat) : x * (1#64 <<< n) = x <<< n := by
  rw [shiftLeft_eq_mul_twoPow x, ← twoPow_eq]

theorem shiftLeft_eq_mul_scale (x : U64) {n : Nat} (h : n ≤ 3) :
    x <<< n = x * (1#8 <<< n).setWidth 64 := by
  rw [← mul_shiftLeft_one]
  obtain rfl | rfl | rfl | rfl : n = 0 ∨ n = 1 ∨ n = 2 ∨ n = 3 := by omega
  all_goals rfl

theorem toNat_and_63 (h : n < 64) : (BitVec.ofNat 64 n &&& 63#64).toNat = n := by
  have := Nat.and_two_pow_sub_one_eq_mod n 6
  rw [BitVec.toNat_and, BitVec.toNat_ofNat, Nat.mod_eq_of_lt (by omega)]
  simp [this, Nat.mod_eq_of_lt h]

end Arithmetic

structure Facts.Scoped (d : Finset ValueId) (f : Facts) : Prop where
  addrDefs : f.addrDefs.All fun v a => v ∈ d ∧ a.InScope d
  scaledDefs : f.scaledDefs.All fun v s => v ∈ d ∧ s.inner.InScope d
  andDefs : f.andDefs.All fun v a => v ∈ d ∧ a.base.InScope d

-- The values in `boolValues` are booleans in every state, also before they are defined.
structure Facts.Sound (boolValues : Finset ValueId) (f : Facts) (c : Core β) : Prop where
  addrDefs : f.addrDefs.All fun v a => c.values v = a.eval c
  scaledDefs : f.scaledDefs.All fun v s =>
    c.values v = c.evalOperand s.inner * s.scale.setWidth 64
  andDefs : f.andDefs.All fun v a => c.values v = c.evalOperand a.base &&& a.mask
  bools : ∀ v ∈ boolValues, IsBool (c.values v)

theorem Facts.Scoped.mono (h : f.Scoped d) (hd : d ⊆ d') : f.Scoped d' where
  addrDefs := h.addrDefs.mono fun _ _ ⟨hv, ha⟩ => ⟨hd hv, ha.mono hd⟩
  scaledDefs := h.scaledDefs.mono fun _ _ ⟨hv, ha⟩ => ⟨hd hv, ha.mono hd⟩
  andDefs := h.andDefs.mono fun _ _ ⟨hv, ha⟩ => ⟨hd hv, ha.mono hd⟩

theorem Facts.Sound.frame (hf : f.Scoped d) (h : f.Sound boolValues c)
    (he : ∀ v ∈ d, e.values v = c.values v) (hb : ∀ v ∈ boolValues, IsBool (e.values v)) :
    f.Sound boolValues e where
  addrDefs := h.addrDefs.mono' hf.addrDefs fun v _ ⟨hd, ha⟩ hk => by
    rwa [he v hd, AddrDef.eval_of_inScope ha he]
  scaledDefs := h.scaledDefs.mono' hf.scaledDefs fun v _ ⟨hd, ha⟩ hk => by
    rwa [he v hd, evalOperand_of_inScope ha he]
  andDefs := h.andDefs.mono' hf.andDefs fun v _ ⟨hd, ha⟩ hk => by
    rwa [he v hd, evalOperand_of_inScope ha he]
  bools := hb

theorem forget_scoped (hf : f.Scoped d) (i : Instr) : (forget f i).Scoped d := by
  unfold forget
  split
  · exact ⟨hf.addrDefs, hf.scaledDefs.remove _, hf.andDefs.remove _⟩
  split
  · exact hf
  · exact ⟨hf.addrDefs.remove _, hf.scaledDefs.remove _, hf.andDefs.remove _⟩

theorem forget_sound (hc : f.Sound boolValues c) (i : Instr) : (forget f i).Sound boolValues c := by
  unfold forget
  split
  · exact ⟨hc.addrDefs, hc.scaledDefs.remove _, hc.andDefs.remove _, hc.bools⟩
  split
  · exact hc
  · exact ⟨hc.addrDefs.remove _, hc.scaledDefs.remove _, hc.andDefs.remove _, hc.bools⟩

def Justified (boolValues : Finset ValueId) (i : Instr) : Prop :=
  ∀ v, i.dst = some v → v ∈ boolValues → isBoolInst boolValues i = true

theorem Justified.exec (hi : Justified boolValues i) (hc : ∀ v ∈ boolValues, IsBool (c.values v)) :
    ∀ v ∈ boolValues, IsBool ((exec bus i c).1.values v) := by
  intro v hv
  by_cases hd : i.dst = some v
  case neg => exact exec_values bus c hd ▸ hc v hv
  case pos =>
    have hb := hi v hd hv
    cases i
    case const dst value =>
      cases hd
      simpa [Core.exec, isBoolInst, IsBool] using hb
    case loadFlag dst flag =>
      cases hd
      simpa [Core.exec] using isBool_boolToU64 _
    case binOp dst op lhs rhs flags =>
      cases hd
      have : IsBool (evalBinop op (c.evalOperand lhs) (c.evalOperand rhs)).1 := by
        apply isBool_evalBinop hc
        cases op <;> simp_all [isBoolInst]
      simpa [Core.exec] using this
    all_goals cases hb

section Step

variable {i j : Instr}

abbrev Ok (bus : Tier1Bus β) (boolValues d : Finset ValueId) (f : Facts) (i : Instr)
    (r : Straight.Rewritten Instr Facts) : Prop :=
  ∀ j ∈ r.out, Replaces bus Facts.Scoped (Facts.Sound boolValues) d f i j r.facts

theorem values_of_exec (hi : i.Scoped d) (he : exec bus i c = (e, none)) :
    ∀ v ∈ d, e.values v = c.values v := fun v hv => by
  rw [← exec_values_of_mem bus c hi hv, he]

theorem sound_of_exec (hi : i.Scoped d) (hj : Justified boolValues i) (hf : f.Scoped d)
    (hc : f.Sound boolValues c) (he : exec bus i c = (e, none)) : f.Sound boolValues e := by
  refine hc.frame hf (values_of_exec hi he) ?_
  intro v hv
  have : IsBool ((exec bus i c).1.values v) := hj.exec hc.bools v hv
  rwa [he] at this

theorem ok_keep (hi : i.Scoped d) (hj : Justified boolValues i) (hf : f.Scoped d) :
    Ok bus boolValues d f i (keep f i) :=
  forall_mem_singleton.mpr ⟨fun _ => hi.operand, hf.mono (subset_define d i),
    fun _ _ => rfl, fun _ _ => sound_of_exec hi hj hf⟩

theorem ok_pure (hi : i.Scoped d) (hj : Justified boolValues i) (hf : f.Scoped d)
    (hops : ∀ op ∈ j.operands, op.InScope d)
    (he : ∀ c, f.Sound boolValues c → exec bus j c = exec bus i c) (b : Bool) :
    Ok bus boolValues d f i { out := [j], facts := { f with changed := b } } := by
  have hf' := hf.mono (subset_define d i)
  refine forall_mem_singleton.mpr ⟨hops, { hf' with }, he, fun c e hc hx => ?_⟩
  exact { sound_of_exec hi hj hf hc hx with }

theorem ok_toAddr (hi : i.Scoped d) (hj : Justified boolValues i) (hf : f.Scoped d)
    (hd : i.dst = some dst) (ha : a.InScope d)
    (he : ∀ c, f.Sound boolValues c → exec bus i c = (c.setValue dst (a.eval c), none))
    (b : Bool) :
    Ok bus boolValues d f i {
      out := [.addr dst a.base a.index a.scale a.disp]
      facts := { f with addrDefs := f.addrDefs.insert dst a, changed := b } } := by
  have hf' := hf.mono (subset_define d i)
  have hmem : dst ∈ i.define d := mem_define_dst hd
  refine forall_mem_singleton.mpr ⟨by simp [operands, ha.1, ha.2], ?_,
    fun c hc => (he c hc).symm, fun c e hc hx => ?_⟩
  · exact { hf' with
      addrDefs := hf'.addrDefs.insert ⟨hmem, ha.mono (subset_define d i)⟩ }
  · have hs := sound_of_exec hi hj hf hc hx
    refine { hs with addrDefs := hs.addrDefs.insert ?_ }
    rw [AddrDef.eval_of_inScope ha (values_of_exec hi hx)]
    rw [he c hc] at hx
    cases hx
    simp

theorem noteScaled_scoped (hf : f.Scoped d) (hd : dst ∈ d) (hx : x.InScope d) (sh : Nat) :
    (noteScaled f dst x sh).Scoped d := by
  unfold noteScaled
  split
  · exact { hf with scaledDefs := hf.scaledDefs.insert ⟨hd, hx⟩ }
  · exact hf

theorem noteScaled_sound (hc : f.Sound boolValues c) {sh : Nat}
    (hv : c.values dst = c.evalOperand x <<< sh) : (noteScaled f dst x sh).Sound boolValues c := by
  unfold noteScaled
  split
  case isTrue h =>
    exact { hc with
      scaledDefs := hc.scaledDefs.insert (hv.trans (shiftLeft_eq_mul_scale _ h)) }
  case isFalse => exact hc

theorem ok_shl (hi : i.Scoped d) (hj : Justified boolValues i) (hf : f.Scoped d)
    (hd : i.dst = some dst) (hx : x.InScope d) {sh : Nat} (hops : ∀ op ∈ j.operands, op.InScope d)
    (hv : ∀ c, f.Sound boolValues c →
      exec bus i c = (c.setValue dst (c.evalOperand x <<< sh), none))
    (he : ∀ c, f.Sound boolValues c → exec bus j c = exec bus i c) (b : Bool) :
    Ok bus boolValues d f i
      { out := [j], facts := { noteScaled f dst x sh with changed := b } } := by
  have hf' := noteScaled_scoped (hf.mono (subset_define d i)) (mem_define_dst hd)
    (hx.mono (subset_define d i)) sh
  refine forall_mem_singleton.mpr ⟨hops, { hf' with }, he, fun c e hc hex => ?_⟩
  have hs : (noteScaled f dst x sh).Sound boolValues e := by
    refine noteScaled_sound (sound_of_exec hi hj hf hc hex) ?_
    rw [evalOperand_of_inScope hx (values_of_exec hi hex)]
    rw [hv c hc] at hex
    cases hex
    simp
  exact { hs with }

theorem reduceMul_ok (hi : (binOp dst .mul lhs rhs .empty).Scoped d)
    (hj : Justified boolValues (.binOp dst .mul lhs rhs .empty)) (hf : f.Scoped d) :
    Ok bus boolValues d f (.binOp dst .mul lhs rhs .empty)
      (reduceMul f boolValues dst lhs rhs .empty) := by
  obtain ⟨hl, hr⟩ := hi.binOp
  unfold reduceMul
  split
  case isTrue h =>
    rw [Bool.and_eq_true] at h
    refine ok_pure hi hj hf (by simp [operands, hl, hr]) (fun c hc => ?_) _
    have := (isBoolOperand_eval hc.bools h.1).mul_eq_and (isBoolOperand_eval hc.bools h.2)
    simp [exec, evalBinop, this]
  case isFalse =>
    split
    case h_1 => exact ok_keep hi hj hf
    case h_2 x k hk =>
      split
      case isFalse => exact ok_keep hi hj hf
      case isTrue h =>
        obtain ⟨hk', hlt⟩ := eq_shiftLeft_of_isPowerOfTwo h
        have hx := eqConst_inScope hl hr hk
        have hv : ∀ c : Core β, c.evalOperand lhs * c.evalOperand rhs =
            c.evalOperand x <<< trailingZeros k := fun c => by
          rw [← mul_shiftLeft_one, ← hk']
          rcases eqConst_cases hk with ⟨rfl, rfl⟩ | ⟨rfl, rfl⟩
          · exact mul_comm _ _
          · rfl
        refine ok_shl hi hj hf rfl hx (by simp [operands, hx, Operand.InScope.const])
          (fun c _ => by simp [exec, evalBinop, hv]) (fun c _ => ?_) _
        simp [exec, evalBinop, hv, toNat_and_63 hlt]

theorem mergeMask_inScope (hf : f.Scoped d) (hx : x.InScope d) (mask : U64) :
    (mergeMask f x mask).1.InScope d := by
  unfold mergeMask
  split
  · exact hx
  split
  case h_1 ha => exact (hf.andDefs _ _ ha).2
  case h_2 => exact hx

theorem mergeMask_eval (hc : f.Sound boolValues c) (x : Operand) (mask : U64) :
    c.evalOperand (mergeMask f x mask).1 &&& (mergeMask f x mask).2 = c.evalOperand x &&& mask := by
  unfold mergeMask
  split
  · rfl
  split
  case h_1 ha =>
    rw [evalOperand_value, hc.andDefs _ _ ha]
    exact (BitVec.and_assoc _ _ _).symm
  case h_2 => rfl

theorem ok_and (hi : i.Scoped d) (hj : Justified boolValues i) (hf : f.Scoped d)
    (hd : i.dst = some dst) (ha : a.base.InScope d) (hops : ∀ op ∈ j.operands, op.InScope d)
    (hv : ∀ c, f.Sound boolValues c →
      exec bus i c = (c.setValue dst (c.evalOperand a.base &&& a.mask), none))
    (he : ∀ c, f.Sound boolValues c → exec bus j c = exec bus i c) (b : Bool) :
    Ok bus boolValues d f i
      { out := [j], facts := { f with andDefs := f.andDefs.insert dst a, changed := b } } := by
  have hf' := hf.mono (subset_define d i)
  have hmem : dst ∈ i.define d := mem_define_dst hd
  refine forall_mem_singleton.mpr ⟨hops, ?_, he, fun c e hc hex => ?_⟩
  · exact { hf' with andDefs := hf'.andDefs.insert ⟨hmem, ha.mono (subset_define d i)⟩ }
  · have hs := sound_of_exec hi hj hf hc hex
    refine { hs with andDefs := hs.andDefs.insert ?_ }
    rw [evalOperand_of_inScope ha (values_of_exec hi hex)]
    rw [hv c hc] at hex
    cases hex
    simp

theorem reduceAnd_ok (hi : (binOp dst .and lhs rhs .empty).Scoped d)
    (hj : Justified boolValues (.binOp dst .and lhs rhs .empty)) (hf : f.Scoped d) :
    Ok bus boolValues d f (.binOp dst .and lhs rhs .empty) (reduceAnd f dst lhs rhs .empty) := by
  obtain ⟨hl, hr⟩ := hi.binOp
  unfold reduceAnd
  split
  case h_1 => exact ok_keep hi hj hf
  case h_2 x mask hk =>
    have hb := mergeMask_inScope hf (eqConst_inScope hl hr hk) mask
    have hv : ∀ c : Core β, f.Sound boolValues c → c.evalOperand lhs &&& c.evalOperand rhs =
        c.evalOperand (mergeMask f x mask).1 &&& (mergeMask f x mask).2 := fun c hc => by
      rw [mergeMask_eval hc]
      rcases eqConst_cases hk with ⟨rfl, rfl⟩ | ⟨rfl, rfl⟩
      · exact and_comm _ _
      · rfl
    generalize mergeMask f x mask = m at hb hv
    obtain ⟨base, newMask⟩ := m
    dsimp only at hb hv ⊢
    have hex : ∀ c : Core β, f.Sound boolValues c →
        exec bus (.binOp dst .and lhs rhs .empty) c =
          (c.setValue dst (c.evalOperand base &&& newMask), none) :=
      fun c hc => by simp [exec, evalBinop, hv c hc]
    split
    case isTrue h =>
      subst h
      refine ok_pure hi hj hf (by simp [operands]) (fun c hc => ?_) _
      rw [hex c hc]
      simp [exec]
    case isFalse =>
      split
      · refine ok_and hi hj hf rfl hb (by simp [operands, hb, Operand.InScope.const]) hex
          (fun c hc => ?_) _
        rw [hex c hc]
        simp [exec, evalBinop]
      · exact ok_and hi hj hf rfl hb (fun _ => hi.operand) hex (fun _ _ => rfl) _

theorem addConst_inScope (hf : f.Scoped d) (hx : x.InScope d) (k : U64) :
    (addConst f x k).InScope d := by
  unfold addConst
  split
  · exact ⟨hx, .const 0⟩
  split
  case h_1 ha => exact (hf.addrDefs _ _ ha).2
  case h_2 =>
    split
    case h_1 hs => exact ⟨.const 0, (hf.scaledDefs _ _ hs).2⟩
    case h_2 => exact ⟨hx, .const 0⟩

theorem addConst_eval (hc : f.Sound boolValues c) (x : Operand) (k : U64) :
    (addConst f x k).eval c = c.evalOperand x + k := by
  unfold addConst
  split
  · simp [AddrDef.eval, evalAddr]
  split
  case h_1 ha =>
    rw [evalOperand_value, hc.addrDefs _ _ ha]
    simp only [AddrDef.eval, evalAddr]
    ac_rfl
  case h_2 =>
    split
    case h_1 hs =>
      rw [evalOperand_value, hc.scaledDefs _ _ hs]
      simp [AddrDef.eval, evalAddr]
    case h_2 => simp [AddrDef.eval, evalAddr]

theorem scaledOf_inScope (hf : f.Scoped d) (h : scaledOf f op = some s) : s.inner.InScope d := by
  cases op
  case const => cases h
  case value v => exact (hf.scaledDefs v s h).2

theorem scaledOf_eval (hc : f.Sound boolValues c) (h : scaledOf f op = some s) :
    c.evalOperand op = c.evalOperand s.inner * s.scale.setWidth 64 := by
  cases op
  case const => cases h
  case value v => exact hc.scaledDefs v s h

theorem reduceAdd_ok (hi : (binOp dst .add lhs rhs .empty).Scoped d)
    (hj : Justified boolValues (.binOp dst .add lhs rhs .empty)) (hf : f.Scoped d) :
    Ok bus boolValues d f (.binOp dst .add lhs rhs .empty) (reduceAdd f dst lhs rhs .empty) := by
  obtain ⟨hl, hr⟩ := hi.binOp
  unfold reduceAdd
  split
  case h_1 x k hk =>
    refine ok_toAddr hi hj hf rfl (addConst_inScope hf (eqConst_inScope hl hr hk) k)
      (fun c hc => ?_) _
    have : c.evalOperand lhs + c.evalOperand rhs = c.evalOperand x + k := by
      rcases eqConst_cases hk with ⟨rfl, rfl⟩ | ⟨rfl, rfl⟩
      · exact add_comm _ _
      · rfl
    simp [exec, evalBinop, addConst_eval hc, this]
  case h_2 =>
    split
    case h_1 s hs =>
      refine ok_toAddr hi hj hf rfl ⟨hr, scaledOf_inScope hf hs⟩ (fun c hc => ?_) _
      simp [exec, evalBinop, AddrDef.eval, evalAddr, ← scaledOf_eval hc hs, add_comm]
    case h_2 =>
      split
      case h_1 s hs =>
        refine ok_toAddr hi hj hf rfl ⟨hl, scaledOf_inScope hf hs⟩ (fun c hc => ?_) _
        simp [exec, evalBinop, AddrDef.eval, evalAddr, ← scaledOf_eval hc hs]
      case h_2 => exact ok_keep hi hj hf

theorem reduceInst_ok (hi : i.Scoped d) (hj : Justified boolValues i) (hf : f.Scoped d) :
    Ok bus boolValues d f i (reduceInst boolValues f i) := by
  unfold reduceInst
  split
  case h_1 dst base index scale disp =>
    have ha : AddrDef.InScope d { base, index, scale, disp } := hi.addr
    exact ok_toAddr hi hj hf rfl ha (fun _ _ => rfl) _
  case h_2 dst op lhs rhs flags =>
    have hl : lhs.InScope d := hi.operand (by simp [operands])
    split
    case isTrue => exact ok_keep hi hj hf
    case isFalse hfl =>
      cases FlagSet.eq_empty_of_isEmpty (by simpa using hfl)
      split
      · exact reduceMul_ok hi hj hf
      · exact ok_shl hi hj hf rfl hl (fun _ => hi.operand) (fun _ _ => rfl) (fun _ _ => rfl)
          (noteScaled f dst lhs _).changed
      · exact reduceAnd_ok hi hj hf
      · exact reduceAdd_ok hi hj hf
      · refine ok_toAddr hi hj hf rfl (addConst_inScope hf hl _) (fun c hc => ?_) _
        simp [exec, evalBinop, addConst_eval hc, sub_eq_add_neg]
      · exact ok_keep hi hj hf
  case h_3 => exact ok_keep hi hj hf

theorem reduceInst_out (boolValues : Finset ValueId) (f : Facts) (i : Instr) :
    ∃ j, reduceInst boolValues f i =
      { out := [j], facts := (reduceInst boolValues f i).facts } ∧ i.Keeps j := by
  cases i
  case binOp dst op lhs rhs flags =>
    unfold reduceInst
    dsimp only
    split
    case isTrue => exact ⟨_, rfl, .refl _⟩
    case isFalse h =>
      simp only [not_eq_true, not_eq_false'] at h
      split
      · unfold reduceMul
        split
        · exact ⟨_, rfl, .binOp _ _ _ _ _ _ _ _⟩
        split
        · exact ⟨_, rfl, .refl _⟩
        · split <;> exact ⟨_, rfl, .binOp _ _ _ _ _ _ _ _⟩
      · exact ⟨_, rfl, .refl _⟩
      · unfold reduceAnd
        split
        · exact ⟨_, rfl, .refl _⟩
        · dsimp only
          split
          · exact ⟨_, rfl, .of_pure (.binOp _ _ _ _ h) ⟨rfl, rfl⟩⟩
          · split <;> exact ⟨_, rfl, .binOp _ _ _ _ _ _ _ _⟩
      · unfold reduceAdd
        split
        · exact ⟨_, rfl, .of_pure (.binOp _ _ _ _ h) ⟨rfl, rfl⟩⟩
        split
        · exact ⟨_, rfl, .of_pure (.binOp _ _ _ _ h) ⟨rfl, rfl⟩⟩
        split
        · exact ⟨_, rfl, .of_pure (.binOp _ _ _ _ h) ⟨rfl, rfl⟩⟩
        · exact ⟨_, rfl, .refl _⟩
      · exact ⟨_, rfl, .of_pure (.binOp _ _ _ _ h) ⟨rfl, rfl⟩⟩
      · exact ⟨_, rfl, .refl _⟩
  all_goals exact ⟨_, rfl, .refl _⟩

end Step

variable (bus) in
theorem inPlace (boolValues : Finset ValueId) :
    InPlace bus (step boolValues) (Justified boolValues) Facts.Scoped (Facts.Sound boolValues) where
  out f i := reduceInst_out boolValues (forget f i) i
  replaces d f i hi hj hf j hm := by
    have hr := (reduceInst_ok hi hj (forget_scoped hf i) : Ok bus _ _ _ _ _) j hm
    exact ⟨hr.uses, hr.scope, fun c hc => hr.exec c (forget_sound hc i),
      fun c e hc => hr.sound c e (forget_sound hc i)⟩
  frame _ _ _ _ _ hf hc hg he := hc.frame hf he hg.bools

section BoolValues

variable {is : List Instr}

theorem isBoolOperand_mono (h : B ⊆ B') (ho : isBoolOperand op B = true) :
    isBoolOperand op B' = true := by
  cases op
  case const => exact ho
  case value v => simpa [isBoolOperand] using h (by simpa [isBoolOperand] using ho)

theorem isBoolInst_mono (h : B ⊆ B') (hi : isBoolInst B i = true) : isBoolInst B' i = true := by
  cases i
  case binOp dst op lhs rhs flags =>
    cases op
    case and | or | xor =>
      simp only [isBoolInst, and_eq_true] at hi ⊢
      exact ⟨isBoolOperand_mono h hi.1, isBoolOperand_mono h hi.2⟩
    all_goals exact hi
  all_goals exact hi

theorem subset_addBoolValue (B : Finset ValueId) (i : Instr) : B ⊆ addBoolValue B i := by
  unfold addBoolValue
  split
  · exact Finset.Subset.refl _
  split
  · exact Finset.subset_insert _ _
  · exact Finset.Subset.refl _

theorem mem_addBoolValue (h : v ∈ addBoolValue B i) :
    v ∈ B ∨ (i.dst = some v ∧ isBoolInst B i = true) := by
  unfold addBoolValue at h
  split at h
  · exact .inl h
  · split at h
    case isTrue hd hb =>
      rcases Finset.mem_insert.mp h with rfl | h
      · exact .inr ⟨hd, hb⟩
      · exact .inl h
    case isFalse => exact .inl h

theorem subset_foldl_addBoolValue (B : Finset ValueId) (is : List Instr) :
    B ⊆ is.foldl addBoolValue B := by
  induction is generalizing B
  case nil => exact Finset.Subset.refl _
  case cons i is ih => exact (subset_addBoolValue B i).trans (ih _)

theorem mem_foldl_addBoolValue (h : v ∈ is.foldl addBoolValue B) :
    v ∈ B ∨ ∃ i ∈ is, i.dst = some v := by
  induction is generalizing B
  case nil => exact .inl h
  case cons i is ih =>
    rcases ih h with h | ⟨j, hj, hd⟩
    · rcases mem_addBoolValue h with h | h
      · exact .inl h
      · exact .inr ⟨i, mem_cons_self, h.1⟩
    · exact .inr ⟨j, mem_cons_of_mem _ hj, hd⟩

-- The set grows along the code, but never by a value that is defined already. So every
-- instruction justifies what the final set says about its value.
theorem foldl_addBoolValue_justified (hs : InScope d is) (hB : B ⊆ d) :
    ∀ i ∈ is, Justified (is.foldl addBoolValue B) i := by
  induction is generalizing d B
  case nil => simp
  case cons i is ih =>
    have hB' : addBoolValue B i ⊆ i.define d := fun v hv => by
      rcases mem_addBoolValue hv with h | h
      · exact Instr.mem_define_of_mem i (hB h)
      · exact mem_define_dst h.1
    rw [foldl_cons]
    refine forall_mem_cons.mpr ⟨fun v hd hv => ?_, ih hs.2 hB'⟩
    have hsub := subset_foldl_addBoolValue (addBoolValue B i) is
    rcases mem_foldl_addBoolValue hv with h | ⟨j, hj, hd'⟩
    · rcases mem_addBoolValue h with h | h
      · exact absurd (hB h) (hs.1.2 v hd)
      · exact isBoolInst_mono ((subset_addBoolValue B i).trans hsub) h.2
    · exact absurd hd' (hs.dst_ne_of_cons hj hd)

theorem computeBoolValues_justified (ht : t.WellScoped) :
    ∀ i ∈ t.instrs, Justified (computeBoolValues t) i :=
  foldl_addBoolValue_justified (TraceIr.wellScoped_iff.mp ht) (Finset.empty_subset _)

end BoolValues

def reduced (t : TraceIr) (b : Bool) : TraceIr :=
  InPlace.rewritten (step (computeBoolValues t)) (fun f _ => f) t { changed := b }

theorem scoped_empty (b : Bool) : Facts.Scoped ∅ { changed := b } :=
  ⟨.empty _, .empty _, .empty _⟩

theorem reduced_agrees {t : TraceIr} (ht : t.WellScoped) (b : Bool) :
    t.Agrees bus (reduced t b) :=
  (inPlace bus _).agrees ht (computeBoolValues_justified ht) (scoped_empty b) fun _ _ =>
    ⟨.empty _, .empty _, .empty _, fun _ _ => .inl rfl⟩

theorem reduced_wellScoped (ht : t.WellScoped) (b : Bool) : (reduced t b).WellScoped :=
  (inPlace (default : Tier1Bus Unit) _).wellScoped ht (computeBoolValues_justified ht)
    (scoped_empty b)

end Aero.Tier2.StrengthReduction
