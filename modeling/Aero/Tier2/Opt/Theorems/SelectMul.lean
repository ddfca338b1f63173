import Aero.Tier2.Opt.Theorems.StrengthReduction

namespace Aero.Tier2.StrengthReduction

open Tier2.Core Straight List SelectMul

open BooleanSimplify (pureOp)

variable {β : Type} {bus : Tier1Bus β} {c c' : Core β} {d : Finset ValueId}
variable {uses : ValueId → Nat} {B : Finset ValueId} {i i₀ i₁ i₂ i₃ : Instr} {w : SelectMul}

structure Defines (bus : Tier1Bus β) (i : Instr) (v : ValueId) (us : List ValueId)
    (P : Core β → Prop) (value : Core β → U64) : Prop where
  pure : i.Pure v
  uses : i.uses.Perm us
  exec : ∀ c, P c → exec bus i c = (c.setValue v (value c), none)

theorem decodeBoolNot_defines (h : decodeBoolNot i = some (dst, v)) :
    Defines bus i dst [v] (fun c => IsBool (c.values v))
      fun c => boolToU64 (c.values v == 0#64) := by
  unfold decodeBoolNot at h
  split at h
  case h_3 => cases h
  case h_1 dst' lhs rhs flags =>
    split at h
    case isTrue => cases h
    case isFalse hfl =>
      cases FlagSet.eq_empty_of_isEmpty (by simpa using hfl)
      split at h
      case h_1 =>
        cases h
        exact ⟨⟨rfl, rfl⟩, .refl _, fun c _ => by simp [exec, evalBinop]⟩
      case h_2 =>
        cases h
        refine ⟨⟨rfl, rfl⟩, .refl _, fun c _ => ?_⟩
        simp [exec, evalBinop, BEq.comm]
      case h_3 => cases h
  case h_2 dst' lhs rhs flags =>
    split at h
    case isTrue => cases h
    case isFalse hfl =>
      cases FlagSet.eq_empty_of_isEmpty (by simpa using hfl)
      split at h
      case h_1 =>
        cases h
        exact ⟨⟨rfl, rfl⟩, .refl _, fun c hc => by simp [exec, evalBinop, hc.xor_one]⟩
      case h_2 =>
        cases h
        refine ⟨⟨rfl, rfl⟩, .refl _, fun c hc => ?_⟩
        simp [exec, evalBinop, BitVec.xor_comm 1#64, hc.xor_one]
      case h_3 => cases h

theorem decodeMulByValue_defines (h : decodeMulByValue i factor = some (dst, x)) :
    Defines bus i dst (factor :: x.asValue.toList) (fun _ => True)
      fun c => c.evalOperand x * c.values factor := by
  unfold decodeMulByValue at h
  split at h
  case h_2 => cases h
  case h_1 dst' lhs rhs flags =>
    split at h
    case isTrue => cases h
    case isFalse hfl =>
      cases FlagSet.eq_empty_of_isEmpty (by simpa using hfl)
      split at h
      case isTrue hl =>
        cases h
        subst hl
        refine ⟨⟨rfl, rfl⟩, ?_, fun c _ => by simp [exec, evalBinop, BitVec.mul_comm]⟩
        cases x <;> exact .refl _
      case isFalse =>
        split at h
        case isFalse => cases h
        case isTrue hr =>
          cases h
          subst hr
          refine ⟨⟨rfl, rfl⟩, ?_, fun c _ => by simp [exec, evalBinop]⟩
          cases x
          case value => exact .swap _ _ _
          case const => exact .refl _

theorem decodeAddPair_defines (h : decodeAddPair i a b = some dst) :
    Defines bus i dst [a, b] (fun _ => True) fun c => c.values a + c.values b := by
  unfold decodeAddPair at h
  split at h
  case h_2 => cases h
  case h_1 dst' x y flags =>
    split at h
    case isTrue => cases h
    case isFalse hfl =>
      cases FlagSet.eq_empty_of_isEmpty (by simpa using hfl)
      split at h
      case isFalse => cases h
      case isTrue hxy =>
        cases h
        rcases hxy with ⟨rfl, rfl⟩ | ⟨rfl, rfl⟩
        · exact ⟨⟨rfl, rfl⟩, .refl _, fun c _ => by simp [exec, evalBinop]⟩
        · exact ⟨⟨rfl, rfl⟩, .swap _ _ _, fun c _ => by simp [exec, evalBinop, BitVec.add_comm]⟩

structure SelectMul.Matches (bus : Tier1Bus β) (uses : ValueId → Nat) (B : Finset ValueId)
    (w : SelectMul) (i₀ i₁ i₂ i₃ : Instr) : Prop where
  cond : Defines bus i₀ w.condBool [w.condIsZero] (fun c => IsBool (c.values w.condIsZero))
    fun c => boolToU64 (c.values w.condIsZero == 0#64)
  thenMul : Defines bus i₁ w.thenDst (w.condBool :: w.ifTrue.asValue.toList) (fun _ => True)
    fun c => c.evalOperand w.ifTrue * c.values w.condBool
  elseMul : Defines bus i₂ w.elseDst (w.condIsZero :: w.ifFalse.asValue.toList) (fun _ => True)
    fun c => c.evalOperand w.ifFalse * c.values w.condIsZero
  sum : Defines bus i₃ w.sumDst [w.thenDst, w.elseDst] (fun _ => True)
    fun c => c.values w.thenDst + c.values w.elseDst
  isBool : w.condIsZero ∈ B
  usedOnce : ∀ v ∈ [w.condBool, w.thenDst, w.elseDst], uses v = 1

theorem matchSelectMul_matches (h : matchSelectMul uses B i₀ i₁ i₂ i₃ = some w) :
    w.Matches bus uses B i₀ i₁ i₂ i₃ := by
  simp [matchSelectMul, Option.bind_eq_some_iff] at h
  obtain ⟨condBool, condIsZero, h₀, hb, hu, thenDst, ifTrue, h₁, elseDst, ifFalse, h₂, ⟨hu₁, hu₂⟩,
    sumDst, h₃, rfl⟩ := h
  exact ⟨decodeBoolNot_defines h₀, decodeMulByValue_defines h₁, decodeMulByValue_defines h₂,
    decodeAddPair_defines h₃, hb, by simp [hu, hu₁, hu₂]⟩

def SelectMul.outside (w : SelectMul) : List ValueId :=
  w.condIsZero :: w.condIsZero :: (w.ifTrue.asValue.toList ++ w.ifFalse.asValue.toList)

def SelectMul.inside (w : SelectMul) : List ValueId :=
  [w.condBool, w.thenDst, w.elseDst]

-- The rewriting of a list. `K` lists the values that it changes, and `U` the uses of values by
-- anything else.
inductive Masked (bus : Tier1Bus β) (uses : ValueId → Nat) (B : Finset ValueId) :
    List Instr → List Instr → List ValueId → List ValueId → Prop
  | nil : Masked bus uses B [] [] [] []
  | cons {is is' K U} (i) (h : Masked bus uses B is is' K U) :
    Masked bus uses B (i :: is) (i :: is') K (i.uses ++ U)
  | select {is is' K U i₀ i₁ i₂ i₃} {w : SelectMul} (hw : w.Matches bus uses B i₀ i₁ i₂ i₃)
    (h : Masked bus uses B is is' K U) :
    Masked bus uses B (i₀ :: i₁ :: i₂ :: i₃ :: is) (w.masked ++ is') (w.inside ++ K) (w.outside ++ U)

theorem Masked.refl (is : List Instr) : ∃ U, Masked bus uses B is is [] U := by
  induction is
  case nil => exact ⟨_, .nil⟩
  case cons i is ih =>
    have ⟨U, h⟩ := ih
    exact ⟨_, .cons i h⟩

variable (bus uses B) in
theorem reduceSelectMulPattern_masked (is : List Instr) :
    ∃ K U, Masked bus uses B is (reduceSelectMulPattern uses B is).1 K U := by
  fun_induction reduceSelectMulPattern uses B is
  case case1 w hw ih =>
    have ⟨K, U, h⟩ := ih
    exact ⟨_, _, .select (matchSelectMul_matches hw) h⟩
  case case2 i₀ i₁ i₂ i₃ is _ is' _ hr ih =>
    have ⟨K, U, h⟩ := ih
    rw [hr] at h
    exact ⟨_, _, .cons i₀ h⟩
  case case3 is _ => exact ⟨[], Masked.refl is⟩

namespace Masked

section

variable (h : Masked bus uses B is is' K U)
include h

theorem uses_perm : (is.flatMap Instr.uses).Perm (K ++ U) := by
  induction h
  case nil => simp
  case cons K U i _ ih =>
    rw [flatMap_cons, ← append_assoc]
    refine (ih.append_left _).trans ?_
    rw [← append_assoc]
    exact perm_append_comm.append_right U
  case select K U i₀ i₁ i₂ i₃ w hw _ ih =>
    have := hw.cond.uses.append (hw.thenMul.uses.append (hw.elseMul.uses.append
      (hw.sum.uses.append ih)))
    rw [perm_iff_count] at this ⊢
    intro v
    have := this v
    simp only [count_append, flatMap_cons, count_cons, inside,
      outside, cons_append, nil_append] at this ⊢
    omega

theorem usedOnce : ∀ v ∈ K, uses v = 1 := by
  induction h
  case nil => simp
  case cons ih => exact ih
  case select hw _ ih =>
    intro v hv
    rcases mem_append.mp hv with hv | hv
    · exact hw.usedOnce v hv
    · exact ih v hv

-- The values that the rewriting changes are used once each, and by nothing else.
theorem disjoint (hu : ∀ v, uses v = (is.flatMap Instr.uses).count v) :
    K.Nodup ∧ ∀ v ∈ U, v ∉ K := by
  have hc : ∀ v ∈ K, (K ++ U).count v = 1 := fun v hv => by
    rw [← h.usedOnce v hv, hu, h.uses_perm.count_eq]
  simp only [count_append] at hc
  refine ⟨nodup_iff_count_le_one.mpr fun v => ?_, fun v hv hv' => ?_⟩
  · by_cases hv : v ∈ K
    · have := hc v hv
      omega
    · simp [count_eq_zero_of_not_mem hv]
  · have := hc v hv'
    have := count_pos_iff.mpr hv
    have := count_pos_iff.mpr hv'
    omega

theorem append (h' : Masked bus uses B js js' K' U') :
    Masked bus uses B (is ++ js) (is' ++ js') (K ++ K') (U ++ U') := by
  induction h
  case nil => exact h'
  case cons i _ ih =>
    rw [append_assoc]
    exact ih.cons i
  case select hw _ ih =>
    rw [append_assoc, append_assoc, append_assoc]
    exact .select hw ih

end

end Masked

-- What the two sides agree on, where the values of `K` may differ.
structure AgreeOff (K : List ValueId) (c c' : Core β) : Prop where
  sameMachine : SameMachine c c'
  values : ∀ v, v ∉ K → c.values v = c'.values v

namespace AgreeOff

variable {K : List ValueId}

theorem evalOperand (h : AgreeOff K c c') (ho : ∀ v ∈ op.asValue.toList, v ∉ K) :
    c.evalOperand op = c'.evalOperand op :=
  evalOperand_congr fun v hv => h.values v (ho v (by simp [hv]))

variable (bus) in
theorem exec (h : AgreeOff K c c') (hi : ∀ v ∈ i.uses, v ∉ K) :
    Related (AgreeOff K) SameMachine (exec bus i c) (exec bus i c') := by
  refine (exec_related bus h.sameMachine fun v hv => h.values v (hi v hv)).mono ?_
    fun _ _ h => h
  intro e e' ⟨hm, he⟩
  exact ⟨hm, fun v hv => he v (.inr (h.values v hv))⟩

end AgreeOff

theorem select_eq (hz : IsBool z) :
    x * boolToU64 (z == 0#64) + y * z = x + ((y - x) &&& (0#64 - z)) := by
  rcases hz with rfl | rfl
  case inl => simp [boolToU64]
  case inr =>
    have : 0#64 - 1#64 = BitVec.allOnes 64 := rfl
    rw [this, BitVec.and_allOnes, BitVec.add_comm x, BitVec.sub_add_cancel]
    simp [boolToU64]

theorem pureOp_define (d : Finset ValueId) (dst : ValueId) (op : BinOp) (lhs rhs : Operand) :
    (pureOp dst op lhs rhs).define d = insert dst d := rfl

theorem pureOp_scoped (hl : lhs.InScope d) (hr : rhs.InScope d) (hd : dst ∉ d) :
    (pureOp dst op lhs rhs).Scoped d :=
  ⟨Instr.uses_mem_of_operands (by simp [pureOp, Instr.operands, hl, hr]),
    by simpa [pureOp, Instr.dst] using hd⟩

section Select

variable (hw : w.Matches bus uses B i₀ i₁ i₂ i₃) (hout : ∀ v ∈ w.outside, v ∉ w.inside)
variable (hnd : w.inside.Nodup)

theorem SelectMul.evalOperand_setValue (hout : ∀ v ∈ w.outside, v ∉ w.inside)
    (ho : op = w.ifTrue ∨ op = w.ifFalse) :
    (∀ (c : Core β) x, (c.setValue w.condBool x).evalOperand op = c.evalOperand op) ∧
    (∀ (c : Core β) x, (c.setValue w.thenDst x).evalOperand op = c.evalOperand op) ∧
    (∀ (c : Core β) x, (c.setValue w.elseDst x).evalOperand op = c.evalOperand op) := by
  have h : ∀ v ∈ w.inside, op.asValue ≠ some v := fun v hv h =>
    hout v (by rcases ho with rfl | rfl <;> simp [outside, h]) hv
  simp only [inside, forall_mem_cons] at h
  exact ⟨fun _ _ => Core.evalOperand_setValue h.1, fun _ _ => Core.evalOperand_setValue h.2.1,
    fun _ _ => Core.evalOperand_setValue h.2.2.1⟩

include hw hout hnd in
theorem SelectMul.Matches.execInstrs (hb : ∀ v ∈ B, IsBool (c.values v)) :
    ∃ e, Core.execInstrs bus [i₀, i₁, i₂, i₃] c = (e, none) ∧ SameMachine e c ∧
      e.values w.sumDst = c.evalOperand w.ifTrue * boolToU64 (c.values w.condIsZero == 0#64) +
        c.evalOperand w.ifFalse * c.values w.condIsZero ∧
      ∀ v, v ∉ w.sumDst :: w.inside → e.values v = c.values v := by
  have ht := evalOperand_setValue (β := β) hout (.inl rfl)
  have hf := evalOperand_setValue (β := β) hout (.inr rfl)
  have hz := hout w.condIsZero (by simp [outside])
  simp only [inside, nodup_cons, mem_cons, not_mem_nil, or_false, not_or] at hz hnd
  rw [Core.execInstrs, execList_cons_running _ (hw.cond.exec c (hb _ hw.isBool)),
    execList_cons_running _ (hw.thenMul.exec _ trivial),
    execList_cons_running _ (hw.elseMul.exec _ trivial),
    execList_cons_running _ (hw.sum.exec _ trivial)]
  refine ⟨_, rfl, rfl, by simp [ht, hf, hz, hnd], fun v hv => ?_⟩
  simp only [inside, mem_cons, not_mem_nil, or_false, not_or] at hv
  simp [hv]

variable (bus) in
include hout hnd in
theorem SelectMul.execInstrs_masked (c : Core β) :
    ∃ e, Core.execInstrs bus w.masked c = (e, none) ∧ SameMachine e c ∧
      e.values w.sumDst = c.evalOperand w.ifTrue +
        ((c.evalOperand w.ifFalse - c.evalOperand w.ifTrue) &&& (0#64 - c.values w.condIsZero)) ∧
      ∀ v, v ∉ w.sumDst :: w.inside → e.values v = c.values v := by
  have ht := evalOperand_setValue (β := β) hout (.inl rfl)
  have hf := evalOperand_setValue (β := β) hout (.inr rfl)
  simp only [inside, nodup_cons, mem_cons, not_mem_nil, or_false, not_or] at hnd
  refine ⟨_, rfl, rfl, ?_, fun v hv => ?_⟩
  · simp [evalBinop, ht, hf, hnd]
  · simp only [inside, mem_cons, not_mem_nil, or_false, not_or] at hv
    simp [hv, evalBinop]

include hw hout hnd in
theorem SelectMul.Matches.agreeOff {K : List ValueId} (h : AgreeOff K c c')
    (hb : ∀ v ∈ B, IsBool (c.values v)) (hin : ∀ v ∈ w.inside, v ∈ K)
    (hK : ∀ v ∈ w.outside, v ∉ K) :
    Related (AgreeOff K) SameMachine (Core.execInstrs bus [i₀, i₁, i₂, i₃] c)
      (Core.execInstrs bus w.masked c') := by
  obtain ⟨e, he, hm, hv, hf⟩ := hw.execInstrs hout hnd hb
  obtain ⟨e', he', hm', hv', hf'⟩ := execInstrs_masked bus hout hnd c'
  rw [he, he']
  refine .running ⟨hm.trans (h.sameMachine.trans hm'.symm), fun v hvK => ?_⟩
  by_cases hs : v = w.sumDst
  case pos =>
    rw [hs, hv, hv', select_eq (hb _ hw.isBool),
      h.evalOperand fun v hv => hK v (by simp [outside] at hv ⊢; tauto),
      h.evalOperand fun v hv => hK v (by simp [outside] at hv ⊢; tauto),
      h.values _ (hK _ (by simp [outside]))]
  case neg =>
    have hv : v ∉ w.sumDst :: w.inside := by
      rw [mem_cons, not_or]
      exact ⟨hs, fun hi => hvK (hin v hi)⟩
    rw [hf v hv, hf' v hv, h.values v hvK]

include hw hout in
theorem SelectMul.Matches.inScope (hs : InScope d [i₀, i₁, i₂, i₃]) :
    InScope d w.masked ∧ scopeAfter d w.masked = scopeAfter d [i₀, i₁, i₂, i₃] := by
  obtain ⟨⟨u₀, d₀⟩, ⟨u₁, d₁⟩, ⟨u₂, d₂⟩, ⟨-, d₃⟩, -⟩ := hs
  have d₀ := d₀ _ hw.cond.pure.dst
  have d₁ := d₁ _ hw.thenMul.pure.dst
  have d₂ := d₂ _ hw.elseMul.pure.dst
  have d₃ := d₃ _ hw.sum.pure.dst
  simp only [hw.cond.uses.mem_iff, hw.thenMul.uses.mem_iff, hw.elseMul.uses.mem_iff,
    Instr.define_of_some hw.cond.pure.dst, Instr.define_of_some hw.thenMul.pure.dst,
    Instr.define_of_some hw.elseMul.pure.dst] at u₀ u₁ u₂ d₁ d₂ d₃
  -- The operands are defined before the select.
  have hd : ∀ v ∈ w.outside, v ∈ d := by
    intro v hv
    have hi := hout v hv
    simp only [outside, inside, mem_cons, mem_append, not_mem_nil, or_false,
      not_or, Finset.mem_insert] at hv hi u₀ u₁ u₂
    rcases hv with rfl | rfl | hv | hv
    · exact u₀ _ rfl
    · exact u₀ _ rfl
    · simpa [hi] using u₁ v (.inr hv)
    · simpa [hi] using u₂ v (.inr hv)
  have hz : w.condIsZero ∈ d := hd _ (by simp [outside])
  have ht : w.ifTrue.InScope d := fun v hv => hd v (by simp [outside, hv])
  have hf : w.ifFalse.InScope d := fun v hv => hd v (by simp [outside, hv])
  constructor
  · refine ⟨pureOp_scoped (.const 0) (.value hz) d₀, pureOp_scoped (hf.mono ?_) (ht.mono ?_) d₁,
      pureOp_scoped (.value ?_) (.value ?_) d₂, pureOp_scoped (ht.mono ?_) (.value ?_) d₃, trivial⟩
    all_goals simp only [pureOp_define]; grind
  · simp only [scopeAfter, masked, foldl_cons, foldl_nil, pureOp_define,
      Instr.define_of_some hw.cond.pure.dst, Instr.define_of_some hw.thenMul.pure.dst,
      Instr.define_of_some hw.elseMul.pure.dst, Instr.define_of_some hw.sum.pure.dst]

end Select

variable (bus) in
theorem bools_execInstrs {is : List Instr} (hj : ∀ i ∈ is, Justified B i)
    (hb : ∀ v ∈ B, IsBool (c.values v)) :
    ∀ v ∈ B, IsBool ((Core.execInstrs bus is c).1.values v) :=
  execList_preserves _ (P := fun e : Core β => ∀ v ∈ B, IsBool (e.values v))
    (fun i hi _ he => (hj i hi).exec he) hb

theorem AgreeOff.and_bools (h : Related (AgreeOff K) SameMachine (Core.execInstrs bus is c)
      (Core.execInstrs bus is' c')) (hj : ∀ i ∈ is, Justified B i)
    (hb : ∀ v ∈ B, IsBool (c.values v)) :
    Related (fun e e' => AgreeOff K e e' ∧ ∀ v ∈ B, IsBool (e.values v)) SameMachine
      (Core.execInstrs bus is c) (Core.execInstrs bus is' c') := by
  refine h.with_runs.mono ?_ fun _ _ h => h
  intro e e' ⟨h, he, _⟩
  have := bools_execInstrs bus hj hb
  rw [he] at this
  exact ⟨h, this⟩

namespace Masked

variable {is is' : List Instr} {K U : List ValueId}

theorem agreeOff {L : List ValueId} (h : Masked bus uses B is is' K U)
    (hj : ∀ i ∈ is, Justified B i) (hK : ∀ v ∈ K, v ∈ L) (hnd : K.Nodup) (hU : ∀ v ∈ U, v ∉ L)
    (hc : AgreeOff L c c' ∧ ∀ v ∈ B, IsBool (c.values v)) :
    Related (fun e e' => AgreeOff L e e' ∧ ∀ v ∈ B, IsBool (e.values v)) SameMachine
      (Core.execInstrs bus is c) (Core.execInstrs bus is' c') := by
  induction h generalizing c c'
  case nil => exact .running hc
  case cons is is' K U i _ ih =>
    have hi := hc.1.exec bus fun v hv => hU v (mem_append_left U hv)
    rw [← execList_singleton (exec bus), ← execList_singleton (exec bus)] at hi
    have hi := AgreeOff.and_bools hi (fun j hj' => hj j (by simp_all)) hc.2
    exact execList_append_related hi fun e e' he =>
      ih (fun j hj' => hj j (mem_cons_of_mem _ hj')) hK hnd
        (fun v hv => hU v (mem_append_right _ hv)) he
  case select is is' K U i₀ i₁ i₂ i₃ w hw _ ih =>
    have hin : ∀ v ∈ w.inside, v ∈ L := fun v hv => hK v (mem_append_left _ hv)
    have hout : ∀ v ∈ w.outside, v ∉ L := fun v hv => hU v (mem_append_left _ hv)
    have hi := hw.agreeOff (fun v hv hi => hout v hv (hin v hi)) hnd.of_append_left hc.1 hc.2 hin hout
    have hi := AgreeOff.and_bools hi (fun j hj' => hj j (mem_append_left is hj')) hc.2
    exact execList_append_related hi fun e e' he =>
      ih (fun j hj' => hj j (mem_append_right [i₀, i₁, i₂, i₃] hj'))
        (fun v hv => hK v (mem_append_right _ hv)) hnd.of_append_right
        (fun v hv => hU v (mem_append_right _ hv)) he

theorem inScope (h : Masked bus uses B is is' K U) (hnd : K.Nodup) (hU : ∀ v ∈ U, v ∉ K)
    (hs : InScope d is) : InScope d is' ∧ scopeAfter d is' = scopeAfter d is := by
  induction h generalizing d
  case nil => exact ⟨trivial, rfl⟩
  case cons i _ ih =>
    obtain ⟨hi, he⟩ := ih hnd (fun v hv => hU v (mem_append_right _ hv)) hs.2
    exact ⟨⟨hs.1, hi⟩, he⟩
  case select is is' K U i₀ i₁ i₂ i₃ w hw _ ih =>
    have hs : InScope d ([i₀, i₁, i₂, i₃] ++ is) := hs
    rw [InScope, inScope_append] at hs
    have hout : ∀ v ∈ w.outside, v ∉ w.inside := fun v hv hi =>
      hU v (mem_append_left _ hv) (mem_append_left _ hi)
    obtain ⟨hw, he⟩ := hw.inScope hout hs.1
    obtain ⟨hi, he'⟩ := ih hnd.of_append_right
      (fun v hv hi => hU v (mem_append_right _ hv) (mem_append_right _ hi)) hs.2
    refine ⟨inScope_append.mpr ⟨hw, ?_⟩, ?_⟩
    · rw [← scopeAfter, he]
      exact hi
    · rw [scopeAfter, foldl_append, ← scopeAfter, ← scopeAfter, he]
      exact he'

end Masked

section Run

variable {t : TraceIr}

def masked (t : TraceIr) : TraceIr :=
  { t with
    prologue := (reduceSelectMulPattern (useCount t) (computeBoolValues t) t.prologue).1
    body := (reduceSelectMulPattern (useCount t) (computeBoolValues t) t.body).1 }

theorem run_eq (t : TraceIr) : ∃ b, (run t).1 = reduced (masked t) b :=
  ⟨_, rfl⟩

theorem masked_parts (bus : Tier1Bus β) (t : TraceIr) :
    ∃ K U K' U', (K ++ K').Nodup ∧ (∀ v ∈ U ++ U', v ∉ K ++ K') ∧
      Masked bus (useCount t) (computeBoolValues t) t.prologue (masked t).prologue K U ∧
      Masked bus (useCount t) (computeBoolValues t) t.body (masked t).body K' U' := by
  have ⟨K, U, hp⟩ :=
    reduceSelectMulPattern_masked bus (useCount t) (computeBoolValues t) t.prologue
  have ⟨K', U', hb⟩ := reduceSelectMulPattern_masked bus (useCount t) (computeBoolValues t) t.body
  have ⟨hnd, hU⟩ := (hp.append hb).disjoint fun _ => rfl
  exact ⟨K, U, K', U', hnd, hU, hp, hb⟩

theorem masked_agrees (ht : t.WellScoped) : t.Agrees bus (masked t) := by
  obtain ⟨K, U, K', U', hnd, hU, hp, hb⟩ := masked_parts bus t
  have hj := computeBoolValues_justified ht
  let R : Core β → Core β → Prop := fun c c' =>
    AgreeOff (K ++ K') c c' ∧ ∀ v ∈ computeBoolValues t, IsBool (c.values v)
  refine .of_related (R := R) (Q := R) (fun m hm => ?_) (fun c c' hc => ?_)
    fun c c' hc => ⟨rfl, fun _ => hc, hc.1.sameMachine⟩
  · exact hp.agreeOff (fun i hi => hj i (mem_append_left _ hi))
      (fun v hv => mem_append_left _ hv) hnd.of_append_left
      (fun v hv => hU v (mem_append_left _ hv)) ⟨⟨rfl, fun _ _ => rfl⟩, fun _ _ => .inl rfl⟩
  · exact hb.agreeOff (fun i hi => hj i (mem_append_right _ hi))
      (fun v hv => mem_append_right _ hv) hnd.of_append_right
      (fun v hv => hU v (mem_append_right _ hv)) hc

theorem masked_wellScoped (ht : t.WellScoped) : (masked t).WellScoped := by
  obtain ⟨K, U, K', U', hnd, hU, hp, hb⟩ := masked_parts (default : Tier1Bus Unit) t
  have hs := TraceIr.wellScoped_iff.mp ht
  exact TraceIr.wellScoped_iff.mpr ((hp.append hb).inScope hnd hU hs).1

theorem run_agrees (ht : t.WellScoped) : t.Agrees bus (run t).1 := by
  obtain ⟨b, h⟩ := run_eq t
  rw [h]
  exact (masked_agrees ht).trans (reduced_agrees (masked_wellScoped ht) b)

theorem run_wellScoped (ht : t.WellScoped) : (run t).1.WellScoped := by
  obtain ⟨b, h⟩ := run_eq t
  rw [h]
  exact reduced_wellScoped (masked_wellScoped ht) b

end Run

end Aero.Tier2.StrengthReduction
