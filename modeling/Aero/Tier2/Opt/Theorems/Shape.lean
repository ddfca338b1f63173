import Aero.Tier2.Opt.Basic
import Aero.Tier2.Opt.Theorems.Cse
import Aero.Tier2.Opt.Theorems.Dce
import Aero.Tier2.Opt.Theorems.FlagElim
import Aero.Tier2.Opt.Theorems.Licm
import Aero.Tier2.Opt.Theorems.SelectMul
import Aero.Tier2.Opt.Theorems.ValueCompact

namespace Aero.Tier2

open List Straight
open Instr (anchors_eq_false hasSideEffects)

open Straight (Rewritten rewrite)

section Rewrite

variable {F : Type} {step : F → Instr → Rewritten Instr F}

structure StepShape (step : F → Instr → Rewritten Instr F) : Prop where
  dst : ∀ f i, ∀ j ∈ (step f i).out, ∀ v, j.dst = some v → i.dst = some v
  anchors : ∀ f i, i.anchors = true → ∃ j ∈ (step f i).out, j.anchors = true
  effects : ∀ f i, ∀ j ∈ (step f i).out, j.hasSideEffects = true → i.hasSideEffects = true
  stop : ∀ f i, (step f i).stop = true → ∃ j ∈ (step f i).out, j.isSideExit = true

theorem InPlace.stepShape (h : InPlace bus step ok Scoped Sound) : StepShape step where
  dst f i j hj v := h.simulates.dst f i j v hj
  anchors f i hi := by
    have ⟨j, hj, hk⟩ := h.out f i
    exact ⟨j, by rw [hj]; simp, hk.anchors hi⟩
  effects f i j' hj' := by
    have ⟨j, hj, hk⟩ := h.out f i
    rw [hj, mem_singleton] at hj'
    exact hj' ▸ hk.effects
  stop f i hs := by
    rw [h.stop_eq] at hs
    cases hs

variable (h : StepShape step)

include h

theorem StepShape.dst_rewrite (hj : j ∈ (rewrite step cut f is).out) (hv : j.dst = some v) :
    ∃ i ∈ is, i.dst = some v := by
  obtain ⟨i, hi, g, hg⟩ := mem_out_rewrite hj
  exact ⟨i, hi, h.dst g i j hg v hv⟩

theorem StepShape.effects_rewrite (hp : ∀ i ∈ is, i.hasSideEffects = false) :
    ∀ j ∈ (rewrite step cut f is).out, j.hasSideEffects = false := by
  intro j hj
  obtain ⟨i, hi, g, hg⟩ := mem_out_rewrite hj
  have := h.effects g i j hg
  simpa [hp i hi] using this

theorem StepShape.anchors_rewrite (ha : ∃ i ∈ is, i.anchors = true) :
    ∃ j ∈ (rewrite step cut f is).out, j.anchors = true := by
  induction is generalizing f
  case nil => simp at ha
  case cons i is ih =>
    cases hst : (step f i).stop
    case true =>
      rw [rewrite_cons_stop step cut is hst]
      obtain ⟨j, hj, hx⟩ := h.stop f i hst
      exact ⟨j, hj, Instr.anchors_of_isSideExit hx⟩
    case false =>
      rw [rewrite_cons step cut is hst]
      rcases (exists_mem_cons_iff ..).mp ha with ha | ha
      · obtain ⟨j, hj, hx⟩ := h.anchors f i ha
        exact ⟨j, mem_append_left _ hj, hx⟩
      · obtain ⟨j, hj, hx⟩ := ih ha
        exact ⟨j, mem_append_right _ hj, hx⟩

end Rewrite

section Steps

theorem ConstFold.stepShape : StepShape ConstFold.foldInst where
  dst _ _ _ hj _ := foldInst_dst hj
  anchors f i hi := by
    cases i
    case binOp dst op lhs rhs flags =>
      have hf : flags.isEmpty = false := by simpa [Instr.anchors, hasSideEffects] using hi
      simp only [foldInst, hf, Bool.false_eq_true, if_false]
      split
      case h_1 => exact ⟨_, mem_cons_of_mem _ (mem_singleton_self _), hi⟩
      case h_2 => exact ⟨_, mem_singleton_self _, hi⟩
    case setFlags mask values =>
      have hm : mask.isEmpty = false := by simpa [Instr.anchors, hasSideEffects] using hi
      exact ⟨_, by simp [foldInst, hm], hi⟩
    case nop | const | loadReg | loadFlag | addr | guard => cases hi
    all_goals exact ⟨_, mem_singleton_self _, rfl⟩
  effects f i j hj he := by
    cases i
    case binOp dst op lhs rhs flags =>
      simp only [foldInst] at hj
      grind [hasSideEffects]
    all_goals grind [foldInst, hasSideEffects]
  stop f i hs := by
    cases i
    case binOp dst op lhs rhs flags =>
      simp only [foldInst] at hs
      grind
    case guard cond expected exitRip =>
      simp only [foldInst] at hs ⊢
      split at hs
      case h_2 => cases hs
      case h_1 k hk =>
        split at hs
        case isTrue => cases hs
        case isFalse hc => exact ⟨.sideExit exitRip, by rw [if_neg hc]; simp, rfl⟩
    case sideExit exitRip => exact ⟨_, mem_singleton_self _, rfl⟩
    all_goals grind [foldInst]

theorem Cse.stepShape : StepShape Cse.processInst where
  dst _ _ _ hj _ := processInst_dst hj
  anchors f i hi := by
    cases i
    case binOp dst op lhs rhs flags =>
      have hf : flags.isEmpty = false := by simpa [Instr.anchors, hasSideEffects] using hi
      simp only [processInst, hf, Bool.not_false]
      exact ⟨_, mem_singleton_self _, hi⟩
    case nop | const | loadReg | loadFlag | addr | guard => cases hi
    all_goals exact ⟨_, mem_singleton_self _, hi⟩
  effects f i j hj he := by
    cases i
    all_goals
      simp only [processInst, shareExpr] at hj
      grind [hasSideEffects]
  stop f i hs := by
    cases i
    case sideExit exitRip => exact ⟨_, mem_singleton_self _, rfl⟩
    all_goals
      simp only [processInst, shareExpr, keep] at hs
      grind

end Steps

namespace TraceIr

-- A loop has something in its body that stays there.
def Anchored (t : TraceIr) : Prop :=
  t.kind = .loop → ∃ i ∈ t.body, i.anchors = true

-- The body has no effect.
def Idle (t : TraceIr) : Prop :=
  ∀ i ∈ t.body, i.hasSideEffects = false

-- A loop whose prologue may run to its end.
def Enters (t : TraceIr) : Prop :=
  t.kind = .loop → ∀ i ∈ t.prologue, i.isSideExit = false

structure Reshapes (t t' : TraceIr) : Prop where
  defs : ∀ i ∈ t'.instrs, ∀ v, i.dst = some v → ∃ j ∈ t.instrs, j.dst = some v
  anchored : t.Anchored → t'.Anchored
  idle : t.Idle → t'.Idle

namespace Reshapes

variable {t t' : TraceIr}

theorem refl (t : TraceIr) : t.Reshapes t :=
  ⟨fun i hi _ hv => ⟨i, hi, hv⟩, id, id⟩

theorem trans (h : t.Reshapes t') (h' : t'.Reshapes t'') : t.Reshapes t'' where
  defs i hi v hv := by
    obtain ⟨j, hj, hv⟩ := h'.defs i hi v hv
    exact h.defs j hj v hv
  anchored := h'.anchored ∘ h.anchored
  idle := h'.idle ∘ h.idle

theorem defs_of_parts
    (hp : ∀ i ∈ t'.prologue, ∀ v, i.dst = some v → ∃ j ∈ t.prologue, j.dst = some v)
    (hb : ∀ i ∈ t'.body, ∀ v, i.dst = some v → ∃ j ∈ t.body, j.dst = some v) :
    ∀ i ∈ t'.instrs, ∀ v, i.dst = some v → ∃ j ∈ t.instrs, j.dst = some v := by
  intro i hi v hv
  rcases mem_append.mp hi with hi | hi
  · obtain ⟨j, hj, hv⟩ := hp i hi v hv
    exact ⟨j, mem_append_left _ hj, hv⟩
  · obtain ⟨j, hj, hv⟩ := hb i hi v hv
    exact ⟨j, mem_append_right _ hj, hv⟩

theorem of_within (hk : t'.kind = t.kind) (hp : ∀ j ∈ t'.prologue, ∃ i ∈ t.prologue, i.Within j)
    (hb : ∀ j ∈ t'.body, ∃ i ∈ t.body, i.Within j)
    (ha : (∃ i ∈ t.body, i.anchors = true) → ∃ j ∈ t'.body, j.anchors = true) :
    t.Reshapes t' where
  defs := defs_of_parts
    (fun j hj v hv => have ⟨i, hi, hk⟩ := hp j hj; ⟨i, hi, hk.dst ▸ hv⟩)
    fun j hj v hv => have ⟨i, hi, hk⟩ := hb j hj; ⟨i, hi, hk.dst ▸ hv⟩
  anchored h hl := ha (h (hk ▸ hl))
  idle h j hj := by
    obtain ⟨i, hi, hk⟩ := hb j hj
    simpa [h i hi] using hk.effects

theorem of_kind (hk : k = .loop → t.kind = .loop) : t.Reshapes { t with kind := k } where
  defs i hi _ hv := ⟨i, hi, hv⟩
  anchored ha hl := ha (hk hl)
  idle := id

theorem of_rewrite {cut : F → List Instr → F} (h : StepShape step)
    (hk : k = .loop → t.kind = .loop) :
    t.Reshapes ⟨(rewrite step cut f t.prologue).out, (rewrite step cut fb t.body).out, k⟩ where
  defs := defs_of_parts (fun _ hi _ => h.dst_rewrite hi) fun _ hi _ => h.dst_rewrite hi
  anchored ha hl := h.anchors_rewrite (ha (hk hl))
  idle := h.effects_rewrite

theorem of_prologue_stop {cut : F → List Instr → F} (h : StepShape step) :
    t.Reshapes ⟨(rewrite step cut f t.prologue).out, [], .linear⟩ where
  defs := defs_of_parts (fun _ hi _ => h.dst_rewrite hi) (by simp)
  anchored _ hl := by cases hl
  idle _ := by simp [Idle]

end Reshapes

end TraceIr

-- The rewriting of selects keeps what has side effects.
section Masked

open StrengthReduction
open BooleanSimplify (pureOp_pure)

theorem SelectMul.mem_masked {w : SelectMul} (hw : w.Matches bus uses B i₀ i₁ i₂ i₃)
    (hj : j ∈ w.masked) : ∃ i ∈ [i₀, i₁, i₂, i₃], i.Within j := by
  simp only [SelectMul.masked, mem_cons, not_mem_nil, or_false] at hj
  rcases hj with rfl | rfl | rfl | rfl
  · exact ⟨i₀, by simp, (Instr.Keeps.of_pure hw.cond.pure (pureOp_pure ..)).toWithin⟩
  · exact ⟨i₁, by simp, (Instr.Keeps.of_pure hw.thenMul.pure (pureOp_pure ..)).toWithin⟩
  · exact ⟨i₂, by simp, (Instr.Keeps.of_pure hw.elseMul.pure (pureOp_pure ..)).toWithin⟩
  · exact ⟨i₃, by simp, (Instr.Keeps.of_pure hw.sum.pure (pureOp_pure ..)).toWithin⟩

namespace StrengthReduction.Masked

theorem within (h : Masked bus uses B is is' K U) : ∀ j ∈ is', ∃ i ∈ is, i.Within j := by
  induction h
  case nil => simp
  case cons i _ ih =>
    refine forall_mem_cons.mpr
      ⟨⟨i, mem_cons_self, (Instr.Keeps.refl i).toWithin⟩, fun j hj => ?_⟩
    obtain ⟨i', hi, hk⟩ := ih j hj
    exact ⟨i', mem_cons_of_mem _ hi, hk⟩
  case select is is' K U i₀ i₁ i₂ i₃ w hw _ ih =>
    refine forall_mem_append.mpr ⟨fun j hj => ?_, fun j hj => ?_⟩
    · obtain ⟨i, hi, hk⟩ := SelectMul.mem_masked hw hj
      exact ⟨i, mem_append_left is hi, hk⟩
    · obtain ⟨i, hi, hk⟩ := ih j hj
      exact ⟨i, mem_append_right [i₀, i₁, i₂, i₃] hi, hk⟩

theorem anchors (h : Masked bus uses B is is' K U) (ha : ∃ i ∈ is, i.anchors = true) :
    ∃ j ∈ is', j.anchors = true := by
  induction h
  case nil => exact ha
  case cons ih =>
    rcases (exists_mem_cons_iff ..).mp ha with ha | ha
    · exact ⟨_, mem_cons_self, ha⟩
    · obtain ⟨j, hj, hx⟩ := ih ha
      exact ⟨j, mem_cons_of_mem _ hj, hx⟩
  case select hw _ ih =>
    have h₀ := anchors_eq_false hw.cond.pure.effects
    have h₁ := anchors_eq_false hw.thenMul.pure.effects
    have h₂ := anchors_eq_false hw.elseMul.pure.effects
    have h₃ := anchors_eq_false hw.sum.pure.effects
    simp only [exists_mem_cons_iff, h₀, h₁, h₂, h₃, Bool.false_eq_true, false_or] at ha
    obtain ⟨j, hj, hx⟩ := ih ha
    exact ⟨j, mem_append_right _ hj, hx⟩

end StrengthReduction.Masked

end Masked

section Passes

open TraceIr (Reshapes)

variable (t : TraceIr)

theorem AddrSimplify.run_reshapes : t.Reshapes (AddrSimplify.run t).1 :=
  .of_rewrite (inPlace (default : Tier1Bus Unit)).stepShape id

theorem BooleanSimplify.run_reshapes : t.Reshapes (BooleanSimplify.run t).1 :=
  .of_rewrite (inPlace (default : Tier1Bus Unit) _).stepShape id

theorem ConstFold.run_reshapes : t.Reshapes (ConstFold.run t).1 := by
  unfold run
  dsimp only
  split
  case isTrue => exact .of_prologue_stop stepShape
  case isFalse =>
    split
    case isTrue => exact .of_rewrite stepShape id
    case isFalse => exact .refl t

theorem Cse.run_reshapes : t.Reshapes (Cse.run t).1 := by
  unfold run
  dsimp only
  split
  case isTrue => exact .of_prologue_stop stepShape
  case isFalse =>
    -- The loop becomes linear when its body always exits.
    generalize enterBody t _ = fb
    have hk : (if (rewrite processInst (fun f _ => f) fb t.body).stop then .linear else t.kind) =
        TraceKind.loop → t.kind = .loop := by
      split
      · intro h
        cases h
      · exact id
    split
    case isTrue => exact .of_rewrite stepShape hk
    case isFalse => exact .of_kind hk

theorem Licm.run_reshapes : t.Reshapes (Licm.run t).1 := by
  rcases run_cases t with h | ⟨H, N, hs, h⟩
  · rw [h]
    exact .refl t
  · rw [h]
    have hm : ∀ i ∈ H, i.hasSideEffects = false := fun i hi => (hs.movable i hi).hasSideEffects
    refine ⟨fun i hi v hv => ?_, fun ha hl => ?_, fun ht i hi => ht i (hs.subset_kept hi)⟩
    · simp only [moved, TraceIr.instrs, mem_append] at hi ⊢
      rcases hi with (hi | hi) | hi
      · exact ⟨i, .inl hi, hv⟩
      · exact ⟨i, .inr (hs.subset_hoisted hi), hv⟩
      · exact ⟨i, .inr (hs.subset_kept hi), hv⟩
    · obtain ⟨i, hi, hx⟩ := ha hl
      refine ⟨i, (hs.mem_or_mem hi).resolve_left fun hi => ?_, hx⟩
      simp [anchors_eq_false (hm i hi)] at hx

theorem FlagElim.run_reshapes : t.Reshapes (FlagElim.run t).1 := by
  rcases run_cases t with h | h
  · rw [h]
    exact .refl t
  · rw [h]
    exact .of_within rfl eliminated_within eliminated_within
      fun ⟨i, hi, ha⟩ => eliminated_anchors FlagSet.alu_has hi ha

theorem StrengthReduction.masked_reshapes : t.Reshapes (masked t) := by
  obtain ⟨K, U, K', U', -, -, hp, hb⟩ := masked_parts (default : Tier1Bus Unit) t
  exact .of_within rfl hp.within hb.within hb.anchors

theorem StrengthReduction.run_reshapes : t.Reshapes (StrengthReduction.run t).1 := by
  exact (masked_reshapes t).trans
    (.of_rewrite (inPlace (default : Tier1Bus Unit) _).stepShape id)

theorem Cse.run_enters : (Cse.run t).1.Enters := by
  have hout : ∀ f i, ∀ j ∈ (processInst f i).out, j.isSideExit = true → i.isSideExit = true := by
    intro f i j hj he
    cases i
    all_goals
      simp only [processInst, shareExpr, keep] at hj
      grind [Instr.isSideExit]
  unfold run
  dsimp only
  split
  case isTrue => exact fun h => by cases h
  case isFalse hs =>
    have hx : ∀ i ∈ t.prologue, i.isSideExit = false := fun i hi => by
      obtain ⟨g, hg⟩ := stop_of_rewrite (Bool.eq_false_iff.mpr hs) i hi
      cases i <;> first | rfl | cases hg
    split
    case isTrue =>
      intro _ j hj
      obtain ⟨i, hi, g, hg⟩ := mem_out_rewrite hj
      simpa [hx i hi] using hout g i j hg
    case isFalse => exact fun _ => hx

theorem Dce.truncateAfterSideExit_reshapes (he : t.Enters) :
    t.Reshapes (truncateAfterSideExit t).1 := by
  unfold truncateAfterSideExit
  split
  case h_1 pos h =>
    obtain ⟨hlt, hx, -⟩ := findIdx?_eq_some_iff_getElem.mp h
    have hl : t.kind ≠ .loop := fun hl => by
      simp [he hl _ (getElem_mem hlt)] at hx
    exact ⟨Reshapes.defs_of_parts (fun i hi _ hv => ⟨i, mem_of_mem_take hi, hv⟩) (by simp),
      fun _ h => absurd h hl, fun _ => by simp [TraceIr.Idle]⟩
  case h_2 =>
    split
    case h_1 pos h =>
      obtain ⟨hlt, hx, -⟩ := findIdx?_eq_some_iff_getElem.mp h
      refine ⟨Reshapes.defs_of_parts (fun i hi _ hv => ⟨i, hi, hv⟩)
        (fun i hi _ hv => ⟨i, mem_of_mem_take hi, hv⟩), fun _ _ => ?_,
        fun h i hi => h i (mem_of_mem_take hi)⟩
      exact ⟨t.body[pos], mem_take_iff_getElem.mpr ⟨pos, by omega, rfl⟩,
        Instr.anchors_of_isSideExit hx⟩
    case h_2 => exact .refl t

theorem Dce.swept_reshapes : t.Reshapes (swept t) := by
  have hw : ∀ live is, ∀ j ∈ (keepList live is).1, ∃ i ∈ is, i.Within j := fun live is j hj =>
    ⟨j, (keepList_sublist live is).subset hj, (Instr.Keeps.refl j).toWithin⟩
  refine .of_within rfl (hw _ _) (hw _ _) fun ⟨i, hi, ha⟩ => ⟨i, mem_keepList hi ?_, ha⟩
  exact Bool.of_not_eq_false fun h => by simp [anchors_eq_false h] at ha

theorem Dce.run_reshapes (he : t.Enters) : t.Reshapes (Dce.run t).1 := by
  rw [run_eq]
  exact (truncateAfterSideExit_reshapes t he).trans (swept_reshapes _)

theorem Dce.run_body_of_idle (he : t.Enters) (h : t.Idle) : (Dce.run t).1.body = [] := by
  have hi := (truncateAfterSideExit_reshapes t he).idle h
  rw [run_eq, swept, keepList_of_effects hi]

end Passes

end Aero.Tier2
