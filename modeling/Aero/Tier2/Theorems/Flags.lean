import Aero.Tier2.Core

namespace Aero.Tier2

open BitVec

theorem getLsbD_one_shiftLeft (hn : n < 64) (i : Nat) :
    (1#64 <<< n).getLsbD i = decide (i = n) := by
  by_cases hi : i < 64
  case pos =>
    simp only [getLsbD_shiftLeft, hi, decide_true]
    by_cases h : i = n
    case pos => simp [h]
    case neg =>
      by_cases hlt : i < n
      case pos => simp [hlt, h]
      case neg =>
        have : i - n ≠ 0 := by omega
        simp [h, this]
  case neg =>
    rw [getLsbD_of_ge _ _ (by omega), eq_comm, decide_eq_false_iff_not]
    omega

theorem and_one_bne_zero (x : U64) : (x &&& 1#64 != 0#64) = x.getLsbD 0 := by
  rw [and_one_eq_setWidth_ofBool_getLsbD]
  cases x.getLsbD 0 <;> rfl

theorem getFlag_eq (rflags : U64) (f : Flag) : getFlag rflags f = rflags.getLsbD f.rflagsBit := by
  simpa [getFlag] using and_one_bne_zero (rflags >>> f.rflagsBit)

theorem setFlag_getLsbD (rflags : U64) (f : Flag) (v : Bool) (i : Nat) :
    (setFlag rflags f v).getLsbD i = if i = f.rflagsBit then v else rflags.getLsbD i := by
  have hb := getLsbD_one_shiftLeft f.rflagsBit_lt i
  cases v
  case false =>
    simp only [setFlag, Bool.false_eq_true, if_false, getLsbD_and, getLsbD_not, hb]
    by_cases h : i = f.rflagsBit
    case pos => simp [h]
    case neg =>
      by_cases hi : i < 64
      case pos => simp [h, hi]
      case neg => simp [getLsbD_of_ge _ i (Nat.le_of_not_lt hi)]
  case true =>
    simp only [setFlag, if_true, getLsbD_or, hb]
    by_cases h : i = f.rflagsBit <;> simp [h]

theorem applyFlagSet_getLsbD_flag (rflags : U64) (mask : FlagSet) (v : FlagValues) (f : Flag) :
    (applyFlagSet rflags mask v).getLsbD f.rflagsBit =
      if mask.has f then v.get f else rflags.getLsbD f.rflagsBit := by
  have hr : rflagsReserved1.getLsbD f.rflagsBit = false := by cases f <;> decide
  have hs : ∀ (r : U64) g, (if mask.has g then setFlag r g (v.get g) else r).getLsbD
      f.rflagsBit = if mask.has g ∧ f = g then v.get g else r.getLsbD f.rflagsBit := by
    intro r g
    by_cases hg : mask.has g
    case pos =>
      have : f.rflagsBit = g.rflagsBit ↔ f = g := Flag.rflagsBit_injective.eq_iff
      simp [hg, setFlag_getLsbD, this]
    case neg => simp [hg]
  simp only [applyFlagSet, FlagSet.contains_flagToSet, List.foldl_cons, List.foldl_nil,
    getLsbD_or, hr, hs]
  cases f <;> simp

theorem applyFlagSet_getLsbD_other (rflags : U64) (mask : FlagSet) (v : FlagValues) (hi : i ≠ 1)
    (hf : ∀ f : Flag, i ≠ f.rflagsBit) :
    (applyFlagSet rflags mask v).getLsbD i = rflags.getLsbD i := by
  have hr : rflagsReserved1.getLsbD i = false := by
    rw [rflagsReserved1, getLsbD_one_shiftLeft (by decide)]
    simp [hi]
  have hs : ∀ (r : U64) g,
      (if mask.has g then setFlag r g (v.get g) else r).getLsbD i = r.getLsbD i := by
    intro r g
    split
    · simp [setFlag_getLsbD, hf g]
    · rfl
  simp [applyFlagSet, hr, hs]

theorem rflags_ext {r r' : U64} (hf : ∀ f : Flag, r.getLsbD f.rflagsBit = r'.getLsbD f.rflagsBit)
    (h₁ : r.getLsbD 1 = r'.getLsbD 1)
    (ho : ∀ i, i ≠ 1 → (∀ f : Flag, i ≠ f.rflagsBit) → r.getLsbD i = r'.getLsbD i) : r = r' := by
  apply eq_of_getLsbD_eq
  intro i _
  by_cases hi : i = 1
  case pos => exact hi ▸ h₁
  case neg =>
    by_cases h : ∃ f : Flag, i = f.rflagsBit
    case pos => exact h.choose_spec ▸ hf h.choose
    case neg => exact ho i hi (not_exists.mp h)

theorem Core.applyFlags_of_isEmpty (c : Core β) (h : mask.isEmpty = true) (v : FlagValues) :
    c.applyFlags mask v = c := by
  have hm := FlagSet.isEmpty_iff.mp h
  have hr : applyFlagSet c.machine.cpu.rflags mask v = c.machine.cpu.rflags := by
    refine rflags_ext (fun f => ?_) ?_ fun i => applyFlagSet_getLsbD_other _ _ _
    · simp [applyFlagSet_getLsbD_flag, hm]
    · rw [applyFlagSet_reserved, c.reserved]
  simp [applyFlags, hr]

end Aero.Tier2
