import Aero.Tier2.Opt.Basic
import Aero.Tier2.Opt.Theorems.Cse
import Aero.Tier2.Opt.Theorems.Dce
import Aero.Tier2.Opt.Theorems.FlagElim
import Aero.Tier2.Opt.Theorems.Licm
import Aero.Tier2.Opt.Theorems.SelectMul
import Aero.Tier2.Opt.Theorems.ValueCompact

namespace Aero.Tier2

open ValueCompact

structure TraceIr.Refines (t t' : TraceIr) : Prop where
  agrees : ∀ {β : Type} (bus : Tier1Bus β), t.Agrees bus t'
  wellScoped : t'.WellScoped

namespace TraceIr.Refines

theorem refl {t : TraceIr} (h : t.WellScoped) : t.Refines t :=
  ⟨fun _ => .refl t, h⟩

theorem trans {t₁ t₂ t₃ : TraceIr} (h₁ : t₁.Refines t₂) (h₂ : t₂.Refines t₃) : t₁.Refines t₃ :=
  ⟨fun bus => (h₁.agrees bus).trans (h₂.agrees bus), h₂.wellScoped⟩

theorem runTrace_eq (h : t.Refines t') (bus : Tier1Bus β) (m : Machine β)
    (hm : m.cpu.rflags.getLsbD 1 = true) (hn : 1 ≤ n) :
    (runTrace bus t' m n).1 = (runTrace bus t m n).1 ∧
    (runTrace bus t' m n).2.2 = (runTrace bus t m n).2.2 := by
  have ⟨he, hc⟩ := (h.agrees bus).run m hm n hn
  have ⟨h₁, h₂⟩ := runTrace_eq_core bus t m hm n
  have ⟨h₁', h₂'⟩ := runTrace_eq_core bus t' m hm n
  rw [h₁, h₁', h₂, h₂']
  exact ⟨he.symm, hc.symm⟩

end TraceIr.Refines

def Pass.Sound (p : Pass) : Prop :=
  ∀ t : TraceIr, t.WellScoped → t.Refines (p t).1

theorem passes_sound : ∀ p ∈ passes, Pass.Sound p := by
  simp only [passes, List.forall_mem_cons]
  exact ⟨fun _ ht => ⟨fun _ => AddrSimplify.run_agrees ht, AddrSimplify.run_wellScoped ht⟩,
    fun _ ht => ⟨fun _ => Licm.run_agrees ht, Licm.run_wellScoped ht⟩,
    fun _ ht => ⟨fun _ => FlagElim.run_agrees _, FlagElim.run_wellScoped ht⟩,
    fun _ ht => ⟨fun _ => BooleanSimplify.run_agrees ht, BooleanSimplify.run_wellScoped ht⟩,
    fun _ ht => ⟨fun _ => ConstFold.run_agrees ht, ConstFold.run_wellScoped ht⟩,
    fun _ ht => ⟨fun _ => StrengthReduction.run_agrees ht, StrengthReduction.run_wellScoped ht⟩,
    fun _ ht => ⟨fun _ => Cse.run_agrees ht, Cse.run_wellScoped ht⟩,
    fun _ ht => ⟨fun _ => Dce.run_agrees ht, Dce.run_wellScoped ht⟩, by simp⟩

theorem runPasses_sound (h : ∀ p ∈ ps, Pass.Sound p) : Pass.Sound (runPasses ps) := by
  induction ps
  case nil => exact fun _ ht => .refl ht
  case cons p ps ih =>
    intro t ht
    have ⟨hp, hps⟩ := List.forall_mem_cons.mp h
    have h₁ := hp t ht
    exact h₁.trans (ih hps _ h₁.wellScoped)

theorem valueCompact_sound : Pass.Sound run :=
  fun _ ht => ⟨fun _ => run_agrees _, run_wellScoped ht⟩

section Optimize

-- The trace that the fixed-point iteration ends with, whether or not it is verified on the way.
def iterated : Nat → TraceIr → TraceIr
  | 0,     t => t
  | n + 1, t =>
    let (t, changed) := runPasses passes t
    if changed then iterated n t else t

def optimized (t : TraceIr) (cfg : OptConfig) : TraceIr :=
  (ValueCompact.run (iterated cfg.maxIters (ValueCompact.run t).1)).1

variable {dbg : Bool} {t t' : TraceIr} {r : OptResult} {cfg : OptConfig}

theorem iterated_eq (n : Nat) (t : TraceIr) : iterated (n + 1) t =
    if (runPasses passes t).2 then iterated n (runPasses passes t).1 else (runPasses passes t).1 := by
  rw [iterated]

theorem iterated_refines (n : Nat) (ht : t.WellScoped) : t.Refines (iterated n t) := by
  induction n generalizing t
  case zero => exact .refl ht
  case succ n ih =>
    have h := runPasses_sound passes_sound t ht
    rw [iterated_eq]
    generalize runPasses passes t = r at h
    split
    case isTrue => exact h.trans (ih h.wellScoped)
    case isFalse => exact h

theorem optimized_refines (ht : t.WellScoped) (cfg : OptConfig) : t.Refines (optimized t cfg) := by
  have h₁ := valueCompact_sound t ht
  have h₂ := iterated_refines cfg.maxIters h₁.wellScoped
  exact h₁.trans (h₂.trans (valueCompact_sound _ h₂.wellScoped))

theorem iteratePasses_eq (dbg : Bool) (n : Nat) (t : TraceIr) :
    iteratePasses dbg (n + 1) t = (verifyAt dbg .postOptIter (runPasses passes t).1 >>= fun _ =>
      if (runPasses passes t).2 then iteratePasses dbg n (runPasses passes t).1
      else .ok (runPasses passes t).1) := by
  rw [iteratePasses]

theorem eq_iterated_of_ok (h : iteratePasses dbg n t = .ok t') : t' = iterated n t := by
  induction n generalizing t
  case zero => cases h; rfl
  case succ n ih =>
    rw [iteratePasses_eq, Except.bind_unit_eq_ok_iff] at h
    rw [iterated_eq]
    have ⟨_, h⟩ := h
    generalize runPasses passes t = r at h
    split at h
    case isTrue hc => rw [if_pos hc, ih h]
    case isFalse hc => rw [if_neg hc]; cases h; rfl

theorem eq_optimized_of_ok (h : optimizeTrace dbg t cfg = .ok (t', r)) : t' = optimized t cfg := by
  simp only [optimizeTrace, Except.bind_eq_ok_iff] at h
  obtain ⟨_, _, _, _, t₁, hi, _, _, _, _, _, _, h⟩ := h
  cases h
  rw [eq_iterated_of_ok hi, optimized]

theorem iteratePasses_release (n : Nat) (t : TraceIr) :
    iteratePasses false n t = .ok (iterated n t) := by
  induction n generalizing t
  case zero => rfl
  case succ n ih =>
    rw [iteratePasses_eq, iterated_eq]
    generalize runPasses passes t = r
    rw [ih]
    split <;> rfl

theorem optimizeTrace_release (t : TraceIr) (cfg : OptConfig) :
    ∃ r, optimizeTrace false t cfg = .ok (optimized t cfg, r) := by
  refine ⟨{ regalloc := RegAlloc.run (optimized t cfg) }, ?_⟩
  simp only [optimizeTrace, iteratePasses_release]
  rfl

-- Whatever the build and the configuration, the optimized trace leaves every run with the exit, the
-- registers, the flags, the memory, the accesses to the bus and the page versions of the original.
theorem optimizeTrace_sound (t : TraceIr) (ht : verifyTrace t = .ok ()) (cfg : OptConfig) :
    (∃ r, optimizeTrace false t cfg = .ok r) ∧
    ∀ dbg t' r, optimizeTrace dbg t cfg = .ok (t', r) →
      ∀ {β : Type} (bus : Tier1Bus β) (m : Machine β) (n : Nat),
        1 ≤ n → m.cpu.rflags.getLsbD 1 = true →
        (runTrace bus t' m n).1 = (runTrace bus t m n).1 ∧
        (runTrace bus t' m n).2.2 = (runTrace bus t m n).2.2 := by
  have ⟨r, hr⟩ := optimizeTrace_release t cfg
  refine ⟨⟨_, hr⟩, fun dbg t' r h β bus m n hn hm => ?_⟩
  have hs := (verifyTrace_ok_iff.mp ht).2
  rw [eq_optimized_of_ok h]
  exact (optimized_refines hs cfg).runTrace_eq bus m hm hn

-- A loop that counts a register down to zero.
def countdown : TraceIr where
  prologue := []
  body := [ .loadReg 3 .rcx, .const 9 1, .binOp 5 .sub (.value 3) (.value 9) .zfSet,
    .storeReg .rcx (.value 5), .guard (.value 5) true 0x40 ]
  kind := .loop

def countdownMachine : Machine Unit where
  cpu := { gpr := fun _ => 2, rip := 0x10, rflags := 2 }
  pageVersions := .new 1
  bus := ()
  log := []

theorem optimizeTrace_sound_countdown :
    verifyTrace countdown = .ok () ∧ countdownMachine.cpu.rflags.getLsbD 1 = true ∧
    ∃ r, optimizeTrace false countdown {} = .ok (optimized countdown {}, r) ∧
      (runTrace default (optimized countdown {}) countdownMachine 3).1 =
        (runTrace default countdown countdownMachine 3).1 ∧
      (runTrace default (optimized countdown {}) countdownMachine 3).2.2 =
        (runTrace default countdown countdownMachine 3).2.2 := by
  have ⟨r, hr⟩ := optimizeTrace_release countdown {}
  exact ⟨by decide, by decide, r, hr, (optimizeTrace_sound countdown (by decide) {}).2 false _ r hr
    default countdownMachine 3 (by decide) (by decide)⟩

end Optimize

theorem any_order_sound {t : TraceIr} (ht : verifyTrace t = .ok ()) (ps : List Pass)
    (hps : ∀ p ∈ ps, p = ValueCompact.run ∨ p ∈ passes) {β : Type} (bus : Tier1Bus β) (m : Machine β)
    (hm : m.cpu.rflags.getLsbD 1 = true) (hn : 1 ≤ n) :
    (runTrace bus (runPasses ps t).1 m n).1 = (runTrace bus t m n).1 ∧
    (runTrace bus (runPasses ps t).1 m n).2.2 = (runTrace bus t m n).2.2 := by
  have hsound : ∀ p ∈ ps, Pass.Sound p := by
    intro p hp
    rcases hps p hp with rfl | hp
    · exact valueCompact_sound
    · exact passes_sound p hp
  exact (runPasses_sound hsound t (verifyTrace_ok_iff.mp ht).2).runTrace_eq bus m hm hn

theorem any_order_sound_twice :
    (runTrace default (runPasses [Cse.run, ValueCompact.run, Licm.run, Cse.run] countdown).1
      countdownMachine 3).2.2 = (runTrace default countdown countdownMachine 3).2.2 :=
  (any_order_sound (t := countdown) (by decide) _ (by simp [passes]) default countdownMachine
    (by decide) (by decide)).2

end Aero.Tier2
