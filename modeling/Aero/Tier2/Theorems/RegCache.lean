import Aero.Tier2.Interp

namespace Aero.Tier2

open ExecState Function Bool

variable {β : Type} {s t : ExecState β} {gpr regs : Gpr → U64} {c : RegCache} {r : Gpr}

-- The cache over the registers `gpr` of the CPU holds the registers `regs`: a register that is not
-- in its local is in the CPU, and one that is dirty will be written back.
structure RegCache.Holds (c : RegCache) (gpr regs : Gpr → U64) : Prop where
  dirty : ∀ r, c.dirty r = true → c.cached r = true ∧ c.valid r = true
  clean : ∀ r, c.dirty r = false → gpr r = regs r
  locals : ∀ r, c.cached r = true → c.valid r = true → c.locals r = regs r

def RegCache.Clean (c : RegCache) : Prop :=
  ∀ r, c.dirty r = false

namespace RegCache.Holds

theorem new (cached : Gpr → Bool) (gpr : Gpr → U64) : (new cached).Holds gpr gpr where
  dirty _ h := absurd h false_ne_true
  clean _ _ := rfl
  locals _ _ h := absurd h false_ne_true

section

variable (h : c.Holds gpr regs)
include h

theorem eq_of_clean (hc : c.Clean) : gpr = regs :=
  funext fun r => h.clean r (hc r)

theorem clean_of_not_valid (hv : c.valid r = false) : c.dirty r = false := by
  by_contra hd
  exact absurd (h.dirty r (of_not_eq_false hd)).2 (hv ▸ false_ne_true)

theorem clean_of_not_cached (hv : c.cached r = false) : c.dirty r = false := by
  by_contra hd
  exact absurd (h.dirty r (of_not_eq_false hd)).1 (hv ▸ false_ne_true)

theorem load (hv : c.valid r = false) :
    Holds { c with
      locals := update c.locals r (gpr r)
      valid := update c.valid r true } gpr regs where
  dirty r' hd := by
    refine ⟨(h.dirty r' hd).1, ?_⟩
    by_cases hr : r' = r
    · simp [hr]
    · simp [hr, (h.dirty r' hd).2]
  clean := h.clean
  locals r' hc hv' := by
    by_cases hr : r' = r
    · subst hr
      simpa using h.clean r' (h.clean_of_not_valid hv)
    · simpa [hr] using h.locals r' hc (by simpa [hr] using hv')

theorem write (hc : c.cached r = true) :
    Holds { c with
      locals := update c.locals r v
      valid := update c.valid r true
      dirty := update c.dirty r true } gpr (update regs r v) where
  dirty r' hd := by
    by_cases hr : r' = r
    · subst hr
      simp [hc]
    · simpa [hr] using h.dirty r' (by simpa [hr] using hd)
  clean r' hd := by
    have hr : r' ≠ r := by
      rintro rfl
      simp at hd
    simpa [hr] using h.clean r' (by simpa [hr] using hd)
  locals r' hc' hv := by
    by_cases hr : r' = r
    · subst hr
      simp
    · simpa [hr] using h.locals r' hc' (by simpa [hr] using hv)

theorem writeThrough (hc : c.cached r = false) :
    c.Holds (update gpr r v) (update regs r v) where
  dirty := h.dirty
  clean r' hd := by
    by_cases hr : r' = r
    · simp [hr]
    · simpa [hr] using h.clean r' hd
  locals r' hc' hv := by
    have hr : r' ≠ r := by
      rintro rfl
      simp [hc] at hc'
    simpa [hr] using h.locals r' hc' hv

theorem writeBack (hc : c.cached r = true) (hd : c.dirty r = true) :
    Holds { c with dirty := update c.dirty r false }
      (update gpr r (c.locals r)) regs where
  dirty r' hd' := by
    have hr : r' ≠ r := by
      rintro rfl
      simp at hd'
    exact h.dirty r' (by simpa [hr] using hd')
  clean r' hd' := by
    by_cases hr : r' = r
    · subst hr
      simpa using h.locals r' hc (h.dirty r' hd).2
    · simpa [hr] using h.clean r' (by simpa [hr] using hd')
  locals := h.locals

end

end RegCache.Holds

-- The state of a run with a cache that stands for the state of a run without one.
def ExecState.cachedBy (s : ExecState β) (gpr : Gpr → U64) (stats : ExecStats) (c : RegCache) :
    ExecState β :=
  { s with machine.cpu.gpr := gpr, stats, regCache := some c }

structure Mirrors (s t : ExecState β) : Prop where
  uncached : s.regCache = none
  cached : ∃ gpr stats c, c.Holds gpr s.machine.cpu.gpr ∧ t = s.cachedBy gpr stats c

def Spilled (t : ExecState β) : Prop :=
  ∃ c, t.regCache = some c ∧ c.Clean

namespace Mirrors

section

variable (h : Mirrors s t)
include h

theorem machine_eq (ht : Spilled t) : t.machine = s.machine := by
  obtain ⟨-, gpr, stats, c, hc, rfl⟩ := h
  obtain ⟨c', hc', hclean⟩ := ht
  cases hc'
  rw [cachedBy, hc.eq_of_clean hclean]

theorem readReg (r : Gpr) :
    (t.readReg r).1 = (s.readReg r).1 ∧ Mirrors (s.readReg r).2 (t.readReg r).2 := by
  obtain ⟨hs, gpr, stats, c, hc, rfl⟩ := h
  have hplain : s.readReg r =
      (s.machine.cpu.gpr r, { s with stats.regLoads := s.stats.regLoads + 1 }) := by
    rw [readReg, hs]
  rw [hplain, readReg]
  simp only [cachedBy]
  cases hcached : c.cached r
  case false => exact ⟨hc.clean r (hc.clean_of_not_cached hcached), hs, gpr, _, c, hc, rfl⟩
  case true =>
    cases hvalid : c.valid r
    case false =>
      exact ⟨hc.clean r (hc.clean_of_not_valid hvalid), hs, gpr, _, _, hc.load hvalid, rfl⟩
    case true => exact ⟨hc.locals r hcached hvalid, hs, gpr, _, c, hc, rfl⟩

theorem writeReg (r : Gpr) (v : U64) : Mirrors (s.writeReg r v) (t.writeReg r v) := by
  obtain ⟨hs, gpr, stats, c, hc, rfl⟩ := h
  have hplain : s.writeReg r v =
      ({ s with stats.regStores := s.stats.regStores + 1 } : ExecState β).setGpr r v := by
    rw [writeReg, hs]
  rw [hplain, writeReg]
  simp only [cachedBy]
  cases hcached : c.cached r
  case false => exact ⟨hs, _, _, c, hc.writeThrough hcached, rfl⟩
  case true => exact ⟨hs, gpr, _, _, hc.write hcached, rfl⟩

theorem spillReg (ht : t.regCache = some c) (r : Gpr) :
    Mirrors s (t.spillReg r) ∧ ∃ c', (t.spillReg r).regCache = some c' ∧
      ∀ r', c'.dirty r' = true → c.dirty r' = true ∧ r' ≠ r := by
  obtain ⟨hs, gpr, stats, c₀, hc, rfl⟩ := h
  cases ht
  rw [spillReg]
  simp only [cachedBy]
  cases hd : c.cached r && c.dirty r
  case false =>
    refine ⟨⟨hs, gpr, stats, c, hc, rfl⟩, c, rfl, fun r' hr' => ⟨hr', ?_⟩⟩
    rintro rfl
    rw [(hc.dirty r' hr').1, hr'] at hd
    cases hd
  case true =>
    rw [and_eq_true] at hd
    refine ⟨⟨hs, _, _, _, hc.writeBack hd.1 hd.2, rfl⟩, _, rfl, fun r' hr' => ?_⟩
    have hne : r' ≠ r := by
      rintro rfl
      simp at hr'
    exact ⟨by simpa [hne] using hr', hne⟩

theorem spillRegs (ht : t.regCache = some c) (rs : List Gpr) :
    Mirrors s (rs.foldl ExecState.spillReg t) ∧
      ∃ c', (rs.foldl ExecState.spillReg t).regCache = some c' ∧
        ∀ r, c'.dirty r = true → c.dirty r = true ∧ r ∉ rs := by
  induction rs generalizing t c
  case nil => exact ⟨h, c, ht, fun r hr => ⟨hr, List.not_mem_nil⟩⟩
  case cons r rs ih =>
    obtain ⟨h₁, c₁, hc₁, hd₁⟩ := h.spillReg ht r
    obtain ⟨h₂, c₂, hc₂, hd₂⟩ := ih h₁ hc₁
    refine ⟨h₂, c₂, hc₂, fun r' hr' => ?_⟩
    obtain ⟨hdirty, hmem⟩ := hd₂ r' hr'
    obtain ⟨hdirty, hne⟩ := hd₁ r' hdirty
    exact ⟨hdirty, fun hin => (List.mem_cons.mp hin).elim hne hmem⟩

theorem spill : Mirrors s t.spill ∧ Spilled t.spill := by
  obtain ⟨c, hc⟩ : ∃ c, t.regCache = some c := by
    obtain ⟨-, gpr, stats, c, -, rfl⟩ := h
    exact ⟨c, rfl⟩
  obtain ⟨h', c', hc', hd⟩ := h.spillRegs hc allRegs
  refine ⟨h', c', hc', fun r => eq_false_iff.mpr fun hr => (hd r hr).2 ?_⟩
  cases r <;> decide

end

end Mirrors

def Left (s t : ExecState β) : Prop :=
  Mirrors s t ∧ Spilled t

theorem Mirrors.leave (h : Mirrors s t) (rip : U64) :
    Left (s.spill.setRip rip) (t.spill.setRip rip) := by
  rw [spill_of_noCache h.uncached]
  obtain ⟨⟨hs, gpr, stats, c, hc, heq⟩, c', hc', hclean⟩ := h.spill
  refine ⟨⟨hs, gpr, stats, c, hc, ?_⟩, c', hc', hclean⟩
  rw [heq]
  rfl

section Run

open Straight

variable (bus : Tier1Bus β)

theorem execInstr_mirrors (inst : Instr) (s t : ExecState β) (h : Mirrors s t) :
    Related Mirrors Left (execInstr bus inst s) (execInstr bus inst t) := by
  cases inst
  case loadReg dst reg =>
    obtain ⟨heq, hs, gpr, stats, c, hc, ht⟩ := h.readReg reg
    simp only [execInstr]
    rw [heq, ht]
    exact .running ⟨hs, gpr, stats, c, hc, rfl⟩
  case storeReg reg src =>
    have heval : t.evalOperand src = s.evalOperand src := by
      obtain ⟨-, gpr, stats, c, -, rfl⟩ := h
      cases src <;> rfl
    simp only [execInstr]
    rw [heval]
    exact .running (h.writeReg reg _)
  case sideExit rip => exact .exited (h.leave rip)
  case guard cond expected rip =>
    have heval : t.evalOperand cond = s.evalOperand cond := by
      obtain ⟨-, gpr, stats, c, -, rfl⟩ := h
      cases cond <;> rfl
    simp only [execInstr]
    rw [heval]
    split
    · exact .exited (h.leave rip)
    · exact .running h
  case guardCodeVersion page expected rip =>
    have hversions : t.machine.pageVersions = s.machine.pageVersions := by
      obtain ⟨-, gpr, stats, c, -, rfl⟩ := h
      rfl
    simp only [execInstr]
    rw [hversions]
    split
    · exact .exited (h.leave rip)
    · exact .running h
  case binOp dst op lhs rhs flags =>
    obtain ⟨hs, gpr, stats, c, hc, rfl⟩ := h
    have heval : ∀ o, (s.cachedBy gpr stats c).evalOperand o = s.evalOperand o :=
      fun o => by cases o <;> rfl
    simp only [execInstr]
    split
    · exact .running ⟨hs, gpr, stats, c, hc, rfl⟩
    · exact .running ⟨hs, gpr, stats, c, hc, rfl⟩
  all_goals
    obtain ⟨hs, gpr, stats, c, hc, rfl⟩ := h
    exact .running ⟨hs, gpr, _, c, hc, rfl⟩

-- The end of the loop: at its own end the registers are still to be spilled.
inductive Ended : ExecState β × RunExit → ExecState β × RunExit → Prop
  | returned {s t : ExecState β} : Mirrors s t → Ended (s, .returned) (t, .returned)
  | stepLimit {s t : ExecState β} : Mirrors s t → Ended (s, .stepLimit) (t, .stepLimit)
  | left {s t : ExecState β} {exit : RunExit} : Left s t → Ended (s, exit) (t, exit)

theorem runLoop_ended (body : List Instr) (repeats : Bool) (n : Nat) (h : Mirrors s t) :
    Ended (runLoop (execInstr bus) body repeats .returned .stepLimit n s)
      (runLoop (execInstr bus) body repeats .returned .stepLimit n t) := by
  induction n generalizing s t
  case zero => exact .stepLimit h
  case succ n ih =>
    have hbody : Related Mirrors Left (execList (execInstr bus) body s) (execList (execInstr bus) body t) :=
      execList_related (execInstr_mirrors bus) h
    rw [runLoop, runLoop]
    generalize execList (execInstr bus) body s = p at hbody
    generalize execList (execInstr bus) body t = q at hbody
    cases hbody
    case running hrun =>
      cases repeats
      case false => exact .returned hrun
      case true => exact ih hrun
    case exited hleft => exact .left hleft

theorem machine_of_ended {p q : ExecState β × RunExit} (h : Ended p q) :
    q.2 = p.2 ∧ (match q.2 with
      | .returned | .stepLimit => q.1.spill
      | .sideExit _ | .invalidate _ => q.1).machine =
      (match p.2 with
      | .returned | .stepLimit => p.1.spill
      | .sideExit _ | .invalidate _ => p.1).machine := by
  have hspill {s t : ExecState β} (h : Mirrors s t) : t.spill.machine = s.spill.machine := by
    rw [spill_of_noCache h.uncached]
    exact h.spill.1.machine_eq h.spill.2
  cases h
  case returned h => exact ⟨rfl, hspill h⟩
  case stepLimit h => exact ⟨rfl, hspill h⟩
  case left s t exit h =>
    refine ⟨rfl, ?_⟩
    cases exit
    case returned => exact hspill h.1
    case stepLimit => exact hspill h.1
    case sideExit => exact h.1.machine_eq h.2
    case invalidate => exact h.1.machine_eq h.2

theorem runTraceWithCachedRegs_eq (trace : TraceIr) (machine : Machine β) (maxIters : Nat)
    (cachedRegs : Gpr → Bool) :
    (runTraceWithCachedRegs bus trace machine maxIters cachedRegs).1 =
      (runTrace bus trace machine maxIters).1 ∧
    (runTraceWithCachedRegs bus trace machine maxIters cachedRegs).2.2 =
      (runTrace bus trace machine maxIters).2.2 := by
  have hstart : Mirrors (⟨machine, fun _ => 0, {}, none⟩ : ExecState β)
      ⟨machine, fun _ => 0, {}, some (.new cachedRegs)⟩ :=
    ⟨rfl, _, _, _, .new cachedRegs _, rfl⟩
  have hprologue : Related Mirrors Left (execList (execInstr bus) trace.prologue _) _ :=
    execList_related (execInstr_mirrors bus) hstart
  rw [runTraceWithCachedRegs, runTrace, runTraceInner, runTraceInner]
  simp only [execInstrs]
  generalize execList (execInstr bus) trace.prologue ⟨machine, fun _ => 0, {}, none⟩ = p at hprologue
  generalize execList (execInstr bus) trace.prologue ⟨machine, fun _ => 0, {}, _⟩ = q at hprologue
  cases hprologue
  case exited h => exact ⟨rfl, h.1.machine_eq h.2⟩
  case running h => exact machine_of_ended (runLoop_ended bus trace.body _ maxIters h)

end Run

end Aero.Tier2
