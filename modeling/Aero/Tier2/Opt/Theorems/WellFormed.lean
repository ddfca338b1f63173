import Aero.Tier2.Opt.Theorems.Basic
import Aero.Tier2.Opt.Theorems.Shape
import Aero.Tier2.Theorems.Validate

namespace Aero.Tier2

open ValueCompact List TraceIr

section Dce

variable {is : List Instr}

theorem exitLast_take (h : is.findIdx? Instr.isSideExit = some pos) :
    ExitLast (is.take (pos + 1)) := by
  obtain ⟨hlt, -, hn⟩ := findIdx?_eq_some_iff_getElem.mp h
  intro i hi
  obtain ⟨j, hj, rfl⟩ := mem_iff_getElem.mp hi
  simp only [length_dropLast, length_take] at hj
  simp only [getElem_dropLast, getElem_take]
  exact Bool.not_eq_true _ ▸ hn j (by omega)

theorem Dce.truncateAfterSideExit_exitsLast (t : TraceIr) :
    (truncateAfterSideExit t).1.ExitsLast := by
  unfold truncateAfterSideExit
  split
  case h_1 h => exact ⟨exitLast_take h, by simp [ExitLast], fun _ _ _ => rfl⟩
  case h_2 hp =>
    have hx : ∀ i ∈ t.prologue, i.isSideExit = true → ∀ P : Prop, P := fun i hi hx => by
      simp [findIdx?_eq_none_iff.mp hp i hi] at hx
    split
    case h_1 hb =>
      exact ⟨exitLast_of_findIdx?_none hp, exitLast_take hb, fun i hi he => hx i hi he _⟩
    case h_2 hb =>
      exact ⟨exitLast_of_findIdx?_none hp, exitLast_of_findIdx?_none hb,
        fun i hi he => hx i hi he _⟩

theorem Dce.run_exitsLast (t : TraceIr) : (Dce.run t).1.ExitsLast := by
  rw [run_eq]
  have h := truncateAfterSideExit_exitsLast t
  refine ⟨h.prologue.sublist (keepList_sublist _ _), h.body.sublist (keepList_sublist _ _),
    fun i hi hx => ?_⟩
  simp only [swept, h.empty i ((keepList_sublist _ _).subset hi) hx]
  rfl

end Dce

section ValueCompact

open ValueCompact

theorem renameInst_keeps (rename : ValueId → ValueId) (i : Instr) :
    (renameInst rename i).hasSideEffects = i.hasSideEffects ∧
    (renameInst rename i).anchors = i.anchors ∧
    (renameInst rename i).isSideExit = i.isSideExit := by
  cases i <;> exact ⟨rfl, rfl, rfl⟩

theorem ValueCompact.run_eq_map (t : TraceIr) : ∃ g : Instr → Instr,
    (∀ i, (g i).hasSideEffects = i.hasSideEffects ∧ (g i).anchors = i.anchors ∧
      (g i).isSideExit = i.isSideExit) ∧
    (run t).1 = { t with prologue := t.prologue.map g, body := t.body.map g } := by
  rcases run_cases t with ⟨-, h⟩ | h
  · exact ⟨id, fun _ => ⟨rfl, rfl, rfl⟩, by simp [h]⟩
  · exact ⟨_, renameInst_keeps _, h⟩

theorem exitLast_map (hg : ∀ i, (g i).isSideExit = i.isSideExit) (h : ExitLast is) :
    ExitLast (is.map g) := by
  rw [exitLast_iff_pairwise, pairwise_map] at *
  exact h.imp fun hi => (hg _).trans hi

theorem ValueCompact.run_exitsLast (h : t.ExitsLast) : (run t).1.ExitsLast := by
  obtain ⟨g, hg, he⟩ := run_eq_map t
  have hx := fun i => (hg i).2.2
  rw [he]
  refine ⟨exitLast_map hx h.prologue, exitLast_map hx h.body, fun i hi hs => ?_⟩
  obtain ⟨j, hj, rfl⟩ := mem_map.mp hi
  rw [hx j] at hs
  simp [h.empty j hj hs]

theorem ValueCompact.run_anchored (h : t.Anchored) : (run t).1.Anchored := by
  obtain ⟨g, hg, he⟩ := run_eq_map t
  rw [he]
  intro hl
  obtain ⟨i, hi, ha⟩ := h hl
  exact ⟨g i, mem_map_of_mem hi, (hg i).2.1.trans ha⟩

theorem ValueCompact.run_idle (h : t.Idle) : (run t).1.Idle := by
  obtain ⟨g, hg, he⟩ := run_eq_map t
  rw [he]
  exact forall_mem_map.mpr fun i hi => (hg i).1.trans (h i hi)

theorem ValueCompact.run_kind (t : TraceIr) : (run t).1.kind = t.kind := by
  obtain ⟨g, -, he⟩ := run_eq_map t
  rw [he]

theorem ValueCompact.run_body_nil (t : TraceIr) : (run t).1.body = [] ↔ t.body = [] := by
  obtain ⟨g, -, he⟩ := run_eq_map t
  rw [he]
  simp

theorem ValueCompact.run_idsFit (ht : t.WellScoped) (h : IdsFit t.instrs) :
    IdsFit (run t).1.instrs := by
  rcases run_cases t with ⟨-, he⟩ | he
  · rwa [he]
  · rw [he]
    have hs := wellScoped_iff.mp ht
    have hlt : ∀ v ∈ buildMap t, v < maxValueId := fun v hv => by
      obtain ⟨i, hi, hv⟩ := mem_buildMap.mp hv
      rcases mem_append.mp hv with hv | hv
      · exact h i hi v (by simpa using hv)
      · obtain ⟨j, hj, hd⟩ := (mem_scopeAfter.mp (hs.uses_mem hi hv)).resolve_left (by simp)
        exact h j hj v hd
    have hlen : (buildMap t).length ≤ maxValueId := by
      have := (nodup_buildMap t).subperm fun v hv => mem_range.mpr (hlt v hv)
      simpa using this.length_le
    have hall : (renamed t).instrs = t.instrs.map (renameInst (buildMap t).idxOf) := by
      simp [renamed, instrs]
    rw [hall]
    refine forall_mem_map.mpr fun i hi v hv => ?_
    rw [renameInst_dst] at hv
    obtain ⟨w, hw, rfl⟩ := Option.map_eq_some_iff.mp hv
    have : w ∈ buildMap t := mem_buildMap.mpr ⟨i, hi, by simp [occurring, hw]⟩
    exact lt_of_lt_of_le (idxOf_lt_length_of_mem this) hlen

end ValueCompact

section Iteration

variable {t : TraceIr}

theorem runPasses_cons (p : Pass) (ps : List Pass) (t : TraceIr) :
    (runPasses (p :: ps) t).1 = (runPasses ps (p t).1).1 := rfl

theorem runPasses_append (ps qs : List Pass) (t : TraceIr) :
    (runPasses (ps ++ qs) t).1 = (runPasses qs (runPasses ps t).1).1 := by
  induction ps generalizing t
  case nil => rfl
  case cons p ps ih => exact ih (p t).1

-- All passes but the last two, which belong together: the first of these makes sure that the second
-- one does not empty a loop by dropping the code behind a side exit of the prologue.
def earlyPasses : List Pass :=
  [ AddrSimplify.run, Licm.run, FlagElim.run, BooleanSimplify.run, ConstFold.run,
    StrengthReduction.run ]

theorem runPasses_passes (t : TraceIr) :
    (runPasses passes t).1 = (Dce.run (Cse.run (runPasses earlyPasses t).1).1).1 := by
  have h : passes = earlyPasses ++ [Cse.run, Dce.run] := rfl
  rw [h, runPasses_append, runPasses_cons, runPasses_cons, runPasses]

theorem runPasses_reshapes (h : ∀ p ∈ ps, ∀ t : TraceIr, t.Reshapes (p t).1) (t : TraceIr) :
    t.Reshapes (runPasses ps t).1 := by
  induction ps generalizing t
  case nil => exact .refl t
  case cons p ps ih =>
    have ⟨hp, hps⟩ := forall_mem_cons.mp h
    exact (hp t).trans (ih hps _)

theorem earlyPasses_reshapes : ∀ p ∈ earlyPasses, ∀ t : TraceIr, t.Reshapes (p t).1 := by
  simp only [earlyPasses, forall_mem_cons]
  exact ⟨AddrSimplify.run_reshapes, Licm.run_reshapes, FlagElim.run_reshapes,
    BooleanSimplify.run_reshapes, ConstFold.run_reshapes, StrengthReduction.run_reshapes, by simp⟩

theorem passes_reshapes (t : TraceIr) : t.Reshapes (runPasses passes t).1 := by
  rw [runPasses_passes]
  exact (runPasses_reshapes earlyPasses_reshapes t).trans
    ((Cse.run_reshapes _).trans (Dce.run_reshapes _ (Cse.run_enters _)))

theorem passes_exitsLast (t : TraceIr) : (runPasses passes t).1.ExitsLast := by
  rw [runPasses_passes]
  exact Dce.run_exitsLast _

theorem passes_body_of_idle (h : t.Idle) : (runPasses passes t).1.body = [] := by
  rw [runPasses_passes]
  exact Dce.run_body_of_idle _ (Cse.run_enters _)
    ((Cse.run_reshapes _).idle ((runPasses_reshapes earlyPasses_reshapes t).idle h))

theorem TraceIr.Reshapes.idsFit (hr : t.Reshapes t') (h : IdsFit t.instrs) : IdsFit t'.instrs := by
  intro i hi v hv
  obtain ⟨j, hj, hv⟩ := hr.defs i hi v hv
  exact h j hj v hv

structure TraceIr.WellFormed (t : TraceIr) : Prop where
  exitsLast : t.ExitsLast
  wellScoped : t.WellScoped
  idsFit : IdsFit t.instrs

theorem passes_wellFormed (h : t.WellFormed) : (runPasses passes t).1.WellFormed where
  exitsLast := passes_exitsLast t
  wellScoped := (runPasses_sound passes_sound t h.wellScoped).wellScoped
  idsFit := (passes_reshapes t).idsFit h.idsFit

theorem valueCompact_wellFormed (h : t.WellFormed) : (run t).1.WellFormed where
  exitsLast := run_exitsLast h.exitsLast
  wellScoped := run_wellScoped h.wellScoped
  idsFit := run_idsFit h.wellScoped h.idsFit

theorem verifyAt_ok (h : t.WellFormed) (dbg : Bool) (point : VerifyPoint) :
    verifyAt dbg point t = .ok () := by
  unfold verifyAt
  split
  case isTrue =>
    rw [Except.mapError_eq_ok_iff]
    exact verifyTrace_ok_iff.mpr ⟨h.exitsLast, h.wellScoped⟩
  case isFalse => rfl

theorem iterated_induction {P : TraceIr → Prop} (h : ∀ t, P t → P (runPasses passes t).1) (n : Nat)
    (ht : P t) : P (iterated n t) := by
  induction n generalizing t
  case zero => exact ht
  case succ n ih =>
    rw [iterated_eq]
    have := h t ht
    generalize runPasses passes t = r at this
    split
    case isTrue => exact ih this
    case isFalse => exact this

theorem iteratePasses_ok (h : t.WellFormed) (dbg : Bool) (n : Nat) :
    iteratePasses dbg n t = .ok (iterated n t) := by
  induction n generalizing t
  case zero => rfl
  case succ n ih =>
    have h := passes_wellFormed h
    rw [iteratePasses_eq, iterated_eq, verifyAt_ok h]
    generalize runPasses passes t = r at h
    rw [ih h]
    split <;> rfl

theorem iterated_body_of_idle (h : t.Idle) (hn : 1 ≤ n) : (iterated n t).body = [] := by
  obtain ⟨n, rfl⟩ := Nat.exists_eq_add_of_le' hn
  rw [iterated_eq]
  have hb := passes_body_of_idle h
  generalize runPasses passes t = r at hb
  split
  case isTrue =>
    refine iterated_induction (P := fun t => t.body = []) (fun t hb => ?_) n hb
    exact passes_body_of_idle fun i hi => by simp [hb] at hi
  case isFalse => exact hb

end Iteration

section Debug

variable {t : TraceIr} {cfg : OptConfig}

theorem wellFormed_of_ok (hv : verifyTrace t = .ok ()) (h : t.validate = .ok ()) :
    t.WellFormed ∧ (t.kind = .loop → t.body ≠ []) := by
  have ⟨hx, hs⟩ := verifyTrace_ok_iff.mp hv
  have ⟨hl, hf⟩ := (validate_ok_iff hx hs).mp h
  exact ⟨⟨hx, hs, hf⟩, hl⟩

theorem iterated_wellFormed (h : t.WellFormed) (n : Nat) : (iterated n t).WellFormed :=
  iterated_induction (P := TraceIr.WellFormed) (fun _ h => passes_wellFormed h) n h

theorem optimized_wellFormed (h : t.WellFormed) (cfg : OptConfig) :
    (optimized t cfg).WellFormed :=
  valueCompact_wellFormed (iterated_wellFormed (valueCompact_wellFormed h) cfg.maxIters)

-- A debug build comes as far as the last assertion.
theorem optimizeTrace_debug_eq (h : t.WellFormed) (cfg : OptConfig) :
    optimizeTrace true t cfg = ((optimized t cfg).validate.mapError OptPanic.validationFailed >>=
      fun _ => .ok (optimized t cfg, { regalloc := RegAlloc.run (optimized t cfg) })) := by
  have hc := valueCompact_wellFormed h
  have hi := iterated_wellFormed hc cfg.maxIters
  have ho := valueCompact_wellFormed hi
  simp only [optimizeTrace, verifyAt_ok h, verifyAt_ok hc, iteratePasses_ok hc, bind, Except.bind,
    verifyAt_ok ho]
  rfl

theorem validate_optimized (h : t.WellFormed) (cfg : OptConfig) :
    (optimized t cfg).validate = .ok () ↔
      ((optimized t cfg).kind = .loop → (optimized t cfg).body ≠ []) := by
  have ho := optimized_wellFormed h cfg
  rw [validate_ok_iff ho.exitsLast ho.wellScoped]
  exact and_iff_left ho.idsFit

theorem validate_of_empty (hk : t.kind = .loop) (hb : t.body = []) :
    t.validate = .error .emptyLoopBody := by
  simp [validate, hk, hb]
  rfl

theorem optimizeTrace_debug_ok_iff (h : t.WellFormed) :
    (∃ r, optimizeTrace true t cfg = .ok r) ↔
      ((optimized t cfg).kind = .loop → (optimized t cfg).body ≠ []) := by
  rw [optimizeTrace_debug_eq h, ← validate_optimized h]
  simp only [Except.bind_eq_ok_iff, Except.mapError_eq_ok_iff]
  exact ⟨fun ⟨_, _, hv, _⟩ => hv, fun hv => ⟨_, _, hv, rfl⟩⟩

-- Some instruction of the body stays there.
theorem optimized_body_of_anchored (h : t.Anchored) (hl : (optimized t cfg).kind = .loop) :
    (optimized t cfg).body ≠ [] := by
  have hi := iterated_induction (fun t => (passes_reshapes t).anchored)
    cfg.maxIters (run_anchored h)
  have ha := run_anchored hi
  obtain ⟨i, hi, -⟩ := ha hl
  exact ne_nil_of_mem hi

theorem optimized_of_idle (h : t.Idle) (hn : 1 ≤ cfg.maxIters) : (optimized t cfg).body = [] :=
  (run_body_nil _).mpr (iterated_body_of_idle (run_idle h) hn)

theorem run_exit_of_body_nil {c : Core β} (hk : t.kind = .loop) (hb : t.body = []) (n : Nat) :
    (c.run bus t n).2 = (c.run bus t 0).2 := by
  have hloop (e : Core β) : Straight.runLoop (Core.exec bus) [] true .returned .stepLimit n e =
      (e, .stepLimit) := by
    induction n
    case zero => rfl
    case succ n ih => exact ih
  rw [Core.run, Core.run, Straight.run, Straight.run, hk, hb]
  split
  · rfl
  · exact congrArg Prod.snd (hloop _)

theorem run_zero_exit_congr {c : Core β} (h : (c.execInstrs bus t.prologue).2 =
    (c.execInstrs bus t'.prologue).2) : (c.run bus t 0).2 = (c.run bus t' 0).2 := by
  rw [Core.run, Core.run, Straight.run, Straight.run]
  split <;> split <;> simp_all [Straight.runLoop]

-- How a run ends does not depend on the iterations when the optimized loop has none of the body.
theorem TraceIr.Refines.exit_eq_of_body_nil (h : t.Refines t') (hk : t'.kind = .loop)
    (hb : t'.body = []) (bus : Tier1Bus β) {m : Machine β} (hm : m.cpu.rflags.getLsbD 1 = true)
    (n : Nat) : (runTrace bus t m n).1 = (runTrace bus t m 0).1 := by
  cases n
  case zero => rfl
  case succ n =>
    rw [← (h.runTrace_eq bus m hm (Nat.le_add_left 1 n)).1, (runTrace_eq_core bus t' m hm _).1,
      (runTrace_eq_core bus t m hm 0).1, run_exit_of_body_nil hk hb]
    exact (run_zero_exit_congr ((h.agrees bus).prologue m hm)).symm

theorem run_linear_ne_stepLimit {c : Core β} (hk : t.kind = .linear) :
    (c.run bus t 1).2 ≠ .stepLimit := by
  have hne (i : Instr) (c : Core β) : (Core.exec bus i c).2 ≠ some .stepLimit := by
    cases i
    case guard | guardCodeVersion => simp only [Core.exec]; split <;> simp
    all_goals simp [Core.exec]
  have hlist := Straight.execList_exit_ne (Core.exec bus) hne
  rw [Core.run, Straight.run, hk]
  split
  case h_1 e he => exact fun h => hlist t.prologue c (he ▸ congrArg some h)
  case h_2 c' he =>
    rw [Straight.runLoop]
    split
    case h_1 e he => exact fun h => hlist t.body c' (he ▸ congrArg some h)
    case h_2 => simp

-- Some run leaves the trace in its body.
def LeavesBody (t : TraceIr) : Prop :=
  ∃ (β : Type) (bus : Tier1Bus β) (m : Machine β) (n : Nat),
    m.cpu.rflags.getLsbD 1 = true ∧ (runTrace bus t m n).1 ≠ (runTrace bus t m 0).1

-- Some run completes an iteration.
def GoesRound (t : TraceIr) : Prop :=
  ∃ (β : Type) (bus : Tier1Bus β) (m : Machine β),
    m.cpu.rflags.getLsbD 1 = true ∧ (runTrace bus t m 1).1 = .stepLimit

-- What keeps a loop from being emptied: an effect other than a guard, or a guard that can fail.
def KeepsBody (t : TraceIr) (cfg : OptConfig) : Prop :=
  t.kind = .linear ∨ cfg.maxIters = 0 ∨ (∃ i ∈ t.body, i.anchors = true) ∨ LeavesBody t

theorem optimized_body_of_keepsBody (ht : t.WellScoped) (hl : t.kind = .loop → t.body ≠ [])
    (h : KeepsBody t cfg) : (optimized t cfg).kind = .loop → (optimized t cfg).body ≠ [] := by
  rcases h with h | h | h | ⟨β, bus, m, n, hm, hne⟩
  · exact optimized_body_of_anchored fun hk => by simp [h] at hk
  · simp only [optimized, h, iterated, run_kind, ne_eq, run_body_nil]
    exact hl
  · exact optimized_body_of_anchored fun _ => h
  · exact fun hk hb =>
      hne ((optimized_refines ht cfg).exit_eq_of_body_nil hk hb bus hm n)

theorem idle_of_not_keepsBody
    (hg : (∃ cond expected exitRip, .guard cond expected exitRip ∈ t.body) → LeavesBody t)
    (hk : ¬KeepsBody t cfg) : t.Idle ∧ 1 ≤ cfg.maxIters := by
  simp only [KeepsBody, not_or, not_exists, not_and, Bool.not_eq_true] at hk
  obtain ⟨-, hiters, hanchors, hleaves⟩ := hk
  refine ⟨fun i hi => ?_, by omega⟩
  have ha := hanchors i hi
  cases i
  case guard cond expected exitRip => exact absurd (hg ⟨cond, expected, exitRip, hi⟩) hleaves
  all_goals exact ha

theorem optimized_kind_of_goesRound (ht : t.WellScoped) (h : GoesRound t) :
    (optimized t cfg).kind = .loop := by
  obtain ⟨β, bus, m, hm, hlimit⟩ := h
  cases hk : (optimized t cfg).kind
  case loop => rfl
  case linear =>
    rw [← ((optimized_refines ht cfg).runTrace_eq bus m hm le_rfl).1,
      (runTrace_eq_core bus _ m hm 1).1] at hlimit
    exact absurd hlimit (run_linear_ne_stepLimit hk)

-- A loop that ends when a register is zero, and does nothing else.
def waiting : TraceIr :=
  ⟨[], [.loadReg 0 .rax, .guard (.value 0) true 0x40], .loop⟩

end Debug

end Aero.Tier2
