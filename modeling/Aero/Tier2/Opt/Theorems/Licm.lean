import Aero.Tier2.Opt.Passes.Licm
import Aero.Tier2.Theorems.Agrees

namespace Aero.Tier2.Licm

open Instr Tier2.Core List Straight

variable {β : Type} {bus : Tier1Bus β} {c c' e : Core β} {d inv : Finset ValueId} {i j : Instr}
variable {written : Gpr → Bool} {is H N : List Instr}

inductive Movable (written : Gpr → Bool) : Instr → Prop
  | const (dst value) : Movable written (.const dst value)
  | addr (dst base index scale disp) : Movable written (.addr dst base index scale disp)
  | binOp (dst op lhs rhs) : Movable written (.binOp dst op lhs rhs .empty)
  | loadReg (dst) {reg} (h : written reg = false) : Movable written (.loadReg dst reg)

def value (i : Instr) (c : Core β) : U64 :=
  match i with
  | .const _ k => k
  | .addr _ base index scale disp =>
    evalAddr (c.evalOperand base) (c.evalOperand index) scale disp
  | .binOp _ op lhs rhs _ => (evalBinop op (c.evalOperand lhs) (c.evalOperand rhs)).1
  | .loadReg _ reg => c.machine.cpu.gpr reg
  | _ => 0

namespace Movable

variable (bus) in
theorem exec (h : Movable written i) (c : Core β) :
    ∃ v, i.dst = some v ∧ exec bus i c = (c.setValue v (value i c), none) := by
  cases h <;> exact ⟨_, rfl, rfl⟩

theorem hasSideEffects (h : Movable written i) : i.hasSideEffects = false := by
  cases h <;> rfl

theorem value_congr (h : Movable written i) (ho : ∀ v ∈ i.uses, c.values v = c'.values v)
    (hg : ∀ reg, written reg = false → c.machine.cpu.gpr reg = c'.machine.cpu.gpr reg) :
    value i c = value i c' := by
  have he : ∀ op ∈ i.operands, c.evalOperand op = c'.evalOperand op := fun op hop =>
    evalOperand_congr fun v hv => ho v (mem_filterMap.mpr ⟨op, hop, hv⟩)
  cases h
  case const => rfl
  case loadReg hr => exact hg _ hr
  case addr | binOp =>
    simp only [operands] at he
    simp [value, he]

end Movable

theorem operandsInvariant_inScope (h : operandsInvariant ops inv = true) :
    ∀ op ∈ ops, op.InScope inv := by
  intro op hop v hv
  have := all_eq_true.mp h op hop
  cases op
  case const => cases hv
  case value => cases hv; simpa using this

theorem isHoistable_movable (h : isHoistable i inv written = true) :
    Movable written i ∧ ∀ v ∈ i.uses, v ∈ inv := by
  unfold isHoistable at h
  split at h
  case isTrue => cases h
  case isFalse =>
    split at h
    case h_1 => exact ⟨.const _ _, by simp [uses, operands]⟩
    case h_2 =>
      exact ⟨.addr _ _ _ _ _, uses_mem_of_operands (operandsInvariant_inScope h)⟩
    case h_3 flags =>
      split at h
      case isTrue => cases h
      case isFalse hf =>
        cases FlagSet.eq_empty_of_isEmpty (by simpa using hf)
        exact ⟨.binOp _ _ _ _, uses_mem_of_operands (operandsInvariant_inScope h)⟩
    case h_4 => exact ⟨.loadReg _ (by simpa using h), by simp [uses, operands]⟩
    case h_5 => cases h

inductive Splits (written : Gpr → Bool) :
    Finset ValueId → List Instr → List Instr → List Instr → Prop
  | nil (inv : Finset ValueId) : Splits written inv [] [] []
  | hoist {inv : Finset ValueId} {i : Instr} {is H N : List Instr}
    (hi : isHoistable i inv written = true) (h : Splits written (i.define inv) is H N) :
    Splits written inv (i :: is) (i :: H) N
  | keep {inv : Finset ValueId} {is H N : List Instr} (i : Instr)
    (h : Splits written inv is H N) : Splits written inv (i :: is) H (i :: N)

theorem split_splits (written : Gpr → Bool) (inv : Finset ValueId) (is : List Instr) :
    Splits written inv is (split written inv is).1 (split written inv is).2 := by
  induction is generalizing inv
  case nil => exact .nil inv
  case cons i is ih =>
    unfold split
    split
    case isTrue hi => exact .hoist hi (ih _)
    case isFalse => exact .keep i (ih _)

namespace Splits

section

variable (h : Splits written inv is H N)
include h

theorem movable : ∀ i ∈ H, Movable written i := by
  induction h
  case nil => simp
  case hoist hi _ ih => exact forall_mem_cons.mpr ⟨(isHoistable_movable hi).1, ih⟩
  case keep ih => exact ih

theorem subset_hoisted : H ⊆ is := by
  induction h
  case nil => simp
  case hoist ih => exact cons_subset_cons _ ih
  case keep ih => exact subset_cons_of_subset _ ih

theorem subset_kept : N ⊆ is := by
  induction h
  case nil => simp
  case hoist ih => exact subset_cons_of_subset _ ih
  case keep ih => exact cons_subset_cons _ ih

theorem mem_or_mem (hi : i ∈ is) : i ∈ H ∨ i ∈ N := by
  induction h
  case nil => simp at hi
  case hoist ih =>
    rcases mem_cons.mp hi with rfl | hi
    · exact .inl mem_cons_self
    · exact (ih hi).imp_left (mem_cons_of_mem _)
  case keep ih =>
    rcases mem_cons.mp hi with rfl | hi
    · exact .inr mem_cons_self
    · exact (ih hi).imp_right (mem_cons_of_mem _)

theorem inScope_hoisted (hs : InScope d is) (hd : inv ⊆ d) : InScope inv H := by
  induction h generalizing d
  case nil => trivial
  case hoist i _ _ _ hi _ ih =>
    exact ⟨⟨(isHoistable_movable hi).2, fun v hv hm => hs.1.2 v hv (hd hm)⟩,
      ih hs.2 (define_subset hd i)⟩
  case keep i _ ih => exact ih hs.2 (hd.trans (subset_define d i))

theorem inScope_kept (hs : InScope d is) : InScope (scopeAfter d H) N := by
  induction h generalizing d
  case nil => trivial
  case hoist ih => exact ih hs.2
  case keep inv is H N i h ih =>
    refine ⟨⟨fun v hv => subset_scopeAfter _ _ (hs.1.1 v hv), fun v hv hm => ?_⟩, ?_⟩
    · rcases mem_scopeAfter.mp hm with hm | ⟨j, hj, hjv⟩
      · exact hs.1.2 v hv hm
      · exact hs.dst_ne_of_cons (h.subset_hoisted hj) hv hjv
    · have : i.define (scopeAfter d H) = scopeAfter (i.define d) H := by
        ext v
        rw [mem_define, mem_scopeAfter, mem_scopeAfter, mem_define]
        tauto
      rw [this]
      exact ih hs.2

end

end Splits

def Settled (is : List Instr) (c : Core β) : Prop :=
  ∀ i ∈ is, ∀ v, i.dst = some v → c.values v = value i c

theorem Settled.frame (h : Settled is c) (hm : ∀ i ∈ is, Movable written i) (hs : InScope d is)
    (hv : ∀ v ∈ scopeAfter d is, e.values v = c.values v)
    (hg : ∀ reg, written reg = false → e.machine.cpu.gpr reg = c.machine.cpu.gpr reg) :
    Settled is e := by
  intro i hi v hd
  rw [hv v (mem_scopeAfter.mpr (.inr ⟨i, hi, hd⟩)), h i hi v hd]
  exact ((hm i hi).value_congr (fun u hu => hv u (hs.uses_mem hi hu)) hg).symm

variable (bus) in
-- The hoisted instructions are settled where they have been executed.
theorem execInstrs_settled (hs : InScope d is) (hm : ∀ i ∈ is, Movable written i) (c : Core β) :
    ∃ e, Core.execInstrs bus is c = (e, none) ∧ SameMachine e c ∧
      (∀ v ∈ d, e.values v = c.values v) ∧ Settled is e := by
  induction is generalizing d c
  case nil => exact ⟨c, rfl, rfl, fun _ _ => rfl, by simp [Settled]⟩
  case cons i is ih =>
    have ⟨hmi, hm⟩ := forall_mem_cons.mp hm
    obtain ⟨v, hd, he⟩ := hmi.exec bus c
    obtain ⟨e, hx, hsame, hv, hset⟩ := ih hs.2 hm (c.setValue v (value i c))
    -- The definition of `i` does not touch what is in scope before it.
    have hold : ∀ u ∈ d, e.values u = c.values u := fun u hu => by
      have : u ≠ v := fun h => hs.1.2 v hd (h ▸ hu)
      rw [hv u (mem_define_of_mem i hu)]
      simp [this]
    refine ⟨e, ?_, hsame, hold, forall_mem_cons.mpr ⟨fun w hw => ?_, hset⟩⟩
    · rw [Core.execInstrs, execList_cons_running _ he]
      exact hx
    · obtain rfl : v = w := by simpa [hd] using hw
      rw [hv v (mem_define_dst hd)]
      have := hmi.value_congr (fun u hu => hold u (hs.1.1 u hu)) fun reg _ => by rw [hsame]; rfl
      simp [this]

structure Sim (G : List Instr) (d : Finset ValueId) (c c' : Core β) : Prop where
  sameMachine : SameMachine c c'
  values : ∀ v ∈ d, c.values v = c'.values v
  settled : Settled G c'

namespace Sim

variable {G : List Instr}

variable (bus) in
theorem hoisted (h : Sim G d c c') (hi : i ∈ G) (hs : i.Scoped d) (hm : Movable written i) :
    ∃ e, exec bus i c = (e, none) ∧ Sim G (i.define d) e c' := by
  obtain ⟨v, hd, he⟩ := hm.exec bus c
  refine ⟨_, he, h.sameMachine, fun u hu => ?_, h.settled⟩
  have hval := hm.value_congr (fun u hu => h.values u (hs.1 u hu)) fun reg _ =>
    congrArg (·.cpu.gpr reg) h.sameMachine
  by_cases huv : u = v
  case pos =>
    rw [huv, h.settled i hi v hd, ← hval]
    simp
  case neg =>
    have hu : u ∈ d := (mem_define.mp hu).resolve_left fun h => huv (by simp_all)
    simpa [huv] using h.values u hu

theorem kept (h : Sim G d c c') (hs : i.Scoped d)
    (hG : ∀ c' : Core β, Settled G c' → Settled G (exec bus i c').1) :
    Straight.Related (Sim G (i.define d)) SameMachine (exec bus i c) (exec bus i c') := by
  refine (exec_related bus h.sameMachine fun v hv => h.values v (hs.1 v hv)).with_runs.mono
    ?_ fun _ _ h => h
  intro e e' ⟨⟨hm, hv⟩, _, he'⟩
  exact ⟨hm, fun v hd => hv v ((mem_define.mp hd).imp_right (h.values v)),
    by simpa [he'] using hG c' h.settled⟩

theorem execInstrs (h : Splits written inv is H N) (hs : InScope d is) (hH : ∀ i ∈ H, i ∈ G)
    (hG : ∀ j ∈ N, ∀ c' : Core β, Settled G c' → Settled G (Core.exec bus j c').1)
    (hc : Sim G d c c') :
    Straight.Related (Sim G (scopeAfter d is)) SameMachine (Core.execInstrs bus is c)
      (Core.execInstrs bus N c') := by
  induction h generalizing d c c'
  case nil => exact .running hc
  case hoist hi _ ih =>
    have ⟨hi', hH⟩ := forall_mem_cons.mp hH
    obtain ⟨e, he, hc⟩ := hc.hoisted bus hi' hs.1 (isHoistable_movable hi).1
    rw [Core.execInstrs, execList_cons_running _ he]
    exact ih hs.2 hH hG hc
  case keep i _ ih =>
    have ⟨hi, hG⟩ := forall_mem_cons.mp hG
    have hc := hc.kept hs.1 hi
    rw [← execList_singleton (Core.exec bus) i c'] at hc
    exact execList_cons_related hc fun e e' => ih hs.2 hH hG

end Sim

section Run

variable {t : TraceIr}

theorem toFinset_dst (is : List Instr) :
    (is.filterMap dst).toFinset = scopeAfter ∅ is := by
  ext v
  simp [mem_scopeAfter]

def moved (t : TraceIr) (H N : List Instr) : TraceIr :=
  { t with prologue := t.prologue ++ H, body := N }

theorem moved_agrees (ht : t.WellScoped)
    (h : Splits t.bodyRegsWritten (scopeAfter ∅ t.prologue) t.body H N) :
    t.Agrees bus (moved t H N) := by
  have hH := h.inScope_hoisted ht.body (Finset.Subset.refl _)
  have hN := h.inScope_kept ht.body
  -- The rest of the body leaves alone what the hoisted instructions depend on.
  have hG : ∀ j ∈ N, ∀ c' : Core β, Settled H c' → Settled H (Core.exec bus j c').1 := by
    intro j hj c' hc
    refine hc.frame h.movable hH (fun v hv => ?_) fun reg hr => ?_
    · exact Core.exec_values bus c' fun hd => hN.dst_not_mem hj hd hv
    · refine Core.exec_gpr bus c' fun src hs => ?_
      have : t.bodyRegsWritten reg = true :=
        any_eq_true.mpr ⟨j, h.subset_kept hj, by simp [hs]⟩
      simp [this] at hr
  refine .of_related (R := Sim H (scopeAfter ∅ t.prologue))
    (Q := Sim H (scopeAfter (scopeAfter ∅ t.prologue) t.body)) (fun m hm => ?_)
    (fun c c' hc => Sim.execInstrs h ht.body (fun _ hi => hi) hG hc) fun c c' hc => ?_
  · simp only [moved, Core.execInstrs]
    match hx : execList (Core.exec bus) t.prologue (.init m hm) with
    | (c, some _) =>
      rw [execList_append_exited _ hx]
      exact .exited rfl
    | (c, none) =>
      obtain ⟨e, he, hsame, hv, hset⟩ := execInstrs_settled bus hH h.movable c
      rw [Core.execInstrs] at he
      rw [execList_append_running _ hx, he]
      exact .running ⟨hsame.symm, fun v hv' => (hv v hv').symm, hset⟩
  · exact ⟨rfl, fun _ => { hc with values := fun v hv => hc.values v (subset_scopeAfter _ _ hv) },
      hc.sameMachine⟩

theorem moved_wellScoped (ht : t.WellScoped)
    (h : Splits written (scopeAfter ∅ t.prologue) t.body H N) : (moved t H N).WellScoped where
  prologue := by
    rw [moved, InScope, inScope_append]
    exact ⟨ht.prologue, h.inScope_hoisted ht.body (Finset.Subset.refl _)⟩
  body := by
    rw [moved, scopeAfter, foldl_append]
    exact h.inScope_kept ht.body

theorem run_cases (t : TraceIr) : (run t).1 = t ∨ ∃ H N,
    Splits t.bodyRegsWritten (scopeAfter ∅ t.prologue) t.body H N ∧ (run t).1 = moved t H N := by
  unfold run
  split
  case isTrue => exact .inl rfl
  case isFalse =>
    have h := split_splits t.bodyRegsWritten (t.prologue.filterMap dst).toFinset t.body
    rw [toFinset_dst] at h ⊢
    dsimp only
    split
    case isTrue => exact .inl rfl
    case isFalse => exact .inr ⟨_, _, h, rfl⟩

theorem run_agrees (ht : t.WellScoped) : t.Agrees bus (run t).1 := by
  rcases run_cases t with h | ⟨H, N, hs, h⟩
  · rw [h]
    exact .refl t
  · rw [h]
    exact moved_agrees ht hs

theorem run_wellScoped (ht : t.WellScoped) : (run t).1.WellScoped := by
  rcases run_cases t with h | ⟨H, N, hs, h⟩
  · rwa [h]
  · rw [h]
    exact moved_wellScoped ht hs

end Run

end Aero.Tier2.Licm
