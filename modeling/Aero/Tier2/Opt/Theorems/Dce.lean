import Aero.Tier2.Opt.Passes.Dce
import Aero.Tier2.Theorems.Agrees
import Aero.Tier2.Theorems.Flags

namespace Aero.Tier2.Dce

open Tier2.Core Instr Straight List

variable {β : Type} {bus : Tier1Bus β} {c c' : Core β} {i : Instr} {is : List Instr}
variable {live liveOut d d' : Finset ValueId}

section Truncate

variable {pos : Nat}

variable (bus) in
theorem execInstrs_take (h : is.findIdx? isSideExit = some pos) (c : Core β) :
    ∃ e x, Core.execInstrs bus is c = (e, some x) ∧
      Core.execInstrs bus (is.take (pos + 1)) c = (e, some x) := by
  obtain ⟨hlt, hp, -⟩ := findIdx?_eq_some_iff_getElem.mp h
  have hmem : is[pos] ∈ is.take (pos + 1) := mem_take_iff_getElem.mpr ⟨pos, by omega, rfl⟩
  have hexit : ∀ c : Core β, ∃ e x, Core.exec bus is[pos] c = (e, some x) := fun c => by
    cases hi : is[pos] <;> simp [hi, isSideExit] at hp
    exact ⟨_, _, rfl⟩
  obtain ⟨e, x, he⟩ := execList_exits _ hmem hexit c
  refine ⟨e, x, ?_, he⟩
  rw [← take_append_drop (pos + 1) is]
  exact execList_append_exited _ he

theorem inScope_take (h : InScope d is) (n : Nat) : InScope d (is.take n) := by
  rw [← take_append_drop n is, InScope, inScope_append] at h
  exact h.1

theorem truncateAfterSideExit_agrees (t : TraceIr) :
    t.Agrees bus (truncateAfterSideExit t).1 := by
  unfold truncateAfterSideExit
  split
  case h_1 pos h =>
    refine .of_prologue_exits fun m hm => ?_
    obtain ⟨e, x, h₁, h₂⟩ := execInstrs_take bus h (.init m hm)
    rw [h₁, h₂]
    exact .exited rfl
  case h_2 =>
    split
    case h_1 pos h =>
      refine .of_related (R := fun c c' => c = c') (Q := fun _ _ => False) (fun m hm => ?_)
        (fun c c' hc => ?_) fun _ _ h => h.elim
      · match Core.execInstrs bus t.prologue (.init m hm) with
        | (_, none)   => exact .running rfl
        | (_, some _) => exact .exited rfl
      · subst hc
        obtain ⟨e, x, h₁, h₂⟩ := execInstrs_take bus h c
        rw [h₁, h₂]
        exact .exited rfl
    case h_2 => exact .refl t

theorem truncateAfterSideExit_wellScoped (ht : t.WellScoped) :
    (truncateAfterSideExit t).1.WellScoped := by
  unfold truncateAfterSideExit
  split
  case h_1 pos _ => exact ⟨inScope_take ht.prologue _, trivial⟩
  case h_2 =>
    split
    case h_1 pos _ => exact ⟨ht.prologue, inScope_take ht.body _⟩
    case h_2 => exact ht

end Truncate

structure LiveEq (live : Finset ValueId) (c c' : Core β) : Prop where
  sameMachine : SameMachine c c'
  values : ∀ v ∈ live, c.values v = c'.values v

theorem mem_liveBefore (hs : i.Scoped d) :
    v ∈ liveBefore i live ↔ v ∈ i.uses ∨ (v ∈ live ∧ i.dst ≠ some v) := by
  unfold liveBefore
  split
  case h_1 dst hd =>
    have : v ∈ i.uses → v ≠ dst := fun hv h => hs.2 dst hd (h ▸ hs.1 v hv)
    rw [hd]
    simp only [Finset.mem_erase, Finset.mem_union, mem_toFinset, ne_eq, Option.some.injEq]
    tauto
  case h_2 hd => simp [hd, or_comm]

variable (bus) in
theorem exec_of_not_hasSideEffects (h : i.hasSideEffects = false) (c : Core β) :
    (exec bus i c).2 = none ∧ SameMachine (exec bus i c).1 c := by
  cases i
  case setFlags mask v =>
    have : mask.isEmpty = true := by simpa [hasSideEffects] using h
    simp [exec, SameMachine, applyFlags_of_isEmpty c this]
  case binOp dst op lhs rhs flags =>
    cases FlagSet.eq_empty_of_isEmpty (by simpa [hasSideEffects] using h)
    exact ⟨rfl, rfl⟩
  all_goals first | exact ⟨rfl, rfl⟩ | cases h

namespace LiveEq

variable (bus)

theorem exec_needed (hs : i.Scoped d) (h : LiveEq (liveBefore i live) c c') :
    Straight.Related (LiveEq live) SameMachine (exec bus i c) (exec bus i c') := by
  refine (exec_related bus h.sameMachine fun v hv =>
    h.values v ((mem_liveBefore hs).mpr (.inl hv))).mono ?_ fun _ _ h => h
  intro e e' ⟨hm, he⟩
  refine ⟨hm, fun v hv => he v ?_⟩
  by_cases hd : i.dst = some v
  case pos => exact .inl hd
  case neg => exact .inr (h.values v ((mem_liveBefore hs).mpr (.inr ⟨hv, hd⟩)))

theorem exec_dropped (hn : needed i live = false) (h : LiveEq live c c') :
    ∃ e, exec bus i c = (e, none) ∧ LiveEq live e c' := by
  simp only [needed, Bool.or_eq_false_iff] at hn
  have ⟨hx, hm⟩ := exec_of_not_hasSideEffects bus hn.1 c
  refine ⟨(exec bus i c).1, Prod.ext rfl hx, hm.trans h.sameMachine, fun v hv => ?_⟩
  rw [exec_values bus c, h.values v hv]
  intro hd
  simp [hd, hv] at hn

theorem execInstrs (hs : InScope d is) (h : LiveEq (keepList liveOut is).2 c c') :
    Straight.Related (LiveEq liveOut) SameMachine (Core.execInstrs bus is c)
      (Core.execInstrs bus (keepList liveOut is).1 c') := by
  induction is generalizing d c c'
  case nil => exact .running h
  case cons i is ih =>
    simp only [keepList] at h ⊢
    split at h
    case isTrue hn =>
      rw [if_pos hn]
      have hi := h.exec_needed bus hs.1
      rw [← execList_singleton (Core.exec bus) i c'] at hi
      exact execList_cons_related hi fun _ _ => ih hs.2
    case isFalse hn =>
      rw [if_neg hn]
      obtain ⟨e, he, hc⟩ := h.exec_dropped bus (Bool.not_eq_true _ ▸ hn)
      rw [Core.execInstrs, execList_cons_running _ he]
      exact ih hs.2 hc

end LiveEq

section Scope

theorem keepList_sublist (liveOut : Finset ValueId) (is : List Instr) :
    (keepList liveOut is).1.Sublist is := by
  induction is
  case nil => exact .slnil
  case cons i is ih =>
    simp only [keepList]
    split
    case isTrue => exact ih.cons_cons i
    case isFalse => exact ih.cons i

theorem mem_keepList (hi : i ∈ is) (he : i.hasSideEffects = true) :
    i ∈ (keepList liveOut is).1 := by
  induction is
  case nil => simp at hi
  case cons j is ih =>
    simp only [keepList]
    rcases mem_cons.mp hi with rfl | hi
    · rw [if_pos (by simp [needed, he])]
      exact mem_cons_self
    · split
      case isTrue => exact mem_cons_of_mem _ (ih hi)
      case isFalse => exact ih hi

-- Where nothing is live at the end, instructions without side effects are all dropped.
theorem keepList_of_effects (h : ∀ i ∈ is, i.hasSideEffects = false) :
    keepList ∅ is = ([], ∅) := by
  induction is
  case nil => rfl
  case cons i is ih =>
    have ⟨hi, his⟩ := forall_mem_cons.mp h
    have hn : needed i ∅ = false := by cases hd : i.dst <;> simp [needed, hi]
    simp [keepList, ih his, hn]

theorem live_subset (hs : InScope d is) (hl : liveOut ⊆ scopeAfter d is) :
    (keepList liveOut is).2 ⊆ d := by
  induction is generalizing d
  case nil => exact hl
  case cons i is ih =>
    have hl := ih hs.2 hl
    simp only [keepList]
    split
    case isTrue =>
      intro v hv
      rcases (mem_liveBefore hs.1).mp hv with hv | ⟨hv, hd⟩
      · exact hs.1.1 v hv
      · exact (mem_define.mp (hl hv)).resolve_left hd
    case isFalse hn =>
      intro v hv
      refine (mem_define.mp (hl hv)).resolve_left fun hd => hn ?_
      simp [needed, hd, hv]

theorem inScope_keepList (hs : InScope d is) (hl : (keepList liveOut is).2 ⊆ d') (hd : d' ⊆ d) :
    InScope d' (keepList liveOut is).1 ∧ liveOut ⊆ scopeAfter d' (keepList liveOut is).1 := by
  induction is generalizing d d'
  case nil => exact ⟨trivial, hl⟩
  case cons i is ih =>
    simp only [keepList] at hl ⊢
    split at hl
    case isTrue hn =>
      rw [if_pos hn]
      have hlive : (keepList liveOut is).2 ⊆ i.define d' := fun v hv => by
        by_cases hv' : i.dst = some v
        case pos => exact mem_define_dst hv'
        case neg => exact mem_define_of_mem i (hl ((mem_liveBefore hs.1).mpr (.inr ⟨hv, hv'⟩)))
      have ⟨hi, ho⟩ := ih hs.2 hlive (define_subset hd i)
      exact ⟨⟨⟨fun v hv => hl ((mem_liveBefore hs.1).mpr (.inl hv)),
        fun v hv hm => hs.1.2 v hv (hd hm)⟩, hi⟩, ho⟩
    case isFalse hn =>
      rw [if_neg hn]
      exact ih hs.2 hl (hd.trans (subset_define d i))

end Scope

section Run

variable {t : TraceIr}

def swept (t : TraceIr) : TraceIr :=
  { t with
    prologue := (keepList (keepList ∅ t.body).2 t.prologue).1
    body := (keepList ∅ t.body).1 }

theorem live_body_subset (ht : t.WellScoped) :
    (keepList ∅ t.body).2 ⊆ scopeAfter ∅ t.prologue :=
  live_subset ht.body (Finset.empty_subset _)

theorem swept_agrees (ht : t.WellScoped) : t.Agrees bus (swept t) := by
  have hlive := live_body_subset ht
  refine .of_related (R := LiveEq (keepList ∅ t.body).2) (Q := LiveEq (keepList ∅ t.body).2)
    (fun m hm => LiveEq.execInstrs bus ht.prologue ⟨rfl, fun _ _ => rfl⟩) (fun c c' hc => ?_)
    fun c c' hc => ⟨rfl, fun _ => hc, hc.sameMachine⟩
  refine (LiveEq.execInstrs bus ht.body hc).with_runs.mono ?_ fun _ _ h => h
  -- A run of the body leaves alone the values that are live before it.
  intro e e' ⟨h, he, he'⟩
  refine ⟨h.sameMachine, fun v hv => ?_⟩
  have h₁ := Core.execInstrs_values_of_mem bus c ht.body (hlive hv)
  have h₂ : (Core.execInstrs bus (keepList ∅ t.body).1 c').1.values v = c'.values v :=
    Core.execInstrs_values bus c' fun i hi hd =>
      ht.body.dst_not_mem ((keepList_sublist _ _).subset hi) hd (hlive hv)
  rw [he] at h₁
  rw [he'] at h₂
  rw [h₁, h₂, hc.values v hv]

theorem swept_wellScoped (ht : t.WellScoped) : (swept t).WellScoped := by
  have ⟨hp, hl⟩ := inScope_keepList ht.prologue
    (live_subset ht.prologue (live_body_subset ht)) (Finset.Subset.refl _)
  refine ⟨hp, (inScope_keepList ht.body hl fun v hv => ?_).1⟩
  have ⟨i, hi, hd⟩ := (mem_scopeAfter.mp hv).resolve_left (Finset.notMem_empty v)
  exact mem_scopeAfter.mpr (.inr ⟨i, (keepList_sublist _ _).subset hi, hd⟩)

theorem run_eq (t : TraceIr) : (run t).1 = swept (truncateAfterSideExit t).1 := by
  unfold run
  dsimp only
  split
  case isTrue => rfl
  case isFalse h =>
    -- Nothing has been dropped.
    simp only [Bool.or_eq_true, bne_iff_ne, not_or, not_not] at h
    have hb := (keepList_sublist ∅ (truncateAfterSideExit t).1.body).eq_of_length h.1.2
    have hp := (keepList_sublist (keepList ∅ (truncateAfterSideExit t).1.body).2
      (truncateAfterSideExit t).1.prologue).eq_of_length h.2
    simp only [swept, hb, hp]

theorem run_agrees (ht : t.WellScoped) : t.Agrees bus (run t).1 := by
  rw [run_eq]
  exact (truncateAfterSideExit_agrees t).trans (swept_agrees (truncateAfterSideExit_wellScoped ht))

theorem run_wellScoped (ht : t.WellScoped) : (run t).1.WellScoped := by
  rw [run_eq]
  exact swept_wellScoped (truncateAfterSideExit_wellScoped ht)

end Run

end Aero.Tier2.Dce
