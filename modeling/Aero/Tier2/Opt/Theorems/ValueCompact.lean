import Aero.Tier2.Opt.Passes.ValueCompact
import Aero.Tier2.Theorems.Agrees

namespace Aero.Tier2.ValueCompact

open List Tier2.Core Instr

variable {β : Type} {c c' : Core β}
variable {rename : ValueId → ValueId} {M : List ValueId}

section BuildMap

theorem mem_foldl_intern {vs map : List ValueId} : v ∈ vs.foldl intern map ↔ v ∈ map ∨ v ∈ vs := by
  induction vs generalizing map
  case nil => simp
  case cons w vs ih =>
    rw [foldl_cons, ih, intern]
    split
    case isTrue h =>
      have : v = w → v ∈ map := fun hv => hv ▸ h
      simp only [mem_cons]
      tauto
    case isFalse => simp [or_assoc]

theorem nodup_foldl_intern {vs map : List ValueId} (h : map.Nodup) :
    (vs.foldl intern map).Nodup := by
  induction vs generalizing map
  case nil => exact h
  case cons w vs ih =>
    refine ih ?_
    unfold intern
    split
    case isTrue => exact h
    case isFalse hw =>
      refine nodup_append.mpr ⟨h, by simp, fun v hv u hu huv => hw ?_⟩
      rw [← mem_singleton.mp hu, ← huv]
      exact hv

theorem mem_buildMap : v ∈ buildMap t ↔ ∃ i ∈ t.instrs, v ∈ occurring i := by
  simp [buildMap, mem_foldl_intern]

theorem nodup_buildMap (t : TraceIr) : (buildMap t).Nodup :=
  nodup_foldl_intern nodup_nil

end BuildMap

def InjOn (rename : ValueId → ValueId) (M : List ValueId) : Prop :=
  ∀ v ∈ M, ∀ w ∈ M, rename v = rename w → v = w

theorem idxOf_injOn (map : List ValueId) : InjOn map.idxOf map :=
  fun _ hv _ _ h => (idxOf_inj hv).mp h

@[simp]
theorem renameInst_dst (rename : ValueId → ValueId) (i : Instr) :
    (renameInst rename i).dst = i.dst.map rename := by
  cases i <;> rfl

theorem renameInst_uses (rename : ValueId → ValueId) (i : Instr) :
    (renameInst rename i).uses = i.uses.map rename := by
  have : (renameInst rename i).operands = i.operands.map (renameOperand rename) := by
    cases i <;> rfl
  rw [uses, this, filterMap_map, uses, map_filterMap]
  congr
  funext op
  cases op <;> rfl

variable (bus) in
theorem exec_renameDst (rename : ValueId → ValueId) (i : Instr) (c : Core β) :
    Straight.Related (fun e e' => SameMachine e e' ∧
        ∀ v, i.dst = some v → e.values v = e'.values (rename v))
      SameMachine (exec bus i c) (exec bus (renameDst rename i) c) := by
  cases i
  case guard | guardCodeVersion =>
    simp only [exec, renameDst]
    split
    · exact .exited rfl
    · exact .running ⟨rfl, by simp [Instr.dst]⟩
  case sideExit => exact .exited rfl
  case binOp dst op lhs rhs flags =>
    refine .running ⟨?_, by simp [Instr.dst]⟩
    simp only [updateFlags]
    split <;> rfl
  all_goals exact .running ⟨rfl, by simp [Instr.dst]⟩

theorem renameInst_eq (rename : ValueId → ValueId) (i : Instr) :
    renameInst rename i = renameDst rename (i.mapOperands (renameOperand rename)) := by
  cases i <;> rfl

structure Renamed (rename : ValueId → ValueId) (M : List ValueId) (c c' : Core β) : Prop where
  sameMachine : SameMachine c c'
  values : ∀ v ∈ M, c.values v = c'.values (rename v)

variable (bus) in
theorem Renamed.exec (h : Renamed rename M c c') (hr : InjOn rename M)
    (hi : ∀ v ∈ occurring i, v ∈ M) :
    Straight.Related (Renamed rename M) SameMachine (exec bus i c)
      (exec bus (renameInst rename i) c') := by
  have ho : ∀ op ∈ i.operands, c.evalOperand op = c'.evalOperand (renameOperand rename op) := by
    intro op hop
    cases op
    case const => rfl
    case value v =>
      exact h.values v (hi v (mem_append_right _ (mem_filterMap.mpr ⟨_, hop, rfl⟩)))
  have h₁ := exec_mapOperands bus h.sameMachine ho
  have h₂ := exec_renameDst bus rename (i.mapOperands (renameOperand rename)) c'
  rw [← renameInst_eq] at h₂
  refine (h₁.comp h₂).with_runs.mono ?_ fun _ _ ⟨_, h, h'⟩ => h.trans h'
  intro e e' ⟨⟨e₁, ⟨hm, hd⟩, hm', hd'⟩, he, he'⟩
  refine ⟨hm.trans hm', fun v hv => ?_⟩
  by_cases hv' : i.dst = some v
  case pos => rw [hd v hv', hd' v (by simpa using hv')]
  case neg =>
    have h₁ := exec_values bus c hv'
    have h₂ := exec_values bus c' (i := renameInst rename i) (by
      rw [renameInst_dst]
      intro hd
      obtain ⟨w, hw, hr'⟩ := Option.map_eq_some_iff.mp hd
      have := hr w (hi w (by simp [occurring, hw])) v hv hr'
      exact hv' (this ▸ hw))
    rw [he] at h₁
    rw [he'] at h₂
    rw [h₁, h₂, h.values v hv]

theorem Renamed.execInstrs (h : Renamed rename M c c') (hr : InjOn rename M)
    (hi : ∀ i ∈ is, ∀ v ∈ occurring i, v ∈ M) :
    Straight.Related (Renamed rename M) SameMachine (Core.execInstrs bus is c)
      (Core.execInstrs bus (is.map (renameInst rename)) c') := by
  induction is generalizing c c'
  case nil => exact .running h
  case cons i is ih =>
    have ⟨hi, his⟩ := forall_mem_cons.mp hi
    have hx := h.exec bus hr hi
    rw [← Straight.execList_singleton (Core.exec bus) (renameInst rename i)] at hx
    exact Straight.execList_cons_related hx fun _ _ h => ih h his

theorem inScope_rename (hr : InjOn rename M) (hd : ∀ v ∈ d, v ∈ M)
    (hi : ∀ i ∈ is, ∀ v ∈ occurring i, v ∈ M) (hs : InScope d is) :
    InScope (d.image rename) (is.map (renameInst rename)) := by
  induction is generalizing d
  case nil => trivial
  case cons i is ih =>
    have ⟨hi, his⟩ := forall_mem_cons.mp hi
    have hdef : (renameInst rename i).define (d.image rename) = (i.define d).image rename := by
      cases h : i.dst
      case none => simp [define, h]
      case some v => simp [define, h]
    refine ⟨⟨?_, ?_⟩, ?_⟩
    · rw [renameInst_uses]
      intro v hv
      obtain ⟨w, hw, rfl⟩ := mem_map.mp hv
      exact Finset.mem_image_of_mem _ (hs.1.1 w hw)
    · rw [renameInst_dst]
      intro v hv hm
      obtain ⟨w, hw, rfl⟩ := Option.map_eq_some_iff.mp hv
      obtain ⟨u, hu, hr'⟩ := Finset.mem_image.mp hm
      obtain rfl := hr u (hd u hu) w (hi w (by simp [occurring, hw])) hr'
      exact hs.1.2 u hw hu
    · rw [hdef]
      refine ih (fun v hv => ?_) his hs.2
      rcases mem_define.mp hv with hv | hv
      · exact hi v (by simp [occurring, hv])
      · exact hd v hv

section Run

variable {t : TraceIr}

def renamed (t : TraceIr) : TraceIr :=
  { t with
    prologue := t.prologue.map (renameInst (buildMap t).idxOf)
    body := t.body.map (renameInst (buildMap t).idxOf) }

theorem run_cases (t : TraceIr) :
    (buildMap t = range (buildMap t).length ∧ (run t).1 = t) ∨ (run t).1 = renamed t := by
  unfold run
  dsimp only
  split
  case isTrue h => exact .inl ⟨h, rfl⟩
  case isFalse => exact .inr rfl

theorem renamed_agrees (t : TraceIr) : t.Agrees bus (renamed t) := by
  have hr := idxOf_injOn (buildMap t)
  have hM : ∀ i ∈ t.instrs, ∀ v ∈ occurring i, v ∈ buildMap t := fun i hi v hv =>
    mem_buildMap.mpr ⟨i, hi, hv⟩
  refine .of_related (R := Renamed (buildMap t).idxOf (buildMap t))
    (Q := Renamed (buildMap t).idxOf (buildMap t)) (fun m hm => ?_) (fun c c' hc => ?_)
    fun c c' hc => ⟨rfl, fun _ => hc, hc.sameMachine⟩
  · exact Renamed.execInstrs ⟨rfl, fun _ _ => rfl⟩ hr fun i hi => hM i (mem_append_left _ hi)
  · exact hc.execInstrs hr fun i hi => hM i (mem_append_right _ hi)

theorem renamed_wellScoped (ht : t.WellScoped) : (renamed t).WellScoped := by
  rw [TraceIr.wellScoped_iff] at ht ⊢
  have := inScope_rename (idxOf_injOn (buildMap t)) (by simp)
    (fun i hi v hv => mem_buildMap.mpr ⟨i, hi, hv⟩) ht
  simpa [renamed, TraceIr.instrs] using this

theorem run_agrees (t : TraceIr) : t.Agrees bus (run t).1 := by
  rcases run_cases t with ⟨-, h⟩ | h
  · rw [h]
    exact .refl t
  · rw [h]
    exact renamed_agrees t

theorem run_wellScoped (ht : t.WellScoped) : (run t).1.WellScoped := by
  rcases run_cases t with ⟨-, h⟩ | h
  · rwa [h]
  · rw [h]
    exact renamed_wellScoped ht

end Run

end Aero.Tier2.ValueCompact
