import Aero.Tier2.Opt.Passes.ConstFold
import Aero.Tier2.Theorems.Agrees

namespace Aero.Tier2

open Tier2.Core

open Instr (mem_define mem_define_dst mem_define_of_mem)

-- Of the values `d` that are in scope in the original code, the rewritten code keeps `d'`. The
-- others are replaced by operands that it keeps.
structure Replaced (d d' : Finset ValueId) (repl : AssocMap ValueId Operand) : Prop where
  subset : d' ⊆ d
  kept : ∀ v ∈ d, v ∉ d' → ∃ r, repl.get v = some r
  entries : repl.All fun v r => v ∈ d ∧ v ∉ d' ∧ r.InScope d'

namespace Replaced

variable {d d' : Finset ValueId} {repl : AssocMap ValueId Operand}

theorem empty : Replaced ∅ ∅ .empty :=
  ⟨Finset.Subset.refl _, by simp, .empty _⟩

theorem get_of_mem (h : Replaced d d' repl) (hv : v ∈ d') : repl.get v = none := by
  cases hr : repl.get v
  case none => rfl
  case some r => exact absurd hv (h.entries v r hr).2.1

theorem get_of_not_mem (h : Replaced d d' repl) (hv : v ∉ d) : repl.get v = none := by
  cases hr : repl.get v
  case none => rfl
  case some r => exact absurd (h.entries v r hr).1 hv

-- A replacement is not replaced itself, so that following the replacements stops after one step.
theorem resolve_value (h : Replaced d d' repl) (v : ValueId) :
    resolveRepl repl (.value v) = (repl.get v).getD (.value v) := by
  unfold resolveRepl
  cases hr : repl.get v
  case none => simp [followRepl, hr]
  case some r =>
    obtain ⟨n, hn⟩ := Nat.exists_eq_succ_of_ne_zero (AssocMap.size_pos_of_get hr).ne'
    have hin := (h.entries v r hr).2.2
    cases r
    case const k => simp [followRepl, hr, hn]
    case value w => simp [followRepl, hr, hn, h.get_of_mem (hin w rfl)]

theorem resolve_const (k : U64) : resolveRepl repl (.const k) = .const k := by
  simp [resolveRepl, followRepl]

theorem resolve_inScope (h : Replaced d d' repl) (ho : op.InScope d) :
    (resolveRepl repl op).InScope d' := by
  cases op
  case const k => rw [resolve_const]; exact .const k
  case value v =>
    rw [h.resolve_value]
    cases hr : repl.get v
    case some r => exact (h.entries v r hr).2.2
    case none =>
      refine .value ?_
      by_contra hv
      have ⟨r, hr'⟩ := h.kept v (ho v rfl) hv
      simp [hr] at hr'

theorem define (h : Replaced d d' repl) {i : Instr} (hi : i.Scoped d) :
    Replaced (i.define d) (i.define d') repl where
  subset v hv := by
    rcases mem_define.mp hv with hv | hv
    · exact mem_define_dst hv
    · exact mem_define_of_mem i (h.subset hv)
  kept v hv hv' := by
    rcases mem_define.mp hv with hv | hv
    · exact absurd (mem_define_dst hv) hv'
    · exact h.kept v hv fun hd => hv' (mem_define_of_mem i hd)
  entries := h.entries.mono fun v r ⟨hv, hv', hr⟩ => by
    refine ⟨mem_define_of_mem i hv, fun hd => ?_, hr.mono (Instr.subset_define d' i)⟩
    rcases mem_define.mp hd with hd | hd
    · exact hi.2 v hd hv
    · exact hv' hd

theorem replace (h : Replaced d d' repl) {i : Instr} (hi : i.Scoped d) (hd : i.dst = some dst)
    (hr : r.InScope d') : Replaced (i.define d) d' (repl.insert dst r) where
  subset := h.subset.trans (Instr.subset_define d i)
  kept v hv hv' := by
    rw [AssocMap.get_insert]
    split
    case isTrue => exact ⟨r, rfl⟩
    case isFalse hne =>
      rcases mem_define.mp hv with hv | hv
      · exact absurd (Option.some.inj (hd.symm.trans hv)).symm hne
      · exact h.kept v hv hv'
  entries := by
    have hn : dst ∉ d' := fun hv => hi.2 dst hd (h.subset hv)
    refine .insert (h.entries.mono ?_) ⟨mem_define_dst hd, hn, hr⟩
    rintro v r ⟨hv, hv', hr⟩
    exact ⟨mem_define_of_mem i hv, hv', hr⟩

end Replaced

def AgreesOn {β : Type} (d : Finset ValueId) (repl : AssocMap ValueId Operand) (c c' : Core β) :
    Prop :=
  ∀ v ∈ d, c.values v = c'.evalOperand (resolveRepl repl (.value v))

namespace AgreesOn

variable {β : Type} {bus : Tier1Bus β} {d d' : Finset ValueId} {repl : AssocMap ValueId Operand}
variable {c c' e e' : Core β} {i : Instr}

theorem evalOperand (h : AgreesOn d repl c c') (ho : op.InScope d) :
    c.evalOperand op = c'.evalOperand (resolveRepl repl op) := by
  cases op
  case const k => rw [Replaced.resolve_const]; rfl
  case value v => exact h v (ho v rfl)

theorem frame (hr : Replaced d d' repl) (h : AgreesOn d repl c c')
    (he : ∀ v ∈ d, e.values v = c.values v) (he' : ∀ v ∈ d', e'.values v = c'.values v) :
    AgreesOn d repl e e' := by
  intro v hv
  rw [he v hv, h v hv]
  exact (evalOperand_of_inScope (hr.resolve_inScope (.value hv)) he').symm

theorem define (hr : Replaced d d' repl) (hi : i.Scoped d) (h : AgreesOn d repl e e')
    (hd : ∀ v, i.dst = some v → e.values v = e'.values v) : AgreesOn (i.define d) repl e e' := by
  intro v hv
  rcases mem_define.mp hv with hv | hv
  · rw [hr.resolve_value, hr.get_of_not_mem (hi.2 v hv)]
    exact hd v hv
  · exact h v hv

theorem replace (hr : Replaced d d' repl) (hi : i.Scoped d) (hd : i.dst = some dst)
    (hrd : r.InScope d') (h : AgreesOn d repl e e') (hv : e.values dst = e'.evalOperand r) :
    AgreesOn (i.define d) (repl.insert dst r) e e' := by
  have hr' := hr.replace hi hd hrd
  intro v hv'
  rw [hr'.resolve_value, AssocMap.get_insert]
  split
  case isTrue hvd => rw [hvd]; exact hv
  case isFalse hne =>
    rcases mem_define.mp hv' with hv' | hv'
    · exact absurd (Option.some.inj (hd.symm.trans hv')).symm hne
    · rw [← hr.resolve_value]
      exact h v hv'

end AgreesOn

section Keep

open Straight (Related)

variable {β : Type} {bus : Tier1Bus β} {d d' : Finset ValueId} {repl : AssocMap ValueId Operand}
variable {c c' : Core β} {i j : Instr}

structure KeptFrame (d d' : Finset ValueId) (repl : AssocMap ValueId Operand) (i : Instr)
    (c c' e e' : Core β) : Prop where
  sameMachine : SameMachine e e'
  agrees : AgreesOn (i.define d) repl e e'
  values : ∀ v ∈ d, e.values v = c.values v
  values' : ∀ v ∈ d', e'.values v = c'.values v

def SameEffect (i : Instr) (r r' : Core β × Option RunExit) : Prop :=
  Related (fun e e' => SameMachine e e' ∧ ∀ v, i.dst = some v → e.values v = e'.values v)
    SameMachine r r'

theorem scoped_keep (hi : i.Scoped d) (hr : Replaced d d' repl) (hd : j.dst = i.dst)
    (hj : ∀ op ∈ j.operands, op.InScope d') : j.Scoped d' :=
  ⟨Instr.uses_mem_of_operands hj, fun v hv hd' => hi.2 v (hd ▸ hv) (hr.subset hd')⟩

theorem exec_keep (hi : i.Scoped d) (hr : Replaced d d' repl) (hj : j.Scoped d')
    (ha : AgreesOn d repl c c') (he : SameEffect i (exec bus i c) (exec bus j c')) :
    Related (KeptFrame d d' repl i c c') SameMachine (exec bus i c)
      (exec bus j c') := by
  refine he.with_runs.mono ?_ fun _ _ h => h
  intro e e' ⟨⟨hm, hv⟩, h₁, h₂⟩
  have hve : ∀ v ∈ d, e.values v = c.values v := fun v hv => by
    rw [← exec_values_of_mem bus c hi hv, h₁]
  have hve' : ∀ v ∈ d', e'.values v = c'.values v := fun v hv => by
    rw [← exec_values_of_mem bus c' hj hv, h₂]
  exact ⟨hm, .define hr hi (ha.frame hr hve hve') hv, hve, hve'⟩

end Keep

section Step

open Straight (Related Rewritten)

variable {β : Type} (bus : Tier1Bus β) {F : Type}
variable (Scoped : Finset ValueId → Finset ValueId → F → Prop)
variable (Sound : Finset ValueId → F → Core β → Core β → Prop)

structure RewritesTo (d d' : Finset ValueId) (f : F) (i : Instr) (r : Rewritten Instr F) :
    Prop where
  inScope : InScope d' r.out
  facts : Scoped (i.define d) (scopeAfter d' r.out) r.facts
  exec : ∀ c c', Sound d f c c' →
    Related (fun e e' => r.stop = false ∧ Sound (i.define d) r.facts e e') SameMachine
      (Core.exec bus i c) (Core.execInstrs bus r.out c')

variable {bus Scoped Sound} {step : F → Instr → Rewritten Instr F}

section

variable
  (h : ∀ d d' f i, i.Scoped d → Scoped d d' f → RewritesTo bus Scoped Sound d d' f i (step f i))
include h

theorem keepsScope_of_rewritesTo : KeepsScope step (fun _ => True) Scoped :=
  fun d d' f i hi hf => ⟨(h d d' f i hi.1 hf).inScope, (h d d' f i hi.1 hf).facts⟩

theorem simulates_of_rewritesTo (hm : ∀ d f c c', Sound d f c c' → SameMachine c c')
    (hd : ∀ f i j v, j ∈ (step f i).out → j.dst = some v → i.dst = some v) :
    Simulates bus step (fun _ => True)
      fun d f c c' => (∃ d', Scoped d d' f) ∧ Sound d f c c' where
  sameMachine d f c c' h := hm d f c c' h.2
  exec d f i c c' hi hc := by
    have ⟨⟨d', hf⟩, hc⟩ := hc
    have hr := h d d' f i hi.1 hf
    exact (hr.exec c c' hc).mono (fun _ _ ⟨hs, hc⟩ => ⟨hs, ⟨_, hr.facts⟩, hc⟩) fun _ _ h => h
  dst := hd

end

end Step

end Aero.Tier2
