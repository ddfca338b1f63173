import Aero.Tier2.Theorems.Core
import Aero.Tier2.Theorems.Effects

namespace Aero.Tier2

open Straight List

variable {β : Type} (bus : Tier1Bus β)

-- The two traces leave every run with the same exit and the same machine, and they leave it in the
-- prologue alike. Without any iteration, they can differ in the flags that the body would have
-- overwritten.
structure TraceIr.Agrees (t t' : TraceIr) : Prop where
  prologue : ∀ (m : Machine β) (hm : m.cpu.rflags.getLsbD 1 = true),
    (Core.execInstrs bus t.prologue (.init m hm)).2 =
      (Core.execInstrs bus t'.prologue (.init m hm)).2
  run : ∀ (m : Machine β) (hm : m.cpu.rflags.getLsbD 1 = true) (n : Nat), 1 ≤ n →
    ((Core.init m hm).run bus t n).2 = ((Core.init m hm).run bus t' n).2 ∧
    SameMachine ((Core.init m hm).run bus t n).1 ((Core.init m hm).run bus t' n).1

namespace TraceIr.Agrees

variable {bus}

theorem refl (t : TraceIr) : t.Agrees bus t :=
  ⟨fun _ _ => rfl, fun _ _ _ _ => ⟨rfl, rfl⟩⟩

theorem trans {t₁ t₂ t₃ : TraceIr} (h₁ : t₁.Agrees bus t₂) (h₂ : t₂.Agrees bus t₃) :
    t₁.Agrees bus t₃ where
  prologue m hm := (h₁.prologue m hm).trans (h₂.prologue m hm)
  run m hm n hn := ⟨(h₁.run m hm n hn).1.trans (h₂.run m hm n hn).1,
    (h₁.run m hm n hn).2.trans (h₂.run m hm n hn).2⟩

theorem of_related {t t' : TraceIr}
    (hp : ∀ m hm, Related R SameMachine (Core.execInstrs bus t.prologue (.init m hm))
      (Core.execInstrs bus t'.prologue (.init m hm)))
    (hb : ∀ c c', R c c' → Related Q SameMachine (Core.execInstrs bus t.body c)
      (Core.execInstrs bus t'.body c'))
    (hr : ∀ c c', Q c c' → t.kind = t'.kind ∧ (t.kind = .loop → R c c') ∧ SameMachine c c') :
    t.Agrees bus t' := by
  refine ⟨fun m hm => (hp m hm).exit_eq, fun m hm n hn => ?_⟩
  refine run_related (hp m hm) hb (fun c c' h => ?_) fun h => by omega
  have ⟨hk, hl, ho⟩ := hr c c' h
  exact ⟨by rw [hk], fun h => hl (by simpa using h), ho⟩

theorem of_prologue_exits {t t' : TraceIr}
    (hp : ∀ m hm, Related (fun _ _ => False) SameMachine
      (Core.execInstrs bus t.prologue (.init m hm))
      (Core.execInstrs bus t'.prologue (.init m hm))) :
    t.Agrees bus t' :=
  of_related (Q := fun _ _ => False) hp (fun _ _ h => h.elim) fun _ _ h => h.elim

end TraceIr.Agrees

section Rewriting

variable {F : Type} (step : F → Instr → Rewritten Instr F) (cut : F → List Instr → F)

-- The instructions of the trace that is rewritten may be known to have some property.
variable (ok : Instr → Prop)

-- The static obligation of a rewriting pass. `P d d' f` relates the values in scope in the original
-- code, those in scope in the rewritten code and the facts.
def KeepsScope (P : Finset ValueId → Finset ValueId → F → Prop) : Prop :=
  ∀ d d' f i, i.Scoped d ∧ ok i → P d d' f →
    InScope d' (step f i).out ∧ P (i.define d) (scopeAfter d' (step f i).out) (step f i).facts

-- The dynamic obligation. `Inv d f c c'` relates the states of the original and of the rewritten
-- code at a point where the values `d` are in scope and the facts `f` are known.
structure Simulates (Inv : Finset ValueId → F → Core β → Core β → Prop) : Prop where
  sameMachine : ∀ d f c c', Inv d f c c' → SameMachine c c'
  exec : ∀ d f i c c', i.Scoped d ∧ ok i → Inv d f c c' →
    Related (fun e e' => (step f i).stop = false ∧ Inv (i.define d) (step f i).facts e e')
      SameMachine (Core.exec bus i c) (Core.execInstrs bus (step f i).out c')
  dst : ∀ f i j v, j ∈ (step f i).out → j.dst = some v → i.dst = some v

structure BodyFrame (t : TraceIr) (c c' e e' : Core β) : Prop where
  sameMachine : SameMachine e e'
  values : ∀ v ∈ scopeAfter ∅ t.prologue, e.values v = c.values v
  values' : ∀ v ∈ scopeAfter ∅ t.prologue, e'.values v = c'.values v
  gpr : ∀ reg, t.bodyRegsWritten reg = false →
    e.machine.cpu.gpr reg = c.machine.cpu.gpr reg

variable {bus step cut ok} {t t' : TraceIr} {f₀ fb : F}

theorem KeepsScope.prologue (cut : F → List Instr → F) (h : KeepsScope step ok P)
    (ht : t.WellScoped) (hok : ∀ i ∈ t.instrs, ok i) (h₀ : P ∅ ∅ f₀) :
    InScope ∅ (rewrite step cut f₀ t.prologue).out ∧
    ((rewrite step cut f₀ t.prologue).stop = false →
      P (scopeAfter ∅ t.prologue) (scopeAfter ∅ (rewrite step cut f₀ t.prologue).out)
        (rewrite step cut f₀ t.prologue).facts) :=
  inScope_rewrite h
    (inScope_and_forall ht.prologue fun i hi => hok i (mem_append_left _ hi)) h₀

theorem KeepsScope.body (h : KeepsScope step ok P) (ht : t.WellScoped) (hok : ∀ i ∈ t.instrs, ok i)
    (hb : P (scopeAfter ∅ t.prologue) d' fb) : InScope d' (rewrite step cut fb t.body).out :=
  inScope_rewrite h
    (inScope_and_forall ht.body fun i hi => hok i (mem_append_right _ hi)) hb |>.1

variable {Inv : Finset ValueId → F → Core β → Core β → Prop}

theorem Simulates.execInstrs (cut : F → List Instr → F) (h : Simulates bus step ok Inv)
    (hs : InScope d is) (hok : ∀ i ∈ is, ok i) (hi : Inv d f c c') :
    Related (fun e e' => (rewrite step cut f is).stop = false ∧
        Inv (scopeAfter d is) (rewrite step cut f is).facts e e')
      SameMachine (Core.execInstrs bus is c)
      (Core.execInstrs bus (rewrite step cut f is).out c') :=
  execList_rewrite h.exec (inScope_and_forall hs hok) hi

section

variable (h : Simulates bus step ok Inv)
include h

theorem Simulates.dst_out (hj : j ∈ (rewrite step cut f is).out) (hv : j.dst = some v) :
    ∃ i ∈ is, i.dst = some v :=
  have ⟨i, hi, g, hg⟩ := mem_out_rewrite hj
  ⟨i, hi, h.dst g i j v hg hv⟩

theorem Simulates.bodyFrame (ht : t.WellScoped) (he : Core.execInstrs bus t.body c = (e, none))
    (he' : Core.execInstrs bus (rewrite step cut fb t.body).out c' = (e', none))
    (hm : SameMachine e e') : BodyFrame t c c' e e' where
  sameMachine := hm
  values v hv := by
    have := Core.execInstrs_values_of_mem bus c ht.body hv
    rwa [he] at this
  values' v hv := by
    have : ∀ j ∈ (rewrite step cut fb t.body).out, j.dst ≠ some v := fun j hj hd =>
      have ⟨i, hi, hd⟩ := h.dst_out hj hd
      ht.body.dst_not_mem hi hd hv
    have := Core.execInstrs_values bus c' this
    rwa [he'] at this
  gpr reg hr := by
    have : ∀ i ∈ t.body, ∀ src, i ≠ .storeReg reg src := fun i hi src hs => by
      have : t.bodyRegsWritten reg = true := any_eq_true.mpr ⟨i, hi, by simp [hs]⟩
      simp [this] at hr
    have := Core.execInstrs_gpr bus c this
    rwa [he] at this

theorem Simulates.agrees_of_stop (ht : t.WellScoped) (hok : ∀ i ∈ t.instrs, ok i)
    (hi : ∀ m hm, Inv ∅ f₀ (.init m hm) (.init m hm))
    (hs : (rewrite step cut f₀ t.prologue).stop = true)
    (hp : t'.prologue = (rewrite step cut f₀ t.prologue).out) : t.Agrees bus t' := by
  refine .of_prologue_exits fun m hm => ?_
  rw [hp]
  exact h.execInstrs cut ht.prologue (fun i hi => hok i (mem_append_left _ hi)) (hi m hm)
    |>.mono (fun _ _ h => by simp [hs] at h) fun _ _ h => h

theorem Simulates.agrees (ht : t.WellScoped) (hok : ∀ i ∈ t.instrs, ok i)
    (hi : ∀ m hm, Inv ∅ f₀ (.init m hm) (.init m hm))
    (hp : t'.prologue = (rewrite step cut f₀ t.prologue).out)
    (hb : t'.body = (rewrite step cut fb t.body).out)
    (hk : (rewrite step cut fb t.body).stop = false → t.kind = t'.kind)
    (he : ∀ c c', Inv (scopeAfter ∅ t.prologue) (rewrite step cut f₀ t.prologue).facts c c' →
      Inv (scopeAfter ∅ t.prologue) fb c c')
    (hf : t.kind = .loop → ∀ c c' d g e e', Inv (scopeAfter ∅ t.prologue) fb c c' →
      Inv d g e e' → BodyFrame t c c' e e' → Inv (scopeAfter ∅ t.prologue) fb e e') :
    t.Agrees bus t' := by
  refine .of_related (R := Inv (scopeAfter ∅ t.prologue) fb)
    (Q := fun e e' => t.kind = t'.kind ∧
      (t.kind = .loop → Inv (scopeAfter ∅ t.prologue) fb e e') ∧ SameMachine e e')
    (fun m hm => ?_) (fun c c' hc => ?_) fun _ _ h => h
  · rw [hp]
    exact h.execInstrs cut ht.prologue (fun i hi => hok i (mem_append_left _ hi)) (hi m hm)
      |>.mono (fun _ _ hc => he _ _ hc.2) fun _ _ h => h
  · rw [hb]
    have hb := h.execInstrs cut ht.body (fun i hi => hok i (mem_append_right _ hi)) hc
    refine hb.with_runs.mono ?_ fun _ _ h => h
    intro e e' ⟨⟨hs, hi⟩, h₁, h₂⟩
    have hm := h.sameMachine _ _ _ _ hi
    exact ⟨hk hs, fun hl => hf hl c c' _ _ e e' hc hi (h.bodyFrame ht h₁ h₂ hm), hm⟩

-- Where the rewriting stops in the body, that body always exits and is not repeated.
theorem Simulates.agrees_of_body_stop (ht : t.WellScoped) (hok : ∀ i ∈ t.instrs, ok i)
    (hi : ∀ m hm, Inv ∅ f₀ (.init m hm) (.init m hm))
    (he : ∀ c c', Inv (scopeAfter ∅ t.prologue) (rewrite step cut f₀ t.prologue).facts c c' →
      Inv (scopeAfter ∅ t.prologue) fb c c') (hs : (rewrite step cut fb t.body).stop = true)
    (k : TraceKind) : t.Agrees bus { t with kind := k } := by
  refine .of_related (R := fun c c' => c = c' ∧ ∃ e, Inv (scopeAfter ∅ t.prologue) fb c e)
    (Q := fun _ _ => False) (fun m hm => ?_) (fun c c' hc => ?_) fun _ _ h => h.elim
  · have := h.execInstrs cut ht.prologue (fun i hi => hok i (mem_append_left _ hi)) (hi m hm)
    exact this.diag _ (fun _ e hc => ⟨rfl, e, he _ _ hc.2⟩) _ fun _ => rfl
  · obtain ⟨rfl, e, hc⟩ := hc
    have := h.execInstrs cut ht.body (fun i hi => hok i (mem_append_right _ hi)) hc
    exact this.diag _ (fun _ _ hc => by simp [hs] at hc) _ fun _ => rfl

end

end Rewriting

-- A rewriting pass that replaces each instruction by one that does the same in every state in
-- which the facts hold.
section InPlace

variable {F : Type} (step : F → Instr → Rewritten Instr F) (ok : Instr → Prop)

-- The instruction `j`, with the facts `g` behind it, is a replacement of `i`.
structure Replaces (Scoped : Finset ValueId → F → Prop) (Sound : F → Core β → Prop)
    (d : Finset ValueId) (f : F) (i j : Instr) (g : F) : Prop where
  uses : ∀ op ∈ j.operands, op.InScope d
  scope : Scoped (i.define d) g
  exec : ∀ c, Sound f c → Core.exec bus j c = Core.exec bus i c
  sound : ∀ c e, Sound f c → Core.exec bus i c = (e, none) → Sound g e

structure InPlace (Scoped : Finset ValueId → F → Prop) (Sound : F → Core β → Prop) : Prop where
  out : ∀ f i, ∃ j, step f i = { out := [j], facts := (step f i).facts } ∧ i.Keeps j
  replaces : ∀ d f i, i.Scoped d → ok i → Scoped d f → ∀ j ∈ (step f i).out,
    Replaces bus Scoped Sound d f i j (step f i).facts
  -- The facts about the values in scope survive as long as these values do.
  frame : ∀ d f g c e, Scoped d f → Sound f c → Sound g e →
    (∀ v ∈ d, e.values v = c.values v) → Sound f e

namespace InPlace

variable {bus step ok} {Scoped : Finset ValueId → F → Prop} {Sound : F → Core β → Prop}

section

variable (h : InPlace bus step ok Scoped Sound)
include h

theorem stop_eq (f : F) (i : Instr) : (step f i).stop = false := by
  have ⟨j, hj, _⟩ := h.out f i
  rw [hj]

theorem keepsScope : KeepsScope step ok fun d d' f => d' = d ∧ Scoped d f := by
  rintro _ d f i hi ⟨rfl, hf⟩
  have ⟨j, hj, hk⟩ := h.out f i
  have hd := hk.dst
  have hr := h.replaces d f i hi.1 hi.2 hf j (by rw [hj]; simp)
  have hs := hr.scope
  rw [hj]
  refine ⟨⟨⟨Instr.uses_mem_of_operands hr.uses, fun v hv => hi.1.2 v (hd ▸ hv)⟩, trivial⟩, ?_, hs⟩
  simp [Instr.define, hd]

theorem simulates : Simulates bus step ok fun d f c c' => c = c' ∧ Scoped d f ∧ Sound f c where
  sameMachine _ _ _ _ h := congrArg _ h.1
  exec d f i c _ hi := by
    rintro ⟨rfl, hf, hc⟩
    have ⟨j, hj, _⟩ := h.out f i
    have hr := h.replaces d f i hi.1 hi.2 hf j (by rw [hj]; simp)
    have hout : Core.execInstrs bus (step f i).out c = Core.exec bus i c := by
      rw [hj, ← hr.exec c hc]
      exact execList_singleton _ _ _
    rw [hout]
    match hx : Core.exec bus i c with
    | (e, none) => exact .running ⟨h.stop_eq f i, rfl, hr.scope, hr.sound c e hc hx⟩
    | (e, some _) => exact .exited rfl
  dst f i j v hj hv := by
    have ⟨j', hj', hk⟩ := h.out f i
    rw [hj', mem_singleton] at hj
    exact hk.dst ▸ hj ▸ hv

end

variable {cut : F → List Instr → F} {t : TraceIr} {f₀ : F}

theorem rewrite_stop (h : InPlace bus step ok Scoped Sound) (f : F) (is : List Instr) :
    (rewrite step cut f is).stop = false := by
  induction is generalizing f
  case nil => rfl
  case cons i is ih =>
    rw [rewrite_cons step cut is (h.stop_eq f i)]
    exact ih _

variable (step cut t f₀) in
def rewritten : TraceIr :=
  let p := rewrite step cut f₀ t.prologue
  { t with prologue := p.out, body := (rewrite step cut p.facts t.body).out }

section

variable (h : InPlace bus step ok Scoped Sound) (ht : t.WellScoped) (hok : ∀ i ∈ t.instrs, ok i)
  (h₀ : Scoped ∅ f₀)
include h ht hok h₀

theorem agrees (hs : ∀ m hm, Sound f₀ (.init m hm)) : t.Agrees bus (rewritten step cut t f₀) :=
  h.simulates.agrees ht hok (fun m hm => ⟨rfl, h₀, hs m hm⟩) rfl rfl (fun _ => rfl)
    (fun _ _ h => h) <| by
      rintro _ c _ d g e _ ⟨rfl, hf, hc⟩ ⟨rfl, _, hg⟩ hb
      exact ⟨rfl, hf, h.frame _ _ g c e hf hc hg hb.values⟩

theorem wellScoped : (rewritten step cut t f₀).WellScoped := by
  have ⟨hp, hb⟩ := h.keepsScope.prologue cut ht hok ⟨rfl, h₀⟩
  exact ⟨hp, h.keepsScope.body ht hok (hb (h.rewrite_stop _ _))⟩

end

end InPlace

end InPlace

end Aero.Tier2
