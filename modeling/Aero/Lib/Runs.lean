import Mathlib.Data.List.Basic

namespace Runs

variable {σ ι : Type*} (step : σ → ι → σ)

def Each (p : σ → ι → Prop) : σ → List ι → Prop
  | _, []      => True
  | s, i :: is => p s i ∧ Each p (step s i) is

def Always (inv : σ → Prop) : σ → List ι → Prop
  | s, []      => inv s
  | s, i :: is => inv s ∧ Always inv (step s i) is

instance decidableEach {p : σ → ι → Prop} [∀ s i, Decidable (p s i)] :
    ∀ s is, Decidable (Each step p s is)
  | _, []      => .isTrue trivial
  | s, i :: is => @instDecidableAnd _ _ inferInstance (decidableEach (step s i) is)

variable {step} {inv aux : σ → Prop} {p q : σ → ι → Prop} {s : σ} {is : List ι}

theorem Always.head (h : Always step inv s is) : inv s := by
  cases is with
  | nil => exact h
  | cons i is => exact h.1

theorem Always.last (h : Always step inv s is) : inv (is.foldl step s) := by
  induction is generalizing s with
  | nil => exact h
  | cons i is ih => exact ih h.2

theorem Always.mono (h : Always step inv s is) (himp : ∀ s, inv s → aux s) :
    Always step aux s is := by
  induction is generalizing s with
  | nil => exact himp s h
  | cons i is ih => exact ⟨himp s h.1, ih h.2⟩

theorem each_congr (h : ∀ s i, p s i ↔ q s i) : Each step p s is ↔ Each step q s is := by
  induction is generalizing s with
  | nil => exact Iff.rfl
  | cons i is ih => exact and_congr (h s i) ih

theorem Always.each_iff (ha : Always step inv s is) (hp : Each step p s is)
    (h : ∀ s i, inv s → p s i → (q s i ↔ r s i)) : Each step q s is ↔ Each step r s is := by
  induction is generalizing s with
  | nil => exact Iff.rfl
  | cons i is ih => exact and_congr (h s i ha.1 hp.1) (ih ha.2 hp.2)

theorem Each.and (hp : Each step p s is) (hq : Each step q s is) :
    Each step (fun s i => p s i ∧ q s i) s is := by
  induction is generalizing s with
  | nil => trivial
  | cons i is ih => exact ⟨⟨hp.1, hq.1⟩, ih hp.2 hq.2⟩

theorem always_of_each (hstep : ∀ s i, inv s → p s i → inv (step s i)) (hs : inv s)
    (h : Each step p s is) : Always step inv s is := by
  induction is generalizing s with
  | nil => exact hs
  | cons i is ih => exact ⟨hs, ih (hstep s i hs h.1) h.2⟩

theorem always_of_step (hstep : ∀ s i, inv s → inv (step s i)) (hs : inv s) :
    Always step inv s is := by
  induction is generalizing s with
  | nil => exact hs
  | cons i is ih => exact ⟨hs, ih (hstep s i hs)⟩

-- A property that a step keeps exactly under its condition, beside one that holds all along.
theorem Always.iff_each (ha : Always step aux s is)
    (hstep : ∀ s i, aux s → aux (step s i) → inv s → (inv (step s i) ↔ p s i)) (hs : inv s) :
    Always step inv s is ↔ Each step p s is := by
  induction is generalizing s with
  | nil => exact iff_of_true hs trivial
  | cons i is ih =>
    have hiff := hstep s i ha.1 ha.2.head hs
    constructor
    · intro h
      exact ⟨hiff.mp h.2.head, (ih ha.2 h.2.head).mp h.2⟩
    · intro h
      exact ⟨hs, (ih ha.2 (hiff.mpr h.1)).mpr h.2⟩

theorem always_iff_each (haux : ∀ s i, aux s → aux (step s i))
    (hstep : ∀ s i, aux s → inv s → (inv (step s i) ↔ p s i)) (ha : aux s) (hs : inv s) :
    Always step inv s is ↔ Each step p s is :=
  (always_of_step haux ha).iff_each (fun s i ha _ => hstep s i ha) hs

-- A number that no step makes smaller is bounded along the run by its bound at the end.
theorem each_lt {μ : σ → Nat} {b : Nat} (hmono : ∀ s i, μ s ≤ μ (step s i))
    (h : μ (is.foldl step s) < b) : Each step (fun s i => μ (step s i) < b) s is := by
  have hle : ∀ (is : List ι) s, μ s ≤ μ (is.foldl step s) := by
    intro is
    induction is with
    | nil => exact fun _ => Nat.le_refl _
    | cons i is ih => exact fun s => Nat.le_trans (hmono s i) (ih (step s i))
  induction is generalizing s with
  | nil => trivial
  | cons i is ih => exact ⟨Nat.lt_of_le_of_lt (hle is (step s i)) h, ih h⟩

section Outputs

variable {ο τ : Type*} {f : σ → ι → σ × ο} {g : τ → ι → τ × ο}

def outputs (f : σ → ι → σ × ο) : σ → List ι → List ο
  | _, []      => []
  | s, i :: is => (f s i).2 :: outputs f (f s i).1 is

def final (f : σ → ι → σ × ο) : σ → List ι → σ
  | s, []      => s
  | s, i :: is => final f (f s i).1 is

theorem outputs_append (s : σ) (is js : List ι) :
    outputs f s (is ++ js) = outputs f s is ++ outputs f (final f s is) js := by
  induction is generalizing s with
  | nil => rfl
  | cons i is ih => rw [List.cons_append, outputs, ih, outputs, final, List.cons_append]

theorem final_append (s : σ) (is js : List ι) :
    final f s (is ++ js) = final f (final f s is) js := by
  induction is generalizing s with
  | nil => rfl
  | cons i is ih => rw [List.cons_append, final, ih, final]

-- Two systems return the same if a relation between them is kept by the steps that are taken.
theorem outputs_eq {R : σ → τ → Prop} {p : ι → Prop}
    (hstep : ∀ s t i, R s t → p i → (f s i).2 = (g t i).2 ∧ R (f s i).1 (g t i).1) (hR : R s t)
    (hp : ∀ i ∈ is, p i) : outputs f s is = outputs g t is := by
  induction is generalizing s t with
  | nil => rfl
  | cons i is ih =>
    obtain ⟨hout, hnext⟩ := hstep s t i hR (hp i List.mem_cons_self)
    rw [outputs, outputs, hout, ih hnext fun j hj => hp j (List.mem_cons_of_mem i hj)]

end Outputs

end Runs
