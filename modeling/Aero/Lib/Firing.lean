import Mathlib.Data.Finset.Basic

namespace Firing

open Function

structure Source (κ ε : Type*) where
  deadline : κ → Nat
  next : κ → Except ε (Option κ)
  deadline_le_next {k l : κ} : next k = .ok (some l) → deadline k ≤ deadline l

variable {ι κ ε : Type*} [LinearOrder ι]

-- The order of the events: by time, and by source at the same time.
def Before (a b : ι × Nat) : Prop :=
  a.2 < b.2 ∨ (a.2 = b.2 ∧ a.1 ≤ b.1)

namespace Before

theorem trans {a b c : ι × Nat} (h₁ : Before a b) (h₂ : Before b c) : Before a c := by
  rcases h₁ with h₁ | ⟨h₁, hi₁⟩ <;> rcases h₂ with h₂ | ⟨h₂, hi₂⟩
  · exact .inl (h₁.trans h₂)
  · exact .inl (h₂ ▸ h₁)
  · exact .inl (h₁ ▸ h₂)
  · exact .inr ⟨h₁.trans h₂, hi₁.trans hi₂⟩

theorem antisymm {a b : ι × Nat} (h₁ : Before a b) (h₂ : Before b a) : a = b := by
  rcases h₁ with h₁ | ⟨h₁, hi₁⟩ <;> rcases h₂ with h₂ | ⟨h₂, hi₂⟩
  · omega
  · omega
  · omega
  · exact Prod.ext (le_antisymm hi₁ hi₂) h₁

theorem time_le {a b : ι × Nat} (h : Before a b) : a.2 ≤ b.2 := by
  rcases h with h | ⟨h, -⟩
  · exact h.le
  · exact h.le

theorem of_time_le (i : ι) (h : s ≤ t) : Before (i, s) (i, t) := by
  rcases h.lt_or_eq with h | h
  · exact .inl h
  · exact .inr ⟨h, le_rfl⟩

end Before

variable (src : Source κ ε)

structure Earliest (σ : ι → Option κ) (i : ι) (k : κ) : Prop where
  armed : σ i = some k
  least : ∀ j l, σ j = some l → Before (i, src.deadline k) (j, src.deadline l)

-- Everything that is due is fired.
inductive Advances (now : Nat) :
    (ι → Option κ) → Except ε (List (ι × Nat) × (ι → Option κ)) → Prop
  | stop {σ : ι → Option κ} (h : ∀ i k, σ i = some k → now < src.deadline k) :
    Advances now σ (.ok ([], σ))
  | fail {σ : ι → Option κ} {i : ι} {k : κ} {e : ε} (he : Earliest src σ i k)
    (hdue : src.deadline k ≤ now) (hnext : src.next k = .error e) : Advances now σ (.error e)
  | fire {σ : ι → Option κ} {i : ι} {k : κ} {o : Option κ}
    {r : Except ε (List (ι × Nat) × (ι → Option κ))} (he : Earliest src σ i k)
    (hdue : src.deadline k ≤ now) (hnext : src.next k = .ok o)
    (h : Advances now (Function.update σ i o) r) :
    Advances now σ (r.map fun p => ((i, src.deadline k) :: p.1, p.2))

inductive Fires (now : Nat) : Option κ → List Nat → Option κ → Prop
  | stop {o : Option κ} (h : ∀ k, o = some k → now < src.deadline k) : Fires now o [] o
  | fire {k : κ} {o o' : Option κ} {ts : List Nat} (hdue : src.deadline k ≤ now)
    (hnext : src.next k = .ok o) (h : Fires now o ts o') :
    Fires now (some k) (src.deadline k :: ts) o'

inductive Breaks (now : Nat) : κ → ε → Prop
  | here {k : κ} {e : ε} (hdue : src.deadline k ≤ now) (hnext : src.next k = .error e) :
    Breaks now k e
  | later {k l : κ} {e : ε} (hdue : src.deadline k ≤ now) (hnext : src.next k = .ok (some l))
    (h : Breaks now l e) : Breaks now k e

variable {src} {now : Nat} {σ : ι → Option κ}

theorem Earliest.unique (h₁ : Earliest src σ i k) (h₂ : Earliest src σ j l) : i = j ∧ k = l := by
  have hij := Before.antisymm (h₁.least j l h₂.armed) (h₂.least i k h₁.armed)
  rw [Prod.mk.injEq] at hij
  obtain ⟨rfl, -⟩ := hij
  exact ⟨rfl, Option.some.inj (h₁.armed.symm.trans h₂.armed)⟩

-- After the earliest source has fired nothing is due before it.
theorem Earliest.before_update (he : Earliest src σ i k) (hnext : src.next k = .ok o) :
    ∀ j l, update σ i o j = some l → Before (i, src.deadline k) (j, src.deadline l) := by
  intro j l hj
  by_cases hji : j = i
  · subst hji
    rw [update_self] at hj
    subst hj
    exact .of_time_le j (src.deadline_le_next hnext)
  · rw [update_of_ne hji] at hj
    exact he.least j l hj

theorem Fires.of_none (h : Fires src now none ts o) : ts = [] ∧ o = none := by
  cases h
  exact ⟨rfl, rfl⟩

namespace Advances

theorem unique (h : Advances src now σ r) (h' : Advances src now σ r') : r = r' := by
  induction h generalizing r'
  case stop hstop =>
    cases h' with
    | stop => rfl
    | fail he hdue => exact absurd hdue (hstop _ _ he.armed).not_ge
    | fire he hdue => exact absurd hdue (hstop _ _ he.armed).not_ge
  case fail he hdue hnext =>
    cases h' with
    | stop hstop => exact absurd hdue (hstop _ _ he.armed).not_ge
    | fail he' _ hnext' =>
      obtain ⟨rfl, rfl⟩ := he.unique he'
      rw [hnext] at hnext'
      cases hnext'
      rfl
    | fire he' _ hnext' =>
      obtain ⟨rfl, rfl⟩ := he.unique he'
      rw [hnext] at hnext'
      cases hnext'
  case fire he hdue hnext _ ih =>
    cases h' with
    | stop hstop => exact absurd hdue (hstop _ _ he.armed).not_ge
    | fail he' _ hnext' =>
      obtain ⟨rfl, rfl⟩ := he.unique he'
      rw [hnext] at hnext'
      cases hnext'
    | fire he' _ hnext' h' =>
      obtain ⟨rfl, rfl⟩ := he.unique he'
      rw [hnext] at hnext'
      cases hnext'
      rw [ih h']

theorem ok_cases (h : Advances src now σ (.ok (es, σ'))) :
    (es = [] ∧ σ' = σ ∧ ∀ i k, σ i = some k → now < src.deadline k) ∨
    ∃ i k o es', Earliest src σ i k ∧ src.deadline k ≤ now ∧ src.next k = .ok o ∧
      es = (i, src.deadline k) :: es' ∧ Advances src now (update σ i o) (.ok (es', σ')) := by
  generalize hr : (Except.ok (es, σ') : Except ε _) = r at h
  cases h with
  | stop hstop =>
    cases hr
    exact .inl ⟨rfl, rfl, hstop⟩
  | fail => cases hr
  | @fire _ _ _ _ r he hdue hnext h =>
    cases r
    case error => cases hr
    case ok p =>
      cases hr
      exact .inr ⟨_, _, _, p.1, he, hdue, hnext, rfl, h⟩

variable {es : List (ι × Nat)} {σ' : ι → Option κ}

section

variable (h : Advances src now σ (.ok (es, σ')))
include h

theorem before (ha : ∀ i k, σ i = some k → Before a (i, src.deadline k)) :
    ∀ b ∈ es, Before a b := by
  induction es generalizing σ
  case nil => simp
  case cons e es ih =>
    rcases h.ok_cases with ⟨h, -⟩ | ⟨i, k, o, es', he, -, hnext, hes, h⟩
    · cases h
    · cases hes
      have hik := ha i k he.armed
      intro b hb
      rcases List.mem_cons.mp hb with rfl | hb
      · exact hik
      · exact ih h (fun j l hj => hik.trans (he.before_update hnext j l hj)) b hb

theorem sorted : es.Pairwise Before := by
  induction es generalizing σ
  case nil => exact .nil
  case cons e es ih =>
    rcases h.ok_cases with ⟨h, -⟩ | ⟨i, k, o, es', he, -, hnext, hes, h⟩
    · cases h
    · cases hes
      exact .cons (h.before (he.before_update hnext)) (ih h)

theorem fires (i : ι) : Fires src now (σ i) ((es.filter (·.1 = i)).map (·.2)) (σ' i) := by
  induction es generalizing σ
  case nil =>
    rcases h.ok_cases with ⟨-, rfl, h⟩ | ⟨j, k, o, es', -, -, -, hes, -⟩
    · exact .stop (h i)
    · cases hes
  case cons e es ih =>
    rcases h.ok_cases with ⟨h, -⟩ | ⟨j, k, o, es', he, hdue, hnext, hes, h⟩
    · cases h
    · cases hes
      have hrest := ih h
      by_cases hji : j = i
      · subst hji
        rw [update_self] at hrest
        rw [he.armed, List.filter_cons_of_pos (by simp)]
        exact .fire hdue hnext hrest
      · rw [update_of_ne (Ne.symm hji)] at hrest
        rwa [List.filter_cons_of_neg (by simpa using hji)]

end

theorem breaks (h : Advances src now σ r) (hr : r = .error e) :
    ∃ i k, σ i = some k ∧ Breaks src now k e := by
  induction h
  case stop => cases hr
  case fail he hdue hnext =>
    cases hr
    exact ⟨_, _, he.armed, .here hdue hnext⟩
  case fire σ i k o r he hdue hnext _ ih =>
    cases r
    case ok => cases hr
    case error =>
      cases hr
      obtain ⟨j, l, hj, hbreaks⟩ := ih rfl
      by_cases hji : j = i
      · subst hji
        rw [update_self] at hj
        subst hj
        exact ⟨j, k, he.armed, .later hdue hnext hbreaks⟩
      · rw [update_of_ne hji] at hj
        exact ⟨j, l, hj, hbreaks⟩

theorem trans (hle : now ≤ now') (h : Advances src now σ (.ok (es, σ')))
    (h' : Advances src now' σ' r) : Advances src now' σ (r.map fun p => (es ++ p.1, p.2)) := by
  induction es generalizing σ
  case nil =>
    rcases h.ok_cases with ⟨-, rfl, -⟩ | ⟨j, k, o, es', -, -, -, hes, -⟩
    · have hid : (r.map fun p => ([] ++ p.1, p.2)) = r := by cases r <;> rfl
      rwa [hid]
    · cases hes
  case cons e es ih =>
    rcases h.ok_cases with ⟨h, -⟩ | ⟨j, k, o, es', he, hdue, hnext, hes, h⟩
    · cases h
    · cases hes
      have hmap := fire he (hdue.trans hle) hnext (ih h)
      have hcomp : ((r.map fun p => (es ++ p.1, p.2)).map fun p => ((j, src.deadline k) :: p.1, p.2)) =
          r.map fun p => ((j, src.deadline k) :: es ++ p.1, p.2) := by cases r <;> rfl
      rwa [hcomp] at hmap

end Advances

end Firing
