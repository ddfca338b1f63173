import Mathlib.Logic.Basic

namespace Hoare

universe u

variable {ε σ α β : Type u}

-- From `s` on, the program returns with `Q` or fails with `E`.
def Wp (m : EStateM ε σ α) (Q : α → σ → Prop) (E : ε → σ → Prop) (s : σ) : Prop :=
  match m.run s with
  | .ok a s'    => Q a s'
  | .error e s' => E e s'

def Returns (m : EStateM ε σ α) (Q : α → σ → Prop) (s : σ) : Prop :=
  Wp m Q (fun _ _ => False) s

variable {R : β → σ → Prop} {s : σ}

theorem wp_pure : Wp (pure a) Q E s ↔ Q a s :=
  Iff.rfl

theorem wp_throw : Wp (throw e : EStateM ε σ α) Q E s ↔ E e s :=
  Iff.rfl

theorem wp_bind : Wp (m >>= f) R E s ↔ Wp m (fun a s' => Wp (f a) R E s') E s := by
  rw [Wp, Wp, EStateM.run, EStateM.run]
  simp only [bind, EStateM.bind]
  cases m s <;> rfl

theorem wp_get {Q : σ → σ → Prop} : Wp get Q E s ↔ Q s s :=
  Iff.rfl

theorem wp_modify {f : σ → σ} {Q : PUnit → σ → Prop} : Wp (modify f) Q E s ↔ Q ⟨⟩ (f s) :=
  Iff.rfl

theorem wp_ite [Decidable c] :
    Wp (if c then m else m') Q E s ↔ (c → Wp m Q E s) ∧ (¬c → Wp m' Q E s) := by
  by_cases h : c <;> simp [h]

theorem Wp.mono (h : Wp m Q E s) (hQ : ∀ a s', Q a s' → Q' a s') (hE : ∀ e s', E e s' → E' e s') :
    Wp m Q' E' s := by
  rw [Wp] at h ⊢
  split at h
  · exact hQ _ _ h
  · exact hE _ _ h

theorem Wp.bind (h : Wp m Q E s) (hf : ∀ a s', Q a s' → Wp (f a) R E s') : Wp (m >>= f) R E s :=
  wp_bind.mpr (h.mono hf fun _ _ => id)

theorem Returns.mono (h : Returns m Q s) (hQ : ∀ a s', Q a s' → Q' a s') : Returns m Q' s :=
  Wp.mono h hQ fun _ _ => id

theorem Returns.bind (h : Returns m Q s) (hf : ∀ a s', Q a s' → Returns (f a) R s') :
    Returns (m >>= f) R s :=
  Wp.bind h hf

theorem returns_iff : Returns m Q s ↔ ∃ a s', m.run s = .ok a s' ∧ Q a s' := by
  rw [Returns, Wp]
  cases h : m.run s
  case ok a s' =>
    simp only [EStateM.Result.ok.injEq]
    exact ⟨fun hQ => ⟨a, s', ⟨rfl, rfl⟩, hQ⟩, fun ⟨_, _, ⟨h₁, h₂⟩, hQ⟩ => h₁ ▸ h₂ ▸ hQ⟩
  case error e s' => simp

instance monadLiftExcept : MonadLift (Except ε) (EStateM ε σ) where
  monadLift
    | .ok a    => pure a
    | .error e => throw e

theorem wp_lift {x : Except ε α} :
    Wp (liftM x : EStateM ε σ α) Q E s ↔ (∀ a, x = .ok a → Q a s) ∧ ∀ e, x = .error e → E e s := by
  cases x
  case ok a =>
    have h : Wp (liftM (.ok a : Except ε α) : EStateM ε σ α) Q E s ↔ Q a s := wp_pure
    simp [h]
  case error e =>
    have h : Wp (liftM (.error e : Except ε α) : EStateM ε σ α) Q E s ↔ E e s := wp_throw
    simp [h]

theorem wp_lift_ok {x : Except ε α} (h : x = .ok a) :
    Wp (liftM x : EStateM ε σ α) Q E s ↔ Q a s := by
  rw [h]
  exact wp_pure

end Hoare
