import Mathlib.Logic.Basic

namespace Except

universe u

variable {ε ε' : Type*} {α β : Type u}

theorem ok_bind (a : α) (f : α → Except ε β) : (.ok a : Except ε α) >>= f = f a :=
  rfl

theorem bind_eq_ok_iff {f : α → Except ε β} : x >>= f = .ok b ↔ ∃ a, x = .ok a ∧ f a = .ok b := by
  cases x
  case error e => simp [bind, Except.bind]
  case ok a => simp [bind, Except.bind]

theorem bind_unit_eq_ok_iff {x : Except ε PUnit} {f : PUnit → Except ε β} :
    x >>= f = .ok b ↔ x = .ok ⟨⟩ ∧ f ⟨⟩ = .ok b :=
  bind_eq_ok_iff.trans ⟨fun ⟨_, h⟩ => h, fun h => ⟨_, h⟩⟩

theorem ite_throw_bind_eq_ok_iff [Decidable c] {x : Except ε β} :
    (if c then throw e >>= k else x) = .ok b ↔ ¬c ∧ x = .ok b := by
  by_cases h : c <;> simp [h, bind, Except.bind]

theorem mapError_eq_ok_iff {x : Except ε α} {f : ε → ε'} : x.mapError f = .ok a ↔ x = .ok a := by
  cases x
  case error e => exact ⟨nofun, nofun⟩
  case ok b =>
    have hb : Except.mapError f (ok b) = ok b := rfl
    rw [hb]
    simp

theorem forM_eq_ok {xs : List α} {f : α → Except ε PUnit} (h : ∀ x ∈ xs, f x = .ok ⟨⟩) :
    xs.forM f = .ok ⟨⟩ := by
  induction xs
  case nil => rfl
  case cons x xs ih =>
    have ⟨hx, hxs⟩ := List.forall_mem_cons.mp h
    simp only [List.forM, hx]
    exact ih hxs

end Except
