import Mathlib.Data.Multiset.AddSub

namespace RaisedLines

open Multiset

variable {α : Type*} [DecidableEq α]

inductive Event (α : Type*)
  | raise (line : α)
  | lower (line : α)
  deriving DecidableEq, Repr

-- The raises that are left unmatched. There is no result if a lower has no raise to match.
def replay : Multiset α → List (Event α) → Option (Multiset α)
  | lines, []              => some lines
  | lines, .raise a :: evs => replay (a ::ₘ lines) evs
  | lines, .lower a :: evs => if a ∈ lines then replay (lines.erase a) evs else none

-- The events take the lines from `a` to `b`, whatever else is raised.
def Moves (evs : List (Event α)) (a b : Multiset α) : Prop :=
  ∀ others, replay (others + a) evs = some (others + b)

variable {a b c d : Multiset α} {x : α}

theorem replay_append (lines : Multiset α) (evs evs' : List (Event α)) :
    replay lines (evs ++ evs') = (replay lines evs).bind fun lines' => replay lines' evs' := by
  induction evs generalizing lines
  case nil => rfl
  case cons ev evs ih =>
    cases ev
    case raise x => exact ih _
    case lower x =>
      rw [List.cons_append, replay, replay]
      split
      · exact ih _
      · rfl

namespace Moves

theorem nil : Moves [] a a :=
  fun _ => rfl

theorem raise : Moves [.raise x] 0 {x} := by
  intro others
  rw [replay, replay, Multiset.add_zero, Multiset.add_comm, Multiset.singleton_add]

theorem lower : Moves [.lower x] {x} 0 := by
  intro others
  have hmem : x ∈ others + {x} := mem_add.mpr (.inr (mem_singleton_self x))
  rw [replay, if_pos hmem, replay, erase_add_right_pos others (mem_singleton_self x),
    erase_singleton]

theorem append (h : Moves evs a b) (h' : Moves evs' b c) : Moves (evs ++ evs') a c := by
  intro others
  rw [replay_append, h others]
  exact h' others

theorem frame (h : Moves evs a b) (c : Multiset α) : Moves evs (c + a) (c + b) := by
  intro others
  rw [← Multiset.add_assoc, ← Multiset.add_assoc]
  exact h (others + c)

theorem frame_right (h : Moves evs a b) (c : Multiset α) : Moves evs (a + c) (b + c) := by
  rw [Multiset.add_comm a, Multiset.add_comm b]
  exact h.frame c

theorem both (h : Moves evs a b) (h' : Moves evs' c d) : Moves (evs ++ evs') (a + c) (b + d) :=
  (h.frame_right c).append (h'.frame b)

theorem pulse : Moves [.raise x, .lower x] a a := by
  have h := (raise (x := x)).append lower |>.frame a
  rwa [Multiset.add_zero] at h

end Moves

end RaisedLines
