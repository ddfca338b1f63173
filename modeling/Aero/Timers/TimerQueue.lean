import Aero.Types
import Mathlib.Data.Finset.Basic
import Mathlib.Data.List.Sort

namespace Aero.Timers

structure Scheduled (α : Type) where
  id : Nat
  deadlineNs : Nat
  payload : α
  deriving DecidableEq, Repr

def Scheduled.Before (a b : Scheduled α) : Prop :=
  a.deadlineNs < b.deadlineNs ∨ a.deadlineNs = b.deadlineNs ∧ a.id ≤ b.id

instance Scheduled.decidableBefore (a b : Scheduled α) : Decidable (a.Before b) :=
  inferInstanceAs (Decidable (_ ∨ _))

-- The heap is the list of its elements, from the top.
structure TimerQueue (α : Type) where
  nextId : Nat
  heap : List (Scheduled α)
  canceled : Finset Nat

namespace TimerQueue

def new : TimerQueue α where
  nextId := 0
  heap := []
  canceled := ∅

def schedule (q : TimerQueue α) (deadlineNs : Nat) (payload : α) : TimerQueue α × Nat :=
  let id := q.nextId
  ({ q with
    nextId := (q.nextId + 1) % 2 ^ 64
    heap := q.heap.orderedInsert Scheduled.Before { id, deadlineNs, payload } }, id)

def cancel (q : TimerQueue α) (id : Nat) : TimerQueue α :=
  { q with canceled := insert id q.canceled }

-- `if let Some(id) = timer_id.take() { queue.cancel(id) }` of the devices.
def cancelTaken (q : TimerQueue α) (timerId : Option Nat) : TimerQueue α :=
  timerId.elim q q.cancel

end TimerQueue

end Aero.Timers
