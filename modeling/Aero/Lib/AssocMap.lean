import Mathlib.Data.List.Basic

-- Finite maps as lists of entries. An entry hides the older ones with the same key.
def AssocMap (α β : Type*) := List (α × β)

namespace AssocMap

variable {α β : Type*} [DecidableEq α]

def empty : AssocMap α β := []

def get (m : AssocMap α β) (k : α) : Option β :=
  List.lookup k m

def insert (m : AssocMap α β) (k : α) (v : β) : AssocMap α β :=
  (k, v) :: m

def remove (m : AssocMap α β) (k : α) : AssocMap α β :=
  List.filter (fun e => e.1 ≠ k) m

def size (m : AssocMap α β) : Nat :=
  List.length m

@[simp]
theorem get_empty (k : α) : (empty : AssocMap α β).get k = none := rfl

theorem size_pos_of_get {m : AssocMap α β} (h : m.get k = some v) : 0 < m.size := by
  cases m
  case nil => cases h
  case cons => exact Nat.succ_pos _

theorem get_insert (m : AssocMap α β) (k l : α) (v : β) :
    (m.insert k v).get l = if l = k then some v else m.get l := by
  by_cases h : l = k
  case pos =>
    subst h
    rw [if_pos rfl]
    exact List.lookup_cons_self
  case neg =>
    rw [if_neg h]
    exact List.lookup_cons.trans (by rw [beq_eq_false_iff_ne.mpr h]; rfl)

theorem get_remove (m : AssocMap α β) (k l : α) :
    (m.remove k).get l = if l = k then none else m.get l := by
  induction m
  case nil => simp [get, remove]
  case cons e m ih =>
    have hc : get (e :: m) l = if l = e.1 then some e.2 else get m l :=
      get_insert m e.1 l e.2
    by_cases ha : e.1 = k
    case pos =>
      have hr : remove (e :: m) k = remove m k :=
        List.filter_cons_of_neg (by simp [ha])
      rw [hr, ih, hc, ha]
      split <;> rfl
    case neg =>
      have hr : remove (e :: m) k = (remove m k).insert e.1 e.2 :=
        List.filter_cons_of_pos (by simp [ha])
      rw [hr, get_insert, ih, hc]
      by_cases hl : l = e.1
      case pos => simp [hl, ha]
      case neg => simp [hl]

theorem get_of_get_remove {m : AssocMap α β} (h : (m.remove k).get l = some v) :
    m.get l = some v := by
  rw [get_remove] at h
  split at h
  · cases h
  · exact h

def All (m : AssocMap α β) (P : α → β → Prop) : Prop :=
  ∀ k v, m.get k = some v → P k v

namespace All

variable {m : AssocMap α β}

theorem empty (P : α → β → Prop) : All (empty : AssocMap α β) P :=
  fun _ _ h => by simp at h

theorem mono (h : m.All P) (hp : ∀ k v, P k v → Q k v) : m.All Q :=
  fun k v hv => hp k v (h k v hv)

-- The property may be changed with the help of another one that all entries have.
theorem mono' (h : m.All P) (hr : m.All R) (hp : ∀ k v, R k v → P k v → Q k v) : m.All Q :=
  fun k v hv => hp k v (hr k v hv) (h k v hv)

theorem insert (h : m.All P) (hk : P k v) : (m.insert k v).All P := by
  intro l w hw
  rw [get_insert] at hw
  split at hw
  case isTrue hl => cases hw; exact hl ▸ hk
  case isFalse => exact h l w hw

theorem remove (h : m.All P) (k : α) : (m.remove k).All P :=
  fun l v hv => h l v (get_of_get_remove hv)

end All

end AssocMap
