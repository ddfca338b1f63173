import Mathlib.Data.List.Nodup

namespace LinkedArena

open Option Prod
open List (map_append nodup_append)

structure Node (α : Type*) where
  val : α
  prev : Option Nat
  next : Option Nat

abbrev Arena (α : Type*) := Nat → Option (Node α)

variable {α : Type*} {arena : Arena α} {head tail : Option Nat} {l xs ys : List (Nat × α)}
variable {i : Nat} {a b : α}

def first (l : List (Nat × α)) : Option Nat :=
  (l.map Prod.fst).head?

def last (l : List (Nat × α)) : Option Nat :=
  (l.map Prod.fst).getLast?

@[simp]
theorem first_nil : first ([] : List (Nat × α)) = none := rfl

@[simp]
theorem last_nil : last ([] : List (Nat × α)) = none := rfl

@[simp]
theorem first_cons (e : Nat × α) (l : List (Nat × α)) : first (e :: l) = some e.1 := rfl

@[simp]
theorem last_concat (l : List (Nat × α)) (e : Nat × α) : last (l ++ [e]) = some e.1 := by
  simp [last]

theorem first_append (xs ys : List (Nat × α)) : first (xs ++ ys) = (first xs).or (first ys) := by
  cases xs <;> simp [first]

theorem last_append (xs ys : List (Nat × α)) : last (xs ++ ys) = (last ys).or (last xs) := by
  simp [last]

@[simp]
theorem last_append_cons (xs ys : List (Nat × α)) (e : Nat × α) :
    last (xs ++ e :: ys) = last (e :: ys) := by
  cases h : last (e :: ys)
  case none => simp [last] at h
  case some => rw [last_append, h, some_or]

@[simp]
theorem last_cons_cons (e e' : Nat × α) (l : List (Nat × α)) :
    last (e :: e' :: l) = last (e' :: l) :=
  last_append_cons [e] l e'

@[simp]
theorem last_singleton (e : Nat × α) : last [e] = some e.1 := rfl

theorem last_cons_congr (l : List (Nat × α)) : last ((i, a) :: l) = last ((i, b) :: l) := rfl

theorem mem_of_first (h : first l = some i) : i ∈ l.map fst :=
  List.mem_of_head? h

theorem mem_of_last (h : last l = some i) : i ∈ l.map fst :=
  List.mem_of_getLast? h

-- The nodes of the list are those of `l`, in this order, with the values of `l`. An arena may hold
-- other nodes as well.
structure Linked (arena : Arena α) (head tail : Option Nat) (l : List (Nat × α)) : Prop where
  nodup : (l.map Prod.fst).Nodup
  head_eq : head = first l
  tail_eq : tail = last l
  node {xs : List (Nat × α)} {i : Nat} {a : α} {ys : List (Nat × α)} :
    l = xs ++ (i, a) :: ys → arena i = some ⟨a, last xs, first ys⟩

-- Changes the node that a link refers to. Without a link there is nothing to change.
def Arena.modify (arena : Arena α) (link : Option Nat) (f : Node α → Node α) : Arena α :=
  fun j => if link = some j then (arena j).map f else arena j

@[simp]
theorem Arena.modify_none (arena : Arena α) (f : Node α → Node α) : arena.modify none f = arena := by
  funext j
  simp [modify]

theorem Arena.modify_of_eq (h : link = some i) : arena.modify link f i = (arena i).map f :=
  if_pos h

theorem Arena.modify_of_ne (h : link ≠ some i) : arena.modify link f i = arena i :=
  if_neg h

theorem Arena.exists_modify (h : ∃ n, arena i = some n) : ∃ n, arena.modify link f i = some n := by
  have ⟨n, h⟩ := h
  by_cases hl : link = some i
  case pos => exact ⟨f n, by simp [modify, hl, h]⟩
  case neg => exact ⟨n, by simp [modify, hl, h]⟩

def Arena.unlink (arena : Arena α) (i : Nat) (prev next : Option Nat) : Arena α :=
  arena
    |>.modify prev (fun n => { n with next := next })
    |>.modify next (fun n => { n with prev := prev })
    |>.modify (some i) (fun n => { n with prev := none, next := none })

def Arena.linkFront (arena : Arena α) (i : Nat) (head : Option Nat) : Arena α :=
  arena
    |>.modify (some i) (fun n => { n with prev := none, next := head })
    |>.modify head (fun n => { n with prev := some i })

def Arena.modifyVal (arena : Arena α) (i : Nat) (f : α → α) : Arena α :=
  arena.modify (some i) fun n => { n with val := f n.val }

theorem Arena.modify_val (hf : ∀ n, (f n).val = n.val) :
    (arena.modify link f i).map Node.val = (arena i).map Node.val := by
  by_cases hl : link = some i
  case pos =>
    rw [modify_of_eq hl, Option.map_map]
    exact congrArg (Option.map · _) (funext hf)
  case neg => rw [modify_of_ne hl]

theorem Arena.unlink_val : (arena.unlink i prev next j).map Node.val = (arena j).map Node.val := by
  rw [unlink, modify_val (by simp), modify_val (by simp), modify_val (by simp)]

namespace Linked

theorem nil : Linked arena none none [] where
  nodup := List.nodup_nil
  head_eq := rfl
  tail_eq := rfl
  node h := by simp at h

theorem congr (h : Linked arena head tail l) (hc : ∀ i ∈ l.map fst, arena' i = arena i) :
    Linked arena' head tail l where
  nodup := h.nodup
  head_eq := h.head_eq
  tail_eq := h.tail_eq
  node {_ i _ _} hl := by
    rw [hc i (by simp [hl]), h.node hl]

theorem exists_node (h : Linked arena head tail l) (hi : i ∈ l.map fst) :
    ∃ n, arena i = some n := by
  have ⟨⟨j, a⟩, he, hj⟩ := List.mem_map.mp hi
  have ⟨xs, ys, hl⟩ := List.append_of_mem he
  subst hj
  exact ⟨_, h.node hl⟩

section

variable (h : Linked arena head tail (xs ++ (i, a) :: ys))
include h

theorem notMem_left : i ∉ xs.map fst := by
  have hn := h.nodup
  rw [map_append, nodup_append] at hn
  intro hi
  exact hn.2.2 i hi i (by simp) rfl

theorem notMem_right : i ∉ ys.map fst := by
  have hn := h.nodup
  rw [map_append, nodup_append] at hn
  exact (List.nodup_cons.mp hn.2.1).1

theorem nodup_remove : ((xs ++ ys).map fst).Nodup :=
  h.nodup.sublist (((List.sublist_cons_self _ _).append_left xs).map fst)

end

theorem split_append (h : xs ++ ys = as ++ e :: bs) :
    (∃ cs, as = xs ++ cs ∧ ys = cs ++ e :: bs) ∨ (∃ cs, xs = as ++ e :: cs ∧ bs = cs ++ ys) := by
  cases List.append_eq_append_iff.mp h
  case inl h => exact .inl h
  case inr h =>
    have ⟨cs, hx, hy⟩ := h
    cases cs
    case nil => exact .inl ⟨[], by simpa using hx.symm, by simpa using hy.symm⟩
    case cons c cs =>
      have ⟨hc, hb⟩ := List.cons_eq_cons.mp hy
      exact .inr ⟨cs, hc ▸ hx, hb⟩

section

variable (h : Linked arena head tail (xs ++ (i, a) :: ys))
include h

theorem unlink :
    Linked (arena.unlink i (last xs) (first ys)) (first (xs ++ ys)) (last (xs ++ ys))
      (xs ++ ys) where
  nodup := h.nodup_remove
  head_eq := rfl
  tail_eq := rfl
  node {as j b bs} hl := by
    have hj : j ∈ (xs ++ ys).map fst := by simp [hl]
    have hi : some i ≠ some j := by
      intro hij
      cases hij
      cases List.mem_append.mp (map_append ▸ hj)
      case inl hj => exact h.notMem_left hj
      case inr hj => exact h.notMem_right hj
    have hd := h.nodup_remove
    rw [Arena.unlink, Arena.modify_of_ne hi]
    -- Only the node before `i` and the node behind `i` change, and only in the link to `i`.
    cases split_append hl
    case inl hc =>
      have ⟨cs, has, hys⟩ := hc
      subst has hys
      have hn : arena j = some ⟨b, last (xs ++ (i, a) :: cs), first bs⟩ := h.node (by simp)
      have hp : last xs ≠ some j := by
        intro hp
        rw [map_append, nodup_append] at hd
        exact hd.2.2 j (mem_of_last hp) j (by simp) rfl
      cases cs
      case nil => simp [Arena.modify, hp, hn]
      case cons c cs =>
        have hcj : c.1 ≠ j := by
          intro hcj
          simp [nodup_append, hcj] at hd
        simp [Arena.modify, hp, hn, hcj]
    case inr hc =>
      have ⟨cs, hxs, hbs⟩ := hc
      subst hxs hbs
      have hn : arena j = some ⟨b, last as, first (cs ++ (i, a) :: ys)⟩ := h.node (by simp)
      have hp : first ys ≠ some j := by
        intro hp
        rw [map_append, nodup_append] at hd
        exact hd.2.2 j (by simp) j (mem_of_first hp) rfl
      cases List.eq_nil_or_concat cs
      case inl hcs =>
        subst hcs
        simp [Arena.modify, hp, hn]
      case inr hcs =>
        obtain ⟨cs, c, rfl⟩ := hcs
        have hcj : c.1 ≠ j := by
          intro hcj
          simp [nodup_append, hcj] at hd
        have hf : first (cs ++ c :: (i, a) :: ys) = first (cs ++ c :: ys) := by
          simp [first_append]
        have hl : last (as ++ (j, b) :: (cs ++ [c])) = some c.1 := by
          rw [last_append_cons, ← List.cons_append, last_concat]
        simp [Arena.modify, hp, hl, hn, hcj, hf]

theorem head_unlink : (if last xs = none then first ys else head) = first (xs ++ ys) := by
  cases xs
  case nil => rfl
  case cons x xs =>
    rw [h.head_eq]
    rfl

theorem tail_unlink : (if first ys = none then last xs else tail) = last (xs ++ ys) := by
  cases ys
  case nil => simp
  case cons y ys => simp [h.tail_eq]

end

theorem tail_linkFront (h : Linked arena head tail l) :
    (if head = none then some i else tail) = last ((i, a) :: l) := by
  cases l
  case nil => simp [h.head_eq]
  case cons e l => simp [h.head_eq, h.tail_eq]

theorem linkFront (h : Linked arena head tail l) (hi : i ∉ l.map fst)
    (hn : ∃ n, arena i = some n ∧ n.val = a) :
    Linked (arena.linkFront i head) (some i) (last ((i, a) :: l)) ((i, a) :: l) where
  nodup := List.nodup_cons.mpr ⟨hi, h.nodup⟩
  head_eq := rfl
  tail_eq := rfl
  node {as j b bs} hl := by
    have ⟨n, hn, ha⟩ := hn
    cases List.cons_eq_append_iff.mp hl
    case inl hc =>
      have ⟨has, hbs⟩ := hc
      cases hbs
      have hne : head ≠ some i := by
        intro he
        exact hi (mem_of_first (h.head_eq.symm.trans he))
      rw [Arena.linkFront, Arena.modify_of_ne hne, Arena.modify_of_eq rfl, hn]
      simp [has, h.head_eq, ha]
    case inr hc =>
      obtain ⟨cs, rfl, rfl⟩ := hc
      have hj : some i ≠ some j := by
        intro hij
        cases hij
        simp at hi
      have hnj := h.node rfl
      cases cs
      case nil =>
        rw [Arena.linkFront, Arena.modify_of_eq h.head_eq, Arena.modify_of_ne hj, hnj]
        rfl
      case cons c cs =>
        have he : head ≠ some j := by
          have hd := h.nodup
          intro he
          have hcj := some.inj (h.head_eq.symm.trans he)
          simp [hcj] at hd
        rw [Arena.linkFront, Arena.modify_of_ne he, Arena.modify_of_ne hj, hnj, last_cons_cons]

theorem modifyVal (h : Linked arena head tail (xs ++ (i, a) :: ys)) (f : α → α) :
    Linked (arena.modifyVal i f) head tail (xs ++ (i, f a) :: ys) where
  nodup := by simpa using h.nodup
  head_eq := by simpa [first_append] using h.head_eq
  tail_eq := by rw [h.tail_eq, last_append_cons, last_append_cons, last_cons_congr]
  node {as j c bs} hl := by
    cases split_append hl
    case inl hc =>
      have ⟨cs, has, hys⟩ := hc
      subst has
      cases List.cons_eq_append_iff.mp hys
      case inl hc =>
        have ⟨hcs, hbs⟩ := hc
        cases hbs
        rw [Arena.modifyVal, Arena.modify_of_eq rfl, h.node rfl, hcs]
        simp
      case inr hc =>
        obtain ⟨cs', rfl, rfl⟩ := hc
        have hn : arena j = some ⟨c, last (xs ++ (i, a) :: cs'), first bs⟩ := h.node (by simp)
        have hij : some i ≠ some j := by
          intro hij
          cases hij
          exact h.notMem_right (by simp)
        rw [Arena.modifyVal, Arena.modify_of_ne hij, hn, last_append_cons, last_append_cons,
          last_cons_congr]
    case inr hc =>
      have ⟨cs, hxs, hbs⟩ := hc
      subst hxs hbs
      have hn : arena j = some ⟨c, last as, first (cs ++ (i, a) :: ys)⟩ := h.node (by simp)
      have hij : some i ≠ some j := by
        intro hij
        cases hij
        exact h.notMem_left (by simp)
      rw [Arena.modifyVal, Arena.modify_of_ne hij, hn, first_append, first_append]
      rfl

end Linked

inductive Walk (link : Node α → Option Nat) (arena : Arena α) : Option Nat → List Nat → Prop
  | nil : Walk link arena none []
  | cons {i : Nat} {n : Node α} {is : List Nat} :
    arena i = some n → Walk link arena (link n) is → Walk link arena (some i) (i :: is)

namespace Linked

section

variable (h : Linked arena head tail l)
include h

theorem walk_suffix (hl : l = xs ++ ys) : Walk Node.next arena (first ys) (ys.map fst) := by
  induction ys generalizing xs
  case nil => exact .nil
  case cons e ys ih =>
    have hl' : l = (xs ++ [e]) ++ ys := by simp [hl]
    exact .cons (h.node hl) (ih hl')

theorem walk_prefix (hl : l = xs.reverse ++ ys) :
    Walk Node.prev arena (last xs.reverse) (xs.map fst) := by
  induction xs generalizing ys
  case nil => exact .nil
  case cons e xs ih =>
    rw [List.reverse_cons, last_concat]
    have hl' : l = xs.reverse ++ e :: ys := by simpa using hl
    exact .cons (h.node hl') (ih hl')

theorem forward : Walk Node.next arena head (l.map fst) :=
  h.head_eq ▸ h.walk_suffix (List.nil_append l).symm

theorem backward : Walk Node.prev arena tail (l.map fst).reverse := by
  have hl : l = l.reverse.reverse ++ [] := by simp
  have hw := h.walk_prefix hl
  rw [h.tail_eq]
  simpa using hw

end

end Linked

end LinkedArena
