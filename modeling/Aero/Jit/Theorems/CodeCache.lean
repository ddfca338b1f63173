import Aero.Jit.RefCache
import Aero.Lib.Except
import Aero.Lib.LinkedArena

namespace Aero

open List RefCache
open Option (isSome join_some map_eq_some_iff some)

open LinkedArena (Arena Linked first last)

def LruNode.view (n : LruNode) : LinkedArena.Node (U64 × CompiledBlockHandle) where
  val := (n.entryRip, n.handle)
  __ := n

namespace CodeCache

abbrev Listing := List (Nat × U64 × CompiledBlockHandle)

variable {c c' d : CodeCache} {i idx : Nat} {n : LruNode}

def slot (c : CodeCache) (i : Nat) : Option LruNode :=
  c.nodes[i]?.join

def arena (c : CodeCache) : Arena (U64 × CompiledBlockHandle) :=
  fun i => (c.slot i).map LruNode.view

theorem lt_of_slot (h : c.slot i = some n) : i < c.nodes.length := by
  by_contra hi
  simp [slot, getElem?_eq_none (Nat.le_of_not_lt hi)] at h

theorem slot_of_arena (h : c.arena i = some m) : ∃ n, c.slot i = some n ∧ n.view = m :=
  map_eq_some_iff.mp h

theorem exists_slot_iff : (∃ n, c.slot i = some n) ↔ c.nodes[i]?.map isSome = some true := by
  cases h : c.nodes[i]? <;> simp [slot, h, Option.isSome_iff_exists]

theorem free_iff : c.nodes[i]? = some none ↔ c.nodes[i]?.map isSome = some false := by
  cases h : c.nodes[i]? <;> simp

theorem slot_set (hc : c'.nodes = c.nodes.set i o) (hi : i < c.nodes.length) :
    c'.slot j = if i = j then o else c.slot j := by
  by_cases h : i = j
  case pos =>
    subst h
    simp [slot, hc, getElem?_set_self hi]
  case neg => simp [slot, hc, h]

theorem node_ok (h : c.slot i = some n) : c.node i p = .ok n := by
  have hi := lt_of_slot h
  simp only [slot, getElem?_eq_getElem hi, join_some] at h
  simp [node, getElem?_eq_getElem hi, h, pure, Except.pure]

-- The links are all that differs. In particular the same slots are in use.
structure Relinked (c c' : CodeCache) : Prop where
  maxBlocks : c'.maxBlocks = c.maxBlocks
  maxBytes : c'.maxBytes = c.maxBytes
  currentBytes : c'.currentBytes = c.currentBytes
  map : c'.map = c.map
  freeList : c'.freeList = c.freeList
  used : c'.nodes.map Option.isSome = c.nodes.map Option.isSome

theorem Relinked.refl (c : CodeCache) : Relinked c c := ⟨rfl, rfl, rfl, rfl, rfl, rfl⟩

theorem Relinked.trans {c''} (h : Relinked c c') (h' : Relinked c' c'') : Relinked c c'' where
  maxBlocks := h'.maxBlocks.trans h.maxBlocks
  maxBytes := h'.maxBytes.trans h.maxBytes
  currentBytes := h'.currentBytes.trans h.currentBytes
  map := h'.map.trans h.map
  freeList := h'.freeList.trans h.freeList
  used := h'.used.trans h.used

theorem map_set_of_eq {f : α → β} {l : List α} (h : l[i]?.map f = some (f a)) :
    (l.set i a).map f = l.map f := by
  rw [map_set]
  apply ext_getElem?
  intro j
  by_cases hj : i = j
  case pos =>
    subst hj
    have hi : i < l.length := by
      by_contra hi
      simp [getElem?_eq_none (Nat.le_of_not_lt hi)] at h
    rw [getElem?_set_self (by simpa using hi), getElem?_map, h]
  case neg => rw [getElem?_set_ne hj]

theorem modifyNode_ok (hf : ∀ n, (f n).view = g n.view) (h : c.slot i = some n) :
    ∃ c', c.modifyNode i p f = .ok c' ∧ c'.arena = c.arena.modify (some i) g ∧
      Relinked c c' ∧ c'.head = c.head ∧ c'.tail = c.tail := by
  have hi := lt_of_slot h
  refine ⟨{ c with nodes := c.nodes.set i (some (f n)) }, ?_, ?_, ?_, rfl, rfl⟩
  · simp [modifyNode, node_ok h, bind, Except.bind, pure, Except.pure]
  · funext j
    rw [arena, slot_set rfl hi, Arena.modify]
    by_cases hj : i = j
    case pos =>
      subst hj
      simp [arena, h, hf]
    case neg => simp [arena, hj]
  · refine ⟨rfl, rfl, rfl, rfl, rfl, map_set_of_eq ?_⟩
    simp only [slot, getElem?_eq_getElem hi, join_some] at h
    simp [getElem?_eq_getElem hi, h]

theorem followLink_ok (hf : ∀ n, (f n).view = g n.view)
    (hn : ∀ j, o = some j → ∃ n, c.slot j = some n) (hd : d.arena = c.arena) (hr : Relinked c d) :
    ∃ c', c.followLink o p f d = .ok c' ∧ c'.arena = c.arena.modify o g ∧
      Relinked c c' ∧ c'.head = (if o = none then d.head else c.head) ∧
      c'.tail = (if o = none then d.tail else c.tail) := by
  cases o
  case none => exact ⟨d, rfl, by simp [hd], hr, rfl, rfl⟩
  case some j =>
    have ⟨n, hn⟩ := hn j rfl
    simpa [followLink] using modifyNode_ok hf hn

theorem exists_slot_of_arena_eq (h : c.arena = a) (hi : ∃ m, a i = some m) :
    ∃ n, c.slot i = some n := by
  have ⟨_, hi⟩ := hi
  have ⟨n, hn, _⟩ := slot_of_arena (h ▸ hi)
  exact ⟨n, hn⟩

section

variable {l xs ys : Listing}

theorem unlink_ok (h : Linked c.arena c.head c.tail (xs ++ (i, a) :: ys)) :
    ∃ c', c.unlink i = .ok c' ∧ Linked c'.arena c'.head c'.tail (xs ++ ys) ∧
      c'.arena = c.arena.unlink i (last xs) (first ys) ∧ Relinked c c' := by
  have ⟨n, hn, hv⟩ := slot_of_arena (h.node rfl)
  have hp : n.prev = last xs := congrArg LinkedArena.Node.prev hv
  have hx : n.next = first ys := congrArg LinkedArena.Node.next hv
  have hprev : ∀ j, n.prev = some j → ∃ m, c.arena j = some m := by
    intro j hj
    apply h.exists_node
    rw [map_append]
    exact mem_append_left _ (LinkedArena.mem_of_last (hp.symm.trans hj))
  have hnext : ∀ j, n.next = some j → ∃ m, c.arena j = some m := by
    intro j hj
    apply h.exists_node
    rw [map_append]
    exact mem_append_right _
      (mem_cons_of_mem _ (LinkedArena.mem_of_first (hx.symm.trans hj)))
  have ⟨c₁, he₁, ha₁, hr₁, hh₁, ht₁⟩ := followLink_ok (d := { c with head := n.next })
    (p := .prevNode) (f := fun m => { m with next := n.next })
    (g := fun m => { m with next := n.next }) (fun _ => rfl)
    (fun j hj => exists_slot_of_arena_eq rfl (hprev j hj)) rfl ⟨rfl, rfl, rfl, rfl, rfl, rfl⟩
  have ⟨c₂, he₂, ha₂, hr₂, hh₂, ht₂⟩ := followLink_ok (d := { c₁ with tail := n.prev })
    (p := .nextNode) (f := fun m => { m with prev := n.prev })
    (g := fun m => { m with prev := n.prev }) (fun _ => rfl)
    (fun j hj => exists_slot_of_arena_eq ha₁ (Arena.exists_modify (hnext j hj))) rfl
    ⟨rfl, rfl, rfl, rfl, rfl, rfl⟩
  have ⟨n₂, hn₂⟩ := exists_slot_of_arena_eq ha₂
    (Arena.exists_modify (ha₁ ▸ Arena.exists_modify ⟨_, h.node rfl⟩))
  have ⟨c₃, he₃, ha₃, hr₃, hh₃, ht₃⟩ := modifyNode_ok (p := .lruNode)
    (f := fun m => { m with prev := none, next := none })
    (g := fun m => { m with prev := none, next := none }) (fun _ => rfl) hn₂
  have ha : c₃.arena = c.arena.unlink i (last xs) (first ys) := by
    rw [ha₃, ha₂, ha₁, hp, hx, Arena.unlink]
  refine ⟨c₃, ?_, ?_, ha, hr₁.trans (hr₂.trans hr₃)⟩
  · simp only [unlink, node_ok hn, he₁, he₂, he₃, bind, Except.bind]
  · have hhead : c₃.head = first (xs ++ ys) := by
      rw [← h.head_unlink, hh₃, hh₂, hh₁, ite_self, hp, hx]
    have htail : c₃.tail = last (xs ++ ys) := by
      rw [← h.tail_unlink, ht₃, ht₂, ht₁, ite_self, hp, hx]
    rw [ha, hhead, htail]
    exact h.unlink

theorem linkFront_ok (h : Linked c.arena c.head c.tail l) (hi : i ∉ l.map Prod.fst)
    (hn : ∃ m, c.arena i = some m ∧ m.val = a) :
    ∃ c', c.linkFront i = .ok c' ∧ Linked c'.arena c'.head c'.tail ((i, a) :: l) ∧
      c'.arena = c.arena.linkFront i c.head ∧ Relinked c c' := by
  have ⟨m, hm, _⟩ := hn
  have ⟨n, hs, _⟩ := slot_of_arena hm
  have hhead : ∀ j, c.head = some j → ∃ m, c.arena j = some m := by
    intro j hj
    exact h.exists_node (LinkedArena.mem_of_first (h.head_eq.symm.trans hj))
  have ⟨c₁, he₁, ha₁, hr₁, hh₁, ht₁⟩ := modifyNode_ok (p := .lruNode)
    (f := fun m => { m with prev := none, next := c.head })
    (g := fun m => { m with prev := none, next := c.head }) (fun _ => rfl) hs
  have ⟨c₂, he₂, ha₂, hr₂, hh₂, ht₂⟩ := followLink_ok (d := { c₁ with tail := some i })
    (p := .oldHead) (f := fun m => { m with prev := some i })
    (g := fun m => { m with prev := some i }) (fun _ => rfl)
    (fun j hj => exists_slot_of_arena_eq ha₁ (Arena.exists_modify (hhead j hj))) rfl
    ⟨rfl, rfl, rfl, rfl, rfl, rfl⟩
  have ha : c₂.arena = c.arena.linkFront i c.head := by
    rw [ha₂, ha₁, Arena.linkFront]
  refine ⟨{ c₂ with head := some i }, ?_, ?_, ha, ?_⟩
  · simp only [linkFront, he₁, he₂, bind, Except.bind, pure, Except.pure]
  · have htail : c₂.tail = last ((i, a) :: l) := by
      rw [← h.tail_linkFront, ht₂, ht₁]
    show Linked c₂.arena (some i) c₂.tail _
    rw [ha, htail]
    exact h.linkFront hi hn
  · exact hr₁.trans (hr₂.trans ⟨rfl, rfl, rfl, rfl, rfl, rfl⟩)

end

-- The nodes of `l` are all the nodes of the cache. The map has their keys, and the free list has all
-- other slots.
structure Accounts (c : CodeCache) (l : Listing) : Prop where
  keyed : ∀ e ∈ l, e.2.1 = e.2.2.entryRip
  mapped : ∀ rip i, c.map.lookup rip = some i ↔ ∃ h, (i, rip, h) ∈ l
  live : ∀ i n, c.slot i = some n → i ∈ l.map Prod.fst
  free_nodup : c.freeList.Nodup
  mem_free : ∀ i, i ∈ c.freeList ↔ c.nodes[i]? = some none

theorem Accounts.relink (hc : Accounts c l) (hr : Relinked c c') (hp : l'.Perm l) :
    Accounts c' l' := by
  have hu : ∀ i : Nat, c'.nodes[i]?.map isSome = c.nodes[i]?.map isSome := by
    intro i
    rw [← getElem?_map, ← getElem?_map, hr.used]
  exact {
    keyed := fun e he => hc.keyed e (hp.mem_iff.mp he)
    mapped := fun rip i => by simp [hr.map, hc.mapped, hp.mem_iff]
    live := fun i n hn => by
      have ⟨m, hm⟩ := exists_slot_iff.mpr ((hu i).symm.trans (exists_slot_iff.mp ⟨n, hn⟩))
      exact (hp.map Prod.fst).mem_iff.mpr (hc.live i m hm)
    free_nodup := hr.freeList ▸ hc.free_nodup
    mem_free := fun i => by
      rw [hr.freeList, hc.mem_free, free_iff, free_iff, hu] }

structure Represents (c : CodeCache) (l : Listing) : Prop
    extends Accounts c l where
  linked : Linked c.arena c.head c.tail l

def toRef (c : CodeCache) (l : Listing) : RefCache where
  __ := c
  lru := l.map (·.2.2)

namespace Represents

variable {l l' xs ys : Listing}

theorem new (maxBlocks maxBytes : Nat) : Represents (CodeCache.new maxBlocks maxBytes) [] where
  linked := .nil
  keyed := by simp
  mapped rip i := by simp [CodeCache.new]
  live i n hn := by simp [CodeCache.new, slot] at hn
  free_nodup := nodup_nil
  mem_free := by simp [CodeCache.new]

theorem lookup_eq_none (hc : Represents c l) : c.map.lookup k = none ↔ k ∉ l.map (·.2.1) := by
  constructor
  · intro hn hk
    have ⟨⟨i, k, h⟩, hm, hk⟩ := mem_map.mp hk
    subst hk
    have hs := (hc.mapped _ i).mpr ⟨h, hm⟩
    simp [hn] at hs
  · intro hk
    cases hl : c.map.lookup k
    case none => rfl
    case some i =>
      have ⟨h, hm⟩ := (hc.mapped k i).mp hl
      exact absurd (mem_map.mpr ⟨_, hm, rfl⟩) hk

theorem nodup_keys (hc : Represents c l) : (l.map (·.2.1)).Nodup := by
  refine List.Nodup.map_on ?_ (List.Nodup.of_map _ hc.linked.nodup)
  intro ⟨i, k, h⟩ he ⟨j, k', h'⟩ he' hk
  subst hk
  have hi := (hc.mapped k i).mpr ⟨h, he⟩
  have hj := (hc.mapped k j).mpr ⟨h', he'⟩
  have hij := some.inj (hi.symm.trans hj)
  exact inj_on_of_nodup_map hc.linked.nodup he he' hij

theorem len_eq (hc : Represents c l) : c.len = l.length := by
  have hp : c.map.keys.Perm (l.map (·.2.1)) := by
    refine (perm_ext_iff_of_nodup c.map.keys_nodup hc.nodup_keys).mpr fun k => ?_
    rw [← AList.mem_keys, ← AList.lookup_isSome, ← not_iff_not, Option.not_isSome_iff_eq_none]
    exact hc.lookup_eq_none
  rw [len, hp.length_eq, length_map]

section

variable (hc : Represents c (xs ++ (i, k, h) :: ys))
include hc

theorem touchIdx_ok :
    ∃ c', c.touchIdx i = .ok c' ∧ Represents c' ((i, k, h) :: (xs ++ ys)) ∧ Relinked c c' := by
  by_cases hh : c.head = some i
  case pos =>
    cases xs
    case nil => exact ⟨c, by simp [touchIdx, hh, pure, Except.pure], hc, .refl c⟩
    case cons x xs =>
      have hx := some.inj (hc.linked.head_eq.symm.trans hh)
      exact absurd (by simp [← hx]) hc.linked.notMem_left
  case neg =>
    have ⟨c₁, he₁, hl₁, ha₁, hr₁⟩ := unlink_ok hc.linked
    have hi : i ∉ (xs ++ ys).map Prod.fst := by
      rw [map_append, mem_append, not_or]
      exact ⟨hc.linked.notMem_left, hc.linked.notMem_right⟩
    have hv : ∃ m, c₁.arena i = some m ∧ m.val = (k, h) := by
      apply map_eq_some_iff.mp
      rw [ha₁, Arena.unlink_val, hc.linked.node rfl]
      rfl
    have ⟨c₂, he₂, hl₂, _, hr₂⟩ := linkFront_ok hl₁ hi hv
    have ha := hc.toAccounts.relink (hr₁.trans hr₂) perm_middle.symm
    refine ⟨c₂, ?_, { ha with linked := hl₂ }, hr₁.trans hr₂⟩
    simp [touchIdx, hh, he₁, he₂, bind, Except.bind]

theorem notMem_keys : k ∉ (xs ++ ys).map (·.2.1) := by
  have hk := hc.nodup_keys
  have hp : ((xs ++ (i, k, h) :: ys).map (·.2.1)).Perm (k :: (xs ++ ys).map (·.2.1)) :=
    perm_middle.map _
  exact (nodup_cons.mp (hp.nodup_iff.mp hk)).1

theorem lookup_split : c.map.lookup k = some i :=
  (hc.mapped k i).mpr ⟨h, by simp⟩

theorem slot_split : c.slot i = some ⟨k, h, last xs, first ys⟩ := by
  have ⟨n, hn, hv⟩ := slot_of_arena (hc.linked.node rfl)
  cases n
  simp only [LruNode.view, LinkedArena.Node.mk.injEq, Prod.mk.injEq] at hv
  simp [hn, hv]

-- The slot of a node that has been taken out of the list and of the map is free.
theorem free (hr : Relinked { c with map := c.map.erase k } d)
    (hl : Linked d.arena d.head d.tail (xs ++ ys)) (bytes : Nat) :
    Represents { d with
      nodes := d.nodes.set i none
      freeList := d.freeList ++ [i]
      currentBytes := bytes } (xs ++ ys) := by
  have hu : ∀ j : Nat, d.nodes[j]?.map isSome = c.nodes[j]?.map isSome := by
    intro j
    rw [← getElem?_map, ← getElem?_map, hr.used]
  have hi : i ∉ (xs ++ ys).map Prod.fst := by
    rw [map_append, mem_append, not_or]
    exact ⟨hc.linked.notMem_left, hc.linked.notMem_right⟩
  have hf : i ∉ c.freeList := by
    intro hf
    have hs := hc.slot_split
    simp [slot, (hc.mem_free i).mp hf] at hs
  have ⟨_, hn⟩ := exists_slot_iff.mpr ((hu i).trans (exists_slot_iff.mp ⟨_, hc.slot_split⟩))
  have hlt := lt_of_slot hn
  exact {
    linked := hl.congr fun j hj => by
      have hij : i ≠ j := fun hij => hi (hij ▸ hj)
      rw [arena, slot_set rfl hlt, if_neg hij, arena]
    keyed := fun e he => hc.keyed e (by simp at he ⊢; tauto)
    mapped := fun rip j => by
      rw [hr.map]
      by_cases hk : rip = k
      case pos =>
        subst hk
        simp only [AList.lookup_erase, reduceCtorEq, false_iff, not_exists]
        intro h' hm
        exact hc.notMem_keys (mem_map.mpr ⟨_, hm, rfl⟩)
      case neg =>
        rw [AList.lookup_erase_ne hk, hc.mapped]
        simp [hk]
    live := fun j n hn => by
      rw [slot_set rfl hlt] at hn
      split at hn
      case isTrue => cases hn
      case isFalse hij =>
        have ⟨m, hm⟩ := exists_slot_iff.mpr ((hu j).symm.trans (exists_slot_iff.mp ⟨_, hn⟩))
        have hj := hc.live j m hm
        simp only [map_append, map_cons, mem_append, mem_cons] at hj ⊢
        tauto
    free_nodup := by
      rw [hr.freeList]
      simpa [nodup_append] using ⟨hc.free_nodup, fun j hj hij => hf (hij ▸ hj)⟩
    mem_free := fun j => by
      rw [hr.freeList, mem_append]
      by_cases hij : i = j
      case pos =>
        subst hij
        simp [getElem?_set_self hlt]
      case neg =>
        rw [getElem?_set_ne hij, free_iff, hu, ← free_iff, ← hc.mem_free]
        simp [Ne.symm hij] }

theorem remove_ok :
    ∃ c', c.remove k = .ok (some h, c') ∧ Represents c' (xs ++ ys) ∧
      c'.currentBytes = c.currentBytes - h.byteLen ∧ c'.maxBlocks = c.maxBlocks ∧
      c'.maxBytes = c.maxBytes := by
  have ⟨c₁, he, hl, ha, hr⟩ := unlink_ok (c := { c with map := c.map.erase k }) hc.linked
  have hv : (c₁.arena i).map LinkedArena.Node.val = (c.arena i).map LinkedArena.Node.val := by
    rw [ha, Arena.unlink_val]
    rfl
  rw [hc.linked.node rfl] at hv
  have ⟨m, hm, hmv⟩ := map_eq_some_iff.mp hv
  have ⟨n, hn, hnm⟩ := slot_of_arena hm
  have hh : n.handle = h := by
    rw [← hnm] at hmv
    exact congrArg Prod.snd hmv
  refine ⟨_, ?_, hc.free hr hl (c₁.currentBytes - n.handle.byteLen), ?_, hr.maxBlocks, hr.maxBytes⟩
  · simp [remove, hc.lookup_split, removeIdx, he, node_ok hn, hh, bind, Except.bind, pure,
      Except.pure]
  · rw [hh, hr.currentBytes]

end

theorem remove_absent (hc : Represents c l) (hk : k ∉ l.map (·.2.1)) :
    c.remove k = .ok (none, c) := by
  simp [remove, hc.lookup_eq_none.mpr hk, pure, Except.pure]

theorem evictLoop_ok (hc : Represents c l.reverse) (hf : l.length < fuel) (evicted : List U64) :
    ∃ keys c', ∃ l' : Listing, evictLoop fuel c evicted = .ok (evicted ++ keys, c') ∧
      Represents c' l'.reverse ∧
      evictOldest ⟨c.maxBlocks, c.maxBytes⟩ c.currentBytes (l.map (·.2.2)) =
        (keys, c'.currentBytes, l'.map (·.2.2)) ∧
      c'.maxBlocks = c.maxBlocks ∧ c'.maxBytes = c.maxBytes := by
  induction l generalizing c fuel evicted
  case nil =>
    cases fuel
    case zero => cases hf
    case succ fuel =>
      have ht := hc.linked.tail_eq
      refine ⟨[], c, [], ?_, hc, rfl, rfl, rfl⟩
      simp [evictLoop, ht, pure, Except.pure]
  case cons e l ih =>
    cases fuel
    case zero => cases hf
    case succ fuel =>
      have ⟨i, k, h⟩ := e
      rw [reverse_cons] at hc
      have ho : c.overLimits =
          Lru.Limits.exceeded ⟨c.maxBlocks, c.maxBytes⟩ (l.length + 1) c.currentBytes := by
        rw [overLimits, hc.len_eq, Lru.Limits.exceeded]
        simp
      have ht : c.tail = some i := by simp [hc.linked.tail_eq]
      have hk : k = h.entryRip := hc.keyed (i, k, h) (by simp)
      by_cases hx : Lru.Limits.exceeded ⟨c.maxBlocks, c.maxBytes⟩ (l.length + 1) c.currentBytes
      case pos =>
        have ⟨c₁, he₁, hc₁, hb₁, hm₁, hm₁'⟩ := hc.remove_ok
        rw [append_nil] at hc₁
        have ⟨keys, c₂, l₂, he₂, hc₂, hr₂, hm₂, hm₂'⟩ :=
          ih hc₁ (Nat.lt_of_succ_lt_succ hf) (evicted ++ [k])
        refine ⟨k :: keys, c₂, l₂, ?_, hc₂, ?_, hm₂.trans hm₁, hm₂'.trans hm₁'⟩
        · simp [evictLoop, ho, hx, ht, node_ok hc.slot_split, he₁, he₂, bind, Except.bind]
        · rw [hb₁, hm₁, hm₁'] at hr₂
          simp [evictOldest, hx, hr₂, hk]
      case neg =>
        refine ⟨[], c, (i, k, h) :: l, ?_, by simpa using hc, ?_, rfl, rfl⟩
        · simp [evictLoop, ho, hx, pure, Except.pure]
        · simp [evictOldest, hx]

theorem evictIfNeeded_ok (hc : Represents c l) :
    ∃ keys c', ∃ l' : Listing, c.evictIfNeeded = .ok (keys, c') ∧ Represents c' l' ∧
      RefCache.evictIfNeeded (c.toRef l) = (keys, c'.toRef l') := by
  have ⟨keys, c', l', he, hc', hr, hm, hm'⟩ := evictLoop_ok (c := c)
    (by simpa using hc) (by simp [hc.len_eq] : l.reverse.length < c.len + 1) []
  refine ⟨keys, c', l'.reverse, he, hc', ?_⟩
  rw [map_reverse] at hr
  simp [RefCache.evictIfNeeded, RefCache.limits, toRef, hr, hm, hm']

end Represents

theorem allocNode_ok (hc : Represents c l) (n : LruNode) :
    ∃ i c', c.allocNode n = .ok (i, c') ∧ i ∉ l.map Prod.fst ∧
      (∀ j, c'.slot j = if i = j then some n else c.slot j) ∧ c'.freeList.Nodup ∧
      (∀ j, j ∈ c'.freeList ↔ c'.nodes[j]? = some none) ∧
      c' = { c with nodes := c'.nodes, freeList := c'.freeList } := by
  cases hf : c.freeList.getLast?
  case some i =>
    have hi := (hc.mem_free i).mp (List.mem_of_getLast? hf)
    have hlt := (List.getElem?_eq_some_iff.mp hi).1
    have hfl : c.freeList = c.freeList.dropLast ++ [i] :=
      (List.dropLast_append_getLast? i hf).symm
    have hnd := hfl ▸ hc.free_nodup
    rw [List.nodup_append] at hnd
    refine ⟨i, { c with nodes := c.nodes.set i (some n), freeList := c.freeList.dropLast },
      ?_, ?_, fun j => slot_set rfl hlt, hnd.1, ?_, rfl⟩
    · simp [allocNode, hf, hlt, pure, Except.pure]
    · intro hm
      have ⟨m, hm⟩ := hc.linked.exists_node hm
      simp [arena, slot, hi] at hm
    · intro j
      by_cases hij : i = j
      case pos =>
        subst hij
        simp only [List.getElem?_set_self hlt, some.injEq, reduceCtorEq, iff_false]
        intro hm
        exact hnd.2.2 i hm i (by simp) rfl
      case neg =>
        rw [List.getElem?_set_ne hij, ← hc.mem_free, hfl]
        simp [Ne.symm hij]
  case none =>
    refine ⟨c.nodes.length, { c with nodes := c.nodes ++ [some n] }, ?_, ?_, ?_, hc.free_nodup, ?_,
      rfl⟩
    · simp [allocNode, hf, pure, Except.pure]
    · intro hm
      have ⟨m, hm⟩ := hc.linked.exists_node hm
      simp [arena, slot] at hm
    · intro j
      by_cases hij : c.nodes.length = j
      case pos =>
        subst hij
        simp [slot]
      case neg =>
        simp only [slot, hij]
        congr 1
        by_cases hj : j < c.nodes.length
        case pos => rw [List.getElem?_append_left hj]
        case neg =>
          rw [List.getElem?_eq_none (by simp; omega), List.getElem?_eq_none (by omega)]
    · intro j
      rw [hc.mem_free]
      by_cases hj : j < c.nodes.length
      case pos => rw [List.getElem?_append_left hj]
      case neg =>
        rw [List.getElem?_append_right (by omega), List.getElem?_eq_none (by omega)]
        by_cases hj' : j - c.nodes.length = 0
        case pos => simp [hj']
        case neg => simp [hj']

namespace Represents

variable {l xs ys : Listing}

theorem entryRip_handles (hc : Represents c l) :
    (l.map (·.2.2)).map CompiledBlockHandle.entryRip = l.map (·.2.1) := by
  rw [map_map]
  exact map_congr_left fun e he => (hc.keyed e he).symm

theorem lookup_handles (hc : Represents c (xs ++ (i, k, h) :: ys)) :
    (c.toRef (xs ++ (i, k, h) :: ys)).lookup k = some h ∧
      (c.toRef (xs ++ (i, k, h) :: ys)).without k = (xs ++ ys).map (·.2.2) := by
  have hk : k = h.entryRip := hc.keyed (i, k, h) (by simp)
  have hn := hc.nodup_keys
  rw [← hc.entryRip_handles, map_append] at hn
  rw [toRef, map_append, map_append, hk]
  exact ⟨Lru.lookup_split hn, Lru.without_split hn⟩

theorem lookup_handles_none (hc : Represents c l) (hk : k ∉ l.map (·.2.1)) :
    (c.toRef l).lookup k = none :=
  Lru.lookup_eq_none (hc.entryRip_handles ▸ hk)

theorem setBytes (hc : Represents c l) (bytes : Nat) :
    Represents { c with currentBytes := bytes } l :=
  { hc with }

theorem alloc_ok (hc : Represents c l) (hk : h.entryRip ∉ l.map (·.2.1)) :
    ∃ i c₁ c', c.allocNode ⟨h.entryRip, h, none, none⟩ = .ok (i, c₁) ∧
      { c₁ with map := c₁.map.insert h.entryRip i }.linkFront i = .ok c' ∧
      Represents c' ((i, h.entryRip, h) :: l) ∧ c'.maxBlocks = c.maxBlocks ∧
      c'.maxBytes = c.maxBytes ∧ c'.currentBytes = c.currentBytes := by
  have ⟨i, c₁, he, hi, hs, hnd, hf, hc₁⟩ := allocNode_ok hc ⟨h.entryRip, h, none, none⟩
  have hmap : c₁.map = c.map := by rw [hc₁]
  have hl : Linked c₁.arena c₁.head c₁.tail l := by
    have hh : c₁.head = c.head := by rw [hc₁]
    have ht : c₁.tail = c.tail := by rw [hc₁]
    rw [hh, ht]
    refine hc.linked.congr fun j hj => ?_
    have hij : i ≠ j := fun hij => hi (hij ▸ hj)
    rw [arena, hs, if_neg hij, arena]
  have hn : ∃ m, c₁.arena i = some m ∧ m.val = (h.entryRip, h) := by
    refine ⟨⟨(h.entryRip, h), none, none⟩, ?_, rfl⟩
    rw [arena, hs, if_pos rfl]
    rfl
  have ⟨c₂, he₂, hl₂, _, hr₂⟩ := linkFront_ok
    (c := { c₁ with map := c₁.map.insert h.entryRip i }) hl hi hn
  have ha : Accounts { c₁ with map := c₁.map.insert h.entryRip i } ((i, h.entryRip, h) :: l) := {
    keyed := by simpa using fun j k h => hc.keyed (j, k, h)
    mapped := fun rip j => by
      by_cases hr : rip = h.entryRip
      case pos =>
        subst hr
        have hno : ∀ h', (j, h.entryRip, h') ∉ l := by
          intro h' hm
          exact hk (mem_map.mpr ⟨_, hm, rfl⟩)
        simp [hno, eq_comm]
      case neg => simp [hmap, hc.mapped, hr]
    live := fun j n hn => by
      rw [map_cons, mem_cons]
      by_cases hij : i = j
      case pos => exact .inl hij.symm
      case neg => exact .inr (hc.live j n (((hs j).trans (if_neg hij)).symm.trans hn))
    free_nodup := hnd
    mem_free := hf }
  have ha₂ := ha.relink hr₂ (List.Perm.refl _)
  refine ⟨i, c₁, c₂, he, he₂, { ha₂ with linked := hl₂ }, ?_, ?_, ?_⟩
  · rw [hr₂.maxBlocks, hc₁]
  · rw [hr₂.maxBytes, hc₁]
  · rw [hr₂.currentBytes, hc₁]

theorem insert_vacant_ok (hc : Represents c l) (hk : h.entryRip ∉ l.map (·.2.1)) :
    ∃ keys c', ∃ l' : Listing, c.insert w h = .ok (keys, c') ∧ Represents c' l' ∧
      (c.toRef l).insert w h = (keys, c'.toRef l') := by
  have ⟨i, c₁, c₂, he₁, he₂, hc₂, hm, hm', hb⟩ :=
    (hc.setBytes (w.saturatingAdd c.currentBytes h.byteLen)).alloc_ok hk
  have ⟨keys, c₃, l₃, he₃, hc₃, hr⟩ := hc₂.evictIfNeeded_ok
  refine ⟨keys, c₃, l₃, ?_, hc₃, ?_⟩
  · simp [insert, hc.lookup_eq_none.mpr hk, he₁, he₂, he₃, bind, Except.bind]
  · have hk' := hc.entryRip_handles ▸ hk
    rw [← hr, RefCache.insert, RefCache.lookup, RefCache.without, toRef, Lru.lookup_eq_none hk',
      Lru.without_eq_self hk', toRef, hm, hm', hb]
    rfl

theorem replace_ok (hc : Represents c (xs ++ (i, h.entryRip, h') :: ys)) :
    ∃ c', c.modifyNode i .mapEntryNode (fun m => { m with handle := h }) = .ok c' ∧
      Represents c' (xs ++ (i, h.entryRip, h) :: ys) ∧ Relinked c c' := by
  have ⟨c₁, he, ha, hr, hh, ht⟩ := modifyNode_ok (p := .mapEntryNode)
    (f := fun m => { m with handle := h })
    (g := fun m => { m with val := (m.val.1, h) }) (fun _ => rfl) hc.slot_split
  have hacc : Accounts c (xs ++ (i, h.entryRip, h) :: ys) := {
    keyed := fun e he => by
      rw [mem_append, mem_cons] at he
      rcases he with he | he | he
      · exact hc.keyed e (by simp [he])
      · rw [he]
      · exact hc.keyed e (by simp [he])
    mapped := fun rip j => by
      rw [hc.mapped]
      simp only [mem_append, mem_cons, exists_or]
      simp
    live := fun j n hn => by simpa using hc.live j n hn
    free_nodup := hc.free_nodup
    mem_free := hc.mem_free }
  have hacc₁ := hacc.relink hr (List.Perm.refl _)
  refine ⟨c₁, he, { hacc₁ with linked := ?_ }, hr⟩
  rw [ha, hh, ht]
  exact hc.linked.modifyVal fun a => (a.1, h)

theorem insert_occupied_ok (hc : Represents c (xs ++ (i, h.entryRip, h') :: ys)) :
    ∃ keys c', ∃ l' : Listing, c.insert w h = .ok (keys, c') ∧ Represents c' l' ∧
      (c.toRef (xs ++ (i, h.entryRip, h') :: ys)).insert w h = (keys, c'.toRef l') := by
  have hc₀ := hc.setBytes (w.saturatingAdd (c.currentBytes - h'.byteLen) h.byteLen)
  have ⟨c₁, he₁, hc₁, hr₁⟩ := hc₀.replace_ok
  have ⟨c₂, he₂, hc₂, hr₂⟩ := hc₁.touchIdx_ok
  have ⟨keys, c₃, l₃, he₃, hc₃, hr₃⟩ := hc₂.evictIfNeeded_ok
  refine ⟨keys, c₃, l₃, ?_, hc₃, ?_⟩
  · simp [insert, hc.lookup_split, node_ok hc.slot_split, he₁, he₂, he₃, bind, Except.bind]
  · have hr := hr₁.trans hr₂
    have ⟨hl, hw⟩ := hc.lookup_handles
    rw [← hr₃, RefCache.insert, hl, hw, toRef, toRef, hr.maxBlocks, hr.maxBytes, hr.currentBytes]
    rfl

theorem insert_ok (hc : Represents c l) (h : CompiledBlockHandle) :
    ∃ keys c', ∃ l' : Listing, c.insert w h = .ok (keys, c') ∧ Represents c' l' ∧
      (c.toRef l).insert w h = (keys, c'.toRef l') := by
  by_cases hk : h.entryRip ∈ l.map (·.2.1)
  case pos =>
    obtain ⟨xs, ⟨i, k, h'⟩, ys, rfl, rfl⟩ := Lru.exists_split hk
    exact hc.insert_occupied_ok
  case neg => exact hc.insert_vacant_ok hk

theorem getCloned_ok (hc : Represents c l) (k : U64) :
    ∃ r c', ∃ l' : Listing, c.getCloned k = .ok (r, c') ∧ Represents c' l' ∧
      (c.toRef l).get k = (r, c'.toRef l') := by
  by_cases hk : k ∈ l.map (·.2.1)
  case pos =>
    obtain ⟨xs, ⟨i, k, h⟩, ys, rfl, rfl⟩ := Lru.exists_split hk
    have ⟨c', he, hc', hr⟩ := hc.touchIdx_ok
    have ⟨hl, hw⟩ := hc.lookup_handles
    have hs : c'.slot i = some ⟨k, h, last [], first _⟩ := slot_split hc'
    have hn := node_ok (p := .mapEntryNode) hs
    refine ⟨some h, c', _, ?_, hc', ?_⟩
    · simp [getCloned, hc.lookup_split, he, hn, bind, Except.bind, pure, Except.pure]
    · rw [RefCache.get, hl, hw, toRef, toRef, hr.maxBlocks, hr.maxBytes, hr.currentBytes]
      rfl
  case neg =>
    refine ⟨none, c, l, ?_, hc, ?_⟩
    · simp [getCloned, hc.lookup_eq_none.mpr hk, pure, Except.pure]
    · simp [RefCache.get, hc.lookup_handles_none hk]

theorem remove_sim (hc : Represents c l) (k : U64) :
    ∃ r c', ∃ l' : Listing, c.remove k = .ok (r, c') ∧ Represents c' l' ∧
      (c.toRef l).remove k = (r, c'.toRef l') := by
  by_cases hk : k ∈ l.map (·.2.1)
  case pos =>
    obtain ⟨xs, ⟨i, k, h⟩, ys, rfl, rfl⟩ := Lru.exists_split hk
    have ⟨c', he, hc', hb, hm, hm'⟩ := hc.remove_ok
    have ⟨hl, hw⟩ := hc.lookup_handles
    refine ⟨some h, c', _, he, hc', ?_⟩
    rw [RefCache.remove, hl, hw, toRef, toRef, hm, hm', hb]
  case neg =>
    refine ⟨none, c, l, hc.remove_absent hk, hc, ?_⟩
    simp [RefCache.remove, hc.lookup_handles_none hk]

end Represents

end CodeCache

end Aero
