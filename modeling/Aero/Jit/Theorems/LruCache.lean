import Aero.Jit.Theorems.CodeCache

namespace Aero

open CompiledBlockHandle Lru RefCache CodeCache List

open LinkedArena (Walk)

def RefCache.toLru (r : RefCache) : LruCache where
  limits := r.limits
  entries := r.lru

namespace CodeCache

variable {c : CodeCache}

theorem Represents.clear (c : CodeCache) : Represents c.clear [] :=
  { new c.maxBlocks c.maxBytes with }

theorem Represents.apply_ok (hc : Represents c l) (op : CacheOp) :
    ∃ c', ∃ l' : Listing, c.apply w op = .ok (((c.toRef l).apply w op).1, c') ∧ Represents c' l' ∧
      ((c.toRef l).apply w op).2 = c'.toRef l' := by
  cases op
  case insert h =>
    obtain ⟨keys, c', l', he, hc', hr⟩ := hc.insert_ok (w := w) h
    exact ⟨c', l', by simp [apply, RefCache.apply, he, hr, bind, Except.bind, pure, Except.pure],
      hc', by simp [RefCache.apply, hr]⟩
  case getCloned k =>
    obtain ⟨r, c', l', he, hc', hr⟩ := hc.getCloned_ok k
    exact ⟨c', l', by simp [apply, RefCache.apply, he, hr, bind, Except.bind, pure, Except.pure],
      hc', by simp [RefCache.apply, hr]⟩
  case remove k =>
    obtain ⟨r, c', l', he, hc', hr⟩ := hc.remove_sim k
    exact ⟨c', l', by simp [apply, RefCache.apply, he, hr, bind, Except.bind, pure, Except.pure],
      hc', by simp [RefCache.apply, hr]⟩
  case clear => exact ⟨c.clear, [], rfl, .clear c, rfl⟩

theorem Represents.applyAll_ok (hc : Represents c l) (ops : List CacheOp) :
    ∃ c', ∃ l' : Listing, c.applyAll w ops = .ok (((c.toRef l).applyAll w ops).1, c') ∧
      Represents c' l' ∧ ((c.toRef l).applyAll w ops).2 = c'.toRef l' := by
  induction ops generalizing c l
  case nil => exact ⟨c, l, rfl, hc, rfl⟩
  case cons op ops ih =>
    obtain ⟨c₁, l₁, he₁, hc₁, hr₁⟩ := hc.apply_ok (w := w) op
    obtain ⟨c₂, l₂, he₂, hc₂, hr₂⟩ := ih hc₁
    refine ⟨c₂, l₂, ?_, hc₂, ?_⟩
    · simp [applyAll, RefCache.applyAll, he₁, he₂, hr₁, bind, Except.bind, pure, Except.pure]
    · simp [RefCache.applyAll, hr₁, hr₂]

-- The list in both directions, the map and the slots in use describe the same nodes, and all other
-- slots can be used again.
structure Consistent (c : CodeCache) (nodes : List Nat) : Prop where
  nodup : nodes.Nodup
  forward : Walk LinkedArena.Node.next c.arena c.head nodes
  backward : Walk LinkedArena.Node.prev c.arena c.tail nodes.reverse
  used : ∀ i, i ∈ nodes ↔ ∃ n, c.slot i = some n
  mapped : ∀ rip i, c.map.lookup rip = some i ↔ ∃ n, c.slot i = some n ∧ n.entryRip = rip
  free_nodup : c.freeList.Nodup
  free : ∀ i, i ∈ c.freeList ↔ i < c.nodes.length ∧ i ∉ nodes

theorem Represents.consistent (hc : Represents c l) : c.Consistent (l.map Prod.fst) := by
  have hu : ∀ i, i ∈ l.map Prod.fst ↔ ∃ n, c.slot i = some n := by
    intro i
    constructor
    · intro hi
      exact exists_slot_of_arena_eq rfl (hc.linked.exists_node hi)
    · intro ⟨n, hn⟩
      exact hc.live i n hn
  exact {
    nodup := hc.linked.nodup
    forward := hc.linked.forward
    backward := hc.linked.backward
    used := hu
    mapped := fun rip i => by
      rw [hc.mapped]
      constructor
      · intro ⟨h, hm⟩
        obtain ⟨xs, ys, rfl⟩ := append_of_mem hm
        exact ⟨_, hc.slot_split, rfl⟩
      · intro ⟨n, hn, hk⟩
        have ⟨⟨j, k, h⟩, hm, hj⟩ := mem_map.mp (hc.live i n hn)
        obtain ⟨xs, ys, rfl⟩ := append_of_mem hm
        subst hj
        rw [hc.slot_split, Option.some.injEq] at hn
        subst hn hk
        exact ⟨h, hm⟩
    free_nodup := hc.free_nodup
    free := fun i => by
      rw [hc.mem_free, hu, exists_slot_iff]
      by_cases hi : i < c.nodes.length
      case pos => simp [hi]
      case neg => simp [hi] }

theorem Represents.len_toLru (hc : Represents c l) : c.len = (c.toRef l).toLru.len := by
  rw [hc.len_eq]
  exact (length_map _).symm

theorem Represents.contains_toLru (hc : Represents c l) (rip : U64) :
    c.contains rip = (c.toRef l).toLru.contains rip := by
  by_cases hk : rip ∈ l.map (·.2.1)
  case pos =>
    obtain ⟨xs, ⟨i, k, h⟩, ys, rfl, rfl⟩ := exists_split hk
    have hl : lookup entryRip k _ = _ := hc.lookup_handles.1
    rw [contains, hc.lookup_split, LruCache.contains, toLru, hl]
    rfl
  case neg =>
    have hl : lookup entryRip rip _ = _ := hc.lookup_handles_none hk
    rw [contains, hc.lookup_eq_none.mpr hk, LruCache.contains, toLru, hl]
    rfl

end CodeCache

namespace RefCache

variable {r : RefCache}

structure Exact (r : RefCache) : Prop where
  nodup : (r.lru.map CompiledBlockHandle.entryRip).Nodup
  bytes : r.currentBytes = Lru.total CompiledBlockHandle.byteLen r.lru

theorem evictOldest_exact (limits : Lru.Limits) (l : List CompiledBlockHandle) :
    evictOldest limits (Lru.total byteLen l) l =
      ((Lru.evictOldest byteLen limits l).1.map entryRip,
        Lru.total byteLen
          (Lru.evictOldest byteLen limits l).2,
        (Lru.evictOldest byteLen limits l).2) := by
  induction l
  case nil => rfl
  case cons h l ih =>
    have hb : Lru.total byteLen (h :: l) - h.byteLen =
        Lru.total byteLen l := by
      rw [Lru.total_cons, Nat.add_sub_cancel_left]
    rw [evictOldest, Lru.evictOldest, hb, ih]
    split <;> rfl

theorem evictIfNeeded_exact (h : Exact r) :
    r.evictIfNeeded.1 = (r.toLru.evict).1 ∧ r.evictIfNeeded.2.toLru = (r.toLru.evict).2 ∧
      Exact r.evictIfNeeded.2 := by
  have he : r.evictIfNeeded = (r.toLru.evict.1, { r with
      currentBytes := r.toLru.evict.2.totalBytes
      lru := r.toLru.evict.2.entries }) := by
    rw [evictIfNeeded, h.bytes, ← total_reverse, evictOldest_exact, ← total_reverse]
    rfl
  rw [he]
  refine ⟨rfl, rfl, ?_, rfl⟩
  have hs := evictOldest_sublist byteLen r.limits r.lru.reverse
  rw [reverse_sublist.symm, reverse_reverse] at hs
  exact h.nodup.sublist (hs.map entryRip)

-- The accounting of an insertion does not saturate when the blocks fit.
theorem insert_eq (h : Exact r) (hf : r.toLru.Fits w (.insert b)) :
    r.insert w b = evictIfNeeded { r with
      currentBytes := Lru.total byteLen
        (Lru.place entryRip b r.lru)
      lru := Lru.place entryRip b r.lru } := by
  have hf : Lru.total byteLen
      (Lru.place entryRip b r.lru) ≤ w.usizeMax := hf
  rw [Lru.place, Lru.total_cons, Nat.add_comm] at hf
  rw [insert, lookup, Lru.place, Lru.total_cons]
  congr 2
  cases hl : Lru.lookup entryRip b.entryRip r.lru
  case none =>
    rw [Lru.without_of_lookup_none hl] at hf ⊢
    rw [PointerWidth.saturatingAdd, h.bytes, Nat.min_eq_left hf, Nat.add_comm]
  case some prev =>
    rw [Lru.total_without h.nodup hl] at hf ⊢
    rw [PointerWidth.saturatingAdd, h.bytes, Nat.min_eq_left hf, Nat.add_comm]

theorem apply_exact (h : Exact r) (hf : r.toLru.Fits w op) :
    (r.apply w op).1 = (r.toLru.apply op).1 ∧ (r.apply w op).2.toLru = (r.toLru.apply op).2 ∧
      Exact (r.apply w op).2 := by
  cases op
  case insert b =>
    have hp : Exact { r with
        currentBytes := Lru.total byteLen
          (Lru.place entryRip b r.lru)
        lru := Lru.place entryRip b r.lru } :=
      ⟨Lru.nodup_place h.nodup b, rfl⟩
    have ⟨hk, hl, he⟩ := evictIfNeeded_exact hp
    simp only [apply, insert_eq h hf]
    exact ⟨congrArg CacheResult.evicted hk, hl, he⟩
  case getCloned k =>
    simp only [apply, get, lookup, without, LruCache.apply, Lru.get, toLru]
    cases hl : Lru.lookup entryRip k r.lru
    case none => exact ⟨rfl, rfl, h⟩
    case some b =>
      have hk : b.entryRip = k := by simpa using find?_some hl
      refine ⟨rfl, rfl, hk ▸ Lru.nodup_place h.nodup b, ?_⟩
      have hle : b.byteLen ≤ Lru.total byteLen r.lru := Lru.size_le_total hl
      rw [Lru.total_cons, Lru.total_without h.nodup hl, h.bytes]
      omega
  case remove k =>
    simp only [apply, remove, lookup, without, LruCache.apply, Lru.remove, toLru]
    cases hl : Lru.lookup entryRip k r.lru
    case none =>
      rw [Lru.without_of_lookup_none hl]
      exact ⟨rfl, rfl, h⟩
    case some b =>
      refine ⟨rfl, rfl, Lru.nodup_without h.nodup k, ?_⟩
      rw [Lru.total_without h.nodup hl, h.bytes]
  case clear => exact ⟨rfl, rfl, nodup_nil, rfl⟩

theorem applyAll_exact (h : Exact r) (hf : r.toLru.FitsAll w ops) :
    (r.applyAll w ops).1 = (r.toLru.applyAll ops).1 ∧
      (r.applyAll w ops).2.toLru = (r.toLru.applyAll ops).2 ∧ Exact (r.applyAll w ops).2 := by
  induction ops generalizing r
  case nil => exact ⟨rfl, rfl, h⟩
  case cons op ops ih =>
    have ⟨hr, hl, he⟩ := apply_exact h hf.1
    have ⟨hr', hl', he'⟩ := ih he (hl ▸ hf.2)
    rw [hl] at hr' hl'
    refine ⟨?_, hl', he'⟩
    simp [applyAll, LruCache.applyAll, hr, hr']

end RefCache

-- The cache never panics and stays consistent. As long as the total length of the blocks fits into
-- `usize` it is an LRU cache.
theorem CodeCache.applyAll_lru (w : PointerWidth) (maxBlocks maxBytes : Nat) (ops : List CacheOp) :
    ∃ results c nodes, (new maxBlocks maxBytes).applyAll w ops = .ok (results, c) ∧
      c.Consistent nodes ∧
      ((LruCache.new maxBlocks maxBytes).FitsAll w ops →
        results = ((LruCache.new maxBlocks maxBytes).applyAll ops).1 ∧
        c.len = ((LruCache.new maxBlocks maxBytes).applyAll ops).2.len ∧
        (∀ rip, c.contains rip =
          ((LruCache.new maxBlocks maxBytes).applyAll ops).2.contains rip) ∧
        c.currentBytes = ((LruCache.new maxBlocks maxBytes).applyAll ops).2.totalBytes) := by
  have ⟨c, l, he, hc, hr⟩ := (Represents.new maxBlocks maxBytes).applyAll_ok (w := w) ops
  refine ⟨_, c, _, he, hc.consistent, fun hf => ?_⟩
  have h₀ : ((new maxBlocks maxBytes).toRef []).Exact := ⟨nodup_nil, rfl⟩
  have ⟨hres, hlru, hex⟩ := applyAll_exact h₀ hf
  rw [hr] at hlru hex
  have hs : ((LruCache.new maxBlocks maxBytes).applyAll ops).2 = (c.toRef l).toLru := hlru.symm
  rw [hs]
  exact ⟨hres, hc.len_toLru, hc.contains_toLru, hex.bytes⟩

def CompiledBlockHandle.ofLen (entryRip : U64) (byteLen : U32) : CompiledBlockHandle where
  entryRip := entryRip
  tableIndex := entryRip.setWidth 32
  blockMeta := {
    codePaddr := entryRip
    byteLen := byteLen
    pageVersionsGeneration := 0
    pageVersions := []
    instructionCount := 0
    inhibitInterruptsAfterBlock := false }

-- Block 0 is touched before the limit of 25 bytes is reached, so block 1 is evicted.
def touchAndInsert : List CacheOp :=
  [.insert (.ofLen 0 10), .insert (.ofLen 1 10), .getCloned 0, .insert (.ofLen 2 10)]

theorem CodeCache.applyAll_lru_touchAndInsert :
    (LruCache.new 10 25).FitsAll .bits32 touchAndInsert ∧
      ∃ c, (new 10 25).applyAll .bits32 touchAndInsert =
          .ok ([.evicted [], .evicted [], .handle (some (.ofLen 0 10)), .evicted [1]], c) ∧
        c.contains 0 = true ∧ c.contains 1 = false ∧ c.currentBytes = 20 := by
  have hf : (LruCache.new 10 25).FitsAll .bits32 touchAndInsert := by decide
  have ⟨results, c, _, he, _, hl⟩ := applyAll_lru .bits32 10 25 touchAndInsert
  have ⟨hr, _, hc, hb⟩ := hl hf
  have hr' : ((LruCache.new 10 25).applyAll touchAndInsert).1 =
      [.evicted [], .evicted [], .handle (some (.ofLen 0 10)), .evicted [1]] := by decide
  refine ⟨hf, c, ?_, (hc 0).trans (by decide), (hc 1).trans (by decide), hb.trans (by decide)⟩
  rw [he, hr, hr']

def saturatingInserts : List CacheOp :=
  [.insert (.ofLen 0 0xffffffff), .insert (.ofLen 1 0xffffffff), .remove 0]

-- The accounted length saturates, so that block 0 is not evicted for the limit that it exceeds
-- together with block 1. After its removal nothing is accounted for block 1.
theorem CodeCache.saturating_differs :
    ∃ results c, (new 10 0xffffffff).applyAll .bits32 saturatingInserts =
        .ok (results, c) ∧
      results ≠ ((LruCache.new 10 0xffffffff).applyAll saturatingInserts).1 ∧
      c.contains 1 = true ∧ c.currentBytes = 0 ∧
      ((LruCache.new 10 0xffffffff).applyAll saturatingInserts).2.totalBytes = 0xffffffff := by
  refine ⟨_, _, rfl, ?_, ?_, ?_, ?_⟩ <;> decide

end Aero
