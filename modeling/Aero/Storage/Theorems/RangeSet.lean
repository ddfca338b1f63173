import Aero.Storage.RangeSet
import Mathlib.Order.Interval.Finset.Nat

namespace Aero.Storage

open RangeSet List ByteRange Nat
open Finset (empty_subset mem_Ico mem_union range union_assoc union_comm)

theorem ByteRange.isEmpty_iff {r : ByteRange} : r.isEmpty = true ↔ r.stop ≤ r.start :=
  decide_eq_true_iff

namespace RangeSet

variable {s : RangeSet} {rs : List ByteRange} {new r : ByteRange} {start stop x : Nat}

structure Canonical (rs : List ByteRange) : Prop where
  nonempty : ∀ r ∈ rs, r.start < r.stop
  apart : rs.Pairwise fun a b => a.stop < b.start

def offsets (rs : List ByteRange) : Finset Nat :=
  rs.foldr (fun r s => Finset.Ico r.start r.stop ∪ s) ∅

theorem mem_offsets : x ∈ offsets rs ↔ ∃ r ∈ rs, r.start ≤ x ∧ x < r.stop := by
  induction rs
  case nil => simp [offsets]
  case cons r rs ih =>
    rw [offsets, foldr_cons, mem_union, ← offsets, ih]
    simp

theorem mem_offsets_flatMap : x ∈ offsets (rs.flatMap f) ↔ ∃ r ∈ rs, x ∈ offsets (f r) := by
  simp only [mem_offsets, mem_flatMap]
  constructor
  · rintro ⟨e, ⟨r, hr, he⟩, hx⟩
    exact ⟨r, hr, e, he, hx⟩
  · rintro ⟨r, hr, e, he, hx⟩
    exact ⟨e, ⟨r, hr, he⟩, hx⟩

theorem mem_offsets_singleton : x ∈ offsets [r] ↔ r.start ≤ x ∧ x < r.stop := by
  rw [mem_offsets]
  simp

theorem offsets_cons : offsets (r :: rs) = Finset.Ico r.start r.stop ∪ offsets rs := rfl

namespace Canonical

theorem nil : Canonical [] :=
  ⟨fun _ h => (not_mem_nil h).elim, .nil⟩

theorem cons_iff : Canonical (r :: rs) ↔
    r.start < r.stop ∧ (∀ r' ∈ rs, r.stop < r'.start) ∧ Canonical rs := by
  constructor
  · intro h
    have happart := pairwise_cons.mp h.apart
    exact ⟨h.nonempty r mem_cons_self, happart.1,
      fun r' hr' => h.nonempty r' (mem_cons_of_mem r hr'), happart.2⟩
  · rintro ⟨hr, hrs, h⟩
    exact ⟨forall_mem_cons.mpr ⟨hr, h.nonempty⟩, pairwise_cons.mpr ⟨hrs, h.apart⟩⟩

theorem singleton (h : r.start < r.stop) : Canonical [r] :=
  cons_iff.mpr ⟨h, fun _ h => (not_mem_nil h).elim, nil⟩

theorem lt_of_getElem? (h : Canonical rs) {i j : Nat} (hij : i < j) (ha : rs[i]? = some a)
    (hb : rs[j]? = some b) : a.stop < b.start := by
  obtain ⟨hi, rfl⟩ := List.getElem?_eq_some_iff.mp ha
  obtain ⟨hj, rfl⟩ := List.getElem?_eq_some_iff.mp hb
  exact List.pairwise_iff_getElem.mp h.apart i j hi hj hij

theorem compactLoop (h : Canonical (r :: rs)) : compactLoop r rs = r :: rs := by
  induction rs generalizing r
  case nil => rfl
  case cons r' rs ih =>
    obtain ⟨-, hgap, h'⟩ := cons_iff.mp h
    have hnot : r.overlapsOrAdjacent r' = false := by
      simp only [overlapsOrAdjacent, Bool.and_eq_false_iff, decide_eq_false_iff_not]
      exact .inr (not_le.mpr (hgap r' mem_cons_self))
    rw [compactLoop, hnot, if_neg Bool.false_ne_true, ih h']

theorem compactAdjacent (h : Canonical rs) : compactAdjacent ⟨rs⟩ = ⟨rs⟩ := by
  have hsorted : rs.mergeSort (fun a b => a.start ≤ b.start) = rs := by
    refine mergeSort_of_pairwise ((h.apart.imp_of_mem fun ha _ hlt => ?_))
    have hne := h.nonempty _ ha
    simp only [decide_eq_true_eq]
    omega
  rw [RangeSet.compactAdjacent]
  rw [hsorted]
  split
  · rfl
  · cases rs
    case nil => rfl
    case cons r rs => exact congrArg RangeSet.mk h.compactLoop

theorem insertLoop_inserted (h : Canonical rs) (hnew : new.start < new.stop)
    (hafter : ∀ r ∈ rs, new.stop < r.start) : insertLoop new true rs = rs := by
  induction rs
  case nil => rfl
  case cons r rs ih =>
    obtain ⟨hr, -, hrs⟩ := cons_iff.mp h
    obtain ⟨hnr, hafter⟩ := forall_mem_cons.mp hafter
    rw [insertLoop, if_neg (by omega), if_pos hnr, if_pos rfl, ih hrs hafter]

theorem lt_start_of_mem_insertLoop (hnew : b < new.start) (hrs : ∀ r ∈ rs, b < r.start)
    (he : e ∈ insertLoop new inserted rs) : b < e.start := by
  induction rs generalizing new inserted
  case nil =>
    rw [insertLoop] at he
    split at he
    · exact (not_mem_nil he).elim
    · rwa [mem_singleton.mp he]
  case cons r rs ih =>
    obtain ⟨hr, hrs⟩ := forall_mem_cons.mp hrs
    rw [insertLoop] at he
    split at he
    · rcases mem_cons.mp he with rfl | he
      · exact hr
      · exact ih hnew hrs he
    split at he
    · split at he
      · rcases mem_cons.mp he with rfl | he
        · exact hr
        · exact ih hnew hrs he
      · rcases mem_cons.mp he with rfl | he
        · exact hnew
        rcases mem_cons.mp he with rfl | he
        · exact hr
        · exact ih hnew hrs he
    · exact ih (Nat.lt_min.mpr ⟨hnew, hr⟩) hrs he

theorem Ico_merge (h₁ : new.start ≤ r.stop) (h₂ : r.start ≤ new.stop) : Finset.Ico (new.merge r).start (new.merge r).stop =
      Finset.Ico new.start new.stop ∪ Finset.Ico r.start r.stop := by
  ext x
  simp only [ByteRange.merge, mem_Ico, mem_union]
  omega

theorem insertLoop (h : Canonical rs) (hnew : new.start < new.stop) :
    Canonical (insertLoop new false rs) ∧
      offsets (insertLoop new false rs) = offsets rs ∪ Finset.Ico new.start new.stop := by
  induction rs generalizing new
  case nil =>
    refine ⟨cons_iff.mpr ⟨hnew, fun r hr => (not_mem_nil hr).elim, .nil⟩, ?_⟩
    exact union_comm ..
  case cons r rs ih =>
    obtain ⟨hr, hgap, hrs⟩ := cons_iff.mp h
    rw [insertLoop]
    split
    case isTrue hbefore =>
      obtain ⟨hcanonical, hoffsets⟩ := ih hrs hnew
      refine ⟨cons_iff.mpr ⟨hr, fun e he => lt_start_of_mem_insertLoop hbefore hgap he, hcanonical⟩, ?_⟩
      rw [offsets_cons, offsets_cons, hoffsets, union_assoc]
    case isFalse hbefore =>
    split
    case isTrue hafter =>
      have hrest : ∀ r' ∈ rs, new.stop < r'.start := fun r' hr' => by
        have hlt := hgap r' hr'
        omega
      rw [hrs.insertLoop_inserted hnew hrest]
      exact ⟨cons_iff.mpr ⟨hnew, forall_mem_cons.mpr ⟨hafter, hrest⟩, h⟩, union_comm ..⟩
    case isFalse hafter =>
      have hmerged : (new.merge r).start < (new.merge r).stop := by
        dsimp only [ByteRange.merge]
        omega
      obtain ⟨hcanonical, hoffsets⟩ := ih hrs hmerged
      refine ⟨hcanonical, ?_⟩
      rw [hoffsets, Ico_merge (by omega) (by omega), offsets_cons, union_comm,
        union_assoc, union_comm]

theorem insert (h : Canonical s.ranges) (start stop : Nat) :
    Canonical (s.insert start stop).ranges ∧
      offsets (s.insert start stop).ranges = offsets s.ranges ∪ Finset.Ico start stop := by
  rw [RangeSet.insert]
  by_cases hempty : stop ≤ start
  · rw [if_pos (isEmpty_iff.mpr hempty), Finset.Ico_eq_empty_of_le hempty, Finset.union_empty]
    exact ⟨h, rfl⟩
  · rw [if_neg (isEmpty_iff.not.mpr hempty)]
    rw [not_le] at hempty
    have hloop : _ ∧ offsets (RangeSet.insertLoop ⟨start, stop⟩ false s.ranges) = _ :=
      h.insertLoop hempty
    rw [hloop.1.compactAdjacent]
    exact hloop

-- What is left of a range lies within it, outside of what is removed.
theorem remainders (remove : ByteRange) (hremove : remove.start < remove.stop)
    (hr : r.start < r.stop) : Canonical (remainders remove r) ∧
      (∀ e ∈ remainders remove r, r.start ≤ e.start ∧ e.stop ≤ r.stop) ∧
      offsets (remainders remove r) =
        Finset.Ico r.start r.stop \ Finset.Ico remove.start remove.stop := by
  have hrest x : x ∈ Finset.Ico r.start r.stop \ Finset.Ico remove.start remove.stop ↔
      (r.start ≤ x ∧ x < r.stop) ∧ ¬(remove.start ≤ x ∧ x < remove.stop) := by
    rw [Finset.mem_sdiff, mem_Ico, mem_Ico]
  rw [RangeSet.remainders]
  by_cases hout : r.stop ≤ remove.start ∨ remove.stop ≤ r.start
  · rw [if_pos hout]
    refine ⟨singleton hr, forall_mem_singleton.mpr ⟨le_rfl, le_rfl⟩, ?_⟩
    ext x
    rw [hrest, mem_offsets_singleton]
    omega
  rw [if_neg hout]
  have hstart : r.start ≤ remove.stop := by omega
  have hstop : remove.start ≤ r.stop := by omega
  by_cases hleft : r.start < remove.start <;> by_cases hright : remove.stop < r.stop
  case pos =>
    -- a piece is left on both sides
    rw [if_pos hleft, if_pos hright, singleton_append]
    refine ⟨cons_iff.mpr ⟨hleft, forall_mem_singleton.mpr hremove, singleton hright⟩,
      forall_mem_cons.mpr ⟨⟨le_rfl, hstop⟩, forall_mem_singleton.mpr ⟨hstart, le_rfl⟩⟩, ?_⟩
    ext x
    rw [hrest, offsets_cons, mem_union, mem_Ico, mem_offsets_singleton]
    dsimp only
    omega
  case neg =>
    rw [if_pos hleft, if_neg hright, append_nil]
    refine ⟨singleton hleft, forall_mem_singleton.mpr ⟨le_rfl, hstop⟩, ?_⟩
    ext x
    rw [hrest, mem_offsets_singleton]
    dsimp only
    omega
  case pos =>
    rw [if_neg hleft, if_pos hright, nil_append]
    refine ⟨singleton hright, forall_mem_singleton.mpr ⟨hstart, le_rfl⟩, ?_⟩
    ext x
    rw [hrest, mem_offsets_singleton]
    dsimp only
    omega
  case neg =>
    -- all of the range is removed
    rw [if_neg hleft, if_neg hright, append_nil]
    refine ⟨nil, fun _ h => (not_mem_nil h).elim, ?_⟩
    ext x
    rw [hrest]
    refine iff_of_false (Finset.notMem_empty x) ?_
    omega

theorem remove (h : Canonical s.ranges) (start stop : Nat) :
    Canonical (s.remove start stop).ranges ∧
      offsets (s.remove start stop).ranges = offsets s.ranges \ Finset.Ico start stop := by
  rw [RangeSet.remove]
  by_cases hempty : stop ≤ start
  · rw [if_pos (isEmpty_iff.mpr hempty), Finset.Ico_eq_empty_of_le hempty, Finset.sdiff_empty]
    exact ⟨h, rfl⟩
  · rw [if_neg (isEmpty_iff.not.mpr hempty)]
    rw [not_le] at hempty
    have hrem r (hr : r ∈ s.ranges) :=
      remainders ⟨start, stop⟩ hempty (h.nonempty r hr)
    have hcanonical : Canonical (s.ranges.flatMap (RangeSet.remainders ⟨start, stop⟩)) := by
      refine ⟨fun e he => ?_, pairwise_flatMap.mpr ⟨fun r hr => (hrem r hr).1.apart, ?_⟩⟩
      · obtain ⟨r, hr, he⟩ := mem_flatMap.mp he
        exact (hrem r hr).1.nonempty e he
      · refine h.apart.imp_of_mem fun ha hb hlt x hx y hy => ?_
        have hx := (hrem _ ha).2.1 x hx
        have hy := (hrem _ hb).2.1 y hy
        omega
    rw [hcanonical.compactAdjacent]
    refine ⟨hcanonical, ?_⟩
    ext x
    calc x ∈ offsets (s.ranges.flatMap (RangeSet.remainders ⟨start, stop⟩))
      _ ↔ ∃ r ∈ s.ranges, x ∈ offsets (RangeSet.remainders ⟨start, stop⟩ r) := mem_offsets_flatMap
      _ ↔ ∃ r ∈ s.ranges, x ∈ Finset.Ico r.start r.stop \ Finset.Ico start stop :=
        exists_congr fun r => and_congr_right fun hr => by rw [(hrem r hr).2.2]
      _ ↔ x ∈ offsets s.ranges \ Finset.Ico start stop := by
        simp [mem_offsets, ← and_assoc]

theorem containsRange (h : Canonical s.ranges) (start stop : Nat) :
    s.containsRange start stop = true ↔ Finset.Ico start stop ⊆ offsets s.ranges := by
  rw [RangeSet.containsRange]
  split
  case isTrue hempty =>
    rw [Finset.Ico_eq_empty_of_le hempty]
    exact iff_of_true rfl (empty_subset _)
  case isFalse hempty =>
    have hlt := not_le.mp hempty
    generalize hi : Intervals.partitionPoint (fun r => decide (r.stop ≤ start)) s.ranges = i
    -- The range around an offset that is not below `start` is the one that is found, or behind it.
    have hfound {x j : Nat} {r : ByteRange} (hj : s.ranges[j]? = some r) (hx : start ≤ x)
        (hr : x < r.stop) : i ≤ j := by
      by_contra hji
      have hless := Intervals.of_lt_partitionPoint (hi ▸ not_le.mp hji) hj
      rw [decide_eq_true_eq] at hless
      omega
    constructor
    · intro hcontains x hx
      split at hcontains
      · cases hcontains
      case h_2 r hr =>
        rw [Bool.and_eq_true, decide_eq_true_eq, decide_eq_true_eq] at hcontains
        rw [mem_Ico] at hx
        exact mem_offsets.mpr ⟨r, List.mem_of_getElem? hr, by omega, by omega⟩
    · intro hsubset
      obtain ⟨r, hr, hstart⟩ := mem_offsets.mp (hsubset (mem_Ico.mpr ⟨le_rfl, hlt⟩))
      obtain ⟨j, hj⟩ := List.getElem?_of_mem hr
      have hij : i = j := by
        refine le_antisymm (hfound hj le_rfl hstart.2) (not_lt.mp fun hlt => ?_)
        obtain ⟨f, hf⟩ : ∃ f, s.ranges[i]? = some f :=
          ⟨_, List.getElem?_eq_getElem (hlt.trans (List.getElem?_eq_some_iff.mp hj).1)⟩
        have hgap := h.lt_of_getElem? hlt hf hj
        have hnot := Intervals.not_at_partitionPoint (hi ▸ hf)
        rw [decide_eq_false_iff_not] at hnot
        omega
      subst hij
      rw [hj]
      -- Where the range ends, an offset is missing.
      have hend : stop ≤ r.stop := by
        by_contra hshort
        obtain ⟨r', hr', hx⟩ := mem_offsets.mp
          (hsubset (mem_Ico.mpr ⟨hstart.2.le, not_le.mp hshort⟩))
        obtain ⟨k, hk⟩ := List.getElem?_of_mem hr'
        rcases (hfound hk hstart.2.le hx.2).eq_or_lt with rfl | hlt
        · cases hj.symm.trans hk
          omega
        · have hgap := h.lt_of_getElem? hlt hj hk
          omega
      exact Bool.and_eq_true_iff.mpr ⟨decide_eq_true hstart.1, decide_eq_true hend⟩

theorem sum_len (h : Canonical rs) : (rs.map len).sum = (offsets rs).card := by
  induction rs
  case nil => rfl
  case cons r rs ih =>
    obtain ⟨hr, hgap, hrs⟩ := cons_iff.mp h
    have hdisjoint : Disjoint (Finset.Ico r.start r.stop) (offsets rs) := by
      refine Finset.disjoint_left.mpr fun x hx hx' => ?_
      obtain ⟨r', hr', hx'⟩ := mem_offsets.mp hx'
      have hlt := hgap r' hr'
      rw [mem_Ico] at hx
      omega
    rw [map_cons, sum_cons, ih hrs, offsets_cons, Finset.card_union_of_disjoint hdisjoint,
      card_Ico, len]

end Canonical

def Op.apply (offsets : Finset Nat) : Op → Finset Nat
  | .insert start stop => offsets ∪ Finset.Ico start.toNat stop.toNat
  | .remove start stop => offsets \ Finset.Ico start.toNat stop.toNat

theorem Canonical.step (h : Canonical s.ranges) (op : Op) :
    Canonical (s.step op).ranges ∧ offsets (s.step op).ranges = op.apply (offsets s.ranges) := by
  cases op
  case insert start stop => exact h.insert ..
  case remove start stop => exact h.remove ..

theorem Op.apply_subset (hS : S ⊆ Finset.range (2 ^ 64 - 1)) (op : Op) :
    op.apply S ⊆ Finset.range (2 ^ 64 - 1) := by
  cases op
  case insert start stop =>
    refine Finset.union_subset hS fun x hx => ?_
    rw [Finset.mem_Ico] at hx
    rw [Finset.mem_range]
    omega
  case remove => exact Finset.sdiff_subset.trans hS

theorem run_canonical (ops : List Op) (h : Canonical s.ranges)
    (hS : offsets s.ranges ⊆ range (2 ^ 64 - 1)) :
    Canonical (ops.foldl step s).ranges ∧
      offsets (ops.foldl step s).ranges = ops.foldl Op.apply (offsets s.ranges) ∧
      offsets (ops.foldl step s).ranges ⊆ range (2 ^ 64 - 1) := by
  induction ops generalizing s
  case nil => exact ⟨h, rfl, hS⟩
  case cons op ops ih =>
    obtain ⟨hstep, hoffsets⟩ := h.step op
    have hrest := ih hstep (hoffsets ▸ op.apply_subset hS)
    rw [hoffsets] at hrest
    exact hrest

-- After any run of insertions and removals the ranges are canonical, their offsets are the union and
-- difference of the arguments, and the queries answer for these offsets.
theorem ranges_denote_offsets (ops : List Op) :
    Canonical (ops.foldl step RangeSet.new).ranges ∧
    offsets (ops.foldl step RangeSet.new).ranges = ops.foldl Op.apply ∅ ∧
    (∀ start stop : U64, (ops.foldl step RangeSet.new).containsRange start.toNat stop.toNat = true ↔
      Finset.Ico start.toNat stop.toNat ⊆ offsets (ops.foldl step RangeSet.new).ranges) ∧
    (ops.foldl step RangeSet.new).totalLen = (offsets (ops.foldl step RangeSet.new).ranges).card := by
  obtain ⟨h, hoffsets, hS⟩ := run_canonical (s := new) ops .nil (empty_subset _)
  refine ⟨h, hoffsets, fun start stop => h.containsRange .., ?_⟩
  have hcard := Finset.card_le_card hS
  rw [Finset.card_range] at hcard
  rw [totalLen, h.sum_len]
  exact mod_eq_of_lt (by omega)

end RangeSet

end Aero.Storage
