import Aero.Net.HttpRange
import Mathlib.Order.Interval.Set.Defs

namespace Aero.Net.HttpRange

def ByteRangeSpec.bytes (len : Nat) : ByteRangeSpec → Set Nat
  | .fromTo start last => Set.Icc start last
  | .fromStart start   => Set.Ici start
  | .suffix n          => Set.Ici (len - n)

def requested (specs : List ByteRangeSpec) (len : Nat) : Set Nat :=
  {i | i < len ∧ ∃ spec ∈ specs, i ∈ spec.bytes len}

def covered (ranges : List ResolvedByteRange) : Set Nat :=
  {i | ∃ r ∈ ranges, i ∈ Set.Icc r.start r.last}

structure ResolvedByteRange.InBounds (len : Nat) (r : ResolvedByteRange) : Prop where
  le : r.start ≤ r.last
  lt : r.last < len

variable {len : Nat}

theorem resolveOne_inBounds (h : resolveOne len spec = some r) (hlen : 0 < len) :
    r.InBounds len := by
  cases spec
  all_goals
    rw [resolveOne] at h
    split_ifs at h
  all_goals
    cases h
    constructor <;> dsimp only <;> omega

theorem mem_resolveOne (hlen : 0 < len) (spec : ByteRangeSpec) (i : Nat) :
    (∃ r, resolveOne len spec = some r ∧ i ∈ Set.Icc r.start r.last) ↔
      i < len ∧ i ∈ spec.bytes len := by
  cases spec
  all_goals
    simp only [resolveOne, ByteRangeSpec.bytes, Set.mem_Icc, Set.mem_Ici]
    split_ifs
  all_goals
    simp only [false_and, exists_false, Option.some.injEq, exists_eq_left', false_iff]
    omega

theorem covered_filterMap (hlen : 0 < len) (specs : List ByteRangeSpec) :
    covered (specs.filterMap (resolveOne len)) = requested specs len := by
  ext i
  constructor
  · rintro ⟨r, hr, hi⟩
    obtain ⟨spec, hspec, hsome⟩ := List.mem_filterMap.mp hr
    obtain ⟨hlt, hbytes⟩ := (mem_resolveOne hlen spec i).mp ⟨r, hsome, hi⟩
    exact ⟨hlt, spec, hspec, hbytes⟩
  · rintro ⟨hlt, spec, hspec, hbytes⟩
    obtain ⟨r, hsome, hi⟩ := (mem_resolveOne hlen spec i).mpr ⟨hlt, hbytes⟩
    exact ⟨r, List.mem_filterMap.mpr ⟨spec, hspec, hsome⟩, hi⟩

theorem covered_cons : covered (r :: ranges) = Set.Icc r.start r.last ∪ covered ranges := by
  ext i
  exact List.exists_mem_cons_iff ..

theorem coalesceLoop_spec (hlen : len < 2 ^ 64)
    (hbounds : ∀ r ∈ cur :: ranges, r.InBounds len)
    (hsorted : (cur :: ranges).Pairwise (·.start ≤ ·.start)) :
    (∀ r ∈ coalesceLoop cur ranges, r.InBounds len ∧ cur.start ≤ r.start) ∧
      (coalesceLoop cur ranges).Pairwise (fun a b => a.last + 1 < b.start) ∧
      covered (coalesceLoop cur ranges) = covered (cur :: ranges) := by
  induction ranges generalizing cur
  case nil =>
    refine ⟨fun r hr => ?_, List.pairwise_singleton .., rfl⟩
    cases List.mem_singleton.mp hr
    exact ⟨hbounds cur hr, le_rfl⟩
  case cons r ranges ih =>
    rw [List.forall_mem_cons, List.forall_mem_cons] at hbounds
    obtain ⟨hcur, hr, hrest⟩ := hbounds
    obtain ⟨hfirst, hsorted⟩ := List.pairwise_cons.mp hsorted
    obtain ⟨hstart, hlater⟩ := List.forall_mem_cons.mp hfirst
    have hlast := hcur.lt
    rw [coalesceLoop]
    split
    case isTrue hle =>
      have hgrown : { cur with last := max cur.last r.last }.InBounds len :=
        ⟨hcur.le.trans (Nat.le_max_left ..), max_lt hcur.lt hr.lt⟩
      obtain ⟨hmem, hpair, hcov⟩ := ih (List.forall_mem_cons.mpr ⟨hgrown, hrest⟩)
        (List.pairwise_cons.mpr ⟨hlater, hsorted.tail⟩)
      refine ⟨hmem, hpair, ?_⟩
      have hunion : Set.Icc cur.start (max cur.last r.last) =
          Set.Icc cur.start cur.last ∪ Set.Icc r.start r.last := by
        ext i
        simp only [Set.mem_union, Set.mem_Icc]
        omega
      rw [hcov, covered_cons, covered_cons, covered_cons, ← Set.union_assoc, ← hunion]
    case isFalse hgt =>
      obtain ⟨hmem, hpair, hcov⟩ := ih (List.forall_mem_cons.mpr ⟨hr, hrest⟩) hsorted
      refine ⟨List.forall_mem_cons.mpr ⟨⟨hcur, le_rfl⟩, fun x hx => ?_⟩,
        List.pairwise_cons.mpr ⟨fun x hx => ?_, hpair⟩, ?_⟩
      · exact ⟨(hmem x hx).1, hstart.trans (hmem x hx).2⟩
      · have := (hmem x hx).2
        omega
      · rw [covered_cons, hcov, ← covered_cons]

-- The error is returned exactly when no byte was asked for.
theorem resolveRanges_exact (specs : List ByteRangeSpec) (len : U64) :
    (requested specs len.toNat = ∅ ∧
      resolveRanges specs len.toNat true = .error .unsatisfiable) ∨
    ((requested specs len.toNat).Nonempty ∧
      ∃ ranges, resolveRanges specs len.toNat true = .ok ranges ∧
        (∀ r ∈ ranges, r.InBounds len.toNat) ∧
        ranges.Pairwise (fun a b => a.last + 1 < b.start) ∧
        covered ranges = requested specs len.toNat) := by
  rw [resolveRanges]
  split
  case isTrue hzero =>
    refine .inl ⟨Set.eq_empty_of_forall_notMem fun i hi => ?_, rfl⟩
    exact absurd hi.1 (by omega)
  case isFalse hpos =>
    have hlen := Nat.pos_of_ne_zero hpos
    rw [← covered_filterMap hlen]
    have hbounds : ∀ r ∈ specs.filterMap (resolveOne len.toNat), r.InBounds len.toNat := by
      intro r hr
      obtain ⟨spec, -, hsome⟩ := List.mem_filterMap.mp hr
      exact resolveOne_inBounds hsome hlen
    dsimp only
    generalize specs.filterMap (resolveOne len.toNat) = resolved at hbounds
    split
    case isTrue hnil =>
      subst hnil
      exact .inl ⟨Set.eq_empty_of_forall_notMem fun i ⟨r, hr, _⟩ => List.not_mem_nil hr, rfl⟩
    case isFalse hne =>
      have hperm : (resolved.mergeSort (·.start ≤ ·.start)).Perm resolved := List.mergeSort_perm ..
      have hsorted : (resolved.mergeSort (·.start ≤ ·.start)).Pairwise
          fun a b => decide (a.start ≤ b.start) = true :=
        List.pairwise_mergeSort (fun a b c => by simpa using Nat.le_trans) (fun a b => by simp; omega) _
      obtain ⟨r, hr⟩ := List.exists_mem_of_ne_nil resolved hne
      refine .inr ⟨⟨r.start, r, hr, le_rfl, (hbounds r hr).le⟩, _, rfl, ?_⟩
      have hcov : covered (resolved.mergeSort (·.start ≤ ·.start)) = covered resolved := by
        ext i
        exact exists_congr fun r => and_congr_left' hperm.mem_iff
      rw [← hcov]
      replace hbounds := fun r h => hbounds r (hperm.mem_iff.mp h)
      generalize resolved.mergeSort (·.start ≤ ·.start) = sorted at hbounds hsorted hperm
      cases sorted
      case nil => exact absurd hperm.symm.eq_nil hne
      case cons cur ranges =>
        obtain ⟨hmem, hpair, hcov⟩ := coalesceLoop_spec len.isLt hbounds
          (hsorted.imp fun h => of_decide_eq_true h)
        exact ⟨fun r hr => (hmem r hr).1, hpair, hcov⟩

end Aero.Net.HttpRange
