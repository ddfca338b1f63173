import Aero.Jit.HotnessProfile
import Aero.Lib.Runs

namespace Aero.HotnessProfile

open AList Finset List

variable {p : HotnessProfile} {rip : U64}

structure Bounded (p : HotnessProfile) : Prop where
  requested : ∀ rip ∈ p.requested, rip ∈ p.counters
  capacity_pos : 0 < p.capacity
  counters_le : p.counters.keys.length ≤ p.capacity

theorem bounded_newWithCapacity (threshold capacity : Nat) :
    Bounded (newWithCapacity threshold capacity) where
  requested _ h := absurd h (Finset.notMem_empty _)
  capacity_pos := Nat.le_max_right ..
  counters_le := Nat.zero_le _

section Victim

theorem betterVictim_isSome (h : v.isSome) (e : (_ : U64) × CounterEntry) :
    (p.betterVictim allowRequested v e).isSome := by
  rw [betterVictim]
  split
  · exact h
  · dsimp only
    split
    · rfl
    · split <;> rfl

theorem mem_of_pickVictim (h : p.pickVictim allowRequested = some victim) : victim ∈ p.counters := by
  obtain ⟨v, hv, rfl⟩ := Option.map_eq_some_iff.mp h
  have hfold : ∀ (l : List ((_ : U64) × CounterEntry)) (o : Option (Nat × Nat × U64)),
      (∀ v, o = some v → v.2.2 ∈ p.counters) → (∀ e ∈ l, e.1 ∈ p.counters) →
      ∀ v, l.foldl (p.betterVictim allowRequested) o = some v → v.2.2 ∈ p.counters := by
    intro l
    induction l
    case nil => exact fun o ho _ => ho
    case cons e l ih =>
      intro o ho hl
      rw [List.forall_mem_cons] at hl
      refine ih _ (fun v hv => ?_) hl.2
      rw [betterVictim] at hv
      split at hv
      · exact ho v hv
      · dsimp only at hv
        split at hv
        · cases hv
          exact hl.1
        · split at hv
          · cases hv
            exact hl.1
          · exact ho v hv
  exact hfold _ none (fun _ h => by cases h) (fun e he => mem_keys.mpr
    (List.mem_map_of_mem he)) v hv

theorem pickVictim_isSome (h : p.counters.keys ≠ []) : (p.pickVictim true).isSome := by
  rw [pickVictim, Option.isSome_map]
  cases hl : p.counters.entries
  case nil => exact absurd (congrArg List.keys hl) h
  case cons e l =>
    have hfold : ∀ (l : List ((_ : U64) × CounterEntry)) (o : Option (Nat × Nat × U64)),
        o.isSome → (l.foldl (p.betterVictim true) o).isSome := by
      intro l
      induction l
      case nil => exact fun o ho => ho
      case cons e l ih => exact fun o ho => ih _ (betterVictim_isSome ho e)
    exact hfold l _ rfl

end Victim

namespace Bounded

theorem clearRequested (h : Bounded p) (rip : U64) : Bounded (p.clearRequested rip) :=
  ⟨fun r hr => h.requested r (mem_of_mem_erase hr), h.capacity_pos, h.counters_le⟩

theorem reset (h : Bounded p) : Bounded p.reset :=
  ⟨fun _ hr => absurd hr (Finset.notMem_empty _), h.capacity_pos, Nat.zero_le _⟩

theorem evict (h : Bounded p) (rip : U64) : Bounded (p.evict rip) where
  requested r hr := by
    obtain ⟨hne, hr⟩ := mem_erase.mp hr
    exact mem_erase.mpr ⟨hne, h.requested r hr⟩
  capacity_pos := h.capacity_pos
  counters_le := by
    rw [HotnessProfile.evict, keys_erase]
    exact Nat.le_trans (length_erase_le) h.counters_le

theorem keys_length_evict (h : Bounded p) (hrip : rip ∈ p.counters) :
    (p.evict rip).counters.keys.length < p.capacity := by
  have hmem := hrip
  have hpos := length_pos_of_mem hmem
  have hle := h.counters_le
  rw [HotnessProfile.evict, keys_erase, length_erase_of_mem hmem]
  omega

theorem insertCounter (h : Bounded p)
    (hroom : rip ∈ p.counters ∨ p.counters.keys.length < p.capacity) :
    Bounded { p with counters := p.counters.insert rip e } where
  requested r hr := (mem_insert _).mpr (.inr (h.requested r hr))
  capacity_pos := h.capacity_pos
  counters_le := by
    rw [keys_insert, length_cons]
    rcases hroom with hmem | hlt
    · have hmem := hmem
      have hpos := length_pos_of_mem hmem
      rw [length_erase_of_mem hmem, Nat.sub_add_cancel hpos]
      exact h.counters_le
    · exact Nat.lt_of_le_of_lt length_erase_le hlt

end Bounded

-- What hits and requests keep: they do not take a request away from a block that has its counter.
structure Kept (p p' : HotnessProfile) : Prop where
  bounded : Bounded p'
  capacity : p'.capacity = p.capacity
  retains : ∀ rip ∈ p.requested, rip ∈ p'.counters → rip ∈ p'.requested

namespace Kept

theorem bumpClock (h : Bounded p) : Kept p p.bumpClock :=
  ⟨⟨h.requested, h.capacity_pos, h.counters_le⟩, rfl, fun _ hr _ => hr⟩

section

variable (h : Kept p p')
include h

theorem evict (rip : U64) : Kept p (p'.evict rip) where
  bounded := h.bounded.evict rip
  capacity := h.capacity
  retains r hr hc := by
    obtain ⟨hne, hc⟩ := mem_erase.mp hc
    exact mem_erase.mpr ⟨hne, h.retains r hr hc⟩

theorem insertCounter (hp : Bounded p) (hold : rip ∈ p.counters → rip ∈ p'.counters)
    (hroom : rip ∈ p'.counters ∨ p'.counters.keys.length < p'.capacity) :
    Kept p { p' with counters := p'.counters.insert rip e } where
  bounded := h.bounded.insertCounter hroom
  capacity := h.capacity
  retains r hr hc := by
    rcases (mem_insert _).mp hc with rfl | hc
    · exact h.retains r hr (hold (hp.requested r hr))
    · exact h.retains r hr hc

theorem insertRequested (hrip : rip ∈ p'.counters) :
    Kept p { p' with requested := insert rip p'.requested } where
  bounded := by
    refine ⟨fun r hr => ?_, h.bounded.capacity_pos, h.bounded.counters_le⟩
    rcases mem_insert.mp hr with rfl | hr
    · exact hrip
    · exact h.bounded.requested r hr
  capacity := h.capacity
  retains r hr hc := mem_insert_of_mem (h.retains r hr hc)

theorem requestIfHot (hrip : rip ∈ p'.counters) (counter : Nat) (compiled : Bool) :
    Kept p (p'.requestIfHot rip counter compiled).2 := by
  rw [HotnessProfile.requestIfHot]
  split
  · exact h.insertRequested hrip
  · exact h

theorem ensureSpaceForNewCounterEntry :
    Kept p p'.ensureSpaceForNewCounterEntry.2 ∧ (p'.ensureSpaceForNewCounterEntry.1 = true →
      p'.ensureSpaceForNewCounterEntry.2.counters.keys.length <
        p'.ensureSpaceForNewCounterEntry.2.capacity) := by
  rw [HotnessProfile.ensureSpaceForNewCounterEntry]
  split
  case isTrue hroom => exact ⟨h, fun _ => hroom⟩
  case isFalse =>
    split
    case h_1 => exact ⟨h, fun hfull => absurd hfull Bool.false_ne_true⟩
    case h_2 victim hvictim =>
      exact ⟨h.evict victim, fun _ => h.bounded.keys_length_evict (mem_of_pickVictim hvictim)⟩

theorem ensureSpaceForNewRequestedEntry :
    Kept p p'.ensureSpaceForNewRequestedEntry ∧
      p'.ensureSpaceForNewRequestedEntry.counters.keys.length <
        p'.ensureSpaceForNewRequestedEntry.capacity := by
  rw [HotnessProfile.ensureSpaceForNewRequestedEntry]
  split
  case isTrue hroom => exact ⟨h, hroom⟩
  case isFalse hroom =>
    split
    case h_1 victim hvictim =>
      exact ⟨h.evict victim, h.bounded.keys_length_evict (mem_of_pickVictim hvictim)⟩
    case h_2 =>
      split
      case h_1 victim hvictim =>
        exact ⟨h.evict victim, h.bounded.keys_length_evict (mem_of_pickVictim hvictim)⟩
      case h_2 hnone =>
        -- A table without room is not empty.
        have hne : p'.counters.keys ≠ [] := by
          intro hnil
          rw [hnil] at hroom
          exact hroom h.bounded.capacity_pos
        have hsome := pickVictim_isSome hne
        rw [hnone] at hsome
        cases hsome

end

theorem ensureEntry (h : Bounded p) (rip : U64) (minCount : Nat) :
    Kept p (p.ensureEntry rip minCount) ∧ rip ∈ (p.ensureEntry rip minCount).counters := by
  have hbump := bumpClock h
  rw [HotnessProfile.ensureEntry]
  split
  case h_1 e he =>
    have hmem : rip ∈ p.bumpClock.counters := lookup_isSome.mp (he ▸ rfl)
    exact ⟨hbump.insertCounter h (fun _ => hmem) (.inl hmem), (mem_insert _).mpr (.inl rfl)⟩
  case h_2 hnone =>
    have hnew := lookup_eq_none.mp hnone
    obtain ⟨hspace, hroom⟩ := hbump.ensureSpaceForNewRequestedEntry
    exact ⟨hspace.insertCounter h (fun hrip => absurd hrip hnew) (.inr hroom),
      (mem_insert _).mpr (.inl rfl)⟩

theorem markRequested (h : Bounded p) (rip : U64) : Kept p (p.markRequested rip) := by
  obtain ⟨hentry, hmem⟩ := ensureEntry h rip (max p.threshold 1)
  exact hentry.insertRequested hmem

theorem recordHit (h : Bounded p) (rip : U64) (compiled : Bool) :
    Kept p (p.recordHit rip compiled).2 := by
  have hbump := bumpClock h
  rw [HotnessProfile.recordHit]
  split
  case h_1 e he =>
    have hmem : rip ∈ p.bumpClock.counters := lookup_isSome.mp (he ▸ rfl)
    exact (hbump.insertCounter h (fun _ => hmem) (.inl hmem)).requestIfHot
      ((mem_insert _).mpr (.inl rfl)) ..
  case h_2 hnone =>
    have hnew := lookup_eq_none.mp hnone
    obtain ⟨hspace, hroom⟩ := hbump.ensureSpaceForNewCounterEntry
    split
    case h_1 heq =>
      rw [heq] at hspace
      exact hspace
    case h_2 heq =>
      rw [heq] at hspace hroom
      exact (hspace.insertCounter h (fun hrip => absurd hrip hnew) (.inr (hroom rfl))).requestIfHot
        ((mem_insert _).mpr (.inl rfl)) ..

end Kept

theorem requestIfHot_fst (h : (p.requestIfHot rip counter compiled).1 = true) :
    rip ∉ p.requested ∧ rip ∈ (p.requestIfHot rip counter compiled).2.requested := by
  rw [requestIfHot] at h ⊢
  split at h
  case isTrue hcond =>
    rw [if_pos hcond]
    simp only [Bool.and_eq_true, decide_eq_true_eq] at hcond
    exact ⟨hcond.2, mem_insert_self ..⟩
  case isFalse => cases h

theorem recordHit_fst (hp : Bounded p) (h : (p.recordHit rip compiled).1 = true) :
    rip ∉ p.requested ∧ rip ∈ (p.recordHit rip compiled).2.requested := by
  rw [recordHit] at h ⊢
  split at h
  case h_1 => exact requestIfHot_fst h
  case h_2 hnone =>
    have hnew := lookup_eq_none.mp hnone
    split at h
    case h_1 => cases h
    case h_2 => exact ⟨fun hr => hnew (hp.requested rip hr), (requestIfHot_fst h).2⟩

inductive Op
  | recordHit (entryRip : U64) (hasCompiledBlock : Bool)
  | markRequested (entryRip : U64)
  | clearRequested (entryRip : U64)
  | reset
  deriving DecidableEq

def step (p : HotnessProfile) : Op → HotnessProfile
  | .recordHit entryRip hasCompiledBlock => (p.recordHit entryRip hasCompiledBlock).2
  | .markRequested entryRip              => p.markRequested entryRip
  | .clearRequested entryRip             => p.clearRequested entryRip
  | .reset                               => p.reset

-- The operation does not clear the request of the block, reset the profile or evict the block.
def Spares (rip : U64) (p : HotnessProfile) (op : Op) : Prop :=
  op ≠ .clearRequested rip ∧ op ≠ .reset ∧ (rip ∈ p.counters → rip ∈ (p.step op).counters)

theorem Bounded.step (h : Bounded p) (op : Op) :
    Bounded (p.step op) ∧ (p.step op).capacity = p.capacity := by
  cases op
  case recordHit rip compiled =>
    exact ⟨(Kept.recordHit h rip compiled).bounded, (Kept.recordHit h rip compiled).capacity⟩
  case markRequested rip =>
    exact ⟨(Kept.markRequested h rip).bounded, (Kept.markRequested h rip).capacity⟩
  case clearRequested rip => exact ⟨h.clearRequested rip, rfl⟩
  case reset => exact ⟨h.reset, rfl⟩

theorem requested_step (h : Bounded p) (hrip : rip ∈ p.requested) (hop : Spares rip p op) :
    rip ∈ (p.step op).requested := by
  obtain ⟨hclear, hreset, hevict⟩ := hop
  have hcounter := hevict (h.requested rip hrip)
  cases op
  case recordHit => exact (Kept.recordHit h ..).retains rip hrip hcounter
  case markRequested => exact (Kept.markRequested h _).retains rip hrip hcounter
  case clearRequested rip' =>
    exact mem_erase.mpr ⟨fun heq => hclear (heq ▸ rfl), hrip⟩
  case reset => exact absurd rfl hreset

-- Over every run the requests are among the counters and the counters within the capacity, and a hit
-- asks for a block once until its request is cleared, its counter evicted or the profile reset.
theorem requests_each_block_once (threshold capacity : Nat) (ops : List Op) :
    Runs.Always step (fun p => (∀ rip ∈ p.requested, rip ∈ p.counters) ∧
      p.counters.keys.length ≤ max capacity 1) (newWithCapacity threshold capacity) ops ∧
    ∀ rip compiled compiled' ops',
      ((ops.foldl step (newWithCapacity threshold capacity)).recordHit rip compiled).1 = true →
      Runs.Each step (Spares rip)
        ((ops.foldl step (newWithCapacity threshold capacity)).recordHit rip compiled).2 ops' →
      ((ops'.foldl step ((ops.foldl step (newWithCapacity threshold capacity)).recordHit
        rip compiled).2).recordHit rip compiled').1 = false := by
  have hrun : Runs.Always step (fun p => Bounded p ∧ p.capacity = max capacity 1)
      (newWithCapacity threshold capacity) ops :=
    Runs.always_of_step (fun p op hp => ⟨(hp.1.step op).1, (hp.1.step op).2.trans hp.2⟩)
      ⟨bounded_newWithCapacity .., rfl⟩
  refine ⟨hrun.mono fun p hp => ⟨hp.1.requested, hp.2 ▸ hp.1.counters_le⟩, ?_⟩
  intro rip compiled compiled' ops' hhit hspares
  have hp := hrun.last.1
  have hstays := Runs.always_of_each
    (fun p op (hp : Bounded p ∧ rip ∈ p.requested) hop =>
      ⟨(hp.1.step op).1, requested_step hp.1 hp.2 hop⟩)
    ⟨(Kept.recordHit hp rip compiled).bounded, (recordHit_fst hp hhit).2⟩ hspares
  refine Bool.eq_false_iff.mpr fun hagain => ?_
  exact (recordHit_fst hstays.last.1 hagain).1 hstays.last.2

theorem requests_each_block_once_two :
    (((([.recordHit 1 false] : List Op).foldl step (newWithCapacity 2 4)).recordHit 1 false).1 = true ∧
      (([.recordHit 2 false].foldl step ((([.recordHit 1 false] : List Op).foldl step
        (newWithCapacity 2 4)).recordHit 1 false).2).recordHit 1 false).1 = false) := by
  have hhit : ((([.recordHit 1 false] : List Op).foldl step (newWithCapacity 2 4)).recordHit
      1 false).1 = true := by decide +kernel
  refine ⟨hhit, (requests_each_block_once 2 4 [.recordHit 1 false]).2 1 false false
    [.recordHit 2 false] hhit ⟨⟨by decide, by decide, fun _ => ?_⟩, trivial⟩⟩
  exact lookup_isSome.mp (by decide +kernel)

end Aero.HotnessProfile
