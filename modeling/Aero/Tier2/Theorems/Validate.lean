import Aero.Tier2.Theorems.Scope

namespace Aero.Tier2

open Except List Instr

theorem exitLast_iff_pairwise : ExitLast is ↔ is.Pairwise fun i _ => i.isSideExit = false := by
  unfold ExitLast
  induction is
  case nil => simp
  case cons i is ih =>
    cases is
    case nil => simp
    case cons j is =>
      rw [dropLast_cons_of_ne_nil (by simp), forall_mem_cons, ih,
        pairwise_cons (a := i)]
      constructor
      · exact fun ⟨h, hp⟩ => ⟨fun _ _ => h, hp⟩
      · exact fun ⟨h, hp⟩ => ⟨h j mem_cons_self, hp⟩

theorem ExitLast.sublist (h : ExitLast is) (hs : js.Sublist is) : ExitLast js :=
  exitLast_iff_pairwise.mpr ((exitLast_iff_pairwise.mp h).sublist hs)

theorem InScope.uses_getElem (h : InScope d is) (hk : k < is.length) (hv : v ∈ is[k].uses) :
    v ∈ d ∨ ∃ j, ∃ hj : j < is.length, j < k ∧ is[j].dst = some v := by
  induction is generalizing d k
  case nil => simp at hk
  case cons i is ih =>
    cases k
    case zero => exact .inl (h.1.1 v hv)
    case succ k =>
      rcases ih h.2 (by simpa using hk) hv with hd | ⟨j, hj, hlt, hd⟩
      · rcases mem_define.mp hd with hd | hd
        · exact .inr ⟨0, by simp, by simp, hd⟩
        · exact .inl hd
      · exact .inr ⟨j + 1, by simpa using hj, by simpa using hlt, hd⟩

structure DefTable.Records (table : DefTable) (v : ValueId) (idx : Nat) : Prop where
  defs : table.defs v = some idx
  lt : v < table.maxValueId

namespace TraceIr

-- Value ids are 32 bits wide, and one of them is not available.
def maxValueId : Nat := 2 ^ 32 - 1

theorem lt_maxValueId_iff : n < maxValueId ↔ ¬2 ^ 32 ≤ n + 1 := by
  unfold maxValueId
  omega

def IdsFit (is : List Instr) : Prop :=
  ∀ i ∈ is, ∀ v, i.dst = some v → v < maxValueId

theorem idsFit_of_collectDefs (h : collectDefs idx is table = .ok table') : IdsFit is := by
  induction is generalizing idx table
  case nil => simp [IdsFit]
  case cons i is ih =>
    rw [collectDefs] at h
    cases hd : i.dst
    case none =>
      rw [hd] at h
      exact forall_mem_cons.mpr ⟨by simp [hd], ih h⟩
    case some v =>
      rw [hd] at h
      cases ht : table.defs v
      case some => simp [ht] at h
      case none =>
        simp only [ht] at h
        split at h
        case isTrue => cases h
        case isFalse hv =>
          refine forall_mem_cons.mpr ⟨fun w hw => ?_, ih h⟩
          cases hd.symm.trans hw
          exact lt_maxValueId_iff.mpr hv

theorem collectDefs_ok (hs : InScope d is) (hf : IdsFit is) (idx : Nat) {table : DefTable}
    (hd : ∀ v, v ∉ d → table.defs v = none) :
    ∃ table', collectDefs idx is table = .ok table' ∧
      (∀ v ∈ d, ∀ k, table.Records v k → table'.Records v k) ∧
      ∀ k, ∀ hk : k < is.length, ∀ v, is[k].dst = some v → table'.Records v (idx + k) := by
  induction is generalizing d idx table
  case nil => exact ⟨table, rfl, fun _ _ _ h => h, by simp⟩
  case cons i is ih =>
    have ⟨hfi, hf⟩ := forall_mem_cons.mp hf
    cases hi : i.dst
    case none =>
      have hs' := hs.2
      rw [define_of_none hi] at hs'
      obtain ⟨table', ht, hold, hnew⟩ := ih hs' hf (idx + 1) hd
      refine ⟨table', by rw [collectDefs, hi]; exact ht, hold, fun k hk v hv => ?_⟩
      cases k
      case zero => simp [hi] at hv
      case succ k =>
        have := hnew k (by simpa using hk) v hv
        rwa [Nat.add_right_comm, Nat.add_assoc] at this
    case some w =>
      have hw := hs.1.2 w hi
      have hfit := lt_maxValueId_iff.mp (hfi w hi)
      have hs' := hs.2
      rw [define_of_some hi] at hs'
      have hd' : ∀ v, v ∉ insert w d → Function.update table.defs w (some idx) v = none := by
        intro v hv
        simp only [Finset.mem_insert, not_or] at hv
        simp [hv.1, hd v hv.2]
      let next : DefTable := ⟨Function.update table.defs w (some idx), max table.maxValueId (w + 1)⟩
      obtain ⟨table', ht, hold, hnew⟩ := @ih _ hs' hf (idx + 1) next hd'
      refine ⟨table', ?_, fun v hv k hr => hold v (by simp [hv]) k ⟨?_, ?_⟩, fun k hk v hv => ?_⟩
      · rw [collectDefs, hi]
        simp only [hd w hw, hfit]
        exact ht
      · have : v ≠ w := fun h => hw (h ▸ hv)
        simpa [next, this] using hr.defs
      · exact lt_of_lt_of_le hr.lt (le_max_left _ _)
      · cases k
        case zero =>
          cases hi.symm.trans hv
          exact hold w (by simp) idx ⟨by simp [next], by simp [next]⟩
        case succ k =>
          have := hnew k (by simpa using hk) v hv
          rwa [Nat.add_right_comm, Nat.add_assoc] at this

theorem validateUses_ok
    (h : ∀ k, ∀ hk : k < is.length, ∀ v ∈ is[k].uses, ∃ j < idx + k, table.Records v j) :
    validateUses table idx is = .ok () := by
  induction is generalizing idx
  case nil => rfl
  case cons i is ih =>
    rw [validateUses, bind_unit_eq_ok_iff]
    constructor
    · refine forM_eq_ok fun v hv => ?_
      obtain ⟨j, hj, hr⟩ := h 0 (by simp) v hv
      unfold validateUse
      rw [if_neg (Nat.not_le.mpr hr.lt), hr.defs]
      exact if_neg (by omega)
    · refine ih fun k hk v hv => ?_
      obtain ⟨j, hj, hr⟩ := h (k + 1) (by simpa using hk) v hv
      exact ⟨j, by omega, hr⟩

theorem validateSideExits_ok {t : TraceIr} (h : t.ExitsLast) : t.validateSideExits = .ok () := by
  have hp : ∀ pos, t.prologue.findIdx? isSideExit = some pos → pos + 1 = t.prologue.length ∧
      t.body = [] := fun pos hpos => by
    refine ⟨(findIdx?_isSideExit_last hpos).mpr h.prologue, ?_⟩
    obtain ⟨hlt, hx, -⟩ := findIdx?_eq_some_iff_getElem.mp hpos
    exact h.empty _ (getElem_mem hlt) hx
  have hb : ∀ pos, t.body.findIdx? isSideExit = some pos → pos + 1 = t.body.length :=
    fun pos hpos => (findIdx?_isSideExit_last hpos).mpr h.body
  unfold validateSideExits
  cases hp' : t.prologue.findIdx? isSideExit
  case none =>
    cases hb' : t.body.findIdx? isSideExit
    case none => rfl
    case some pos => simp [hb pos hb', pure, Except.pure]
  case some pos =>
    have ⟨h₁, h₂⟩ := hp pos hp'
    simp [h₁, h₂, pure, Except.pure]

-- For a trace that is verified, what is left is that a loop has a body and that the ids fit.
theorem validate_ok_iff {t : TraceIr} (hx : t.ExitsLast) (hs : t.WellScoped) :
    t.validate = .ok () ↔ (t.kind = .loop → t.body ≠ []) ∧ IdsFit t.instrs := by
  have hs := wellScoped_iff.mp hs
  have hl : ¬(t.kind == .loop && t.body.isEmpty) = true ↔ (t.kind = .loop → t.body ≠ []) := by
    simp
  simp only [validate, bind_unit_eq_ok_iff, ite_throw_bind_eq_ok_iff, hl,
    validateSideExits_ok hx, true_and]
  refine and_congr_right fun _ => ⟨fun h => ?_, fun h => ?_⟩
  · obtain ⟨table, ht, -⟩ := bind_eq_ok_iff.mp h
    exact idsFit_of_collectDefs ht
  · obtain ⟨table, ht, -, hr⟩ := @collectDefs_ok _ _ hs h 0 ⟨fun _ => none, 0⟩ fun _ _ => rfl
    rw [bind_eq_ok_iff]
    refine ⟨table, ht, validateUses_ok fun k hk v hv => ?_⟩
    obtain hv | ⟨j, hj, hlt, hd⟩ := hs.uses_getElem hk hv
    · simp at hv
    · exact ⟨0 + j, by omega, hr j hj v hd⟩

end TraceIr

end Aero.Tier2
