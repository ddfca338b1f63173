import Aero.Lib.Except
import Aero.Lib.Straight
import Aero.Tier2.Verify

namespace Aero.Tier2

open List Instr

def Operand.InScope (d : Finset ValueId) (op : Operand) : Prop :=
  ∀ v, op.asValue = some v → v ∈ d

namespace Operand.InScope

theorem const (k : U64) : InScope d (.const k) :=
  fun _ h => by cases h

theorem value (h : v ∈ d) : InScope d (.value v) :=
  fun _ hv => by cases hv; exact h

theorem mono {op : Operand} (h : op.InScope d) (hd : d ⊆ d') : op.InScope d' :=
  fun v hv => hd (h v hv)

end Operand.InScope

namespace Instr

@[simp]
theorem dst_mapOperands (g : Operand → Operand) (i : Instr) : (i.mapOperands g).dst = i.dst := by
  cases i <;> rfl

@[simp]
theorem operands_mapOperands (g : Operand → Operand) (i : Instr) :
    (i.mapOperands g).operands = i.operands.map g := by
  cases i <;> rfl

@[simp]
theorem mapOperands_id (i : Instr) : i.mapOperands id = i := by
  cases i <;> rfl

def Scoped (d : Finset ValueId) (i : Instr) : Prop :=
  (∀ v ∈ i.uses, v ∈ d) ∧ ∀ v, i.dst = some v → v ∉ d

def define (d : Finset ValueId) (i : Instr) : Finset ValueId :=
  match i.dst with
  | some v => insert v d
  | none   => d

theorem define_of_some {i : Instr} (h : i.dst = some v) (d : Finset ValueId) :
    i.define d = insert v d := by
  simp [define, h]

theorem define_of_none {i : Instr} (h : i.dst = none) (d : Finset ValueId) : i.define d = d := by
  simp [define, h]

theorem define_congr {i j : Instr} (h : i.dst = j.dst) (d : Finset ValueId) :
    i.define d = j.define d := by
  simp [define, h]

theorem mem_define {i : Instr} : v ∈ i.define d ↔ i.dst = some v ∨ v ∈ d := by
  unfold define
  cases h : i.dst
  case none => simp
  case some w => simp [eq_comm]

theorem mem_define_of_mem (i : Instr) (h : v ∈ d) : v ∈ i.define d :=
  mem_define.mpr (.inr h)

theorem subset_define (d : Finset ValueId) (i : Instr) : d ⊆ i.define d :=
  fun _ h => mem_define_of_mem i h

theorem mem_define_dst {i : Instr} (h : i.dst = some v) : v ∈ i.define d :=
  mem_define.mpr (.inl h)

theorem define_subset (h : d ⊆ d') (i : Instr) : i.define d ⊆ i.define d' :=
  fun _ hv => mem_define.mpr ((mem_define.mp hv).imp_right fun hv => h hv)

theorem Scoped.operand {i : Instr} (h : i.Scoped d) (ho : op ∈ i.operands) : op.InScope d :=
  fun v hv => h.1 v (mem_filterMap.mpr ⟨op, ho, hv⟩)

theorem Scoped.binOp (h : (binOp v op lhs rhs flags).Scoped d) :
    lhs.InScope d ∧ rhs.InScope d :=
  ⟨h.operand (by simp [operands]), h.operand (by simp [operands])⟩

theorem Scoped.addr (h : (addr v base index scale disp).Scoped d) :
    base.InScope d ∧ index.InScope d :=
  ⟨h.operand (by simp [operands]), h.operand (by simp [operands])⟩

theorem uses_mem_of_operands {i : Instr} (h : ∀ op ∈ i.operands, op.InScope d) :
    ∀ v ∈ i.uses, v ∈ d := by
  intro v hv
  have ⟨op, ho, hv⟩ := mem_filterMap.mp hv
  exact h op ho v hv

end Instr

abbrev scopeAfter (d : Finset ValueId) (is : List Instr) : Finset ValueId :=
  is.foldl Instr.define d

theorem mem_scopeAfter : v ∈ scopeAfter d is ↔ v ∈ d ∨ ∃ i ∈ is, i.dst = some v := by
  induction is generalizing d
  case nil => simp [scopeAfter]
  case cons i is ih =>
    simp only [foldl_cons] at ih ⊢
    rw [ih, mem_define, exists_mem_cons_iff]
    tauto

theorem subset_scopeAfter (d : Finset ValueId) (is : List Instr) : d ⊆ scopeAfter d is :=
  fun _ h => mem_scopeAfter.mpr (.inl h)

abbrev InScope (d : Finset ValueId) (is : List Instr) : Prop :=
  Straight.InScope Instr.Scoped Instr.define d is

namespace InScope

theorem dst_not_mem (h : InScope d is) (hi : i ∈ is) (hv : i.dst = some v) : v ∉ d := by
  induction is generalizing d
  case nil => simp at hi
  case cons j is ih =>
    cases hi
    case head => exact h.1.2 v hv
    case tail hi => exact fun hd => ih h.2 hi (mem_define_of_mem j hd)

theorem dst_ne_of_cons (h : InScope d (i :: is)) (hj : j ∈ is) (hi : i.dst = some v) :
    j.dst ≠ some v :=
  fun hv => dst_not_mem h.2 hj hv (mem_define.mpr (.inl hi))

theorem uses_mem (h : InScope d is) (hi : i ∈ is) (hv : v ∈ i.uses) : v ∈ scopeAfter d is := by
  induction is generalizing d
  case nil => simp at hi
  case cons j is ih =>
    cases hi
    case head => exact subset_scopeAfter d _ (h.1.1 v hv)
    case tail hi => exact ih h.2 hi

end InScope

structure TraceIr.WellScoped (t : TraceIr) : Prop where
  prologue : InScope ∅ t.prologue
  body : InScope (scopeAfter ∅ t.prologue) t.body

theorem TraceIr.wellScoped_iff {t : TraceIr} : t.WellScoped ↔ InScope ∅ t.instrs := by
  rw [instrs, InScope, Straight.inScope_append]
  exact ⟨fun h => ⟨h.prologue, h.body⟩, fun h => ⟨h.1, h.2⟩⟩

def ExitLast (is : List Instr) : Prop :=
  ∀ i ∈ is.dropLast, i.isSideExit = false

structure TraceIr.ExitsLast (t : TraceIr) : Prop where
  prologue : ExitLast t.prologue
  body : ExitLast t.body
  empty : ∀ i ∈ t.prologue, i.isSideExit = true → t.body = []

section Verify

theorem findIdx?_isSideExit_last (h : is.findIdx? isSideExit = some pos) :
    pos + 1 = is.length ↔ ExitLast is := by
  obtain ⟨hlt, hp, hn⟩ := findIdx?_eq_some_iff_getElem.mp h
  constructor
  · intro hl i hi
    obtain ⟨j, hj, rfl⟩ := mem_iff_getElem.mp hi
    rw [length_dropLast] at hj
    rw [getElem_dropLast]
    exact Bool.not_eq_true _ ▸ hn j (by omega)
  · intro hx
    by_contra hl
    have hj : pos < is.dropLast.length := by rw [length_dropLast]; omega
    have := hx is.dropLast[pos] (getElem_mem hj)
    simp [hp] at this

theorem exitLast_of_findIdx?_none (h : is.findIdx? isSideExit = none) : ExitLast is :=
  fun i hi => findIdx?_eq_none_iff.mp h i (dropLast_subset _ hi)

theorem verifyNoInstrsAfterSideExit_ok_iff (seg : Segment) :
    verifyNoInstrsAfterSideExit seg is = .ok () ↔ ExitLast is := by
  unfold verifyNoInstrsAfterSideExit
  split
  case h_1 pos h =>
    rw [← findIdx?_isSideExit_last h]
    by_cases hp : pos + 1 = is.length <;> simp [hp]
  case h_2 h => exact ⟨fun _ => exitLast_of_findIdx?_none h, fun _ => rfl⟩

-- The definition sites are recorded for exactly the values defined so far.
def Defs.Consistent (defs : Defs) : Prop :=
  ∀ v, v ∈ defs.definedSoFar ↔ (defs.defSites v).isSome

theorem undefinedOperand_none_iff : undefinedOperand i d = none ↔ ∀ v ∈ i.uses, v ∈ d := by
  simp [undefinedOperand]

theorem verifyInstr_ok_iff (site : Site) (hc : defs.Consistent) :
    (∃ defs', verifyInstr site defs = .ok defs') ↔ site.inst.Scoped defs.definedSoFar := by
  unfold verifyInstr Instr.Scoped
  cases hu : undefinedOperand site.inst defs.definedSoFar
  case some v =>
    have : ¬∀ v ∈ site.inst.uses, v ∈ defs.definedSoFar := by
      rw [← undefinedOperand_none_iff, hu]; simp
    simp [this]
  case none =>
    have hu := undefinedOperand_none_iff.mp hu
    cases hd : site.inst.dst
    case none => simpa using hu
    case some dst =>
      have := hc dst
      cases hs : defs.defSites dst <;> simp_all

theorem verifyInstr_defs (hc : defs.Consistent) (h : verifyInstr site defs = .ok defs') :
    defs'.Consistent ∧ defs'.definedSoFar = site.inst.define defs.definedSoFar := by
  unfold verifyInstr at h
  unfold define
  cases hu : undefinedOperand site.inst defs.definedSoFar
  case some v => simp [hu] at h
  case none =>
    cases hd : site.inst.dst
    case none =>
      simp only [hu, hd] at h
      cases h
      exact ⟨hc, rfl⟩
    case some dst =>
      cases hs : defs.defSites dst
      case some prev => simp [hu, hd, hs] at h
      case none =>
        simp only [hu, hd, hs] at h
        cases h
        refine ⟨fun v => ?_, rfl⟩
        by_cases hv : v = dst
        case pos => simp [hv]
        case neg => simpa [hv] using hc v

theorem verifyInstrs_ok_iff (seg : Segment) (idx : Nat) (hc : defs.Consistent) :
    (∃ defs', verifyInstrs seg idx is defs = .ok defs') ↔ InScope defs.definedSoFar is := by
  induction is generalizing idx defs
  case nil => simp [verifyInstrs]
  case cons i is ih =>
    rw [InScope, Straight.inScope_cons, ← verifyInstr_ok_iff ⟨seg, idx, i⟩ hc]
    cases h : verifyInstr ⟨seg, idx, i⟩ defs
    case error e => simp [verifyInstrs, h, bind, Except.bind]
    case ok defs' =>
      have ⟨hc', hd⟩ := verifyInstr_defs hc h
      simp only [verifyInstrs, h, bind, Except.bind]
      rw [ih _ hc', hd]
      simp

theorem verifyInstrs_defs (hc : defs.Consistent) (h : verifyInstrs seg idx is defs = .ok defs') :
    defs'.Consistent ∧ defs'.definedSoFar = scopeAfter defs.definedSoFar is := by
  induction is generalizing idx defs
  case nil => cases h; exact ⟨hc, rfl⟩
  case cons i is ih =>
    cases hi : verifyInstr ⟨seg, idx, i⟩ defs
    case error e => simp [verifyInstrs, hi, bind, Except.bind] at h
    case ok defs₁ =>
      have ⟨hc₁, hd₁⟩ := verifyInstr_defs hc hi
      simp only [verifyInstrs, hi, bind] at h
      have ⟨hc', hd'⟩ := ih hc₁ h
      exact ⟨hc', by rw [hd', hd₁]; rfl⟩

theorem verifyTrace_ok_iff : verifyTrace t = .ok () ↔ t.ExitsLast ∧ t.WellScoped := by
  have hc : Defs.Consistent { definedSoFar := ∅, defSites := fun _ => none } := by
    simp [Defs.Consistent]
  have hb : ¬(t.prologue.any isSideExit && !t.body.isEmpty) = true ↔
      ∀ i ∈ t.prologue, i.isSideExit = true → t.body = [] := by
    simp
  have hs : (∃ defs, verifyInstrs .prologue 0 t.prologue ⟨∅, fun _ => none⟩ = .ok defs ∧
      ∃ defs', verifyInstrs .body 0 t.body defs = .ok defs') ↔ t.WellScoped := by
    constructor
    · intro ⟨defs, hp, hb⟩
      have ⟨hc', hd⟩ := verifyInstrs_defs hc hp
      exact ⟨verifyInstrs_ok_iff _ _ hc |>.mp ⟨_, hp⟩, hd ▸ verifyInstrs_ok_iff _ _ hc' |>.mp hb⟩
    · intro h
      have ⟨defs, hp⟩ := verifyInstrs_ok_iff .prologue 0 hc |>.mpr h.prologue
      have ⟨hc', hd⟩ := verifyInstrs_defs hc hp
      exact ⟨defs, hp, verifyInstrs_ok_iff _ _ hc' |>.mpr (hd ▸ h.body)⟩
  have hx : t.ExitsLast ↔ ExitLast t.prologue ∧ ExitLast t.body ∧
      ∀ i ∈ t.prologue, i.isSideExit = true → t.body = [] :=
    ⟨fun h => ⟨h.1, h.2, h.3⟩, fun h => ⟨h.1, h.2.1, h.2.2⟩⟩
  rw [hx, ← hs, ← verifyNoInstrsAfterSideExit_ok_iff .prologue,
    ← verifyNoInstrsAfterSideExit_ok_iff .body]
  simp only [verifyTrace, Except.bind_unit_eq_ok_iff, Except.ite_throw_bind_eq_ok_iff]
  simp only [Except.bind_eq_ok_iff]
  simp [pure, Except.pure, and_assoc]

end Verify

end Aero.Tier2
