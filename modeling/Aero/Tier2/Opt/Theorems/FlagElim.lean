import Aero.Tier2.Opt.Passes.FlagElim
import Aero.Tier2.Theorems.Agrees
import Aero.Tier2.Theorems.Flags

namespace Aero.Tier2

open Tier2.Core Instr FlagSet List

theorem Core.updateFlags_eq (c : Core β) (mask : FlagSet) (v : FlagValues) :
    c.updateFlags mask v = c.applyFlags mask v := by
  unfold updateFlags
  split
  case isTrue h => exact (c.applyFlags_of_isEmpty h v).symm
  case isFalse => rfl

theorem Core.exec_rflags (bus : Tier1Bus β) (c : Core β) (hw : i.flagsWritten.isEmpty = true) :
    (exec bus i c).1.machine.cpu.rflags = c.machine.cpu.rflags := by
  cases i
  case guard | guardCodeVersion => simp only [exec]; split <;> rfl
  case setFlags mask v =>
    have hw : mask.isEmpty = true := hw
    simp [exec, applyFlags_of_isEmpty c hw]
  case binOp =>
    cases eq_empty_of_isEmpty hw
    rfl
  all_goals rfl

namespace FlagElim

variable {β : Type} {c c' : Core β} {i : Instr} {live live' : FlagSet}

theorem foldl_union_has (b : FlagSet) (fs : List Flag) (out : FlagSet) (g : Flag) :
    (fs.foldl (fun out f => if b.contains (flagToSet f) then out.union (flagToSet f) else out)
      out).has g = (out.has g || (decide (g ∈ fs) && b.has g)) := by
  induction fs generalizing out
  case nil => simp
  case cons f fs ih =>
    rw [foldl_cons, ih]
    by_cases hg : g = f
    case pos => cases h : b.has f <;> simp [hg, h]
    case neg => cases h : b.has f <;> simp [hg, h, Ne.symm hg]

theorem intersectFlagset_has (a b : FlagSet) (f : Flag) :
    (intersectFlagset a b).has f = (a.has f && b.has f) := by
  unfold intersectFlagset
  split
  case isTrue h =>
    rw [Bool.or_eq_true, FlagSet.isEmpty_iff, FlagSet.isEmpty_iff] at h
    rcases h with h | h <;> simp [h f]
  case isFalse =>
    rw [foldl_union_has]
    simp

structure SameFlags (live : FlagSet) (r r' : U64) : Prop where
  flags : ∀ f, live.has f = true → r.getLsbD f.rflagsBit = r'.getLsbD f.rflagsBit
  other : ∀ i, i ≠ 1 → (∀ f : Flag, i ≠ f.rflagsBit) → r.getLsbD i = r'.getLsbD i

theorem SameFlags.mono (h : SameFlags live r r') (hl : ∀ f, live'.has f = true → live.has f = true) :
    SameFlags live' r r' :=
  { h with flags := fun f hf => h.flags f (hl f hf) }

-- An update of the flags `defs` may be restricted to those that are live behind it.
theorem SameFlags.applyFlagSet (hn : ∀ f, needed.has f = (defs.has f && live.has f))
    (h : SameFlags (live.without needed) r r') (v : FlagValues) :
    SameFlags live (applyFlagSet r defs v) (applyFlagSet r' needed v) where
  flags f hf := by
    rw [applyFlagSet_getLsbD_flag, applyFlagSet_getLsbD_flag, hn, hf]
    cases hd : defs.has f
    case true => simp
    case false => simpa using h.flags f (by simp [hn, hd, hf])
  other i hi hf := by
    rw [applyFlagSet_getLsbD_other _ _ _ hi hf, applyFlagSet_getLsbD_other _ _ _ hi hf]
    exact h.other i hi hf

def setRflags (c : Core β) (r : U64) (h : r.getLsbD 1 = true) : Core β where
  machine := { c.machine with cpu.rflags := r }
  values := c.values
  reserved := h

def LiveEq (live : FlagSet) (c c' : Core β) : Prop :=
  ∃ r h, c = setRflags c' r h ∧ SameFlags live r c'.machine.cpu.rflags

namespace LiveEq

theorem refl (live : FlagSet) (c : Core β) : LiveEq live c c :=
  ⟨_, c.reserved, rfl, fun _ _ => rfl, fun _ _ _ => rfl⟩

theorem mono (h : LiveEq live c c') (hl : ∀ f, live'.has f = true → live.has f = true) :
    LiveEq live' c c' :=
  have ⟨r, hr, hc, hs⟩ := h
  ⟨r, hr, hc, hs.mono hl⟩

theorem eq (h : LiveEq live c c') (hl : ∀ f, live.has f = true) : c = c' := by
  obtain ⟨r, hr, rfl, hs⟩ := h
  obtain rfl := rflags_ext (fun f => hs.flags f (hl f)) (by rw [hr, c'.reserved]) hs.other
  rfl

end LiveEq

theorem exec_setRflags (hw : i.flagsWritten.isEmpty = true) (hr : r.getLsbD 1 = true)
    (hf : SameFlags i.flagsRead r c.machine.cpu.rflags) :
    exec bus i (setRflags c r hr) =
      (setRflags (exec bus i c).1 r hr, (exec bus i c).2) := by
  have ho : ∀ op, (setRflags c r hr).evalOperand op = c.evalOperand op := fun op => by
    cases op <;> rfl
  cases i
  case loadFlag dst f =>
    have : getFlag r f = getFlag c.machine.cpu.rflags f := by
      rw [getFlag_eq, getFlag_eq]
      exact hf.flags f (by simp [flagsRead])
    simp only [exec, setRflags, this]
    rfl
  case setFlags mask v =>
    have hw : mask.isEmpty = true := hw
    simp only [exec, applyFlags_of_isEmpty _ hw]
  case binOp dst op lhs rhs flags =>
    cases eq_empty_of_isEmpty hw
    rfl
  case guard cond expected exitRip =>
    simp only [exec, ho]
    split <;> rfl
  case guardCodeVersion page expected exitRip =>
    have hp : (setRflags c r hr).machine.pageVersions = c.machine.pageVersions := rfl
    simp only [exec, hp]
    split <;> rfl
  all_goals rfl

theorem exec_dropEmptySetFlags (i : Instr) (c : Core β) :
    exec bus (dropEmptySetFlags i) c = exec bus i c := by
  unfold dropEmptySetFlags
  split
  case h_1 mask v =>
    split
    case isTrue h => simp [exec, applyFlags_of_isEmpty c h]
    case isFalse => rfl
  case h_2 => rfl

theorem restrictFlags_flagsWritten (i : Instr) : restrictFlags i i.flagsWritten = i := by
  cases i <;> rfl

theorem LiveEq.exec_restrictFlags (hw : i.flagsWritten.isEmpty = false)
    (hn : ∀ f, needed.has f = (i.flagsWritten.has f && live.has f))
    (h : LiveEq (live.without needed) c c') :
    Straight.Related (LiveEq live) SameMachine (exec bus i c)
      (exec bus (restrictFlags i needed) c') := by
  obtain ⟨r, hr, rfl, hs⟩ := h
  have ho : ∀ op, (setRflags c' r hr).evalOperand op = c'.evalOperand op := fun op => by
    cases op <;> rfl
  cases i
  case setFlags mask v => exact .running ⟨_, _, rfl, hs.applyFlagSet hn v⟩
  case binOp dst op lhs rhs flags =>
    simp only [exec, updateFlags_eq]
    exact .running ⟨_, _, rfl, hs.applyFlagSet hn _⟩
  all_goals cases hw

variable (bus) in
theorem isExitPoint_of_exit (hw : isExitPoint i = false) (c : Core β) :
    (exec bus i c).2 = none := by
  cases i <;> first | rfl | cases hw

-- An instruction that does not write flags. Where it can exit, all flags are live.
theorem LiveEq.exec (hw : i.flagsWritten.isEmpty = true)
    (hx : isExitPoint i = true → ∀ f, live.has f = true)
    (h : LiveEq (live.union i.flagsRead) c c') :
    Straight.Related (LiveEq live) SameMachine (exec bus i c) (exec bus i c') := by
  have hl : LiveEq live c c' := h.mono fun f hf => by simp [hf]
  match hi : isExitPoint i with
  | true =>
    have := hl.eq (hx hi)
    subst this
    match exec bus i c with
    | (e, none)   => exact .running (.refl live e)
    | (_, some _) => exact .exited rfl
  | false =>
    obtain ⟨r, hr, rfl, hs⟩ := h
    have hnone := isExitPoint_of_exit bus hi c'
    have hf := exec_rflags bus c' hw
    rw [exec_setRflags hw hr (hs.mono fun f hf => by simp [hf])]
    match he : exec bus i c' with
    | (e, some _) => simp [he] at hnone
    | (e, none)   =>
      rw [he] at hf
      exact .running ⟨r, hr, rfl, hf ▸ hs.mono fun f hf => by simp [hf]⟩

def liveAt (live : FlagSet) (i : Instr) : FlagSet :=
  if isExitPoint i then live.union .alu else live

def neededAt (live : FlagSet) (i : Instr) : FlagSet :=
  intersectFlagset i.flagsWritten (liveAt live i)

theorem neededAt_has (live : FlagSet) (i : Instr) (f : Flag) :
    (neededAt live i).has f = (i.flagsWritten.has f && (liveAt live i).has f) :=
  intersectFlagset_has _ _ _

theorem liveAt_has (h : live.has f = true) (i : Instr) : (liveAt live i).has f = true := by
  unfold liveAt
  split <;> simp [h]

theorem elimInst_eq (live : FlagSet) (i : Instr) :
    (elimInst live i).1 = restrictFlags i (neededAt live i) ∧
    (elimInst live i).2.1 = ((liveAt live i).without (neededAt live i)).union i.flagsRead := by
  cases hw : i.flagsWritten.isEmpty
  case true =>
    have hn : neededAt live i = i.flagsWritten := by
      simp [neededAt, intersectFlagset, eq_empty_of_isEmpty hw]
    have hl : (liveAt live i).without i.flagsWritten = liveAt live i :=
      has_ext fun f => by simp [isEmpty_iff.mp hw f]
    rw [hn, restrictFlags_flagsWritten, hl]
    simp only [elimInst, hw, if_true, true_and]
    rfl
  case false =>
    simp only [elimInst, hw, Bool.false_eq_true]
    refine ⟨?_, rfl⟩
    change (if neededAt live i ≠ i.flagsWritten then restrictFlags i (neededAt live i) else i) = _
    split
    case isTrue => rfl
    case isFalse h => rw [not_not.mp h, restrictFlags_flagsWritten]

variable (bus) in
theorem elimInst_liveEq (h : LiveEq (elimInst live i).2.1 c c') :
    Straight.Related (LiveEq live) SameMachine (exec bus i c)
      (exec bus (dropEmptySetFlags (elimInst live i).1) c') := by
  rw [(elimInst_eq live i).2] at h
  rw [exec_dropEmptySetFlags, (elimInst_eq live i).1]
  have hl : ∀ c c' : Core β, LiveEq (liveAt live i) c c' → LiveEq live c c' := fun _ _ h =>
    h.mono fun f hf => liveAt_has hf i
  cases hw : i.flagsWritten.isEmpty
  case true =>
    have hn : neededAt live i = i.flagsWritten := by
      simp [neededAt, intersectFlagset, eq_empty_of_isEmpty hw]
    rw [hn, restrictFlags_flagsWritten]
    refine (LiveEq.exec hw (fun hi f => ?_) (h.mono fun f hf => ?_)).mono hl fun _ _ h => h
    · simp [liveAt, hi]
    · simpa [hn, isEmpty_iff.mp hw f] using hf
  case false =>
    refine (LiveEq.exec_restrictFlags hw (neededAt_has live i) (h.mono fun f hf => ?_)).mono hl
      fun _ _ h => h
    rw [union_has, hf, Bool.true_or]

def eliminated (liveOut : FlagSet) (is : List Instr) : List Instr :=
  (elimList liveOut is).1.map dropEmptySetFlags

theorem eliminated_cons (liveOut : FlagSet) (i : Instr) (is : List Instr) :
    eliminated liveOut (i :: is) =
      dropEmptySetFlags (elimInst (elimList liveOut is).2.1 i).1 :: eliminated liveOut is := rfl

theorem elimList_liveEq (h : LiveEq (elimList liveOut is).2.1 c c') :
    Straight.Related (LiveEq liveOut) SameMachine (Core.execInstrs bus is c)
      (Core.execInstrs bus (eliminated liveOut is) c') := by
  induction is generalizing c c'
  case nil => exact .running h
  case cons i is ih =>
    have hi := elimInst_liveEq bus h
    rw [← Straight.execList_singleton (exec bus) (dropEmptySetFlags _)] at hi
    exact Straight.execList_cons_related hi fun _ _ => ih

theorem elimInst_same (live : FlagSet) (i : Instr) :
    (dropEmptySetFlags (elimInst live i).1).dst = i.dst ∧
    (dropEmptySetFlags (elimInst live i).1).uses = i.uses := by
  rw [(elimInst_eq live i).1]
  cases i
  case setFlags =>
    simp only [restrictFlags, dropEmptySetFlags]
    split <;> exact ⟨rfl, rfl⟩
  all_goals exact ⟨rfl, rfl⟩

theorem inScope_eliminated (liveOut : FlagSet) (h : InScope d is) :
    InScope d (eliminated liveOut is) ∧ scopeAfter d (eliminated liveOut is) = scopeAfter d is := by
  induction is generalizing d
  case nil => exact ⟨trivial, rfl⟩
  case cons i is ih =>
    have ⟨hd, hu⟩ := elimInst_same (elimList liveOut is).2.1 i
    have hdef := define_congr hd d
    have ⟨hi, he⟩ := ih h.2
    rw [eliminated_cons, InScope, Straight.inScope_cons, scopeAfter, foldl_cons, hdef,
      Scoped, hd, hu]
    exact ⟨⟨h.1, hi⟩, he⟩

section Effects

theorem not_isEmpty_of_has {s : FlagSet} (h : s.has f = true) : s.isEmpty = false := by
  rw [← Bool.not_eq_true, FlagSet.isEmpty_iff]
  intro he
  simp [he f] at h

theorem elimInst_within (live : FlagSet) (i : Instr) :
    i.Within (dropEmptySetFlags (elimInst live i).1) := by
  have he : i.flagsWritten.isEmpty = true → (neededAt live i).isEmpty = true := by
    rw [FlagSet.isEmpty_iff, FlagSet.isEmpty_iff]
    intro h f
    rw [neededAt_has, h f, Bool.false_and]
  rw [(elimInst_eq live i).1]
  cases i
  case setFlags mask v =>
    simp only [restrictFlags, dropEmptySetFlags]
    split
    case isTrue => exact ⟨rfl, by simp [hasSideEffects]⟩
    case isFalse h =>
      refine ⟨rfl, fun _ => ?_⟩
      simp only [hasSideEffects, Bool.not_eq_true']
      exact Bool.eq_false_iff.mpr fun hm => h (he hm)
  case binOp dst op lhs rhs flags =>
    refine ⟨rfl, fun h => ?_⟩
    simp only [restrictFlags, dropEmptySetFlags, hasSideEffects, Bool.not_eq_true'] at h ⊢
    exact Bool.eq_false_iff.mpr fun hm => by simp [he hm] at h
  all_goals exact ⟨rfl, id⟩

theorem eliminated_within : ∀ j ∈ eliminated liveOut is, ∃ i ∈ is, i.Within j := by
  induction is
  case nil => simp [eliminated, elimList]
  case cons i is ih =>
    refine forall_mem_cons.mpr
      ⟨⟨i, mem_cons_self, elimInst_within _ i⟩, fun j hj => ?_⟩
    obtain ⟨i', hi, hw⟩ := ih j hj
    exact ⟨i', mem_cons_of_mem _ hi, hw⟩

theorem elimList_has (hn : ∀ i ∈ is, i.flagsWritten.has f = false) (hl : liveOut.has f = true) :
    (elimList liveOut is).2.1.has f = true := by
  induction is
  case nil => exact hl
  case cons i is ih =>
    have ⟨hi, his⟩ := forall_mem_cons.mp hn
    show (elimInst (elimList liveOut is).2.1 i).2.1.has f = true
    rw [(elimInst_eq _ i).2]
    simp [neededAt_has, hi, liveAt_has (ih his)]

theorem elimInst_has (hi : i.flagsWritten.has f = true) (hl : live.has f = true) :
    (dropEmptySetFlags (elimInst live i).1).flagsWritten.has f = true := by
  have hn : (neededAt live i).has f = true := by simp [neededAt_has, hi, liveAt_has hl]
  rw [(elimInst_eq live i).1]
  cases i
  case setFlags mask v =>
    simp only [restrictFlags, dropEmptySetFlags, not_isEmpty_of_has hn]
    exact hn
  case binOp => exact hn
  all_goals simp [flagsWritten] at hi

-- The last write of a flag that is live at the end stays.
theorem eliminated_has (hi : ∃ i ∈ is, i.flagsWritten.has f = true) (hl : liveOut.has f = true) :
    ∃ j ∈ eliminated liveOut is, j.flagsWritten.has f = true := by
  induction is
  case nil => simp at hi
  case cons i is ih =>
    by_cases hlater : ∃ i ∈ is, i.flagsWritten.has f = true
    case pos =>
      obtain ⟨j, hj, hf⟩ := ih hlater
      exact ⟨j, mem_cons_of_mem _ hj, hf⟩
    case neg =>
      have hi := ((exists_mem_cons_iff ..).mp hi).resolve_right hlater
      simp only [not_exists, not_and, Bool.not_eq_true] at hlater
      exact ⟨_, mem_cons_self, elimInst_has hi (elimList_has hlater hl)⟩

theorem mem_eliminated (hi : i ∈ is) (hw : i.flagsWritten.isEmpty = true) (ha : i.anchors = true) :
    i ∈ eliminated liveOut is := by
  induction is
  case nil => simp at hi
  case cons j is ih =>
    rw [eliminated_cons]
    rcases mem_cons.mp hi with rfl | hi
    · have hn : neededAt (elimList liveOut is).2.1 i = i.flagsWritten := by
        simp [neededAt, intersectFlagset, eq_empty_of_isEmpty hw]
      have hd : dropEmptySetFlags i = i := by
        cases i
        case setFlags mask v =>
          have : mask.isEmpty = false := by simpa [anchors, hasSideEffects] using ha
          simp [dropEmptySetFlags, this]
        all_goals rfl
      rw [(elimInst_eq _ i).1, hn, restrictFlags_flagsWritten, hd]
      exact mem_cons_self
    · exact mem_cons_of_mem _ (ih hi)

theorem anchors_of_has (h : i.flagsWritten.has f = true) : i.anchors = true := by
  cases i
  case setFlags | binOp =>
    simpa [anchors, hasSideEffects, flagsWritten] using not_isEmpty_of_has h
  all_goals simp [flagsWritten] at h

theorem eliminated_anchors (hl : ∀ f, liveOut.has f = true) (hi : i ∈ is)
    (ha : i.anchors = true) : ∃ j ∈ eliminated liveOut is, j.anchors = true := by
  by_cases hw : i.flagsWritten.isEmpty = true
  case pos => exact ⟨i, mem_eliminated hi hw ha, ha⟩
  case neg =>
    rw [FlagSet.isEmpty_iff, not_forall] at hw
    obtain ⟨f, hf⟩ := hw
    obtain ⟨j, hj, hjf⟩ := eliminated_has ⟨i, hi, Bool.not_eq_false _ ▸ hf⟩ (hl f)
    exact ⟨j, hj, anchors_of_has hjf⟩

end Effects

section Run

variable {t : TraceIr}

def updated (t : TraceIr) : TraceIr :=
  { t with
    prologue := eliminated (elimList .alu t.body).2.1 t.prologue
    body := eliminated .alu t.body }

theorem run_cases (t : TraceIr) : (run t).1 = t ∨ (run t).1 = updated t := by
  unfold run
  dsimp only
  split
  case isTrue => exact .inr rfl
  case isFalse => exact .inl rfl

theorem updated_agrees (t : TraceIr) : t.Agrees bus (updated t) := by
  refine .of_related (R := LiveEq (elimList .alu t.body).2.1)
    (fun m hm => elimList_liveEq (.refl _ _)) (fun c c' hc => elimList_liveEq hc) fun c c' hc => ?_
  obtain rfl := hc.eq alu_has
  exact ⟨rfl, fun _ => .refl _ _, rfl⟩

theorem updated_wellScoped (ht : t.WellScoped) : (updated t).WellScoped := by
  have ⟨hp, he⟩ := inScope_eliminated (elimList .alu t.body).2.1 ht.prologue
  exact ⟨hp, he ▸ (inScope_eliminated .alu ht.body).1⟩

theorem run_agrees (t : TraceIr) : t.Agrees bus (run t).1 := by
  rcases run_cases t with h | h
  · rw [h]
    exact .refl t
  · rw [h]
    exact updated_agrees t

theorem run_wellScoped (ht : t.WellScoped) : (run t).1.WellScoped := by
  rcases run_cases t with h | h
  · rwa [h]
  · rw [h]
    exact updated_wellScoped ht

end Run

end FlagElim

end Aero.Tier2
