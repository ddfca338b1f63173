import Aero.Mmu.Theorems.Translate

namespace Aero.Mmu

open PageWalk

variable {mmu : Mmu} {mem : PhysMem} {cowForceRw : Bool}

def tablesDeny (mmu : Mmu) (cowForceRw : Bool) (mem : PhysMem) (ctx : EntryAccessContext) : Bool :=
  match (mmu.tableWalk mmu.cr3 mem ctx.vaddr).2 with
  | .leaf _ r l => (mmu.forcedRights cowForceRw ctx r l).denies mmu.wpEnabled ctx.access ctx.isUser
  | _           => false

-- The TLB and the page tables that the probe and the translation look at decide alike: the
-- tables deny every write that a cached entry denies, and no denied write is forced.
def ProbeExact (mmu : Mmu) (cowForceRw : Bool) (mem : PhysMem) (vaddr : U64) (access : AccessType)
    (cpl : U8) : Prop :=
  match mmu.linear vaddr with
  | .done _ => True
  | .lookup vaddr =>
    let ctx := { vaddr, access, isUser := cpl == 3 }
    match mmu.tlb.lookup vaddr access.isExecute mmu.pcid mmu.pcidEnabled mmu.tlbPageSizes with
    | some (_, entry) =>
      access = .write → mmu.needRewalk entry (cpl == 3) → mmu.tablesDeny cowForceRw mem ctx
    | none => mmu.tablesDeny false mem ctx → mmu.tablesDeny cowForceRw mem ctx

theorem translateMiss_result (mmu : Mmu) (cowForceRw : Bool) (mem : PhysMem)
    (ctx : EntryAccessContext) :
    (mmu.translateMiss cowForceRw mem ctx).1 =
      (mmu.answer cowForceRw ctx (mmu.tableWalk mmu.cr3 mem ctx.vaddr).2).mapError .pageFault := by
  rw [← returned_walk, translateMiss]
  cases (mmu.walk cowForceRw ctx).run mem
  case mk r m => cases r <;> rfl

theorem answer_denied_iff :
    mmu.answer cowForceRw ctx (mmu.tableWalk mmu.cr3 mem ctx.vaddr).2 =
        .error (pageFaultDenied ctx.vaddr ctx.access ctx.isUser) ↔
      mmu.tablesDeny cowForceRw mem ctx := by
  rw [tablesDeny]
  cases (mmu.tableWalk mmu.cr3 mem ctx.vaddr).2
  case absent =>
    simp only [answer, pageFaultNotPresent, pageFaultDenied, Except.error.injEq,
      PageFault.mk.injEq, Bool.false_eq_true]
    cases ctx.access <;> cases ctx.isUser <;> decide
  case invalid =>
    simp only [answer, pageFaultRsvd, pageFaultDenied, Except.error.injEq,
      PageFault.mk.injEq, Bool.false_eq_true]
    cases ctx.access <;> cases ctx.isUser <;> decide
  case leaf a r l =>
    simp only [answer]
    split
    case isTrue h => simp [h]
    case isFalse h => simp [h]

theorem denies_of_forced
    (h : (mmu.forcedRights cowForceRw ctx r l).denies mmu.wpEnabled ctx.access ctx.isUser = true) :
    r.denies mmu.wpEnabled ctx.access ctx.isUser = true := by
  rw [forcedRights] at h
  split at h
  case isFalse => exact h
  case isTrue => cases hw : r.writable <;> simp_all [Rights.denies]

theorem answer_eq_iff :
    mmu.answer false ctx (mmu.tableWalk mmu.cr3 mem ctx.vaddr).2 =
        mmu.answer cowForceRw ctx (mmu.tableWalk mmu.cr3 mem ctx.vaddr).2 ↔
      (mmu.tablesDeny false mem ctx → mmu.tablesDeny cowForceRw mem ctx) := by
  rw [← answer_denied_iff, ← answer_denied_iff]
  constructor
  · intro h hd
    rw [← h, hd]
  · intro h
    cases hout : (mmu.tableWalk mmu.cr3 mem ctx.vaddr).2
    case absent => rfl
    case invalid => rfl
    case leaf a r l =>
      rw [hout] at h
      have hr : mmu.forcedRights false ctx r l = r := if_neg (by simp)
      simp only [answer, hr] at h ⊢
      cases hd : r.denies mmu.wpEnabled ctx.access ctx.isUser
      case true =>
        rw [hd] at h
        exact (h rfl).symm
      case false =>
        have hf : ¬(mmu.forcedRights cowForceRw ctx r l).denies mmu.wpEnabled ctx.access
            ctx.isUser = true := by
          intro hf
          exact absurd (hd.symm.trans (denies_of_forced hf)) Bool.false_ne_true
        rw [if_neg Bool.false_ne_true, if_neg hf]

theorem probeHit_write (h : ctx.access = .write) :
    mmu.probeHit ctx entry =
      if mmu.needRewalk entry ctx.isUser then
        .error (.pageFault (pageFaultDenied ctx.vaddr ctx.access ctx.isUser))
      else
        .ok (entry.translate ctx.vaddr) := by
  rw [probeHit, h]
  cases ctx.isUser <;> rfl

theorem mapError_pageFault_eq_iff {x y : Except PageFault U64} :
    x.mapError TranslateFault.pageFault = y.mapError TranslateFault.pageFault ↔ x = y := by
  cases x <;> cases y <;> constructor <;> intro h <;> cases h <;> rfl

-- A hit in the TLB is answered alike unless the translation walks the tables again.
theorem probeHit_eq_iff :
    mmu.probeHit ctx entry = (mmu.translateHit cowForceRw mem ctx slot entry).1 ↔
      (ctx.access = .write → mmu.needRewalk entry ctx.isUser → mmu.tablesDeny cowForceRw mem ctx) := by
  cases ha : ctx.access
  case read =>
    simp only [probeHit, translateHit, ha, reduceCtorEq, false_implies, iff_true]
    split <;> rfl
  case execute =>
    simp only [probeHit, translateHit, ha, reduceCtorEq, false_implies, iff_true]
    split
    case isTrue => rfl
    case isFalse => split <;> rfl
  case write =>
    rw [probeHit_write ha, translateHit]
    simp only [ha, true_implies]
    cases mmu.needRewalk entry ctx.isUser
    case true =>
      simp only [if_true, true_implies]
      rw [translateMiss_result, ← answer_denied_iff, eq_comm, ← mapError_pageFault_eq_iff, ha]
      exact Iff.rfl
    case false =>
      simp only [Bool.false_eq_true, if_false, false_implies, iff_true]
      split <;> rfl

theorem translateProbe_exact_iff (mmu : Mmu) (cowForceRw : Bool) (mem : PhysMem) (vaddr : U64)
    (access : AccessType) (cpl : U8) :
    (mmu.translateProbe mem vaddr access cpl).2 = (mmu, mem) ∧
      ((mmu.translateProbe mem vaddr access cpl).1 =
          (mmu.translate cowForceRw mem vaddr access cpl).1 ↔
        mmu.ProbeExact cowForceRw mem vaddr access cpl) := by
  rw [translateProbe, translate, ProbeExact]
  cases mmu.linear vaddr
  case done r => exact ⟨rfl, Iff.intro (fun _ => trivial) (fun _ => rfl)⟩
  case lookup v =>
    simp only
    cases mmu.tlb.lookup v access.isExecute mmu.pcid mmu.pcidEnabled mmu.tlbPageSizes
    case some hit => exact ⟨rfl, probeHit_eq_iff⟩
    case none =>
      simp only [run_walkProbe, translateMiss_result, mapError_pageFault_eq_iff, true_and]
      exact answer_eq_iff

-- A read caches a read-only page, and then the guest makes the page writable.
section Stale

def staleTables (pte : U64) : PhysMem :=
  let zero : PhysMem := fun _ => 0
  (zero.write 4 0x1000 (0x2007 : U32)).write 4 0x2000 (pte.setWidth 32)

def staleMmu : Mmu :=
  let mmu := (Mmu.new.setCr3 0x1000).setCr0 (cr0Pg ||| cr0Wp)
  (mmu.translate false (staleTables 0x3005) 0 .read 3).2.1

theorem translateProbe_stale_entry :
    (staleMmu.translateProbe (staleTables 0x3007) 0 .write 3).1 = .error (.pageFault ⟨0, 7⟩) ∧
      (staleMmu.translate false (staleTables 0x3007) 0 .write 3).1 = .ok 0x3000 :=
  ⟨by decide +kernel, by decide +kernel⟩

end Stale

end Aero.Mmu
