import Aero.Mmu.Theorems.Tables

namespace Aero.Mmu

open WalkM PageWalk
open Bool (and_eq_true eq_false_iff)

variable {mmu : Mmu} {ctx : EntryAccessContext} {mem : PhysMem} {a e frame : U64}
variable {size : PageSize} {r : Rights} {cowForceRw : Bool}

def cachedEntry (mmu : Mmu) (ctx : EntryAccessContext) (a : U64) (r : Rights) (l : Leaf)
    (mem : PhysMem) : TlbEntry :=
  .new (l.size.base ctx.vaddr) l.frame l.size mmu.pcid {
    __ := r
    global := mmu.cr4PgeOn && mmu.entries.read mem a &&& pteG != 0
    leafAddr := a
    leafIs64 := mmu.is64
    dirty := mmu.entries.read mem a &&& pteD != 0
  }

def finish (mmu : Mmu) (ctx : EntryAccessContext) :
    TableOutcome × PhysMem → Except PageFault (TlbEntry × U64) × PhysMem
  | (.absent, m)  => (.error (pageFaultNotPresent ctx.vaddr ctx.access ctx.isUser), m)
  | (.invalid, m) => (.error (pageFaultRsvd ctx.vaddr ctx.access ctx.isUser), m)
  | (.leaf a r l, m) =>
    if r.denies mmu.wpEnabled ctx.access ctx.isUser then
      (.error (pageFaultDenied ctx.vaddr ctx.access ctx.isUser), m)
    else
      let m := if ctx.access.isWrite then mmu.entries.mark .dirty m a else m
      (.ok (mmu.cachedEntry ctx a r l m, l.frame + (ctx.vaddr - l.size.base ctx.vaddr)), m)

theorem run_checkPerms_denied (h : r.denies mmu.wpEnabled ctx.access ctx.isUser = true) :
    (mmu.checkPerms ctx r).run mem =
      (.error (pageFaultDenied ctx.vaddr ctx.access ctx.isUser), mem) := by
  rw [checkPerms, if_pos h]
  rfl

theorem run_checkPerms_ok (h : r.denies mmu.wpEnabled ctx.access ctx.isUser = false) :
    (mmu.checkPerms ctx r).run mem = (.ok (), mem) := by
  rw [checkPerms, if_neg (eq_false_iff.mp h)]
  rfl

theorem mark_of_or (h : mmu.entries.read mem a ||| f.bit = mmu.entries.read mem a) :
    mmu.entries.mark f mem a = mem := by
  rw [entries] at h ⊢
  cases hb : mmu.is64
  case true => exact mark64_of_and (bit_of_or_eq (by simpa [hb] using h))
  case false => exact mark32_of_and (bit_of_or_eq (by simpa [hb] using h))

theorem run_writeDirty (he : mmu.entries.read mem a = e) :
    (if mmu.is64 then writeU64 a (e ||| pteD) else writeU32 a (e ||| pteD) : WalkM Unit).run mem =
      (.ok (), mmu.entries.mark .dirty mem a) := by
  subst he
  rw [entries]
  cases mmu.is64
  case true => rfl
  case false =>
    simp only [Bool.false_eq_true, if_false]
    rw [← write32_marked]
    rfl

theorem read_mark (f : Mark) (mem : PhysMem) (a : U64) :
    mmu.entries.read (mmu.entries.mark f mem a) a = mmu.entries.read mem a ||| f.bit := by
  rw [entries]
  cases mmu.is64
  case true => exact read_mark64 f mem a
  case false => exact read_mark32 f mem a

theorem read_setDirty (he : mmu.entries.read mem a = e) :
    mmu.entries.read (if ctx.access.isWrite then mmu.entries.mark .dirty mem a else mem) a =
      if ctx.access.isWrite then e ||| pteD else e := by
  cases ctx.access.isWrite
  case true => exact he ▸ read_mark .dirty mem a
  case false => exact he

theorem and_pteG_setDirty (e : U64) (w : Bool) : (if w then e ||| pteD else e) &&& pteG = e &&& pteG := by
  cases w
  case false => rfl
  case true =>
    have h : MarkedBy e (e ||| pteD) := ⟨pteD, by decide, rfl⟩
    exact h.and_eq (by decide)

-- The write of the dirty bit that the code skips would change nothing.
theorem run_setDirty {new : U64} (he : mmu.entries.read mem a = e)
    (hnew : new = if ctx.access.isWrite then e ||| pteD else e) :
    (updateEntry mmu.is64 a e new).run mem =
      (.ok (), if ctx.access.isWrite then mmu.entries.mark .dirty mem a else mem) := by
  subst hnew
  rw [updateEntry]
  cases ctx.access.isWrite
  case false =>
    simp only [Bool.false_eq_true, if_false, ne_eq]
    rfl
  case true =>
    simp only [if_true]
    by_cases hd : e ||| pteD = e
    case pos =>
      rw [if_neg (not_not.mpr hd), mark_of_or (he.symm ▸ hd)]
      rfl
    case neg =>
      rw [if_pos hd]
      exact run_writeDirty he

theorem run_leaf (he : mmu.entries.read mem a = e) :
    (mmu.leaf ctx mmu.is64 a e frame size r).run mem =
      mmu.finish ctx (.leaf a r ⟨size, frame⟩, mem) := by
  rw [leaf, finish]
  cases hd : r.denies mmu.wpEnabled ctx.access ctx.isUser
  case true =>
    rw [run_bind_error (run_checkPerms_denied hd)]
    rfl
  case false =>
    rw [run_bind_ok (run_checkPerms_ok hd), run_bind_ok (run_setDirty he rfl)]
    simp only [cachedEntry]
    rw [read_setDirty he, and_pteG_setDirty]
    rfl

section Ends

variable {δ : Type}

theorem walk_ends (he : Ends ctx P fin)
    (hleaf : ∀ {a e frame size r m}, mmu.entries.read m a = e →
      (mmu.mode = .long4 → size ≠ .size4K) →
      P ((mmu.leaf ctx mmu.is64 a e frame size r).run m) = fin (.leaf a r ⟨size, frame⟩, m))
    (hpage : ∀ {a e above r m}, mmu.mode = .long4 → mmu.entries.read m a = e →
      e &&& pteP != 0 → (r.user → e &&& pteUs != 0) →
      P ((mmu.leafLong4 cowForceRw ctx above a e r).run m) =
        fin (.leaf a r ⟨.size4K, mmu.nextTable e⟩, m)) :
    P ((mmu.walk cowForceRw ctx).run mem) =
      fin ((mmu.tableWalk mmu.cr3 mem ctx.vaddr).2,
        mmu.entries.markAll .accessed mem (mmu.tableWalk mmu.cr3 mem ctx.vaddr).1) := by
  have h64 : mmu.is64 → Ends64 mmu cowForceRw ctx P fin := by
    intro hb
    have hent : mmu.entries = entries64 := if_pos hb
    rw [hent, hb] at hleaf
    rw [hent] at hpage
    exact { toEnds := he, leaf := hleaf, page := hpage }
  have h32 : mmu.is64 = false → P ((mmu.walkLegacy32 ctx).run mem) =
      fin (mmu.entries.walkMark .accessed ctx.vaddr mmu.legacyLevels
        ((mmu.cr3 &&& 0xffff_ffff) &&& ~~~0xfff) .all mem) := by
    intro hb
    have hent : mmu.entries = entries32 := if_neg (eq_false_iff.mp hb)
    have hm : mmu.mode ≠ .long4 := by
      intro hm
      simp [is64, hm] at hb
    rw [hent] at hleaf ⊢
    rw [hb] at hleaf
    exact walkLegacy32_ends he fun he => hleaf he (fun h => absurd h hm)
  rw [← walkMark_levels, walk, levels, root]
  cases hm : mmu.mode
  case disabled => exact h32 (by simp [is64, hm])
  case legacy32 => exact h32 (by simp [is64, hm])
  case pae =>
    have hb : mmu.is64 = true := by simp [is64, hm]
    rw [entries, if_pos hb]
    exact walkPae_ends (h64 hb) hm
  case long4 =>
    have hb : mmu.is64 = true := by simp [is64, hm]
    rw [entries, if_pos hb]
    exact walkLong4_ends (h64 hb) hm

end Ends

theorem run_walk (mmu : Mmu) (ctx : EntryAccessContext) (mem : PhysMem) :
    (mmu.walk false ctx).run mem =
      mmu.finish ctx ((mmu.tableWalk mmu.cr3 mem ctx.vaddr).2,
        mmu.entries.markAll .accessed mem (mmu.tableWalk mmu.cr3 mem ctx.vaddr).1) := by
  have he : Ends ctx id (mmu.finish ctx) := { absent := fun _ => rfl, invalid := fun _ => rfl }
  apply walk_ends he
  case hleaf =>
    intro _ _ _ _ _ _ he _
    exact run_leaf he
  case hpage =>
    intro _ _ _ _ _ hm he _ _
    have hb : mmu.is64 = true := by simp [is64, hm]
    rw [leafLong4, Bool.and_false, if_neg Bool.false_ne_true, ← hb]
    exact run_leaf he

def returned (x : Except PageFault (TlbEntry × U64) × PhysMem) : Except PageFault U64 :=
  x.1.map Prod.snd

theorem returned_leaf (b : Bool) :
    returned ((mmu.leaf ctx b a e frame size r).run mem) =
      if r.denies mmu.wpEnabled ctx.access ctx.isUser then
        .error (pageFaultDenied ctx.vaddr ctx.access ctx.isUser)
      else
        .ok (frame + (ctx.vaddr - size.base ctx.vaddr)) := by
  rw [leaf]
  cases hd : r.denies mmu.wpEnabled ctx.access ctx.isUser
  case true =>
    rw [run_bind_error (run_checkPerms_denied hd)]
    rfl
  case false =>
    have hu : ∀ new, ∃ m, (updateEntry b a e new).run mem = (.ok (), m) := by
      intro new
      rw [updateEntry]
      split
      case isTrue => cases b <;> exact ⟨_, rfl⟩
      case isFalse => exact ⟨_, rfl⟩
    have ⟨m, hu⟩ := hu (if ctx.access.isWrite then e ||| pteD else e)
    rw [run_bind_ok (run_checkPerms_ok hd), run_bind_ok hu]
    rfl

theorem run_forceRw (addr entry : U64) (mem : PhysMem) :
    ∃ m, (forceRw addr entry).run mem =
      (.ok (if entry &&& pteRw == 0 then entry ||| pteRw else entry), m) := by
  rw [forceRw]
  cases entry &&& pteRw == 0
  case true => exact ⟨_, rfl⟩
  case false => exact ⟨_, rfl⟩

theorem run_forceAllRw (above : List (U64 × U64)) (mem : PhysMem) :
    ∃ m, (forceAllRw above).run mem = (.ok (), m) := by
  induction above generalizing mem
  case nil => exact ⟨mem, rfl⟩
  case cons e above ih =>
    have ⟨m₁, h₁⟩ := run_forceRw e.1 e.2 mem
    have ⟨m₂, h₂⟩ := ih m₁
    exact ⟨m₂, by rw [forceAllRw, run_bind_ok h₁, h₂]⟩

theorem nextTable_or_rw (e : U64) : mmu.nextTable (e ||| pteRw) = mmu.nextTable e := by
  have h : pteRw &&& ~~~0xfff = 0 := by decide
  rw [nextTable, nextTable, BitVec.and_assoc, BitVec.and_assoc, BitVec.and_or_distrib_right,
    BitVec.and_comm mmu.physAddrMask, ← BitVec.and_assoc pteRw]
  exact (congrArg _ BitVec.zero_and).trans BitVec.or_zero

-- With `AERO_COW_FORCE_RW` the last entry of the long mode does not deny a write of user code.
theorem returned_leafLong4 (hm : mmu.mode = .long4) (hp : e &&& pteP != 0)
    (hu : r.user → e &&& pteUs != 0) :
    returned ((mmu.leafLong4 cowForceRw ctx above a e r).run mem) =
      mmu.answer cowForceRw ctx (.leaf a r ⟨.size4K, mmu.nextTable e⟩) := by
  rw [leafLong4]
  split
  case isTrue h =>
    simp only [and_eq_true] at h
    obtain ⟨⟨⟨⟨⟨hw, hi⟩, _⟩, _⟩, _⟩, hc⟩ := h
    have ⟨m₁, h₁⟩ := run_forceRw a e mem
    have ⟨m₂, h₂⟩ := run_forceAllRw above m₁
    have hf : mmu.nextTable (if e &&& pteRw == 0 then e ||| pteRw else e) = mmu.nextTable e := by
      split
      case isTrue => exact nextTable_or_rw e
      case isFalse => rfl
    have hr : mmu.forcedRights cowForceRw ctx r ⟨.size4K, mmu.nextTable e⟩ =
        { r with writable := true } := if_pos (by simp [hw, hi, hc, hm])
    rw [run_bind_ok h₁, run_bind_ok h₂, returned_leaf, hf, answer, hr]
  case isFalse h =>
    -- an entry that is not forced is writable already or denies user code
    have hr : (mmu.forcedRights cowForceRw ctx r ⟨.size4K, mmu.nextTable e⟩).denies mmu.wpEnabled
        ctx.access ctx.isUser = r.denies mmu.wpEnabled ctx.access ctx.isUser := by
      rw [forcedRights]
      split
      case isFalse => rfl
      case isTrue hf =>
        simp only [and_eq_true] at hf
        obtain ⟨⟨⟨⟨hc, hw⟩, hi⟩, _⟩, _⟩ := hf
        simp only [hw, hi, hp, hc, Bool.and_true, Bool.true_and, and_eq_true, not_and,
          Bool.not_eq_true'] at h
        cases hwr : r.writable
        case true => simp [Rights.denies, hwr]
        case false =>
          have hus : r.user = false := by
            cases hru : r.user
            case false => rfl
            case true => exact absurd (hu hru) (h hwr)
          simp [Rights.denies, hus, hi]
    rw [returned_leaf, answer, hr]

theorem returned_walk (mmu : Mmu) (cowForceRw : Bool) (ctx : EntryAccessContext) (mem : PhysMem) :
    returned ((mmu.walk cowForceRw ctx).run mem) =
      mmu.answer cowForceRw ctx (mmu.tableWalk mmu.cr3 mem ctx.vaddr).2 := by
  have he : Ends ctx returned (fun x => mmu.answer cowForceRw ctx x.1) :=
    { absent := fun _ => rfl, invalid := fun _ => rfl }
  apply walk_ends he
  case hleaf =>
    intro a e frame size r m _ hs
    have hr : mmu.forcedRights cowForceRw ctx r ⟨size, frame⟩ = r := by
      apply if_neg
      by_cases hm : mmu.mode = .long4
      case pos => simp [hs hm]
      case neg => simp [hm]
    rw [returned_leaf, answer, hr]
  case hpage =>
    intro _ _ _ _ _ hm _ hp hu
    exact returned_leafLong4 hm hp hu

-- The probe reads the same entries and writes nothing.
section Probe

variable {ls : List TableLevel}
variable {k : U64 → WalkM U64}

theorem run_entry64Probe_absent (h : mmu.check64 kind (entries64.read mem a) = .absent) :
    (mmu.entry64Probe a ctx kind).run mem =
      (.error (pageFaultNotPresent ctx.vaddr ctx.access ctx.isUser), mem) := by
  rw [entry64Probe, run_bind_ok run_readU64, checkEntry64Probe, if_pos (check64_absent h)]
  rfl

theorem run_entry64Probe_invalid (h : mmu.check64 kind (entries64.read mem a) = .invalid) :
    (mmu.entry64Probe a ctx kind).run mem =
      (.error (pageFaultRsvd ctx.vaddr ctx.access ctx.isUser), mem) := by
  have ⟨hp, hr⟩ := check64_invalid h
  rw [entry64Probe, run_bind_ok run_readU64, checkEntry64Probe,
    if_neg (eq_false_iff.mp hp), if_pos hr]
  rfl

theorem run_entry64Probe_good (h : mmu.check64 kind (entries64.read mem a) = .good) :
    (mmu.entry64Probe a ctx kind).run mem = (.ok (entries64.read mem a), mem) := by
  have ⟨hp, hr⟩ := check64_good h
  rw [entry64Probe, run_bind_ok run_readU64, checkEntry64Probe,
    if_neg (eq_false_iff.mp hp), if_neg (eq_false_iff.mp hr)]
  rfl

theorem run_leafProbe (a : U64) :
    (mmu.leafProbe ctx frame size r).run mem =
      (mmu.answer false ctx (.leaf a r ⟨size, frame⟩), mem) := by
  have hr : mmu.forcedRights false ctx r ⟨size, frame⟩ = r := if_neg (by simp)
  rw [leafProbe, answer, hr]
  cases hd : r.denies mmu.wpEnabled ctx.access ctx.isUser
  case true =>
    rw [run_bind_error (run_checkPerms_denied hd)]
    rfl
  case false =>
    rw [run_bind_ok (run_checkPerms_ok hd)]
    rfl

def restOutcome (read : U64 → U64) (vaddr : U64) (l : TableLevel) (ls : List TableLevel) (a e : U64)
    (r : Rights) : TableOutcome :=
  match l.leaf e with
  | some i => .leaf a (l.gather r e) i
  | none   => (PageWalk.walk read vaddr ls (l.next e) (l.gather r e)).2

theorem walk_cons_good {read : U64 → U64} {l : TableLevel}
    (h : l.check (read (l.slot base vaddr)) = .good) :
    (PageWalk.walk read vaddr (l :: ls) base r).2 =
      restOutcome read vaddr l ls (l.slot base vaddr) (read (l.slot base vaddr)) r := by
  simp only [PageWalk.walk, restOutcome, h]
  cases l.leaf (read (l.slot base vaddr)) <;> rfl

theorem probe_step (hslot : l.slot base ctx.vaddr = a) (hcheck : l.check = mmu.check64 kind)
    (hrest : ∀ e, (k e).run mem =
      (mmu.answer false ctx (restOutcome (entries64.read mem) ctx.vaddr l ls a e r), mem)) :
    (mmu.entry64Probe a ctx kind >>= k).run mem =
      (mmu.answer false ctx
        (PageWalk.walk (entries64.read mem) ctx.vaddr (l :: ls) base r).2, mem) := by
  subst hslot
  cases h : l.check (entries64.read mem (l.slot base ctx.vaddr))
  case absent =>
    rw [run_bind_error (run_entry64Probe_absent (hcheck ▸ h))]
    simp only [PageWalk.walk, h, answer]
  case invalid =>
    rw [run_bind_error (run_entry64Probe_invalid (hcheck ▸ h))]
    simp only [PageWalk.walk, h, answer]
  case good => rw [run_bind_ok (run_entry64Probe_good (hcheck ▸ h)), hrest, walk_cons_good h]

theorem restOutcome_leaf {read : U64 → U64} (h : l.leaf e = some i) :
    restOutcome read vaddr l ls a e r = .leaf a (l.gather r e) i := by
  rw [restOutcome, h]

theorem restOutcome_next {read : U64 → U64} (h : l.leaf e = none) :
    restOutcome read vaddr l ls a e r =
      (PageWalk.walk read vaddr ls (l.next e) (l.gather r e)).2 := by
  rw [restOutcome, h]

theorem probe_page (hslot : entryAddr base ctx.vaddr 12 0x1ff 8 = a) :
    (mmu.entry64Probe a ctx kind >>= fun pte =>
        mmu.leafProbe ctx (mmu.nextTable pte) .size4K (r.restrict mmu.nxEnabled pte)).run mem =
      (mmu.answer false ctx (PageWalk.walk (entries64.read mem) ctx.vaddr
        [mmu.level64 kind 12 mmu.pageLeaf] base r).2, mem) := by
  apply probe_step hslot rfl
  intro pte
  exact run_leafProbe a

theorem probe_directory (hslot : entryAddr base ctx.vaddr 21 0x1ff 8 = a) :
    (mmu.entry64Probe a ctx kind >>= fun pde =>
        if pde &&& ptePs != 0 then
          mmu.leafProbe ctx (mmu.largeFrame pde .size2M) .size2M (r.restrict mmu.nxEnabled pde)
        else
          mmu.entry64Probe (entryAddr (mmu.nextTable pde) ctx.vaddr 12 0x1ff 8) ctx kind₂ >>=
            fun pte => mmu.leafProbe ctx (mmu.nextTable pte) .size4K
              ((r.restrict mmu.nxEnabled pde).restrict mmu.nxEnabled pte)).run mem =
      (mmu.answer false ctx (PageWalk.walk (entries64.read mem) ctx.vaddr
        [mmu.level64 kind 21 (mmu.largeLeaf .size2M), mmu.level64 kind₂ 12 mmu.pageLeaf]
        base r).2, mem) := by
  apply probe_step (l := mmu.level64 kind 21 (mmu.largeLeaf .size2M)) hslot rfl
  intro pde
  cases hps : (pde &&& ptePs != 0)
  case true =>
    rw [restOutcome_leaf (if_pos hps)]
    exact run_leafProbe a
  case false =>
    rw [restOutcome_next (if_neg (eq_false_iff.mp hps))]
    exact probe_page rfl

theorem run_walkLong4Probe (mmu : Mmu) (ctx : EntryAccessContext) (mem : PhysMem) :
    (mmu.walkLong4Probe ctx).run mem =
      (mmu.answer false ctx (PageWalk.walk (entries64.read mem) ctx.vaddr mmu.longLevels
        ((mmu.cr3 &&& mmu.physAddrMask) &&& ~~~0xfff) .all).2, mem) := by
  apply probe_step (l := mmu.level64 .pml4e 39 (fun _ => none)) rfl rfl
  intro pml4e
  apply probe_step (l := mmu.level64 .pdpteLong 30 (mmu.largeLeaf .size1G)) rfl rfl
  intro pdpte
  cases hps : (pdpte &&& ptePs != 0)
  case true =>
    rw [restOutcome_leaf (if_pos hps)]
    exact run_leafProbe _
  case false =>
    rw [restOutcome_next (if_neg (eq_false_iff.mp hps))]
    exact probe_directory rfl

theorem run_walkPaeProbe (mmu : Mmu) (ctx : EntryAccessContext) (mem : PhysMem) :
    (mmu.walkPaeProbe ctx).run mem =
      (mmu.answer false ctx (PageWalk.walk (entries64.read mem) ctx.vaddr mmu.paeLevels
        ((mmu.cr3 &&& 0xffff_ffff) &&& ~~~0x1f) .all).2, mem) := by
  apply probe_step (l := mmu.pdpteLevelPae) rfl rfl
  intro pdpte
  exact probe_directory rfl

theorem probe_page32 (hslot : entryAddr base ctx.vaddr 12 0x3ff 4 = a) :
    (readU32 a >>= fun pteRaw => checkEntry32Probe pteRaw >>= fun pte? =>
        present ctx pte? >>= fun pte =>
        mmu.leafProbe ctx (pte &&& 0xffff_f000) .size4K (r.restrict false pte)).run mem =
      (mmu.answer false ctx (PageWalk.walk (entries32.read mem) ctx.vaddr [pteLevel32] base r).2,
        mem) := by
  have hs : pteLevel32.slot base ctx.vaddr = a := hslot
  rw [run_bind_ok run_readU32]
  cases hp : (entries32.read mem a &&& pteP == 0)
  case true =>
    have hc : pteLevel32.check (entries32.read mem a) = .absent := if_pos hp
    have hn : (checkEntry32Probe (entries32.read mem a)).run mem = (.ok none, mem) := by
      rw [checkEntry32Probe, if_pos hp]
      rfl
    rw [run_bind_ok hn]
    simp only [PageWalk.walk, hs, hc]
    rfl
  case false =>
    have hc : pteLevel32.check (entries32.read mem a) = .good := if_neg (eq_false_iff.mp hp)
    have hn : (checkEntry32Probe (entries32.read mem a)).run mem =
        (.ok (some (entries32.read mem a)), mem) := by
      rw [checkEntry32Probe, if_neg (eq_false_iff.mp hp)]
      rfl
    rw [run_bind_ok hn, walk_cons_good (hs.symm ▸ hc), hs]
    exact run_leafProbe a

theorem run_walkLegacy32Probe (mmu : Mmu) (ctx : EntryAccessContext) (mem : PhysMem) :
    (mmu.walkLegacy32Probe ctx).run mem =
      (mmu.answer false ctx (PageWalk.walk (entries32.read mem) ctx.vaddr mmu.legacyLevels
        ((mmu.cr3 &&& 0xffff_ffff) &&& ~~~0xfff) .all).2, mem) := by
  rw [walkLegacy32Probe, run_bind_ok run_readU32, legacyLevels]
  obtain ⟨a, ha⟩ : ∃ a, entryAddr ((mmu.cr3 &&& 0xffff_ffff) &&& ~~~0xfff) ctx.vaddr 22 0x3ff 4 = a :=
    ⟨_, rfl⟩
  have hs : mmu.pdeLevel32.slot ((mmu.cr3 &&& 0xffff_ffff) &&& ~~~0xfff) ctx.vaddr = a := ha
  rw [ha]
  rcases checkPde32_cases mmu ctx mem (entries32.read mem a) with ⟨hc, hr⟩ | ⟨hc, hr⟩ | ⟨hc, _, hr⟩
  · rw [run_bind_error hr]
    simp only [PageWalk.walk, hs, hc, answer]
  · rw [run_bind_error hr]
    simp only [PageWalk.walk, hs, hc, answer]
  · rw [run_bind_ok hr, walk_cons_good (hs.symm ▸ hc), hs]
    cases hps : (entries32.read mem a &&& ptePs != 0)
    case true =>
      rw [restOutcome_leaf (if_pos hps)]
      exact run_leafProbe a
    case false =>
      rw [restOutcome_next (if_neg (eq_false_iff.mp hps))]
      exact probe_page32 rfl

theorem run_walkProbe (mmu : Mmu) (ctx : EntryAccessContext) (mem : PhysMem) :
    (mmu.walkProbe ctx).run mem =
      (mmu.answer false ctx (mmu.tableWalk mmu.cr3 mem ctx.vaddr).2, mem) := by
  rw [walkProbe, tableWalk, levels, root, entries, is64]
  cases mmu.mode
  case disabled => exact mmu.run_walkLegacy32Probe ctx mem
  case legacy32 => exact mmu.run_walkLegacy32Probe ctx mem
  case pae => exact mmu.run_walkPaeProbe ctx mem
  case long4 => exact mmu.run_walkLong4Probe ctx mem

end Probe

end Aero.Mmu
