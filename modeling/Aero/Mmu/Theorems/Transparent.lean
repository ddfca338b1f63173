import Aero.Mmu.Runs
import Aero.Mmu.Theorems.Tlb
import Aero.Mmu.Theorems.Translate

namespace Aero.Mmu

open PageWalk Option Bool AccessType

variable {tables : U64 → Prop} {mmu mmu' : Mmu} {mem mem' : PhysMem} {last last' : Loads}
variable {e : TlbEntry} {ctx : EntryAccessContext} {vaddr cr3 : U64}

section Tables

structure SameTables (mmu mmu' : Mmu) : Prop where
  mode : mmu'.mode = mmu.mode
  pse : mmu'.cr4PseOn = mmu.cr4PseOn
  nx : mmu'.nxEnabled = mmu.nxEnabled
  mask : mmu'.physAddrMask = mmu.physAddrMask

section

variable (h : SameTables mmu mmu')
include h

theorem SameTables.hasReservedBits64 : mmu'.hasReservedBits64 = mmu.hasReservedBits64 := by
  funext e kind
  simp only [Mmu.hasReservedBits64, h.nx, h.mask]

theorem SameTables.is64 : mmu'.is64 = mmu.is64 := by
  rw [Mmu.is64, Mmu.is64, h.mode]

theorem SameTables.entries : mmu'.entries = mmu.entries := by
  rw [Mmu.entries, Mmu.entries, h.is64]

theorem SameTables.entryBytes : mmu'.entryBytes = mmu.entryBytes := by
  rw [Mmu.entryBytes, Mmu.entryBytes, h.is64]

theorem SameTables.root : mmu'.root = mmu.root := by
  funext cr3
  simp only [Mmu.root, h.mode, h.mask]

theorem SameTables.levels : mmu'.levels = mmu.levels := by
  have hnext : mmu'.nextTable = mmu.nextTable := by
    funext e
    simp only [nextTable, h.mask]
  have hframe : mmu'.largeFrame = mmu.largeFrame := by
    funext e size
    simp only [largeFrame, h.mask]
  have hcheck : mmu'.check64 = mmu.check64 := by
    funext kind e
    simp only [check64, h.hasReservedBits64]
  have hlarge : mmu'.largeLeaf = mmu.largeLeaf := by
    funext size e
    simp only [largeLeaf, hframe]
  have hpage : mmu'.pageLeaf = mmu.pageLeaf := by
    funext e
    simp only [pageLeaf, hnext]
  have hlevel : mmu'.level64 = mmu.level64 := by
    funext kind shift lf
    simp only [level64, hcheck, h.nx, hnext]
  have hpdpte : mmu'.pdpteLevelPae = mmu.pdpteLevelPae := by
    simp only [pdpteLevelPae, hcheck, h.nx, hnext]
  have hpde : mmu'.pdeLevel32 = mmu.pdeLevel32 := by
    simp only [pdeLevel32, h.pse]
  simp only [Mmu.levels, h.mode, legacyLevels, paeLevels, longLevels, hlevel, hlarge, hpage, hpdpte,
    hpde]

theorem SameTables.tableWalk : mmu'.tableWalk = mmu.tableWalk := by
  funext cr3 mem vaddr
  simp only [Mmu.tableWalk, h.entries, h.levels, h.root]

end

end Tables

def entryCr3 (mmu : Mmu) (last : Loads) (e : TlbEntry) : Option U64 :=
  if mmu.pcidEnabled then last e.pcid else some mmu.cr3

-- A TLB entry says what its page tables say, and the marks that a walk would set are set.
structure Right (tables : U64 → Prop) (mmu : Mmu) (mem : PhysMem) (last : Loads) (e : TlbEntry) :
    Prop where
  mode : mmu.mode ≠ .pae
  local_ : e.global = false
  leafIs64 : e.leafIs64 = mmu.is64
  walk : ∃ cr3 path, mmu.entryCr3 last e = some cr3 ∧
    mmu.tableWalk cr3 mem e.vbase =
      (path, .leaf e.leafAddr ⟨e.user, e.writable, e.nx⟩ ⟨e.pageSize, e.vbase + e.paddrDelta⟩) ∧
    (∀ a ∈ path, mmu.entries.Has .accessed (mmu.entries.read mem a)) ∧
    (∀ a ∈ path, ∀ i < mmu.entryBytes, tables (a + BitVec.ofNat 64 i))
  dirty : e.dirty → mmu.entries.Has .dirty (mmu.entries.read mem e.leafAddr)

structure Inv (tables : U64 → Prop) (mmu : Mmu) (mem : PhysMem) (last : Loads) : Prop where
  cached : mmu.updateCachedState = mmu
  pge : mmu.cr4PgeOn = false
  loaded : last (pcidField mmu.cr3) = some mmu.cr3
  banks : ∀ isExec, (mmu.tlb.bank isExec).All (Right tables mmu mem last)

section Right

theorem Right.congr (h : Right tables mmu mem last e) (hs : SameTables mmu mmu')
    (hc : mmu'.entryCr3 last' e = mmu.entryCr3 last e) : Right tables mmu' mem last' e where
  mode := hs.mode ▸ h.mode
  local_ := h.local_
  leafIs64 := hs.is64 ▸ h.leafIs64
  walk := by
    rw [hc, hs.tableWalk, hs.entries, hs.entryBytes]
    exact h.walk
  dirty := by
    rw [hs.entries]
    exact h.dirty

theorem Right.marked (h : Right tables mmu mem last e)
    (hm : ∀ a, Aligned mmu.entryBytes a → MarkedBy (mmu.entries.read mem a) (mmu.entries.read mem' a)) :
    Right tables mmu mem' last e := by
  have ⟨cr3, path, hc, hw, ha, ht⟩ := h.walk
  have hlaw := mmu.entries_lawful
  have hvalid : ∀ a ∈ path, Aligned mmu.entryBytes a := by
    intro a ha
    have hp : a ∈ (mmu.tableWalk cr3 mem e.vbase).1 := by rw [hw]; exact ha
    exact valid_of_mem_walk mmu.levels_sound (mmu.root_aligned cr3) hp
  have hw' : mmu.tableWalk cr3 mem' e.vbase = mmu.tableWalk cr3 mem e.vbase :=
    walk_congr (levels_blind h.mode) mmu.levels_sound (mmu.root_aligned cr3) hm
  exact {
    __ := h
    walk := ⟨cr3, path, hc, hw'.trans hw, fun a hp => hlaw.has_mono (hm a (hvalid a hp)) (ha a hp), ht⟩
    dirty := fun hd => hlaw.has_mono
      (hm _ (hvalid _ (mem_path_of_leaf (levels_marks h.mode) hw))) (h.dirty hd)
  }

theorem read_of_tables (h : ∀ i < mmu.entryBytes, tables (a + BitVec.ofNat 64 i))
    (hm : ∀ a, tables a → mem' a = mem a) : mmu.entries.read mem' a = mmu.entries.read mem a := by
  rw [entryBytes] at h
  rw [entries]
  cases hb : mmu.is64
  case true =>
    rw [hb] at h
    have hr : mem'.read 64 8 a = mem.read 64 8 a :=
      ByteMemory.read_congr fun i hi => hm _ (h i hi)
    exact hr
  case false =>
    rw [hb] at h
    have hr : mem'.read 32 4 a = mem.read 32 4 a :=
      ByteMemory.read_congr fun i hi => hm _ (h i hi)
    exact congrArg (BitVec.setWidth 64) hr

theorem Right.stored (h : Right tables mmu mem last e) (hm : ∀ a, tables a → mem' a = mem a) :
    Right tables mmu mem' last e := by
  have ⟨cr3, path, hc, hw, ha, ht⟩ := h.walk
  have hread : ∀ a ∈ path, mmu.entries.read mem' a = mmu.entries.read mem a :=
    fun a hp => read_of_tables (ht a hp) hm
  have hleaf := mem_path_of_leaf (levels_marks h.mode) hw
  have hle : ∀ a ∈ path, MarkedBy (mmu.entries.read mem a) (mmu.entries.read mem' a) :=
    fun a hp => (hread a hp).symm ▸ .refl _
  exact {
    __ := h
    walk := ⟨cr3, path, hc, walk_congr_path (levels_blind h.mode) (levels_marks h.mode) hw hle,
      fun a hp => (hread a hp).symm ▸ ha a hp, ht⟩
    dirty := fun hd => (hread _ hleaf).symm ▸ h.dirty hd
  }

end Right

section Registers

theorem updateCachedState_idem (mmu : Mmu) :
    mmu.updateCachedState.updateCachedState = mmu.updateCachedState :=
  rfl

theorem Inv.mode_eq (h : Inv tables mmu mem last) : mmu.mode = mmu.updateCachedState.mode := by
  rw [h.cached]

theorem Inv.pcidEnabled_eq (h : Inv tables mmu mem last) :
    mmu.pcidEnabled = (mmu.cr4 &&& cr4Pcide != 0) :=
  congrArg pcidEnabled h.cached.symm

theorem all_flushAll (t : Tlb) (Q : TlbEntry → Prop) (isExec : Bool) :
    (t.flushAll.bank isExec).All Q := by
  cases isExec
  case true => exact TlbSet.All.flushAll t.itlb
  case false => exact TlbSet.All.flushAll t.dtlb

theorem all_map {t : Tlb} (h : ∀ isExec, (t.bank isExec).All Q)
    (hf : ∀ s : TlbSet, s.All Q → (f s).All Q') (isExec : Bool) :
    ((t.map f).bank isExec).All Q' := by
  cases isExec
  case true => exact hf _ (h true)
  case false => exact hf _ (h false)

theorem banks_congr (h : ∀ isExec, (mmu.tlb.bank isExec).All (Right tables mmu mem last))
    (htlb : mmu'.tlb = mmu.tlb) (hs : SameTables mmu mmu')
    (hp : mmu'.pcidEnabled = mmu.pcidEnabled) (hc : mmu'.cr3 = mmu.cr3) (isExec : Bool) :
    (mmu'.tlb.bank isExec).All (Right tables mmu' mem last) := by
  rw [htlb]
  apply (h isExec).mono
  intro e _ he
  apply he.congr hs
  rw [entryCr3, entryCr3, hp, hc]

def modeOf (pg pae lme : Bool) : PagingMode :=
  if !pg then .disabled else if !pae then .legacy32 else if lme then .long4 else .pae

theorem mode_updateCachedState (mmu : Mmu) :
    mmu.updateCachedState.mode =
      modeOf (mmu.cr0 &&& cr0Pg != 0) (mmu.cr4 &&& cr4Pae != 0) (mmu.efer &&& eferLme != 0) := by
  simp [updateCachedState, modeOf]

-- A register is written: all is flushed, or the meaning of the tables stays the same.
theorem Inv.setRegister [Decidable changed] (h : Inv tables mmu mem last) (next : Mmu)
    (hcr3 : next.cr3 = mmu.cr3) (htlb : next.tlb = mmu.tlb) (hpge : next.cr4PgeOn = false)
    (hs : ¬changed → SameTables mmu next.updateCachedState ∧
      next.updateCachedState.pcidEnabled = mmu.pcidEnabled) :
    Inv tables (if changed then next.flushAll else next).updateCachedState mem last where
  cached := updateCachedState_idem _
  pge := by split <;> exact hpge
  loaded := by
    have hc : (if changed then next.flushAll else next).updateCachedState.cr3 = mmu.cr3 := by
      split <;> exact hcr3
    rw [hc]
    exact h.loaded
  banks := by
    split
    case isTrue => exact all_flushAll _ _
    case isFalse hn =>
      have ⟨hs, hp⟩ := hs hn
      exact banks_congr h.banks htlb hs hp hcr3

theorem Inv.setCr0 (h : Inv tables mmu mem last) (value : U64) :
    Inv tables (mmu.setCr0 value) mem last := by
  apply h.setRegister { mmu with cr0 := value } rfl rfl h.pge
  intro hpg
  have hpg : (mmu.cr0 &&& cr0Pg != 0) = (value &&& cr0Pg != 0) := by simpa using hpg
  have hmode : ({ mmu with cr0 := value } : Mmu).updateCachedState.mode = mmu.mode := by
    rw [h.mode_eq, mode_updateCachedState, mode_updateCachedState, hpg]
  exact ⟨{ mode := hmode, pse := rfl, nx := rfl, mask := rfl }, h.pcidEnabled_eq.symm⟩

theorem bit_eq_of_mask {x y m k : U64} (h : x &&& m = y &&& m) (hk : m &&& k = k) :
    (x &&& k != 0) = (y &&& k != 0) := by
  rw [← hk, ← BitVec.and_assoc, ← BitVec.and_assoc, h]

theorem Inv.setCr4 (h : Inv tables mmu mem last) (hpge : value &&& cr4Pge = 0) :
    Inv tables (mmu.setCr4 value) mem last := by
  apply h.setRegister { mmu with cr4 := value } rfl rfl (by simp [cr4PgeOn, hpge])
  intro hrel
  have hrel := not_not.mp hrel
  have hpae := bit_eq_of_mask (k := cr4Pae) hrel (by decide)
  have hpse := bit_eq_of_mask (k := cr4Pse) hrel (by decide)
  have hpcide := bit_eq_of_mask (k := cr4Pcide) hrel (by decide)
  have hmode : ({ mmu with cr4 := value } : Mmu).updateCachedState.mode = mmu.mode := by
    rw [h.mode_eq, mode_updateCachedState, mode_updateCachedState, hpae]
  exact ⟨{ mode := hmode, pse := hpse.symm, nx := rfl, mask := rfl },
    hpcide.symm.trans h.pcidEnabled_eq.symm⟩

theorem Inv.setEfer (h : Inv tables mmu mem last) (value : U64) :
    Inv tables (mmu.setEfer value) mem last := by
  apply h.setRegister { mmu with efer := value } rfl rfl h.pge
  intro hrel
  have hrel := not_not.mp hrel
  have hlme := bit_eq_of_mask (k := eferLme) hrel (by decide)
  have hnxe := bit_eq_of_mask (k := eferNxe) hrel (by decide)
  have hmode : ({ mmu with efer := value } : Mmu).updateCachedState.mode = mmu.mode := by
    rw [h.mode_eq, mode_updateCachedState, mode_updateCachedState, hlme]
  exact ⟨{ mode := hmode, pse := rfl, nx := hnxe.symm, mask := rfl }, h.pcidEnabled_eq.symm⟩

theorem Inv.setMaxPhysBits (h : Inv tables mmu mem last) (hs : mmu.setMaxPhysBits bits = some mmu') :
    Inv tables mmu' mem last := by
  rw [Mmu.setMaxPhysBits] at hs
  split at hs
  case isFalse => exact nomatch hs
  case isTrue =>
    obtain rfl := some.inj hs
    split
    case isFalse => exact h
    case isTrue =>
      exact {
        cached := congrArg (fun m : Mmu => { m with maxPhysBits := bits, tlb := mmu.tlb.flushAll })
          h.cached
        __ := h
        banks := all_flushAll _ _
      }

theorem entryCr3_setCr3 (hp : mmu.cr4 &&& cr4Pcide != 0) (value : U64) (e : TlbEntry) :
    (mmu.setCr3 value).entryCr3 (last.after (.setCr3 value)) e =
      if e.pcid = pcidField value then some value else last e.pcid :=
  if_pos hp

theorem tlb_setCr3 (hp : mmu.cr4 &&& cr4Pcide != 0) (value : U64) :
    (mmu.setCr3 value).tlb =
      if (mmu.setCr3 value).cr3NoFlush then mmu.tlb
      else mmu.tlb.map (·.flushPcid (pcidField value) false) := by
  simp only [setCr3, updateCachedState, hp]
  rfl

theorem Right.setCr3 (h : Right tables mmu mem last e) (hen : mmu.pcidEnabled)
    (hp : mmu.cr4 &&& cr4Pcide != 0)
    (hroot : ∀ old, last (pcidField value) = some old → mmu.root value = mmu.root old)
    (hpcid : e.pcid = pcidField value) (hs : SameTables mmu (mmu.setCr3 value)) :
    Right tables (mmu.setCr3 value) mem (last.after (.setCr3 value)) e := by
  have ⟨cr3, path, hc, hw, ha, ht⟩ := h.walk
  rw [entryCr3, hen, hpcid] at hc
  have hw' : (mmu.setCr3 value).tableWalk value mem e.vbase = mmu.tableWalk cr3 mem e.vbase := by
    rw [hs.tableWalk, tableWalk, tableWalk, hroot cr3 hc]
  exact {
    mode := hs.mode ▸ h.mode
    local_ := h.local_
    leafIs64 := hs.is64 ▸ h.leafIs64
    walk := ⟨value, path, by rw [entryCr3_setCr3 hp, if_pos hpcid], hw'.trans hw, hs.entries ▸ ha,
      hs.entryBytes ▸ ht⟩
    dirty := hs.entries ▸ h.dirty
  }

section

variable (h : Inv tables mmu mem last)
include h

theorem Inv.setCr3 (hroot : (mmu.setCr3 value).cr3NoFlush →
      ∀ old, last (pcidField value) = some old → mmu.root value = mmu.root old) :
    Inv tables (mmu.setCr3 value) mem (last.after (.setCr3 value)) := by
  have hmode := h.mode_eq.symm
  have hs : SameTables mmu (mmu.setCr3 value) :=
    { mode := hmode, pse := rfl, nx := rfl, mask := rfl }
  refine { cached := rfl, pge := h.pge, loaded := if_pos rfl, banks := ?banks }
  cases hp : (mmu.cr4 &&& cr4Pcide != 0)
  case false =>
    have ht : (mmu.setCr3 value).tlb = mmu.tlb.flushAll := by
      have hpge : (mmu.cr4 &&& cr4Pge != 0) = false := h.pge
      simp only [Mmu.setCr3, updateCachedState, Tlb.onCr3Write, cr4PgeOn, hp, hpge,
        false_eq_true, if_false]
    rw [ht]
    exact all_flushAll _ _
  case true =>
    have hen := h.pcidEnabled_eq.trans hp
    have hkeep : ∀ e, Right tables mmu mem last e → e.pcid ≠ pcidField value →
        Right tables (mmu.setCr3 value) mem (last.after (.setCr3 value)) e := by
      intro e he hne
      apply he.congr hs
      rw [entryCr3_setCr3 hp, if_neg hne, entryCr3, hen, if_pos rfl]
    cases hnf : (mmu.setCr3 value).cr3NoFlush
    case false =>
      have ht : (mmu.setCr3 value).tlb = mmu.tlb.map (·.flushPcid (pcidField value) false) := by
        rw [tlb_setCr3 hp, hnf]
        rfl
      rw [ht]
      apply all_map h.banks
      intro s hs
      apply hs.flushPcid
      intro e hd he
      apply hkeep e he
      simpa [he.local_] using hd
    case true =>
      have ht : (mmu.setCr3 value).tlb = mmu.tlb := by
        rw [tlb_setCr3 hp, hnf]
        rfl
      rw [ht]
      intro isExec
      apply (h.banks isExec).mono
      intro e _ he
      by_cases hpcid : e.pcid = pcidField value
      case neg => exact hkeep e he hpcid
      case pos => exact he.setCr3 hen hp (hroot hnf) hpcid hs

theorem Inv.update (cr2 : U64) (ht : ∀ isExec, (t.bank isExec).All (Right tables mmu mem last)) :
    Inv tables { mmu with tlb := t, cr2 := cr2 } mem last where
  cached := congrArg (fun m : Mmu => { m with tlb := t, cr2 := cr2 }) h.cached
  __ := h
  banks isExec := (ht isExec).mono fun _ _ he => he.congr ⟨rfl, rfl, rfl, rfl⟩ rfl

theorem Inv.invlpg (vaddr : U64) : Inv tables (mmu.invlpg vaddr) mem last := by
  rw [Mmu.invlpg]
  split
  case isTrue => exact h.update mmu.cr2 (all_map h.banks fun _ hs => hs.invalidateAddress _ _)
  case isFalse => exact h.update mmu.cr2 (all_map h.banks fun _ hs => hs.invalidateAddress _ _)

theorem Inv.invpcid (pcid : U16) (kind : InvpcidType) :
    Inv tables (mmu.invpcid pcid kind) mem last := by
  apply h.update mmu.cr2
  intro isExec
  cases kind
  case individualAddress vaddr =>
    exact all_map h.banks (fun _ hs => hs.invalidateAddress _ _) isExec
  case singleContext =>
    exact all_map h.banks (fun s hs => hs.flushPcid fun _ _ he => he) isExec
  case allIncludingGlobal => exact all_flushAll _ _ isExec
  case allExcludingGlobal => exact all_map h.banks (fun _ hs => hs.flushNonGlobal) isExec

end

end Registers

section Hit

def observe (t : Translation) : Except TranslateFault U64 × PhysMem :=
  (t.1, t.2.2)

theorem observe_translateMiss (mmu : Mmu) (mem : PhysMem) (ctx : EntryAccessContext) :
    observe (mmu.translateMiss false mem ctx) =
      ((returned ((mmu.walk false ctx).run mem)).mapError .pageFault,
        ((mmu.walk false ctx).run mem).2) := by
  rw [translateMiss]
  cases (mmu.walk false ctx).run mem
  case mk r m => cases r <;> rfl

theorem Inv.pcid_eq (h : Inv tables mmu mem last) (hp : mmu.pcidEnabled) :
    mmu.pcid = pcidField mmu.cr3 := by
  have hp' := h.pcidEnabled_eq.symm.trans hp
  have hc : mmu.pcid = mmu.updateCachedState.pcid := by rw [h.cached]
  rw [hc]
  exact if_pos hp'

-- An entry that is found belongs to the tables that are in use.
theorem Inv.hit (h : Inv tables mmu mem last)
    (hl : mmu.tlb.lookup vaddr isExec mmu.pcid mmu.pcidEnabled mmu.tlbPageSizes = some (slot, e)) :
    e = (mmu.tlb.bank isExec).entries slot ∧ e.valid ∧ Right tables mmu mem last e ∧
      e.vbase = e.pageSize.base vaddr ∧ mmu.entryCr3 last e = some mmu.cr3 := by
  rw [Tlb.lookup, map_eq_some_iff] at hl
  obtain ⟨s, hl, he⟩ := hl
  obtain ⟨rfl, rfl⟩ := Prod.mk.inj he
  have hall := h.banks isExec
  have hit := TlbSet.hit_of_lookup hall.counted hl
  have hr := hall.live s hit.valid
  refine ⟨rfl, hit.valid, hr, hit.vbase, ?_⟩
  rw [entryCr3]
  split
  case isFalse => rfl
  case isTrue hp =>
    have hpcid := (hit.pcid hp).resolve_left (by simp [hr.local_])
    rw [hpcid, h.pcid_eq hp, h.loaded]

theorem base_base (size : PageSize) (v : U64) : size.base (size.base v) = size.base v := by
  rw [PageSize.base, PageSize.base, BitVec.and_assoc, BitVec.and_self]

theorem Right.tableWalk (h : Right tables mmu mem last e) (hb : e.vbase = e.pageSize.base vaddr)
    (hc : mmu.entryCr3 last e = some mmu.cr3) :
    ∃ path, mmu.tableWalk mmu.cr3 mem vaddr =
        (path, .leaf e.leafAddr ⟨e.user, e.writable, e.nx⟩ ⟨e.pageSize, e.vbase + e.paddrDelta⟩) ∧
      (∀ a ∈ path, Aligned mmu.entryBytes a) ∧
      ∀ a ∈ path, mmu.entries.Has .accessed (mmu.entries.read mem a) := by
  have ⟨cr3, path, hc', hw, ha, _⟩ := h.walk
  obtain rfl := some.inj (hc.symm.trans hc')
  have hw' : mmu.tableWalk mmu.cr3 mem vaddr = (path, _) :=
    walk_samePage mmu.levels_coherent hw (show e.pageSize.base vaddr = e.pageSize.base e.vbase by
      rw [hb, base_base])
  refine ⟨path, hw', ?_, ha⟩
  intro a hp
  have hp : a ∈ (mmu.tableWalk mmu.cr3 mem vaddr).1 := by rw [hw']; exact hp
  exact valid_of_mem_walk mmu.levels_sound (mmu.root_aligned _) hp

theorem Right.run_walk (h : Right tables mmu mem last e)
    (hb : e.vbase = e.pageSize.base ctx.vaddr) (hc : mmu.entryCr3 last e = some mmu.cr3) :
    (mmu.walk false ctx).run mem =
      mmu.finish ctx (.leaf e.leafAddr ⟨e.user, e.writable, e.nx⟩
        ⟨e.pageSize, e.vbase + e.paddrDelta⟩, mem) := by
  have ⟨path, hw, hv, ha⟩ := h.tableWalk hb hc
  rw [Mmu.run_walk, hw, mmu.entries_lawful.markAll_of_has hv ha]

theorem translate_eq (hb : e.vbase = e.pageSize.base vaddr) :
    e.vbase + e.paddrDelta + (vaddr - e.pageSize.base vaddr) = e.translate vaddr := by
  rw [TlbEntry.translate]
  grind

theorem setLeafDirty_eq (h : e.leafIs64 = mmu.is64) :
    setLeafDirty mem e = mmu.entries.mark .dirty mem e.leafAddr := by
  rw [setLeafDirty, entries, h]
  cases mmu.is64 <;> rfl

theorem has_iff : mmu.entries.Has f x ↔ x ||| f.bit = x := by
  rw [entries]
  cases mmu.is64 <;> exact Iff.rfl

theorem observe_translateHit (h : Right tables mmu mem last e)
    (hb : e.vbase = e.pageSize.base ctx.vaddr) (hc : mmu.entryCr3 last e = some mmu.cr3) :
    observe (mmu.translateHit false mem ctx slot e) =
      observe (mmu.translateMiss false mem ctx) := by
  have hrun := h.run_walk hb hc
  cases ha : ctx.access
  case read =>
    rw [observe_translateMiss, hrun, finish, translate_eq hb]
    simp only [translateHit, ha, Rights.denies, isWrite, isExecute,
      Bool.false_and, Bool.or_false, Bool.false_eq_true]
    split <;> rfl
  case execute =>
    rw [observe_translateMiss, hrun, finish, translate_eq hb]
    simp only [translateHit, ha, Rights.denies]
    cases ctx.isUser && !e.user <;> cases e.nx <;> rfl
  case write =>
    have hd : (⟨e.user, e.writable, e.nx⟩ : Rights).denies mmu.wpEnabled .write ctx.isUser =
        mmu.needRewalk e ctx.isUser := by
      rw [Rights.denies, needRewalk]
      cases ctx.isUser <;> simp [isWrite, isExecute]
    rw [translateHit]
    simp only [ha]
    cases hn : mmu.needRewalk e ctx.isUser
    case true =>
      simp only [if_true]
      rw [observe_translateMiss, observe_translateMiss]
      rfl
    case false =>
      rw [observe_translateMiss, hrun, finish, translate_eq hb, ha, hd, hn]
      cases hdirty : e.dirty
      case false =>
        rw [setLeafDirty_eq h.leafIs64]
        rfl
      case true =>
        have hm := mark_of_or (has_iff.mp (h.dirty hdirty))
        simp only [hm, Bool.false_eq_true]
        rfl

end Hit

section Translate

def Marks (mmu : Mmu) (mem mem' : PhysMem) : Prop :=
  ∀ a, Aligned mmu.entryBytes a → MarkedBy (mmu.entries.read mem a) (mmu.entries.read mem' a)

theorem Inv.marked (h : Inv tables mmu mem last) (hm : Marks mmu mem mem') :
    Inv tables mmu mem' last where
  __ := h
  banks isExec := (h.banks isExec).mono fun _ _ he => he.marked hm

theorem Inv.stored (h : Inv tables mmu mem last) (hm : ∀ a, tables a → mem' a = mem a) :
    Inv tables mmu mem' last where
  __ := h
  banks isExec := (h.banks isExec).mono fun _ _ he => he.stored hm

theorem aligned_of_mem_tableWalk (h : a ∈ (mmu.tableWalk cr3 mem vaddr).1) :
    Aligned mmu.entryBytes a :=
  valid_of_mem_walk mmu.levels_sound (mmu.root_aligned cr3) h

theorem Marks.accessed (mmu : Mmu) (mem : PhysMem) (cr3 vaddr : U64) :
    Marks mmu mem (mmu.entries.markAll .accessed mem (mmu.tableWalk cr3 mem vaddr).1) :=
  fun _ => mmu.entries_lawful.le_markAll fun _ => aligned_of_mem_tableWalk

theorem Marks.trans (h₁ : Marks mmu mem mem') (h₂ : Marks mmu mem' mem'') : Marks mmu mem mem'' :=
  fun a ha => (h₁ a ha).trans (h₂ a ha)

theorem Marks.dirty (ha : Aligned mmu.entryBytes a) (w : Bool) :
    Marks mmu mem (if w then mmu.entries.mark .dirty mem a else mem) := by
  cases w
  case false => exact fun _ _ => .refl _
  case true => exact fun _ hb => mmu.entries_lawful.le_mark .dirty mem ha hb

theorem tableWalk_marks (hmode : mmu.mode ≠ .pae) (hm : Marks mmu mem mem') (cr3 vaddr : U64) :
    mmu.tableWalk cr3 mem' vaddr = mmu.tableWalk cr3 mem vaddr :=
  walk_congr (levels_blind hmode) mmu.levels_sound (mmu.root_aligned cr3) hm

theorem right_cachedEntry (h : Inv tables mmu mem last) (hmode : mmu.mode ≠ .pae)
    (hw : mmu.tableWalk mmu.cr3 mem ctx.vaddr = (path, .leaf a r l))
    (ht : ∀ a ∈ path, ∀ i < mmu.entryBytes, tables (a + BitVec.ofNat 64 i))
    (hm : Marks mmu (mmu.entries.markAll .accessed mem path) mem') :
    Right tables mmu mem' last (mmu.cachedEntry ctx a r l mem') := by
  have hpath : ∀ x ∈ path, Aligned mmu.entryBytes x := by
    intro x hx
    have hx : x ∈ (mmu.tableWalk mmu.cr3 mem ctx.vaddr).1 := by rw [hw]; exact hx
    exact aligned_of_mem_tableWalk hx
  have hmem : Marks mmu mem mem' := by
    have hacc := Marks.accessed mmu mem mmu.cr3 ctx.vaddr
    rw [hw] at hacc
    exact hacc.trans hm
  have hwalk : mmu.tableWalk mmu.cr3 mem' (l.size.base ctx.vaddr) = (path, .leaf a r l) := by
    apply walk_samePage mmu.levels_coherent ((tableWalk_marks hmode hmem _ _).trans hw)
    exact base_base l.size ctx.vaddr
  have hframe : l.size.base ctx.vaddr + (l.frame - l.size.base ctx.vaddr) = l.frame := by grind
  exact {
    mode := hmode
    local_ := by
      change (mmu.cr4PgeOn && _) = false
      rw [h.pge, Bool.false_and]
    leafIs64 := rfl
    walk := by
      refine ⟨mmu.cr3, path, ?cr3, ?walk, ?accessed, ht⟩
      case cr3 =>
        rw [entryCr3]
        split
        case isFalse => rfl
        case isTrue hp =>
          change last mmu.pcid = _
          rw [h.pcid_eq hp, h.loaded]
      case walk =>
        change mmu.tableWalk mmu.cr3 mem' (l.size.base ctx.vaddr) = (path, .leaf a ⟨_, _, _⟩
          ⟨_, l.size.base ctx.vaddr + (l.frame - l.size.base ctx.vaddr)⟩)
        rw [hframe, hwalk]
        rfl
      case accessed =>
        intro x hx
        exact mmu.entries_lawful.has_mono (hm x (hpath x hx))
          (mmu.entries_lawful.has_markAll hpath hx)
    dirty := by
      intro hd
      apply has_iff.mpr
      apply Mark.or_bit_of_and
      change (mmu.entries.read mem' a &&& pteD != 0) = true at hd
      change (mmu.entries.read mem' a &&& pteD == 0) = false
      simpa using hd
  }

theorem all_insert {t : Tlb} (h : ∀ isExec, (t.bank isExec).All Q) (hv : e.valid) (he : Q e)
    (b isExec : Bool) : ((t.insert b e).bank isExec).All Q := by
  cases b <;> cases isExec
  case false.false => exact (h false).insert hv he
  case false.true => exact h true
  case true.false => exact h false
  case true.true => exact (h true).insert hv he

theorem Inv.translateMiss (h : Inv tables mmu mem last) (hmode : mmu.mode ≠ .pae)
    (ht : ∀ a ∈ (mmu.tableWalk mmu.cr3 mem ctx.vaddr).1, ∀ i < mmu.entryBytes,
      tables (a + BitVec.ofNat 64 i)) :
    Inv tables (mmu.translateMiss false mem ctx).2.1 (mmu.translateMiss false mem ctx).2.2 last := by
  have hacc := Marks.accessed mmu mem mmu.cr3 ctx.vaddr
  rw [Mmu.translateMiss, run_walk]
  cases hw : mmu.tableWalk mmu.cr3 mem ctx.vaddr
  case mk path out =>
    rw [hw] at hacc ht
    have hbanks := (h.marked hacc).banks
    cases out
    case absent => exact (h.marked hacc).update _ hbanks
    case invalid => exact (h.marked hacc).update _ hbanks
    case leaf a r l =>
      simp only [finish]
      cases r.denies mmu.wpEnabled ctx.access ctx.isUser
      case true => exact (h.marked hacc).update _ hbanks
      case false =>
        have ha : Aligned mmu.entryBytes a := by
          have ha : a ∈ (mmu.tableWalk mmu.cr3 mem ctx.vaddr).1 := by
            rw [hw]
            exact mem_path_of_leaf (levels_marks hmode) hw
          exact aligned_of_mem_tableWalk ha
        have hm : Marks mmu (mmu.entries.markAll .accessed mem path) _ :=
          Marks.dirty ha ctx.access.isWrite
        have hinv := (h.marked hacc).marked hm
        exact hinv.update mmu.cr2 (all_insert hinv.banks rfl (right_cachedEntry h hmode hw ht hm) _)

theorem Right.setDirty (h : Right tables mmu mem last e) :
    Marks mmu mem (mmu.entries.mark .dirty mem e.leafAddr) ∧
      Right tables mmu (mmu.entries.mark .dirty mem e.leafAddr) last e.setDirty := by
  have ⟨cr3, path, _, hw, _⟩ := h.walk
  have ha : Aligned mmu.entryBytes e.leafAddr := by
    have ha : e.leafAddr ∈ (mmu.tableWalk cr3 mem e.vbase).1 := by
      rw [hw]
      exact mem_path_of_leaf (levels_marks h.mode) hw
    exact aligned_of_mem_tableWalk ha
  have hm : Marks mmu mem (mmu.entries.mark .dirty mem e.leafAddr) := Marks.dirty ha true
  have h' := h.marked hm
  refine ⟨hm, { h' with dirty := fun _ => ?_ }⟩
  change mmu.entries.Has .dirty (mmu.entries.read _ e.leafAddr)
  rw [mmu.entries_lawful.read_mark_self .dirty mem ha]
  exact mmu.entries_lawful.has_marked .dirty _

theorem Inv.translateHit (h : Inv tables mmu mem last)
    (ht : ∀ a ∈ (mmu.tableWalk mmu.cr3 mem ctx.vaddr).1, ∀ i < mmu.entryBytes,
      tables (a + BitVec.ofNat 64 i)) (hr : Right tables mmu mem last e)
    (he : e = (mmu.tlb.bank ctx.access.isExecute).entries slot) :
    Inv tables (mmu.translateHit false mem ctx slot e).2.1
      (mmu.translateHit false mem ctx slot e).2.2 last := by
  have hfault : ∀ pf, Inv tables (mmu.fault pf).2 mem last := fun pf => h.update pf.addr h.banks
  rw [Mmu.translateHit]
  cases ha : ctx.access
  case read =>
    simp only
    split
    case isTrue => exact hfault _
    case isFalse => exact h
  case execute =>
    simp only
    split
    case isTrue => exact hfault _
    case isFalse =>
      split
      case isTrue => exact hfault _
      case isFalse => exact h
  case write =>
    simp only
    split
    case isTrue =>
      have hinv := h.update mmu.cr2
        (all_map h.banks fun _ hs => hs.invalidateAddress ctx.vaddr fun _ => true)
      exact hinv.translateMiss hr.mode ht
    case isFalse =>
      split
      case isTrue => exact h
      case isFalse =>
        have ⟨hm, hd⟩ := hr.setDirty
        rw [setLeafDirty_eq hr.leafIs64]
        have hinv := h.marked hm
        apply hinv.update mmu.cr2
        intro isExec
        cases isExec
        case true => exact hinv.banks true
        case false =>
          apply (hinv.banks false).setDirtyHit
          intro _
          rw [ha] at he
          exact he ▸ hd

theorem Inv.translate (h : Inv tables mmu mem last) (hmode : mmu.mode ≠ .pae)
    (hw : WalksIn tables mmu mem vaddr) (access : AccessType) (cpl : U8) :
    Inv tables (mmu.translate false mem vaddr access cpl).2.1
      (mmu.translate false mem vaddr access cpl).2.2 last := by
  rw [WalksIn] at hw
  rw [Mmu.translate]
  cases hl : mmu.linear vaddr
  case done r => exact h
  case lookup v =>
    rw [hl] at hw
    simp only
    cases hlookup : mmu.tlb.lookup v access.isExecute mmu.pcid mmu.pcidEnabled mmu.tlbPageSizes
    case none => exact h.translateMiss hmode hw
    case some hit =>
      have ⟨he, _, hr, _, _⟩ := h.hit hlookup
      exact h.translateHit hw hr he

end Translate

section Runs

theorem inv_start (tables : U64 → Prop) (mem : PhysMem) : Inv tables .new mem .start where
  cached := rfl
  pge := rfl
  loaded := rfl
  banks isExec := by cases isExec <;> exact TlbSet.All.new

theorem Inv.step (h : Inv tables mmu mem last) (ha : Allowed tables mmu mem last op)
    (hs : mmu.apply mem op = some (mmu', mem')) : Inv tables mmu' mem' (last.after op) := by
  cases op
  case translate vaddr access cpl =>
    obtain ⟨rfl, rfl⟩ := Prod.mk.inj (some.inj hs)
    exact h.translate ha.1 ha.2 access cpl
  case setCr0 value =>
    cases hs
    exact h.setCr0 value
  case setCr3 value =>
    cases hs
    exact h.setCr3 ha
  case setCr4 value =>
    cases hs
    exact h.setCr4 ha
  case setEfer value =>
    cases hs
    exact h.setEfer value
  case setMaxPhysBits bits =>
    obtain ⟨m, hm, he⟩ := map_eq_some_iff.mp hs
    obtain ⟨rfl, rfl⟩ := Prod.mk.inj he
    exact h.setMaxPhysBits hm
  case invlpg vaddr =>
    cases hs
    exact h.invlpg vaddr
  case invpcid pcid kind =>
    cases hs
    exact h.invpcid pcid kind
  case store m =>
    cases hs
    exact h.stored ha

theorem inv_of_reachable (h : Reachable tables mmu mem last) : Inv tables mmu mem last := by
  induction h
  case start mem => exact inv_start tables mem
  case step op _ ha hs ih => exact ih.step ha hs

theorem fresh_eq (h : mmu.updateCachedState = mmu) :
    mmu.fresh = { mmu with tlb := .new, cr2 := 0 } := by
  have hf : mmu.fresh = { mmu.updateCachedState with tlb := .new, cr2 := 0 } := rfl
  rw [hf, h]

theorem lookup_new (vaddr : U64) (isExec : Bool) (pcid : U16) (pcidEnabled : Bool)
    (sizes : TlbLookupPageSizes) : Tlb.new.lookup vaddr isExec pcid pcidEnabled sizes = none := by
  rw [Tlb.lookup, map_eq_none_iff, eq_none_iff_forall_ne_some]
  intro slot hl
  have hbank : Tlb.new.bank isExec = TlbSet.new := by cases isExec <;> rfl
  rw [hbank] at hl
  have hit := TlbSet.hit_of_lookup (TlbSet.All.new (Q := fun _ => True)).counted hl
  exact absurd hit.valid false_ne_true

-- A translation returns the same address or fault, and leaves the same memory, as one by a new MMU
-- with the same registers.
theorem translate_transparent (h : Reachable tables mmu mem last) (vaddr : U64)
    (access : AccessType) (cpl : U8) :
    (mmu.translate false mem vaddr access cpl).1 = (mmu.fresh.translate false mem vaddr access cpl).1 ∧
      (mmu.translate false mem vaddr access cpl).2.2 =
        (mmu.fresh.translate false mem vaddr access cpl).2.2 := by
  have hinv := inv_of_reachable h
  have hobs : observe (mmu.translate false mem vaddr access cpl) =
      observe (mmu.fresh.translate false mem vaddr access cpl) := by
    rw [fresh_eq hinv.cached, translate, translate]
    have hlin : ({ mmu with tlb := .new, cr2 := 0 } : Mmu).linear vaddr = mmu.linear vaddr := rfl
    rw [hlin]
    cases mmu.linear vaddr
    case done r => rfl
    case lookup v =>
      simp only [lookup_new]
      have hmiss : ∀ ctx, observe (({ mmu with tlb := .new, cr2 := 0 } : Mmu).translateMiss false mem ctx) =
          observe (mmu.translateMiss false mem ctx) := by
        intro ctx
        rw [observe_translateMiss, observe_translateMiss]
        rfl
      rw [hmiss]
      cases hlookup : mmu.tlb.lookup v access.isExecute mmu.pcid mmu.pcidEnabled mmu.tlbPageSizes
      case none => rfl
      case some hit =>
        have ⟨_, _, hr, hb, hc⟩ := hinv.hit hlookup
        exact observe_translateHit hr hb hc
  exact Prod.mk.inj hobs

section Example

def exampleTables : PhysMem :=
  let zero : PhysMem := fun _ => 0
  (zero.write 4 0x1000 (0x2007 : U32)).write 4 0x2000 (0x3007 : U32)

def exampleStart : Mmu :=
  (Mmu.new.setCr3 0x1000).setCr0 (cr0Pg ||| cr0Wp)

theorem reachable_exampleStart :
    Reachable (fun _ => True) exampleStart exampleTables (Loads.start.after (.setCr3 0x1000)) := by
  have h₁ : Reachable (fun _ => True) new exampleTables .start := .start exampleTables
  have h₂ := h₁.step (.setCr3 0x1000) (fun h => absurd h (by decide)) rfl
  exact h₂.step (.setCr0 (cr0Pg ||| cr0Wp)) trivial rfl

theorem translate_transparent_cachedPage :
    let first := exampleStart.translate false exampleTables 0 .read 3
    let second := first.2.1.translate false first.2.2 4 .write 3
    second.1 = .ok 0x3004 ∧ second.1 = (first.2.1.fresh.translate false first.2.2 4 .write 3).1 := by
  have hwalks : WalksIn (fun _ => True) exampleStart exampleTables 0 :=
    fun _ _ _ _ => trivial
  have h := reachable_exampleStart.step (.translate 0 .read 3) ⟨by decide, hwalks⟩ rfl
  exact ⟨by decide +kernel, (translate_transparent h 4 .write 3).1⟩

end Example

end Runs

end Aero.Mmu
