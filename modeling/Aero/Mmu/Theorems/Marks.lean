import Aero.Mmu.Theorems.Probe

namespace Aero.Mmu

open PageWalk List

variable {mmu : Mmu} {mem : PhysMem} {ctx : EntryAccessContext} {f : Mark} {a : U64}

structure EntryRef where
  is64 : Bool
  addr : U64
  deriving DecidableEq, Repr

namespace EntryRef

def entries (ref : EntryRef) : PageWalk.Memory PhysMem U64 U64 Mark :=
  if ref.is64 then entries64 else entries32

def read (ref : EntryRef) (mem : PhysMem) : U64 :=
  ref.entries.read mem ref.addr

def mark (ref : EntryRef) (f : Mark) (mem : PhysMem) : PhysMem :=
  ref.entries.mark f mem ref.addr

theorem read_mark (ref : EntryRef) (f : Mark) (mem : PhysMem) :
    ref.read (ref.mark f mem) = ref.read mem ||| f.bit := by
  simp only [read, mark, entries]
  cases ref.is64
  case true => exact read_mark64 f mem ref.addr
  case false => exact read_mark32 f mem ref.addr

end EntryRef

def applyMarks (mem : PhysMem) (marks : List (Mark × EntryRef)) : PhysMem :=
  marks.foldl (fun m x => x.2.mark x.1 m) mem

structure Used where
  -- the entries on the way of the walk that have an accessed bit
  path : List EntryRef
  leaf : Option EntryRef
  -- the answer comes from a TLB entry that is marked dirty already
  cachedDirty : Bool

def leafAddr? : TableOutcome → Option U64
  | .leaf a _ _ => some a
  | _           => none

def usedByWalk (mmu : Mmu) (mem : PhysMem) (vaddr : U64) : Used where
  path := (mmu.tableWalk mmu.cr3 mem vaddr).1.map (⟨mmu.is64, ·⟩)
  leaf := (leafAddr? (mmu.tableWalk mmu.cr3 mem vaddr).2).map (⟨mmu.is64, ·⟩)
  cachedDirty := false

def used (mmu : Mmu) (mem : PhysMem) (vaddr : U64) (access : AccessType) (cpl : U8) : Used :=
  match mmu.linear vaddr with
  | .done _ => ⟨[], none, false⟩
  | .lookup vaddr =>
    match mmu.tlb.lookup vaddr access.isExecute mmu.pcid mmu.pcidEnabled mmu.tlbPageSizes with
    | none => mmu.usedByWalk mem vaddr
    | some (_, entry) =>
      if access.isWrite && mmu.needRewalk entry (cpl == 3) then mmu.usedByWalk mem vaddr
      else ⟨[], some ⟨entry.leafIs64, entry.leafAddr⟩, entry.dirty⟩

-- What a call may do to the memory, with the entries that it uses and what it returns.
structure Disciplined (mmu : Mmu) (access : AccessType) (used : Used) (mem : PhysMem)
    (result : Except TranslateFault U64) (mem' : PhysMem) : Prop where
  -- an accessed bit on the path, or the dirty bit of the leaf for a write that is allowed
  marks : ∃ marks, mem' = applyMarks mem marks ∧ ∀ x ∈ marks, x.1 = .accessed ∧ x.2 ∈ used.path ∨
    x.1 = .dirty ∧ used.leaf = some x.2 ∧ access = .write ∧ result.isOk = true
  dirty : access = .write → result.isOk = true → used.cachedDirty = false →
    ∃ leaf, used.leaf = some leaf ∧ leaf.read mem' &&& pteD ≠ 0
  cached : used.cachedDirty = true → mem' = mem
  fault : result.isOk = false → ∀ a, Aligned mmu.entryBytes a →
    mmu.entries.read mem' a &&& pteD = mmu.entries.read mem a &&& pteD

section Walk

theorem applyMarks_path (mem : PhysMem) (path : List U64) :
    applyMarks mem (path.map fun a => (f, ⟨mmu.is64, a⟩)) = mmu.entries.markAll f mem path := by
  rw [applyMarks, foldl_map]
  rfl

theorem and_pteD_accessed (e : U64) : (e ||| Mark.accessed.bit) &&& pteD = e &&& pteD := by
  rw [BitVec.and_or_distrib_right]
  exact BitVec.or_zero

theorem and_pteD_dirty (e : U64) : (e ||| Mark.dirty.bit) &&& pteD ≠ 0 := by
  have h := bit_of_or_eq (or_bit_idem e .dirty)
  simpa [Mark.bit] using h

theorem and_pteD_markAll (hpath : ∀ x ∈ path, Aligned mmu.entryBytes x)
    (ha : Aligned mmu.entryBytes a) :
    mmu.entries.read (mmu.entries.markAll .accessed mem path) a &&& pteD =
      mmu.entries.read mem a &&& pteD := by
  induction path generalizing mem
  case nil => rfl
  case cons x path ih =>
    obtain ⟨hx, hpath⟩ := forall_mem_cons.mp hpath
    refine (ih hpath).trans ?_
    by_cases hxa : x = a
    · rw [hxa, read_mark, and_pteD_accessed]
    · rw [mmu.entries_lawful.read_mark_ne .accessed mem hx ha hxa]

theorem aligned_path (mmu : Mmu) (mem : PhysMem) (vaddr : U64) :
    ∀ x ∈ (mmu.tableWalk mmu.cr3 mem vaddr).1, Aligned mmu.entryBytes x :=
  fun _ hx => valid_of_mem_walk mmu.levels_sound (mmu.root_aligned mmu.cr3) hx

theorem applyMarks_append (mem : PhysMem) (marks marks' : List (Mark × EntryRef)) :
    applyMarks mem (marks ++ marks') = applyMarks (applyMarks mem marks) marks' :=
  foldl_append

def pathMarks (mmu : Mmu) (mem : PhysMem) (vaddr : U64) : List (Mark × EntryRef) :=
  (mmu.tableWalk mmu.cr3 mem vaddr).1.map fun a => (.accessed, ⟨mmu.is64, a⟩)

theorem mem_pathMarks (hx : x ∈ mmu.pathMarks mem vaddr) :
    x.1 = .accessed ∧ x.2 ∈ (mmu.usedByWalk mem vaddr).path := by
  obtain ⟨a, ha, rfl⟩ := mem_map.mp hx
  exact ⟨rfl, mem_map_of_mem ha⟩

theorem disciplined_of_fault (hfault : result.isOk = false) :
    Disciplined mmu ctx.access (mmu.usedByWalk mem ctx.vaddr) mem result
      (mmu.entries.markAll .accessed mem (mmu.tableWalk mmu.cr3 mem ctx.vaddr).1) := by
  refine ⟨⟨mmu.pathMarks mem ctx.vaddr, (applyMarks_path mem _).symm,
    fun x hx => .inl (mem_pathMarks hx)⟩, fun _ hok => ?_, fun h => (by cases h),
    fun _ a ha => and_pteD_markAll (mmu.aligned_path mem ctx.vaddr) ha⟩
  rw [hfault] at hok
  cases hok

theorem disciplined_of_leaf (paddr : U64)
    (hleaf : (mmu.tableWalk mmu.cr3 mem ctx.vaddr).2 = .leaf a r l) :
    let mem₁ := mmu.entries.markAll .accessed mem (mmu.tableWalk mmu.cr3 mem ctx.vaddr).1
    Disciplined mmu ctx.access (mmu.usedByWalk mem ctx.vaddr) mem (.ok paddr)
      (if ctx.access.isWrite then mmu.entries.mark .dirty mem₁ a else mem₁) := by
  intro mem₁
  have hused : (mmu.usedByWalk mem ctx.vaddr).leaf = some ⟨mmu.is64, a⟩ := by
    simp [usedByWalk, hleaf, leafAddr?]
  have hpath : applyMarks mem (mmu.pathMarks mem ctx.vaddr) = mem₁ := applyMarks_path mem _
  cases hwrite : ctx.access
  case write =>
    refine ⟨⟨mmu.pathMarks mem ctx.vaddr ++ [(.dirty, ⟨mmu.is64, a⟩)], ?_, fun x hx => ?_⟩,
      fun _ _ _ => ⟨_, hused, ?_⟩, fun h => (by cases h), fun h => (by cases h)⟩
    · rw [applyMarks_append, hpath]
      rfl
    · obtain hx | hx := mem_append.mp hx
      · exact .inl (mem_pathMarks hx)
      · rw [mem_singleton.mp hx]
        exact .inr ⟨rfl, hused, rfl, rfl⟩
    · exact (EntryRef.read_mark ⟨mmu.is64, a⟩ .dirty mem₁).symm ▸ and_pteD_dirty _
  all_goals
    exact ⟨⟨mmu.pathMarks mem ctx.vaddr, hpath.symm, fun x hx => .inl (mem_pathMarks hx)⟩,
      fun h => (by cases h), fun h => (by cases h), fun h => (by cases h)⟩

theorem disciplined_translateMiss (mmu : Mmu) (mem : PhysMem) (ctx : EntryAccessContext) :
    Disciplined mmu ctx.access (mmu.usedByWalk mem ctx.vaddr) mem
      (mmu.translateMiss false mem ctx).1 (mmu.translateMiss false mem ctx).2.2 := by
  rw [translateMiss, run_walk]
  cases hout : (mmu.tableWalk mmu.cr3 mem ctx.vaddr).2
  case absent => exact disciplined_of_fault rfl
  case invalid => exact disciplined_of_fault rfl
  case leaf a r l =>
    rw [finish]
    cases r.denies mmu.wpEnabled ctx.access ctx.isUser
    case true => exact disciplined_of_fault rfl
    case false =>
      exact disciplined_of_leaf (l.frame + (ctx.vaddr - l.size.base ctx.vaddr)) hout

end Walk

section Hit

theorem disciplined_same {used : Used}
    (h : access ≠ .write ∨ result.isOk = false ∨ used.cachedDirty = true) :
    Disciplined mmu access used mem result mem := by
  refine ⟨⟨[], rfl, fun x hx => (not_mem_nil hx).elim⟩, fun hw hok hd => ?_, fun _ => rfl,
    fun _ _ _ => rfl⟩
  obtain h | h | h := h
  · exact absurd hw h
  · rw [hok] at h
    cases h
  · rw [hd] at h
    cases h

theorem setLeafDirty_eq_mark (mem : PhysMem) (entry : TlbEntry) :
    setLeafDirty mem entry = EntryRef.mark ⟨entry.leafIs64, entry.leafAddr⟩ .dirty mem := by
  rw [setLeafDirty, EntryRef.mark]
  cases entry.leafIs64 <;> rfl

theorem disciplined_translateHit (mmu : Mmu) (mem : PhysMem) (ctx : EntryAccessContext)
    (slot : TlbSlot) (entry : TlbEntry) :
    Disciplined mmu ctx.access
      (if ctx.access.isWrite && mmu.needRewalk entry ctx.isUser then mmu.usedByWalk mem ctx.vaddr
        else ⟨[], some ⟨entry.leafIs64, entry.leafAddr⟩, entry.dirty⟩) mem
      (mmu.translateHit false mem ctx slot entry).1
      (mmu.translateHit false mem ctx slot entry).2.2 := by
  rw [translateHit]
  cases haccess : ctx.access
  case read =>
    have hread : AccessType.read ≠ .write := by decide
    cases ctx.isUser && !entry.user <;> exact disciplined_same (.inl hread)
  case execute =>
    have hexecute : AccessType.execute ≠ .write := by decide
    cases ctx.isUser && !entry.user
    case true => exact disciplined_same (.inl hexecute)
    case false => cases entry.nx <;> exact disciplined_same (.inl hexecute)
  case write =>
    cases mmu.needRewalk entry ctx.isUser
    case true =>
      have hmiss := disciplined_translateMiss
        { mmu with tlb := mmu.tlb.invalidateAddressAll ctx.vaddr } mem ctx
      rw [haccess] at hmiss
      exact ⟨hmiss.marks, hmiss.dirty, hmiss.cached, hmiss.fault⟩
    case false =>
      cases hdirty : entry.dirty
      case true => exact disciplined_same (.inr (.inr rfl))
      case false =>
        simp only [Bool.false_eq_true, if_false, setLeafDirty_eq_mark]
        refine ⟨⟨[(.dirty, ⟨entry.leafIs64, entry.leafAddr⟩)], rfl, fun x hx => ?_⟩, fun _ _ _ =>
          ⟨_, rfl, ?_⟩, fun h => (by cases h), fun h => (by cases h)⟩
        · rw [mem_singleton.mp hx]
          exact .inr ⟨rfl, rfl, rfl, rfl⟩
        · rw [EntryRef.read_mark]
          exact and_pteD_dirty _

end Hit

-- Whatever the call returns, it only sets accessed bits on its way and, for a write that it allows,
-- the dirty bit of the leaf. It does not look at the leaf again if the TLB has it as dirty.
theorem translate_disciplined (mmu : Mmu) (mem : PhysMem) (vaddr : U64) (access : AccessType)
    (cpl : U8) (hmode : mmu.mode ≠ .disabled) :
    Disciplined mmu access (mmu.used mem vaddr access cpl) mem
      (mmu.translate false mem vaddr access cpl).1
      (mmu.translate false mem vaddr access cpl).2.2 := by
  rw [translate, used]
  cases hlinear : mmu.linear vaddr
  case done r =>
    -- an address that is not canonical
    have hfault : r.isOk = false := by
      rw [linear] at hlinear
      split at hlinear
      case h_1 h => exact absurd h hmode
      case h_2 => cases hlinear
      case h_3 => cases hlinear
      case h_4 =>
        split at hlinear
        · cases hlinear
        · cases hlinear
          rfl
    exact disciplined_same (.inr (.inl hfault))
  case lookup v =>
    simp only
    cases mmu.tlb.lookup v access.isExecute mmu.pcid mmu.pcidEnabled mmu.tlbPageSizes
    case none => exact disciplined_translateMiss mmu mem ⟨v, access, cpl == 3⟩
    case some hit => exact disciplined_translateHit mmu mem ⟨v, access, cpl == 3⟩ hit.1 hit.2

section Cleared

def pagedMmu : Mmu :=
  (Mmu.new.setCr3 0x1000).setCr0 (cr0Pg ||| cr0Wp)

theorem translate_disciplined_first_write :
    pagedMmu.mode ≠ .disabled ∧
      Disciplined pagedMmu .write (pagedMmu.used (staleTables 0x3007) 0 .write 3)
        (staleTables 0x3007) (pagedMmu.translate false (staleTables 0x3007) 0 .write 3).1
        (pagedMmu.translate false (staleTables 0x3007) 0 .write 3).2.2 :=
  ⟨by decide, translate_disciplined pagedMmu (staleTables 0x3007) 0 .write 3 (by decide)⟩

-- After a write the guest clears the dirty bit and does not invalidate the TLB. The next write is
-- allowed and leaves the bit clear.
theorem dirty_clear_after_write :
    let mmu := (pagedMmu.translate false (staleTables 0x3007) 0 .write 3).2.1
    let t := mmu.translate false (staleTables 0x3007) 0 .write 3
    mmu.mode = .legacy32 ∧ t.1 = .ok 0x3000 ∧
      (mmu.used (staleTables 0x3007) 0 .write 3).leaf = some ⟨false, 0x2000⟩ ∧
      EntryRef.read ⟨false, 0x2000⟩ t.2.2 &&& pteD = 0 :=
  ⟨by decide +kernel, by decide +kernel, by decide +kernel, by decide +kernel⟩

end Cleared

end Aero.Mmu
