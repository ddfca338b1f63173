import Aero.Mmu.Tables

namespace Aero.Mmu

inductive Op
  | translate (vaddr : U64) (access : AccessType) (cpl : U8)
  | setCr0 (value : U64)
  | setCr3 (value : U64)
  | setCr4 (value : U64)
  | setEfer (value : U64)
  | setMaxPhysBits (bits : U8)
  | invlpg (vaddr : U64)
  | invpcid (pcid : U16) (kind : InvpcidType)
  -- the guest or a device changes the memory
  | store (mem : PhysMem)

def apply (mmu : Mmu) (mem : PhysMem) : Op → Option (Mmu × PhysMem)
  | .translate vaddr access cpl => some (mmu.translate false mem vaddr access cpl).2
  | .setCr0 value               => some (mmu.setCr0 value, mem)
  | .setCr3 value               => some (mmu.setCr3 value, mem)
  | .setCr4 value               => some (mmu.setCr4 value, mem)
  | .setEfer value              => some (mmu.setEfer value, mem)
  | .setMaxPhysBits bits        => (mmu.setMaxPhysBits bits).map (·, mem)
  | .invlpg vaddr               => some (mmu.invlpg vaddr, mem)
  | .invpcid pcid kind          => some (mmu.invpcid pcid kind, mem)
  | .store mem                  => some (mmu, mem)

def pcidField (cr3 : U64) : U16 :=
  (cr3 &&& 0xfff).setWidth 16

-- The value that CR3 was last loaded with for each PCID.
def Loads := U16 → Option U64

def Loads.start : Loads :=
  fun pcid => if pcid = 0 then some 0 else none

def Loads.after (last : Loads) : Op → Loads
  | .setCr3 value => fun pcid => if pcid = pcidField value then some value else last pcid
  | _             => last

def WalksIn (tables : U64 → Prop) (mmu : Mmu) (mem : PhysMem) (vaddr : U64) : Prop :=
  match mmu.linear vaddr with
  | .done _       => True
  | .lookup vaddr =>
    ∀ a ∈ (mmu.tableWalk mmu.cr3 mem vaddr).1, ∀ i < mmu.entryBytes, tables (a + BitVec.ofNat 64 i)

-- What the users of the MMU promise: they translate in the legacy and in the long mode, leave
-- CR4.PGE clear, keep the table of a PCID if they load it without a flush, and do not change the
-- page tables.
def Allowed (tables : U64 → Prop) (mmu : Mmu) (mem : PhysMem) (last : Loads) : Op → Prop
  | .translate vaddr _ _ => mmu.mode ≠ .pae ∧ WalksIn tables mmu mem vaddr
  | .setCr3 value        =>
    (mmu.setCr3 value).cr3NoFlush →
      ∀ old, last (pcidField value) = some old → mmu.root value = mmu.root old
  | .setCr4 value        => value &&& cr4Pge = 0
  | .store mem'          => ∀ a, tables a → mem' a = mem a
  | _                    => True

inductive Reachable (tables : U64 → Prop) : Mmu → PhysMem → Loads → Prop
  | start (mem : PhysMem) : Reachable tables .new mem .start
  | step {mmu mmu' : Mmu} {mem mem' : PhysMem} {last : Loads} (op : Op) :
    Reachable tables mmu mem last → Allowed tables mmu mem last op →
    mmu.apply mem op = some (mmu', mem') → Reachable tables mmu' mem' (last.after op)

def fresh (mmu : Mmu) : Mmu :=
  { Mmu.new with
    cr0 := mmu.cr0
    cr3 := mmu.cr3
    cr4 := mmu.cr4
    efer := mmu.efer
    maxPhysBits := mmu.maxPhysBits }.updateCachedState

end Aero.Mmu
