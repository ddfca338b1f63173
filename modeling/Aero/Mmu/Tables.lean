import Aero.Lib.PageWalk
import Aero.Mmu.Basic

namespace Aero.Mmu

structure Leaf where
  size : PageSize
  frame : U64
  deriving DecidableEq, Repr

inductive Mark
  | accessed
  | dirty
  deriving DecidableEq

def Mark.bit : Mark → U64
  | accessed => pteA
  | dirty    => pteD

def entries32 : PageWalk.Memory PhysMem U64 U64 Mark where
  read m a := (m.read 32 4 a).setWidth 64
  mark f m a := m.write 4 a (m.read 32 4 a ||| f.bit.setWidth 32)
  marked f e := e ||| f.bit

def entries64 : PageWalk.Memory PhysMem U64 U64 Mark where
  read m a := m.read 64 8 a
  mark f m a := m.write 8 a (m.read 64 8 a ||| f.bit)
  marked f e := e ||| f.bit

abbrev TableLevel := PageWalk.Level U64 U64 U64 U64 Rights Leaf

def pdeLevel32 (mmu : Mmu) : TableLevel where
  slot base vaddr := entryAddr base vaddr 22 0x3ff 4
  check e :=
    if e &&& pteP == 0 then .absent
    else if e &&& ptePs != 0 && !mmu.cr4PseOn then .invalid
    else if e &&& ptePs != 0 && e &&& legacy32Reserved4MbMask != 0 then .invalid
    else .good
  marks := true
  gather r e := r.restrict false e
  leaf e := if e &&& ptePs != 0 then some ⟨.size4M, e &&& 0xffc0_0000⟩ else none
  next e := e &&& 0xffff_f000

def pteLevel32 : TableLevel where
  slot base vaddr := entryAddr base vaddr 12 0x3ff 4
  check e := if e &&& pteP == 0 then .absent else .good
  marks := true
  gather r e := r.restrict false e
  leaf e := some ⟨.size4K, e &&& 0xffff_f000⟩
  next e := e &&& 0xffff_f000

def check64 (mmu : Mmu) (kind : EntryKind64) (e : U64) : PageWalk.Verdict :=
  if e &&& pteP == 0 then .absent
  else if mmu.hasReservedBits64 e kind then .invalid
  else .good

def level64 (mmu : Mmu) (kind : EntryKind64) (shift : Nat) (leaf : U64 → Option Leaf) :
    TableLevel where
  slot base vaddr := entryAddr base vaddr shift 0x1ff 8
  check := mmu.check64 kind
  marks := true
  gather r e := r.restrict mmu.nxEnabled e
  leaf := leaf
  next := mmu.nextTable

-- The entries of this table have no accessed bit.
def pdpteLevelPae (mmu : Mmu) : TableLevel where
  slot base vaddr := entryAddr base vaddr 30 0x3 8
  check := mmu.check64 .pdptePae
  marks := false
  gather r e := r.restrictNx mmu.nxEnabled e
  leaf _ := none
  next := mmu.nextTable

def largeLeaf (mmu : Mmu) (size : PageSize) (e : U64) : Option Leaf :=
  if e &&& ptePs != 0 then some ⟨size, mmu.largeFrame e size⟩ else none

def pageLeaf (mmu : Mmu) (e : U64) : Option Leaf :=
  some ⟨.size4K, mmu.nextTable e⟩

def legacyLevels (mmu : Mmu) : List TableLevel :=
  [mmu.pdeLevel32, pteLevel32]

def paeLevels (mmu : Mmu) : List TableLevel :=
  [mmu.pdpteLevelPae, mmu.level64 .pdePae 21 (mmu.largeLeaf .size2M),
    mmu.level64 .ptePae 12 mmu.pageLeaf]

def longLevels (mmu : Mmu) : List TableLevel :=
  [mmu.level64 .pml4e 39 (fun _ => none), mmu.level64 .pdpteLong 30 (mmu.largeLeaf .size1G),
    mmu.level64 .pdeLong 21 (mmu.largeLeaf .size2M), mmu.level64 .pteLong 12 mmu.pageLeaf]

def is64 (mmu : Mmu) : Bool :=
  mmu.mode == .pae || mmu.mode == .long4

def entryBytes (mmu : Mmu) : Nat :=
  if mmu.is64 then 8 else 4

def entries (mmu : Mmu) : PageWalk.Memory PhysMem U64 U64 Mark :=
  if mmu.is64 then entries64 else entries32

def levels (mmu : Mmu) : List TableLevel :=
  match mmu.mode with
  | .disabled | .legacy32 => mmu.legacyLevels
  | .pae                  => mmu.paeLevels
  | .long4                => mmu.longLevels

def root (mmu : Mmu) (cr3 : U64) : U64 :=
  match mmu.mode with
  | .disabled | .legacy32 => (cr3 &&& 0xffff_ffff) &&& ~~~0xfff
  | .pae                  => (cr3 &&& 0xffff_ffff) &&& ~~~0x1f
  | .long4                => (cr3 &&& mmu.physAddrMask) &&& ~~~0xfff

abbrev TableOutcome := PageWalk.Outcome U64 Rights Leaf

def tableWalk (mmu : Mmu) (cr3 : U64) (mem : PhysMem) (vaddr : U64) : List U64 × TableOutcome :=
  PageWalk.walk (mmu.entries.read mem) vaddr mmu.levels (mmu.root cr3) .all

-- `AERO_COW_FORCE_RW` lets user code write to every 4 KiB page of the long mode.
def forcedRights (mmu : Mmu) (cowForceRw : Bool) (ctx : EntryAccessContext) (r : Rights)
    (leaf : Leaf) : Rights :=
  if cowForceRw && ctx.access.isWrite && ctx.isUser && mmu.mode == .long4 && leaf.size == .size4K
  then { r with writable := true }
  else r

def answer (mmu : Mmu) (cowForceRw : Bool) (ctx : EntryAccessContext) :
    TableOutcome → Except PageFault U64
  | .absent  => .error (pageFaultNotPresent ctx.vaddr ctx.access ctx.isUser)
  | .invalid => .error (pageFaultRsvd ctx.vaddr ctx.access ctx.isUser)
  | .leaf _ r l =>
    if (mmu.forcedRights cowForceRw ctx r l).denies mmu.wpEnabled ctx.access ctx.isUser then
      .error (pageFaultDenied ctx.vaddr ctx.access ctx.isUser)
    else
      .ok (l.frame + (ctx.vaddr - l.size.base ctx.vaddr))

end Aero.Mmu
