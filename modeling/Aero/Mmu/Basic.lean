import Aero.Lib.ByteMemory
import Aero.Mmu.Tlb

namespace Aero

abbrev PhysMem := ByteMemory

inductive AccessType
  | read
  | write
  | execute
  deriving DecidableEq, Repr

def AccessType.isWrite : AccessType → Bool
  | write => true
  | _     => false

def AccessType.isExecute : AccessType → Bool
  | execute => true
  | _       => false

structure PageFault where
  addr : U64
  errorCode : U32
  deriving DecidableEq, Repr

inductive TranslateFault
  | pageFault (pf : PageFault)
  | nonCanonical (vaddr : U64)
  deriving DecidableEq, Repr

inductive PagingMode
  | disabled
  | legacy32
  | pae
  | long4
  deriving DecidableEq, Repr

inductive EntryKind64
  | pml4e
  | pdpteLong
  | pdeLong
  | pteLong
  | pdptePae
  | pdePae
  | ptePae
  deriving DecidableEq, Repr

namespace Mmu

def cr0Wp : U64 := 1 <<< 16
def cr0Pg : U64 := 1 <<< 31

def cr4Pse : U64 := 1 <<< 4
def cr4Pae : U64 := 1 <<< 5
def cr4Pge : U64 := 1 <<< 7
def cr4Pcide : U64 := 1 <<< 17

def eferLme : U64 := 1 <<< 8
def eferNxe : U64 := 1 <<< 11

-- The 32-bit and the 64-bit formats have these bits in the same places.
def pteP : U64 := 1 <<< 0
def pteRw : U64 := 1 <<< 1
def pteUs : U64 := 1 <<< 2
def pteA : U64 := 1 <<< 5
def pteD : U64 := 1 <<< 6
def ptePs : U64 := 1 <<< 7
def pteG : U64 := 1 <<< 8
def pteNx : U64 := 1 <<< 63

def legacy32Reserved4MbMask : U64 := 0x003f_e000

def ignoredAvlHighMask : U64 := 0x7ff <<< 52

end Mmu

def pfErrorCode (present : Bool) (access : AccessType) (isUser rsvd : Bool) : U32 :=
  (if present then 1 <<< 0 else 0) |||
  (if access.isWrite then 1 <<< 1 else 0) |||
  (if isUser then 1 <<< 2 else 0) |||
  (if rsvd then 1 <<< 3 else 0) |||
  (if access.isExecute then 1 <<< 4 else 0)

def isCanonical48 (vaddr : U64) : Bool :=
  (((vaddr >>> 47) + 1) &&& 0x1fffe) == 0

structure Mmu where
  cr0 : U64
  cr2 : U64
  cr3 : U64
  cr4 : U64
  efer : U64
  mode : PagingMode
  maxPhysBits : U8
  tlbPageSizes : TlbLookupPageSizes
  pcidEnabled : Bool
  pcid : U16
  tlb : Tlb

namespace Mmu

def cr4PseOn (mmu : Mmu) : Bool :=
  mmu.cr4 &&& cr4Pse != 0

def cr4PgeOn (mmu : Mmu) : Bool :=
  mmu.cr4 &&& cr4Pge != 0

def cr3NoFlush (mmu : Mmu) : Bool :=
  mmu.pcidEnabled && (mmu.cr3 >>> 63) &&& 1 != 0

def nxEnabled (mmu : Mmu) : Bool :=
  mmu.efer &&& eferNxe != 0

def wpEnabled (mmu : Mmu) : Bool :=
  mmu.cr0 &&& cr0Wp != 0

def physAddrMask (mmu : Mmu) : U64 :=
  if mmu.maxPhysBits = 64 then ~~~0 else (1 <<< mmu.maxPhysBits.toNat) - 1

def updateCachedState (mmu : Mmu) : Mmu :=
  let mode :=
    if mmu.cr0 &&& cr0Pg == 0 then .disabled
    else if mmu.cr4 &&& cr4Pae == 0 then .legacy32
    else if mmu.efer &&& eferLme != 0 then .long4
    else PagingMode.pae
  let tlbPageSizes :=
    if mmu.cr4 &&& cr4Pse == 0 then .only4K
    else match mode with
      | .disabled => .only4K
      | .legacy32 => .size4MAnd4K
      | .pae      => .size2MAnd4K
      | .long4    => TlbLookupPageSizes.size1G2MAnd4K
  let pcidEnabled := mmu.cr4 &&& cr4Pcide != 0
  let pcid := if pcidEnabled then (mmu.cr3 &&& 0xfff).setWidth 16 else 0
  { mmu with mode, tlbPageSizes, pcidEnabled, pcid }

def new : Mmu :=
  updateCachedState {
    cr0 := 0
    cr2 := 0
    cr3 := 0
    cr4 := 0
    efer := 0
    mode := .disabled
    maxPhysBits := 52
    tlbPageSizes := .only4K
    pcidEnabled := false
    pcid := 0
    tlb := .new
  }

def flushAll (mmu : Mmu) : Mmu :=
  { mmu with tlb := mmu.tlb.flushAll }

-- `none` is the failed assertion that `bits` is in `1..=52`.
def setMaxPhysBits (mmu : Mmu) (bits : U8) : Option Mmu :=
  if 1 ≤ bits.toNat ∧ bits.toNat ≤ 52 then
    some (if mmu.maxPhysBits ≠ bits then { mmu with maxPhysBits := bits }.flushAll else mmu)
  else
    none

def setCr0 (mmu : Mmu) (value : U64) : Mmu :=
  let next := { mmu with cr0 := value }
  let next := if (mmu.cr0 &&& cr0Pg != 0) != (value &&& cr0Pg != 0) then next.flushAll else next
  next.updateCachedState

def setCr3 (mmu : Mmu) (value : U64) : Mmu :=
  let mmu := { mmu with cr3 := value }.updateCachedState
  { mmu with
    tlb := mmu.tlb.onCr3Write mmu.cr4PgeOn mmu.pcidEnabled mmu.pcid mmu.cr3NoFlush }

def cr4Relevant : U64 :=
  cr4Pae ||| cr4Pse ||| cr4Pge ||| cr4Pcide

def setCr4 (mmu : Mmu) (value : U64) : Mmu :=
  let next := { mmu with cr4 := value }
  let next := if mmu.cr4 &&& cr4Relevant ≠ value &&& cr4Relevant then next.flushAll else next
  next.updateCachedState

def eferRelevant : U64 :=
  eferLme ||| eferNxe

def setEfer (mmu : Mmu) (value : U64) : Mmu :=
  let next := { mmu with efer := value }
  let next := if mmu.efer &&& eferRelevant ≠ value &&& eferRelevant then next.flushAll else next
  next.updateCachedState

def invlpg (mmu : Mmu) (vaddr : U64) : Mmu :=
  if mmu.pcidEnabled then { mmu with tlb := mmu.tlb.invalidateAddressPcid vaddr mmu.pcid true }
  else { mmu with tlb := mmu.tlb.invalidateAddressAll vaddr }

def invpcid (mmu : Mmu) (pcid : U16) (kind : InvpcidType) : Mmu :=
  { mmu with tlb := mmu.tlb.invpcid pcid kind }

abbrev WalkM := ExceptT PageFault (StateM PhysMem)

namespace WalkM

def readU32 (addr : U64) : WalkM U64 := do
  let mem ← get
  return (mem.read 32 4 addr).setWidth 64

def readU64 (addr : U64) : WalkM U64 := do
  let mem ← get
  return mem.read 64 8 addr

def writeU32 (addr value : U64) : WalkM Unit :=
  modify fun mem => mem.write 4 addr (value.setWidth 32)

def writeU64 (addr value : U64) : WalkM Unit :=
  modify fun mem => mem.write 8 addr value

end WalkM

open WalkM

def pageFaultNotPresent (vaddr : U64) (access : AccessType) (isUser : Bool) : PageFault where
  addr := vaddr
  errorCode := pfErrorCode false access isUser false

def pageFaultRsvd (vaddr : U64) (access : AccessType) (isUser : Bool) : PageFault where
  addr := vaddr
  errorCode := pfErrorCode true access isUser true

def pageFaultDenied (vaddr : U64) (access : AccessType) (isUser : Bool) : PageFault where
  addr := vaddr
  errorCode := pfErrorCode true access isUser false

structure EntryAccessContext where
  vaddr : U64
  access : AccessType
  isUser : Bool

-- What the entries seen so far allow.
structure Rights where
  user : Bool
  writable : Bool
  nx : Bool
  deriving DecidableEq, Repr

def Rights.denies (r : Rights) (wp : Bool) (access : AccessType) (isUser : Bool) : Bool :=
  (isUser && !r.user) ||
  (access.isWrite && !r.writable && (isUser || wp)) ||
  (access.isExecute && r.nx)

def checkPerms (mmu : Mmu) (ctx : EntryAccessContext) (r : Rights) : WalkM Unit :=
  if r.denies mmu.wpEnabled ctx.access ctx.isUser then
    throw (pageFaultDenied ctx.vaddr ctx.access ctx.isUser)
  else
    pure ()

def hasReservedBits64 (mmu : Mmu) (entry : U64) (kind : EntryKind64) : Bool :=
  if entry &&& pteP == 0 then false
  else if !mmu.nxEnabled && entry &&& pteNx != 0 then true
  else if (kind == .pml4e || kind == .pdptePae) && entry &&& ptePs != 0 then true
  else
    let nx := if mmu.nxEnabled then pteNx else 0
    if kind = .pdptePae then
      let allowedFlags := pteP ||| (1 <<< 3) ||| (1 <<< 4) ||| (0x7 <<< 9)
      let allowedAddr := mmu.physAddrMask &&& ~~~0xfff
      entry &&& ~~~(allowedFlags ||| allowedAddr ||| (0x7ff <<< 52) ||| nx) != 0
    else
      let large := entry &&& ptePs != 0
      let pageAlign : U64 :=
        match kind with
        | .pml4e | .pdptePae   => 0x1000
        | .pdpteLong           => if large then PageSize.size1G.bytes else 0x1000
        | .pdePae | .pdeLong   => if large then PageSize.size2M.bytes else 0x1000
        | .ptePae | .pteLong   => 0x1000
      let allowedAddr := mmu.physAddrMask &&& ~~~(pageAlign - 1)
      entry &&& ~~~(allowedAddr ||| 0x1fff ||| ignoredAvlHighMask ||| nx) != 0

def checkEntry32 (addr entry : U64) : WalkM (Option U64) := do
  if entry &&& pteP == 0 then return none
  else if entry &&& pteA == 0 then
    writeU32 addr (entry ||| pteA)
    return some (entry ||| pteA)
  else
    return some entry

def checkEntry32Probe (entry : U64) : WalkM (Option U64) :=
  pure (if entry &&& pteP == 0 then none else some entry)

def checkEntry64 (mmu : Mmu) (addr entry : U64) (ctx : EntryAccessContext) (kind : EntryKind64) :
    WalkM (Option U64) := do
  if entry &&& pteP == 0 then return none
  else if mmu.hasReservedBits64 entry kind then
    throw (pageFaultRsvd ctx.vaddr ctx.access ctx.isUser)
  else if kind != .pdptePae && entry &&& pteA == 0 then
    writeU64 addr (entry ||| pteA)
    return some (entry ||| pteA)
  else
    return some entry

def checkEntry64Probe (mmu : Mmu) (entry : U64) (ctx : EntryAccessContext) (kind : EntryKind64) :
    WalkM (Option U64) := do
  if entry &&& pteP == 0 then return none
  else if mmu.hasReservedBits64 entry kind then
    throw (pageFaultRsvd ctx.vaddr ctx.access ctx.isUser)
  else
    return some entry

def present (ctx : EntryAccessContext) : Option U64 → WalkM U64
  | some entry => pure entry
  | none       => throw (pageFaultNotPresent ctx.vaddr ctx.access ctx.isUser)

def entry64 (mmu : Mmu) (addr : U64) (ctx : EntryAccessContext) (kind : EntryKind64) :
    WalkM U64 := do
  let entry ← readU64 addr
  present ctx (← mmu.checkEntry64 addr entry ctx kind)

def entry64Probe (mmu : Mmu) (addr : U64) (ctx : EntryAccessContext) (kind : EntryKind64) :
    WalkM U64 := do
  let entry ← readU64 addr
  present ctx (← mmu.checkEntry64Probe entry ctx kind)

def updateEntry (is64 : Bool) (addr entry new : U64) : WalkM Unit :=
  if new ≠ entry then if is64 then writeU64 addr new else writeU32 addr new
  else pure ()

-- The last part of every walk: the permission check, the dirty bit and the entry for the TLB.
def leaf (mmu : Mmu) (ctx : EntryAccessContext) (is64 : Bool) (leafAddr entry pbase : U64)
    (pageSize : PageSize) (r : Rights) : WalkM (TlbEntry × U64) := do
  mmu.checkPerms ctx r
  let new := if ctx.access.isWrite then entry ||| pteD else entry
  updateEntry is64 leafAddr entry new
  let vbase := pageSize.base ctx.vaddr
  let attrs : TlbEntryAttributes := {
    user := r.user
    writable := r.writable
    nx := r.nx
    global := mmu.cr4PgeOn && entry &&& pteG != 0
    leafAddr
    leafIs64 := is64
    dirty := new &&& pteD != 0
  }
  return (.new vbase pbase pageSize mmu.pcid attrs, pbase + (ctx.vaddr - vbase))

def leafProbe (mmu : Mmu) (ctx : EntryAccessContext) (pbase : U64) (pageSize : PageSize)
    (r : Rights) : WalkM U64 := do
  mmu.checkPerms ctx r
  return pbase + (ctx.vaddr - pageSize.base ctx.vaddr)

def Rights.restrict (r : Rights) (nxEnabled : Bool) (entry : U64) : Rights where
  user := r.user && entry &&& pteUs != 0
  writable := r.writable && entry &&& pteRw != 0
  nx := r.nx || nxEnabled && entry &&& pteNx != 0

def Rights.all : Rights where
  user := true
  writable := true
  nx := false

def entryAddr (base vaddr : U64) (shift : Nat) (mask size : U64) : U64 :=
  base + ((vaddr >>> shift) &&& mask) * size

def checkPde32 (mmu : Mmu) (ctx : EntryAccessContext) (pdeRaw : U64) : WalkM Unit :=
  let pdePs := pdeRaw &&& ptePs != 0
  if pdeRaw &&& pteP == 0 then throw (pageFaultNotPresent ctx.vaddr ctx.access ctx.isUser)
  else if pdePs && !mmu.cr4PseOn then throw (pageFaultRsvd ctx.vaddr ctx.access ctx.isUser)
  else if pdePs && pdeRaw &&& legacy32Reserved4MbMask != 0 then
    throw (pageFaultRsvd ctx.vaddr ctx.access ctx.isUser)
  else
    pure ()

def walkLegacy32 (mmu : Mmu) (ctx : EntryAccessContext) : WalkM (TlbEntry × U64) := do
  let pdBase := (mmu.cr3 &&& 0xffff_ffff) &&& ~~~0xfff
  let pdeAddr := entryAddr pdBase ctx.vaddr 22 0x3ff 4
  let pdeRaw ← readU32 pdeAddr
  mmu.checkPde32 ctx pdeRaw
  let pdePs := pdeRaw &&& ptePs != 0
  -- the entry is present, so the `expect` on this check never fails
  let pde ← present ctx (← checkEntry32 pdeAddr pdeRaw)
  let r := Rights.all.restrict false pde
  if pdePs then mmu.leaf ctx false pdeAddr pde (pde &&& 0xffc0_0000) .size4M r
  else
    let ptBase := pde &&& 0xffff_f000
    let pteAddr := entryAddr ptBase ctx.vaddr 12 0x3ff 4
    let pteRaw ← readU32 pteAddr
    let pte ← present ctx (← checkEntry32 pteAddr pteRaw)
    mmu.leaf ctx false pteAddr pte (pte &&& 0xffff_f000) .size4K (r.restrict false pte)

def walkLegacy32Probe (mmu : Mmu) (ctx : EntryAccessContext) : WalkM U64 := do
  let pdBase := (mmu.cr3 &&& 0xffff_ffff) &&& ~~~0xfff
  let pdeAddr := entryAddr pdBase ctx.vaddr 22 0x3ff 4
  let pdeRaw ← readU32 pdeAddr
  mmu.checkPde32 ctx pdeRaw
  let pdePs := pdeRaw &&& ptePs != 0
  let r := Rights.all.restrict false pdeRaw
  if pdePs then mmu.leafProbe ctx (pdeRaw &&& 0xffc0_0000) .size4M r
  else
    let ptBase := pdeRaw &&& 0xffff_f000
    let pteAddr := entryAddr ptBase ctx.vaddr 12 0x3ff 4
    let pteRaw ← readU32 pteAddr
    let pte ← present ctx (← checkEntry32Probe pteRaw)
    mmu.leafProbe ctx (pte &&& 0xffff_f000) .size4K (r.restrict false pte)

-- The entries of the page directory pointer table only contribute NX.
def Rights.restrictNx (r : Rights) (nxEnabled : Bool) (entry : U64) : Rights :=
  { r with nx := r.nx || nxEnabled && entry &&& pteNx != 0 }

def nextTable (mmu : Mmu) (entry : U64) : U64 :=
  (entry &&& mmu.physAddrMask) &&& ~~~0xfff

def largeFrame (mmu : Mmu) (entry : U64) (pageSize : PageSize) : U64 :=
  (entry &&& mmu.physAddrMask) &&& ~~~(pageSize.bytes - 1)

def walkPae (mmu : Mmu) (ctx : EntryAccessContext) : WalkM (TlbEntry × U64) := do
  let pdptBase := (mmu.cr3 &&& 0xffff_ffff) &&& ~~~0x1f
  let pdpteAddr := entryAddr pdptBase ctx.vaddr 30 0x3 8
  let pdpte ← mmu.entry64 pdpteAddr ctx .pdptePae
  let r := Rights.all.restrictNx mmu.nxEnabled pdpte
  let pdeAddr := entryAddr (mmu.nextTable pdpte) ctx.vaddr 21 0x1ff 8
  let pde ← mmu.entry64 pdeAddr ctx .pdePae
  let r := r.restrict mmu.nxEnabled pde
  if pde &&& ptePs != 0 then mmu.leaf ctx true pdeAddr pde (mmu.largeFrame pde .size2M) .size2M r
  else
    let pteAddr := entryAddr (mmu.nextTable pde) ctx.vaddr 12 0x1ff 8
    let pte ← mmu.entry64 pteAddr ctx .ptePae
    mmu.leaf ctx true pteAddr pte (mmu.nextTable pte) .size4K (r.restrict mmu.nxEnabled pte)

def walkPaeProbe (mmu : Mmu) (ctx : EntryAccessContext) : WalkM U64 := do
  let pdptBase := (mmu.cr3 &&& 0xffff_ffff) &&& ~~~0x1f
  let pdpteAddr := entryAddr pdptBase ctx.vaddr 30 0x3 8
  let pdpte ← mmu.entry64Probe pdpteAddr ctx .pdptePae
  let r := Rights.all.restrictNx mmu.nxEnabled pdpte
  let pdeAddr := entryAddr (mmu.nextTable pdpte) ctx.vaddr 21 0x1ff 8
  let pde ← mmu.entry64Probe pdeAddr ctx .pdePae
  let r := r.restrict mmu.nxEnabled pde
  if pde &&& ptePs != 0 then mmu.leafProbe ctx (mmu.largeFrame pde .size2M) .size2M r
  else
    let pteAddr := entryAddr (mmu.nextTable pde) ctx.vaddr 12 0x1ff 8
    let pte ← mmu.entry64Probe pteAddr ctx .ptePae
    mmu.leafProbe ctx (mmu.nextTable pte) .size4K (r.restrict mmu.nxEnabled pte)

-- `AERO_COW_FORCE_RW`: set the writable bit of an entry that does not have it.
def forceRw (addr entry : U64) : WalkM U64 := do
  if entry &&& pteRw == 0 then
    writeU64 addr (entry ||| pteRw)
    return entry ||| pteRw
  else
    return entry

def forceAllRw : List (U64 × U64) → WalkM Unit
  | []                    => pure ()
  | (addr, entry) :: rest => do
    let _ ← forceRw addr entry
    forceAllRw rest

-- The walk at the last entry. `cowForceRw` is `cow_force_rw_enabled()`, which reads the
-- environment, and `above` are the entries on the way with their addresses.
def leafLong4 (mmu : Mmu) (cowForceRw : Bool) (ctx : EntryAccessContext) (above : List (U64 × U64))
    (pteAddr pte : U64) (r : Rights) : WalkM (TlbEntry × U64) := do
  if ctx.access.isWrite && ctx.isUser && !r.writable && pte &&& pteP != 0 && pte &&& pteUs != 0 &&
      cowForceRw then
    let pte ← forceRw pteAddr pte
    forceAllRw above
    mmu.leaf ctx true pteAddr pte (mmu.nextTable pte) .size4K { r with writable := true }
  else
    mmu.leaf ctx true pteAddr pte (mmu.nextTable pte) .size4K r

def walkLong4 (mmu : Mmu) (cowForceRw : Bool) (ctx : EntryAccessContext) :
    WalkM (TlbEntry × U64) := do
  let pml4Base := (mmu.cr3 &&& mmu.physAddrMask) &&& ~~~0xfff
  let pml4eAddr := entryAddr pml4Base ctx.vaddr 39 0x1ff 8
  let pml4e ← mmu.entry64 pml4eAddr ctx .pml4e
  let r := Rights.all.restrict mmu.nxEnabled pml4e
  let pdpteAddr := entryAddr (mmu.nextTable pml4e) ctx.vaddr 30 0x1ff 8
  let pdpte ← mmu.entry64 pdpteAddr ctx .pdpteLong
  let r := r.restrict mmu.nxEnabled pdpte
  if pdpte &&& ptePs != 0 then
    mmu.leaf ctx true pdpteAddr pdpte (mmu.largeFrame pdpte .size1G) .size1G r
  else
    let pdeAddr := entryAddr (mmu.nextTable pdpte) ctx.vaddr 21 0x1ff 8
    let pde ← mmu.entry64 pdeAddr ctx .pdeLong
    let r := r.restrict mmu.nxEnabled pde
    if pde &&& ptePs != 0 then mmu.leaf ctx true pdeAddr pde (mmu.largeFrame pde .size2M) .size2M r
    else
      let pteAddr := entryAddr (mmu.nextTable pde) ctx.vaddr 12 0x1ff 8
      let pte ← mmu.entry64 pteAddr ctx .pteLong
      mmu.leafLong4 cowForceRw ctx [(pml4eAddr, pml4e), (pdpteAddr, pdpte), (pdeAddr, pde)] pteAddr
        pte (r.restrict mmu.nxEnabled pte)

def walkLong4Probe (mmu : Mmu) (ctx : EntryAccessContext) : WalkM U64 := do
  let pml4Base := (mmu.cr3 &&& mmu.physAddrMask) &&& ~~~0xfff
  let pml4eAddr := entryAddr pml4Base ctx.vaddr 39 0x1ff 8
  let pml4e ← mmu.entry64Probe pml4eAddr ctx .pml4e
  let r := Rights.all.restrict mmu.nxEnabled pml4e
  let pdpteAddr := entryAddr (mmu.nextTable pml4e) ctx.vaddr 30 0x1ff 8
  let pdpte ← mmu.entry64Probe pdpteAddr ctx .pdpteLong
  let r := r.restrict mmu.nxEnabled pdpte
  if pdpte &&& ptePs != 0 then mmu.leafProbe ctx (mmu.largeFrame pdpte .size1G) .size1G r
  else
    let pdeAddr := entryAddr (mmu.nextTable pdpte) ctx.vaddr 21 0x1ff 8
    let pde ← mmu.entry64Probe pdeAddr ctx .pdeLong
    let r := r.restrict mmu.nxEnabled pde
    if pde &&& ptePs != 0 then mmu.leafProbe ctx (mmu.largeFrame pde .size2M) .size2M r
    else
      let pteAddr := entryAddr (mmu.nextTable pde) ctx.vaddr 12 0x1ff 8
      let pte ← mmu.entry64Probe pteAddr ctx .pteLong
      mmu.leafProbe ctx (mmu.nextTable pte) .size4K (r.restrict mmu.nxEnabled pte)

inductive Linear
  | done (result : Except TranslateFault U64)
  | lookup (vaddr : U64)

def linear (mmu : Mmu) (vaddr : U64) : Linear :=
  match mmu.mode with
  | .disabled => .done (.ok (vaddr &&& 0xffff_ffff))
  | .legacy32 | .pae => .lookup ((vaddr.setWidth 32).setWidth 64)
  | .long4 => if isCanonical48 vaddr then .lookup vaddr else .done (.error (.nonCanonical vaddr))

def walk (mmu : Mmu) (cowForceRw : Bool) (ctx : EntryAccessContext) : WalkM (TlbEntry × U64) :=
  match mmu.mode with
  | .disabled | .legacy32 => mmu.walkLegacy32 ctx
  | .pae => mmu.walkPae ctx
  | .long4 => mmu.walkLong4 cowForceRw ctx

def walkProbe (mmu : Mmu) (ctx : EntryAccessContext) : WalkM U64 :=
  match mmu.mode with
  | .disabled | .legacy32 => mmu.walkLegacy32Probe ctx
  | .pae => mmu.walkPaeProbe ctx
  | .long4 => mmu.walkLong4Probe ctx

abbrev Translation := Except TranslateFault U64 × Mmu × PhysMem

def fault (mmu : Mmu) (pf : PageFault) : Except TranslateFault U64 × Mmu :=
  (.error (.pageFault pf), { mmu with cr2 := pf.addr })

def translateMiss (mmu : Mmu) (cowForceRw : Bool) (mem : PhysMem) (ctx : EntryAccessContext) :
    Translation :=
  match (mmu.walk cowForceRw ctx).run mem with
  | (.ok (entry, paddr), mem) =>
    (.ok paddr, { mmu with tlb := mmu.tlb.insert ctx.access.isExecute entry }, mem)
  | (.error pf, mem) =>
    let (r, mmu) := mmu.fault pf
    (r, mmu, mem)

-- `need_rewalk` of a write hit.
def needRewalk (mmu : Mmu) (entry : TlbEntry) (isUser : Bool) : Bool :=
  if isUser then !entry.user || !entry.writable else !entry.writable && mmu.wpEnabled

def setLeafDirty (mem : PhysMem) (entry : TlbEntry) : PhysMem :=
  if entry.leafIs64 then mem.write 8 entry.leafAddr (mem.read 64 8 entry.leafAddr ||| pteD)
  else mem.write 4 entry.leafAddr (mem.read 32 4 entry.leafAddr ||| pteD.setWidth 32)

def translateHit (mmu : Mmu) (cowForceRw : Bool) (mem : PhysMem) (ctx : EntryAccessContext)
    (slot : TlbSlot) (entry : TlbEntry) : Translation :=
  let denied : Translation :=
    let (r, mmu) := mmu.fault (pageFaultDenied ctx.vaddr ctx.access ctx.isUser)
    (r, mmu, mem)
  let paddr := entry.translate ctx.vaddr
  match ctx.access with
  | .read => if ctx.isUser && !entry.user then denied else (.ok paddr, mmu, mem)
  | .execute =>
    if ctx.isUser && !entry.user then denied
    else if entry.nx then denied
    else (.ok paddr, mmu, mem)
  | .write =>
    if mmu.needRewalk entry ctx.isUser then
      { mmu with tlb := mmu.tlb.invalidateAddressAll ctx.vaddr }.translateMiss cowForceRw mem ctx
    else if entry.dirty then (.ok paddr, mmu, mem)
    else
      (.ok paddr, { mmu with tlb := mmu.tlb.setDirtySlot slot }, setLeafDirty mem entry)

def translate (mmu : Mmu) (cowForceRw : Bool) (mem : PhysMem) (vaddr : U64) (access : AccessType)
    (cpl : U8) : Translation :=
  match mmu.linear vaddr with
  | .done r => (r, mmu, mem)
  | .lookup vaddr =>
    let ctx := { vaddr, access, isUser := cpl == 3 }
    match mmu.tlb.lookup vaddr access.isExecute mmu.pcid mmu.pcidEnabled mmu.tlbPageSizes with
    | some (slot, entry) => mmu.translateHit cowForceRw mem ctx slot entry
    | none => mmu.translateMiss cowForceRw mem ctx

def probeHit (mmu : Mmu) (ctx : EntryAccessContext) (entry : TlbEntry) :
    Except TranslateFault U64 :=
  let denied := .error (.pageFault (pageFaultDenied ctx.vaddr ctx.access ctx.isUser))
  let paddr := entry.translate ctx.vaddr
  match ctx.access with
  | .read => if ctx.isUser && !entry.user then denied else .ok paddr
  | .execute =>
    if ctx.isUser && !entry.user then denied
    else if entry.nx then denied
    else .ok paddr
  | .write =>
    if ctx.isUser then if !entry.user || !entry.writable then denied else .ok paddr
    else if !entry.writable && mmu.wpEnabled then denied
    else .ok paddr

def translateProbe (mmu : Mmu) (mem : PhysMem) (vaddr : U64) (access : AccessType) (cpl : U8) :
    Translation :=
  match mmu.linear vaddr with
  | .done r => (r, mmu, mem)
  | .lookup vaddr =>
    let ctx := { vaddr, access, isUser := cpl == 3 }
    match mmu.tlb.lookup vaddr access.isExecute mmu.pcid mmu.pcidEnabled mmu.tlbPageSizes with
    | some (_, entry) => (mmu.probeHit ctx entry, mmu, mem)
    | none =>
      let (r, mem) := (mmu.walkProbe ctx).run mem
      (r.mapError .pageFault, mmu, mem)

end Mmu

end Aero
