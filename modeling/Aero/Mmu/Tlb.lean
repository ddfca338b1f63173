import Mathlib.Data.List.ProdSigma
import Aero.Types

namespace Aero

inductive PageSize
  | size4K
  | size2M
  | size4M
  | size1G
  deriving DecidableEq, Repr

def PageSize.bytes : PageSize → U64
  | size4K => 4 * 1024
  | size2M => 2 * 1024 * 1024
  | size4M => 4 * 1024 * 1024
  | size1G => 1024 * 1024 * 1024

def PageSize.base (size : PageSize) (vaddr : U64) : U64 :=
  vaddr &&& ~~~(size.bytes - 1)

inductive TlbLookupPageSizes
  | only4K
  | size2MAnd4K
  | size4MAnd4K
  | size1G2MAnd4K
  deriving DecidableEq, Repr

structure TlbEntryAttributes where
  user : Bool
  writable : Bool
  nx : Bool
  global : Bool
  leafAddr : U64
  leafIs64 : Bool
  dirty : Bool

-- The bits of `flags` are fields of their own.
structure TlbEntry where
  vbase : U64
  paddrDelta : U64
  leafAddr : U64
  pcid : U16
  user : Bool
  writable : Bool
  nx : Bool
  global : Bool
  leafIs64 : Bool
  dirty : Bool
  valid : Bool
  pageSize : PageSize
  deriving DecidableEq, Repr

namespace TlbEntry

def default : TlbEntry where
  vbase := 0
  paddrDelta := 0
  leafAddr := 0
  pcid := 0
  user := false
  writable := false
  nx := false
  global := false
  leafIs64 := false
  dirty := false
  valid := false
  pageSize := .size4K

def new (vbase pbase : U64) (pageSize : PageSize) (pcid : U16) (attrs : TlbEntryAttributes) :
    TlbEntry where
  vbase := vbase
  paddrDelta := pbase - vbase
  leafAddr := attrs.leafAddr
  pcid := pcid
  user := attrs.user
  writable := attrs.writable
  nx := attrs.nx
  global := attrs.global
  leafIs64 := attrs.leafIs64
  dirty := attrs.dirty
  valid := true
  pageSize := pageSize

def translate (e : TlbEntry) (vaddr : U64) : U64 :=
  vaddr + e.paddrDelta

def matchesPcid (e : TlbEntry) (pcidEnabled : Bool) (pcid : U16) : Bool :=
  if pcidEnabled then e.valid && (e.global || e.pcid == pcid) else e.valid

def invalidate (e : TlbEntry) : TlbEntry :=
  { e with valid := false }

def setDirty (e : TlbEntry) : TlbEntry :=
  { e with dirty := true }

end TlbEntry

-- A set (one of 64) and a way in it (one of 4).
abbrev TlbSlot := Fin (2 ^ 6) × Fin 4

def setIndex (tag : U64) : Fin (2 ^ 6) :=
  ((tag ^^^ (tag >>> 17) ^^^ (tag >>> 35)).setWidth 6).toFin

structure TlbSet where
  entries : TlbSlot → TlbEntry
  nextWay : Fin (2 ^ 6) → U8
  count1G : Nat
  count4M : Nat
  count2M : Nat

namespace TlbSet

def new : TlbSet where
  entries _ := .default
  nextWay _ := 0
  count1G := 0
  count4M := 0
  count2M := 0

def slots : List TlbSlot :=
  (List.finRange (2 ^ 6)).product (List.finRange 4)

def setEntry (t : TlbSet) (slot : TlbSlot) (e : TlbEntry) : TlbSet :=
  { t with entries := fun s => if s = slot then e else t.entries s }

def incCount (t : TlbSet) : PageSize → TlbSet
  | .size1G => { t with count1G := t.count1G + 1 }
  | .size4M => { t with count4M := t.count4M + 1 }
  | .size2M => { t with count2M := t.count2M + 1 }
  | .size4K => t

def decCount (t : TlbSet) : PageSize → TlbSet
  | .size1G => { t with count1G := t.count1G - 1 }
  | .size4M => { t with count4M := t.count4M - 1 }
  | .size2M => { t with count2M := t.count2M - 1 }
  | .size4K => t

def resetCounts (t : TlbSet) : TlbSet :=
  { t with count1G := 0, count4M := 0, count2M := 0 }

def findWay (t : TlbSet) (set : Fin (2 ^ 6)) (p : TlbEntry → Bool) : Option TlbSlot :=
  ((List.finRange 4).find? fun way => p (t.entries (set, way))).map fun way => (set, way)

-- The macro `lookup_page_size!`.
def lookupPageSize (t : TlbSet) (vaddr : U64) (pcid : U16) (pcidEnabled : Bool)
    (pageSize : PageSize) : Option TlbSlot :=
  let vbase := pageSize.base vaddr
  t.findWay (setIndex (vbase >>> 12)) fun e =>
    e.pageSize == pageSize && e.vbase == vbase && e.matchesPcid pcidEnabled pcid

def lookup (t : TlbSet) (vaddr : U64) (pcid : U16) (pcidEnabled : Bool)
    (pageSizes : TlbLookupPageSizes) : Option TlbSlot :=
  if t.count1G = 0 ∧ t.count2M = 0 ∧ t.count4M = 0 then
    let vbase := vaddr &&& ~~~0xfff
    t.findWay (setIndex (vaddr >>> 12)) fun e =>
      e.vbase == vbase && e.matchesPcid pcidEnabled pcid
  else
    let probe := t.lookupPageSize vaddr pcid pcidEnabled
    match pageSizes with
    | .only4K => probe .size4K
    | .size2MAnd4K => (if t.count2M ≠ 0 then probe .size2M else none) <|> probe .size4K
    | .size4MAnd4K => (if t.count4M ≠ 0 then probe .size4M else none) <|> probe .size4K
    | .size1G2MAnd4K =>
      (if t.count1G ≠ 0 then probe .size1G else none) <|>
      (if t.count2M ≠ 0 then probe .size2M else none) <|> probe .size4K

def place (t : TlbSet) (slot : TlbSlot) (e : TlbEntry) : TlbSet :=
  let old := t.entries slot
  let t := if old.valid then t.decCount old.pageSize else t
  (t.setEntry slot e).incCount e.pageSize

def insert (t : TlbSet) (e : TlbEntry) : TlbSet :=
  let set := setIndex (e.vbase >>> 12)
  let same := t.findWay set fun cur =>
    cur.valid && cur.vbase == e.vbase && cur.pageSize == e.pageSize &&
      (cur.global || cur.pcid == e.pcid)
  match same with
  | some slot => t.setEntry slot e
  | none =>
    let way := (t.nextWay set).setWidth 2 |>.toFin
    let t := { t with nextWay := fun s => if s = set then t.nextWay set + 1 else t.nextWay s }
    t.place (set, way) e

def invalidateSlot (vbase : U64) (pageSize : PageSize) (drop : TlbEntry → Bool) (t : TlbSet)
    (way : Fin 4) : TlbSet :=
  let slot := (setIndex (vbase >>> 12), way)
  let e := t.entries slot
  if e.valid && e.vbase == vbase && e.pageSize == pageSize && drop e then
    (t.setEntry slot e.invalidate).decCount pageSize
  else
    t

-- The loops over the page sizes and ways that `invalidate_address_all` and
-- `invalidate_address_pcid` have in common.
def invalidateAddress (t : TlbSet) (vaddr : U64) (drop : TlbEntry → Bool) : TlbSet :=
  [PageSize.size1G, .size4M, .size2M, .size4K].foldl (fun t pageSize =>
    (List.finRange 4).foldl (invalidateSlot (pageSize.base vaddr) pageSize drop) t) t

def invalidateAddressAll (t : TlbSet) (vaddr : U64) : TlbSet :=
  t.invalidateAddress vaddr fun _ => true

def invalidateAddressPcid (t : TlbSet) (vaddr : U64) (pcid : U16) (includeGlobal : Bool) : TlbSet :=
  t.invalidateAddress vaddr fun e => if e.global then includeGlobal else e.pcid == pcid

def flushAll (t : TlbSet) : TlbSet :=
  { t.resetCounts with entries := fun s => (t.entries s).invalidate }

def flushSlot (drop : TlbEntry → Bool) (t : TlbSet) (slot : TlbSlot) : TlbSet :=
  let e := t.entries slot
  if e.valid then if drop e then t.setEntry slot e.invalidate else t.incCount e.pageSize
  else t

def flushIf (t : TlbSet) (drop : TlbEntry → Bool) : TlbSet :=
  slots.foldl (flushSlot drop) t.resetCounts

def flushNonGlobal (t : TlbSet) : TlbSet :=
  t.flushIf fun e => !e.global

def flushPcid (t : TlbSet) (pcid : U16) (includeGlobal : Bool) : TlbSet :=
  t.flushIf fun e => if e.global then includeGlobal else e.pcid == pcid

def setDirtyHit (t : TlbSet) (slot : TlbSlot) : TlbSet :=
  t.setEntry slot (t.entries slot).setDirty

end TlbSet

inductive InvpcidType
  | individualAddress (vaddr : U64)
  | singleContext
  | allIncludingGlobal
  | allExcludingGlobal
  deriving DecidableEq, Repr

structure Tlb where
  itlb : TlbSet
  dtlb : TlbSet

namespace Tlb

def new : Tlb where
  itlb := .new
  dtlb := .new

def bank (t : Tlb) (isExec : Bool) : TlbSet :=
  if isExec then t.itlb else t.dtlb

def map (t : Tlb) (f : TlbSet → TlbSet) : Tlb where
  itlb := f t.itlb
  dtlb := f t.dtlb

def lookup (t : Tlb) (vaddr : U64) (isExec : Bool) (pcid : U16) (pcidEnabled : Bool)
    (pageSizes : TlbLookupPageSizes) : Option (TlbSlot × TlbEntry) :=
  ((t.bank isExec).lookup vaddr pcid pcidEnabled pageSizes).map fun slot =>
    (slot, (t.bank isExec).entries slot)

def insert (t : Tlb) (isExec : Bool) (e : TlbEntry) : Tlb :=
  if isExec then { t with itlb := t.itlb.insert e } else { t with dtlb := t.dtlb.insert e }

def invalidateAddressAll (t : Tlb) (vaddr : U64) : Tlb :=
  t.map (·.invalidateAddressAll vaddr)

def invalidateAddressPcid (t : Tlb) (vaddr : U64) (pcid : U16) (includeGlobal : Bool) : Tlb :=
  t.map (·.invalidateAddressPcid vaddr pcid includeGlobal)

def setDirtySlot (t : Tlb) (slot : TlbSlot) : Tlb :=
  { t with dtlb := t.dtlb.setDirtyHit slot }

def flushAll (t : Tlb) : Tlb :=
  t.map TlbSet.flushAll

def onCr3Write (t : Tlb) (pge pcidEnabled : Bool) (newPcid : U16) (noFlush : Bool) : Tlb :=
  if pcidEnabled then if noFlush then t else t.map (·.flushPcid newPcid false)
  else if pge then t.map TlbSet.flushNonGlobal
  else t.flushAll

def invpcid (t : Tlb) (pcid : U16) : InvpcidType → Tlb
  | .individualAddress vaddr => t.invalidateAddressPcid vaddr pcid false
  | .singleContext => t.map (·.flushPcid pcid false)
  | .allIncludingGlobal => t.flushAll
  | .allExcludingGlobal => t.map TlbSet.flushNonGlobal

end Tlb

end Aero
