import Aero.Jit.CodeCache
import Aero.Jit.HotnessProfile

namespace Aero

structure JitConfig where
  enabled : Bool
  hotThreshold : Nat
  cacheMaxBlocks : Nat
  cacheMaxBytes : Nat
  codeVersionMaxPages : Nat
  deriving DecidableEq, Repr

structure JitRuntime where
  config : JitConfig
  cache : CodeCache
  profile : HotnessProfile
  pageVersions : PageVersionTracker
  -- The calls of `CompileRequestSink::request_compile`, the last one first.
  compileRequests : List U64

namespace JitRuntime

-- The backend may come with a page-version table. There is none if that table is too long.
def new (config : JitConfig) (codeVersionTable : Option (List U32)) : Option JitRuntime :=
  let make (pageVersions : PageVersionTracker) : JitRuntime := {
    config := { config with codeVersionMaxPages := pageVersions.versionsLen }
    cache := .new config.cacheMaxBlocks config.cacheMaxBytes
    profile := .newWithCapacity config.hotThreshold
      (HotnessProfile.recommendedCapacity config.cacheMaxBlocks)
    pageVersions := pageVersions
    compileRequests := [] }
  match codeVersionTable with
  | none       => some (make (.new config.codeVersionMaxPages))
  | some table =>
    if table.length ≤ PageVersionTracker.maxTrackedPages then some (make { table, generation := 0 })
    else none

variable (w : PointerWidth) (r : JitRuntime)

def onGuestWrite (paddr : U64) (len : Nat) : JitRuntime :=
  { r with pageVersions := r.pageVersions.bumpWrite paddr len }

def reset : JitRuntime :=
  { r with
    cache := r.cache.clear
    profile := r.profile.reset
    pageVersions := r.pageVersions.reset }

def snapshotMeta (codePaddr : U64) (byteLen : U32) : CompiledBlockMeta where
  codePaddr := codePaddr
  byteLen := byteLen
  pageVersionsGeneration := r.pageVersions.generation
  pageVersions := r.pageVersions.snapshot codePaddr byteLen
  instructionCount := 0
  inhibitInterruptsAfterBlock := false

def requestCompile (entryRip : U64) : JitRuntime :=
  { r with compileRequests := entryRip :: r.compileRequests }

def expectedPages (m : CompiledBlockMeta) : Nat :=
  if m.byteLen = 0 then 0
  else
    PageVersionTracker.endPage m.codePaddr m.byteLen.toNat -
      PageVersionTracker.startPage m.codePaddr + 1

def isBlockValid (h : CompiledBlockHandle) : Bool :=
  h.blockMeta.pageVersions.isEmpty ||
    (h.blockMeta.pageVersionsGeneration == r.pageVersions.generation &&
      expectedPages h.blockMeta ≤ h.blockMeta.pageVersions.length &&
      h.blockMeta.pageVersions.all fun s => r.pageVersions.version s.page == s.version)

def rejectStale (entryRip : U64) : Except CachePanic JitRuntime := do
  let (existing, cache) ← r.cache.getCloned entryRip
  let r := { r with cache := cache }
  match existing with
  | none   =>
    pure ({ r with profile := r.profile.markRequested entryRip }.requestCompile entryRip)
  | some h =>
    if r.isBlockValid h then pure r
    else
      let (_, cache) ← r.cache.remove entryRip
      let profile := (r.profile.clearRequested entryRip).markRequested entryRip
      pure ({ r with cache := cache, profile := profile }.requestCompile entryRip)

def installHandle (handle : CompiledBlockHandle) : Except CachePanic (List U64 × JitRuntime) := do
  if r.isBlockValid handle then
    let (evicted, cache) ← r.cache.insert w handle
    let profile := evicted.foldl HotnessProfile.clearRequested r.profile
    pure (evicted, { r with cache := cache, profile := profile })
  else
    let r ← r.rejectStale handle.entryRip
    pure ([], r)

def installBlock (entryRip : U64) (tableIndex : U32) (codePaddr : U64) (byteLen : U32) :
    Except CachePanic (List U64 × JitRuntime) :=
  r.installHandle w { entryRip, tableIndex, blockMeta := r.snapshotMeta codePaddr byteLen }

def invalidateBlock (entryRip : U64) : Except CachePanic (Bool × JitRuntime) := do
  let (removed, cache) ← r.cache.remove entryRip
  match removed with
  | none   => pure (false, { r with cache := cache })
  | some _ =>
    pure (true, { r with cache := cache, profile := r.profile.clearRequested entryRip })

-- The lookup in `prepare_block`. The flag says that a stale block was dropped.
def lookupBlock (entryRip : U64) :
    Except CachePanic (Option CompiledBlockHandle × Bool × JitRuntime) := do
  let (handle, cache) ← r.cache.getCloned entryRip
  let r := { r with cache := cache }
  match handle with
  | none   => pure (none, false, r)
  | some h =>
    if r.isBlockValid h then pure (some h, false, r)
    else
      let (_, cache) ← r.cache.remove entryRip
      let profile := (r.profile.clearRequested entryRip).markRequested entryRip
      pure (none, true, { r with cache := cache, profile := profile })

def prepareBlock (entryRip : U64) :
    Except CachePanic (Option CompiledBlockHandle × JitRuntime) := do
  if r.config.enabled then
    let (handle, stale, r) ← r.lookupBlock entryRip
    let (hot, profile) := r.profile.recordHit entryRip handle.isSome
    let r := { r with profile := profile }
    pure (handle, if stale || hot then r.requestCompile entryRip else r)
  else
    pure (none, r)

end JitRuntime

inductive RuntimeOp
  | snapshotMeta (codePaddr : U64) (byteLen : U32)
  | onGuestWrite (paddr : U64) (len : Nat)
  | installHandle (handle : CompiledBlockHandle)
  | installBlock (entryRip : U64) (tableIndex : U32) (codePaddr : U64) (byteLen : U32)
  | invalidateBlock (entryRip : U64)
  | prepareBlock (entryRip : U64)
  | reset
  deriving DecidableEq, Repr

namespace JitRuntime

variable (w : PointerWidth)

def apply (r : JitRuntime) : RuntimeOp → Except CachePanic JitRuntime
  | .snapshotMeta _ _           => pure r
  | .onGuestWrite paddr len     => pure (r.onGuestWrite paddr len)
  | .installHandle h            => do let (_, r) ← r.installHandle w h; pure r
  | .installBlock rip idx p len => do let (_, r) ← r.installBlock w rip idx p len; pure r
  | .invalidateBlock rip        => do let (_, r) ← r.invalidateBlock rip; pure r
  | .prepareBlock rip           => do let (_, r) ← r.prepareBlock rip; pure r
  | .reset                      => pure r.reset

def applyAll (r : JitRuntime) : List RuntimeOp → Except CachePanic JitRuntime
  | []        => pure r
  | op :: ops => do
    let r ← r.apply w op
    applyAll r ops

end JitRuntime

end Aero
