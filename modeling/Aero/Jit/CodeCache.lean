import Aero.Jit.PageVersions
import Mathlib.Data.List.AList

namespace Aero

structure CompiledBlockMeta where
  codePaddr : U64
  byteLen : U32
  pageVersionsGeneration : U64
  pageVersions : List PageVersionSnapshot
  instructionCount : U32
  inhibitInterruptsAfterBlock : Bool
  deriving DecidableEq, Repr

structure CompiledBlockHandle where
  entryRip : U64
  tableIndex : U32
  blockMeta : CompiledBlockMeta
  deriving DecidableEq, Repr

def CompiledBlockHandle.byteLen (h : CompiledBlockHandle) : Nat :=
  h.blockMeta.byteLen.toNat

structure LruNode where
  entryRip : U64
  handle : CompiledBlockHandle
  prev : Option Nat
  next : Option Nat
  deriving DecidableEq, Repr

structure CodeCache where
  maxBlocks : Nat
  maxBytes : Nat
  currentBytes : Nat
  -- Entry RIP to node index.
  map : AList fun _ : U64 => Nat
  nodes : List (Option LruNode)
  -- Recycled indices inside `nodes`, used from the end.
  freeList : List Nat
  head : Option Nat
  tail : Option Nat

-- The `expect` calls of the cache, the bounds check of `nodes[idx]`, and a loop in
-- `evict_if_needed` that runs more often than there are entries.
inductive CachePanic
  | mapEntryNode
  | lruTail
  | removedNode
  | lruNode
  | prevNode
  | nextNode
  | oldHead
  | indexOutOfBounds
  | evictionDiverges
  deriving DecidableEq, Repr

namespace CodeCache

variable (w : PointerWidth) (c : CodeCache)

def new (maxBlocks maxBytes : Nat) : CodeCache where
  maxBlocks := maxBlocks
  maxBytes := maxBytes
  currentBytes := 0
  map := ∅
  nodes := []
  freeList := []
  head := none
  tail := none

def len : Nat :=
  c.map.keys.length

def contains (entryRip : U64) : Bool :=
  (c.map.lookup entryRip).isSome

def node (idx : Nat) (message : CachePanic) : Except CachePanic LruNode :=
  match c.nodes[idx]? with
  | none          => throw .indexOutOfBounds
  | some none     => throw message
  | some (some n) => pure n

def modifyNode (idx : Nat) (message : CachePanic) (f : LruNode → LruNode) :
    Except CachePanic CodeCache := do
  let n ← c.node idx message
  pure { c with nodes := c.nodes.set idx (some (f n)) }

-- `match link { Some(idx) => nodes[idx].as_mut().expect(..), None => .. }`: the node that a link
-- refers to is changed. Without a link it is an end of the list that changes.
def followLink (link : Option Nat) (message : CachePanic) (f : LruNode → LruNode)
    (atEnd : CodeCache) : Except CachePanic CodeCache :=
  match link with
  | some idx => c.modifyNode idx message f
  | none     => pure atEnd

def unlink (idx : Nat) : Except CachePanic CodeCache := do
  let n ← c.node idx .lruNode
  let c ← c.followLink n.prev .prevNode (fun m => { m with next := n.next }) { c with head := n.next }
  let c ← c.followLink n.next .nextNode (fun m => { m with prev := n.prev }) { c with tail := n.prev }
  c.modifyNode idx .lruNode fun m => { m with prev := none, next := none }

def linkFront (idx : Nat) : Except CachePanic CodeCache := do
  let oldHead := c.head
  let c ← c.modifyNode idx .lruNode fun m => { m with prev := none, next := oldHead }
  let c ← c.followLink oldHead .oldHead (fun m => { m with prev := some idx })
    { c with tail := some idx }
  pure { c with head := some idx }

def touchIdx (idx : Nat) : Except CachePanic CodeCache := do
  if c.head = some idx then pure c
  else
    let c ← c.unlink idx
    c.linkFront idx

def allocNode (n : LruNode) : Except CachePanic (Nat × CodeCache) :=
  match c.freeList.getLast? with
  | some idx =>
    if idx < c.nodes.length then
      pure (idx, { c with nodes := c.nodes.set idx (some n), freeList := c.freeList.dropLast })
    else
      throw .indexOutOfBounds
  | none => pure (c.nodes.length, { c with nodes := c.nodes ++ [some n] })

def removeIdx (idx : Nat) : Except CachePanic (LruNode × CodeCache) := do
  let c ← c.unlink idx
  let n ← c.node idx .removedNode
  pure (n, { c with
    nodes := c.nodes.set idx none
    freeList := c.freeList ++ [idx]
    currentBytes := c.currentBytes - n.handle.byteLen })

def remove (entryRip : U64) : Except CachePanic (Option CompiledBlockHandle × CodeCache) :=
  match c.map.lookup entryRip with
  | none     => pure (none, c)
  | some idx => do
    let (n, c) ← { c with map := c.map.erase entryRip }.removeIdx idx
    pure (some n.handle, c)

def overLimits : Bool :=
  c.maxBlocks < c.len || (c.maxBytes != 0 && c.maxBytes < c.currentBytes)

-- The loop of `evict_if_needed`, for at most `fuel` tests of its condition.
def evictLoop : Nat → CodeCache → List U64 → Except CachePanic (List U64 × CodeCache)
  | 0,        _, _       => throw .evictionDiverges
  | fuel + 1, c, evicted =>
    if c.overLimits then
      match c.tail with
      | none     => pure (evicted, c)
      | some idx => do
        let n ← c.node idx .lruTail
        let (_, c) ← c.remove n.entryRip
        evictLoop fuel c (evicted ++ [n.entryRip])
    else
      pure (evicted, c)

def evictIfNeeded : Except CachePanic (List U64 × CodeCache) :=
  evictLoop (c.len + 1) c []

def getCloned (entryRip : U64) : Except CachePanic (Option CompiledBlockHandle × CodeCache) :=
  match c.map.lookup entryRip with
  | none     => pure (none, c)
  | some idx => do
    let c ← c.touchIdx idx
    let n ← c.node idx .mapEntryNode
    pure (some n.handle, c)

def insert (handle : CompiledBlockHandle) : Except CachePanic (List U64 × CodeCache) := do
  let entryRip := handle.entryRip
  match c.map.lookup entryRip with
  | none =>
    let c := { c with currentBytes := w.saturatingAdd c.currentBytes handle.byteLen }
    let (idx, c) ← c.allocNode { entryRip, handle, prev := none, next := none }
    let c ← { c with map := c.map.insert entryRip idx }.linkFront idx
    c.evictIfNeeded
  | some idx =>
    let n ← c.node idx .mapEntryNode
    let c := { c with currentBytes := c.currentBytes - n.handle.byteLen }
    let c := { c with currentBytes := w.saturatingAdd c.currentBytes handle.byteLen }
    let c ← c.modifyNode idx .mapEntryNode fun m => { m with handle }
    let c ← c.touchIdx idx
    c.evictIfNeeded

def clear : CodeCache :=
  { c with
    currentBytes := 0
    map := ∅
    nodes := []
    freeList := []
    head := none
    tail := none }

end CodeCache

inductive CacheOp
  | insert (handle : CompiledBlockHandle)
  | getCloned (entryRip : U64)
  | remove (entryRip : U64)
  | clear
  deriving DecidableEq, Repr

inductive CacheResult
  | evicted (keys : List U64)
  | handle (h : Option CompiledBlockHandle)
  | cleared
  deriving DecidableEq, Repr

namespace CodeCache

variable (w : PointerWidth)

def apply (c : CodeCache) : CacheOp → Except CachePanic (CacheResult × CodeCache)
  | .insert handle      => do let (keys, c) ← c.insert w handle; pure (.evicted keys, c)
  | .getCloned entryRip => do let (h, c) ← c.getCloned entryRip; pure (.handle h, c)
  | .remove entryRip    => do let (h, c) ← c.remove entryRip; pure (.handle h, c)
  | .clear              => pure (.cleared, c.clear)

def applyAll (c : CodeCache) : List CacheOp → Except CachePanic (List CacheResult × CodeCache)
  | []        => pure ([], c)
  | op :: ops => do
    let (r, c) ← c.apply w op
    let (rs, c) ← applyAll c ops
    pure (r :: rs, c)

end CodeCache

end Aero
