import Aero.Jit.CodeCache
import Aero.Lib.Lru

namespace Aero

-- The reference model of the code cache in its tests (`tests/code_cache.rs`), with the map and the
-- queue of keys as one list of handles. The sizes are accounted for as in the cache.
structure RefCache where
  maxBlocks : Nat
  maxBytes : Nat
  currentBytes : Nat
  -- Most recent first.
  lru : List CompiledBlockHandle
  deriving DecidableEq, Repr

namespace RefCache

variable (w : PointerWidth) (r : RefCache)

def lookup (entryRip : U64) : Option CompiledBlockHandle :=
  Lru.lookup CompiledBlockHandle.entryRip entryRip r.lru

def without (entryRip : U64) : List CompiledBlockHandle :=
  Lru.without CompiledBlockHandle.entryRip entryRip r.lru

def limits : Lru.Limits where
  maxEntries := r.maxBlocks
  maxSize := r.maxBytes

def evictOldest (limits : Lru.Limits) :
    Nat → List CompiledBlockHandle → List U64 × Nat × List CompiledBlockHandle
  | bytes, []     => ([], bytes, [])
  | bytes, h :: l =>
    if limits.exceeded (l.length + 1) bytes then
      let (evicted, bytes, l) := evictOldest limits (bytes - h.byteLen) l
      (h.entryRip :: evicted, bytes, l)
    else
      ([], bytes, h :: l)

def evictIfNeeded : List U64 × RefCache :=
  let (evicted, bytes, l) := evictOldest r.limits r.currentBytes r.lru.reverse
  (evicted, { r with currentBytes := bytes, lru := l.reverse })

def get (entryRip : U64) : Option CompiledBlockHandle × RefCache :=
  match r.lookup entryRip with
  | none   => (none, r)
  | some h => (some h, { r with lru := h :: r.without entryRip })

def insert (handle : CompiledBlockHandle) : List U64 × RefCache :=
  let bytes :=
    match r.lookup handle.entryRip with
    | none      => r.currentBytes
    | some prev => r.currentBytes - prev.byteLen
  evictIfNeeded { r with
    currentBytes := w.saturatingAdd bytes handle.byteLen
    lru := handle :: r.without handle.entryRip }

def remove (entryRip : U64) : Option CompiledBlockHandle × RefCache :=
  match r.lookup entryRip with
  | none   => (none, r)
  | some h => (some h, { r with
    currentBytes := r.currentBytes - h.byteLen
    lru := r.without entryRip })

def clear : RefCache :=
  { r with currentBytes := 0, lru := [] }

def apply : CacheOp → CacheResult × RefCache
  | .insert handle      => let (keys, r) := r.insert w handle; (.evicted keys, r)
  | .getCloned entryRip => let (h, r) := r.get entryRip; (.handle h, r)
  | .remove entryRip    => let (h, r) := r.remove entryRip; (.handle h, r)
  | .clear              => (.cleared, r.clear)

def applyAll (r : RefCache) : List CacheOp → List CacheResult × RefCache
  | []        => ([], r)
  | op :: ops =>
    let (res, r) := r.apply w op
    let (ress, r) := applyAll r ops
    (res :: ress, r)

end RefCache

-- What the cache is for: an LRU cache that is limited in the number and in the total length of its
-- blocks.
structure LruCache where
  limits : Lru.Limits
  entries : List CompiledBlockHandle

namespace LruCache

variable (c : LruCache)

def new (maxBlocks maxBytes : Nat) : LruCache where
  limits := { maxEntries := maxBlocks, maxSize := maxBytes }
  entries := []

def len : Nat :=
  c.entries.length

def contains (entryRip : U64) : Bool :=
  (Lru.lookup CompiledBlockHandle.entryRip entryRip c.entries).isSome

def totalBytes : Nat :=
  Lru.total CompiledBlockHandle.byteLen c.entries

def evict : List U64 × LruCache :=
  let (keys, l) :=
    Lru.evict CompiledBlockHandle.entryRip CompiledBlockHandle.byteLen c.limits c.entries
  (keys, { c with entries := l })

def place (handle : CompiledBlockHandle) : LruCache :=
  { c with entries := Lru.place CompiledBlockHandle.entryRip handle c.entries }

def apply : CacheOp → CacheResult × LruCache
  | .insert handle =>
    let (keys, c) := (c.place handle).evict
    (.evicted keys, c)
  | .getCloned entryRip =>
    let (h, l) := Lru.get CompiledBlockHandle.entryRip entryRip c.entries
    (.handle h, { c with entries := l })
  | .remove entryRip =>
    let (h, l) := Lru.remove CompiledBlockHandle.entryRip entryRip c.entries
    (.handle h, { c with entries := l })
  | .clear => (.cleared, { c with entries := [] })

def applyAll (c : LruCache) : List CacheOp → List CacheResult × LruCache
  | []        => ([], c)
  | op :: ops =>
    let (res, c) := c.apply op
    let (ress, c) := applyAll c ops
    (res :: ress, c)

-- The total length of the blocks, with an inserted block in place and before evictions, fits into
-- `usize`.
def Fits (w : PointerWidth) : CacheOp → Prop
  | .insert handle => (c.place handle).totalBytes ≤ w.usizeMax
  | _              => True

def FitsAll (w : PointerWidth) (c : LruCache) : List CacheOp → Prop
  | []        => True
  | op :: ops => c.Fits w op ∧ FitsAll w (c.apply op).2 ops

instance (w : PointerWidth) (op : CacheOp) : Decidable (c.Fits w op) :=
  match op with
  | .insert _    => inferInstanceAs (Decidable (_ ≤ _))
  | .getCloned _ => inferInstanceAs (Decidable True)
  | .remove _    => inferInstanceAs (Decidable True)
  | .clear       => inferInstanceAs (Decidable True)

instance decidableFitsAll (w : PointerWidth) (c : LruCache) (ops : List CacheOp) :
    Decidable (FitsAll w c ops) :=
  match ops with
  | []        => inferInstanceAs (Decidable True)
  | op :: ops =>
    have := decidableFitsAll w (c.apply op).2 ops
    inferInstanceAs (Decidable (c.Fits w op ∧ FitsAll w (c.apply op).2 ops))

end LruCache

end Aero
