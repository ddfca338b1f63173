import Aero.Jit.Runtime
import Aero.Jit.Theorems.LruCache
import Aero.Jit.Theorems.PageVersions

namespace Aero

open RuntimeOp Except List
open BitVec (ofNat ofNat_add toNat)

open PageVersionTracker (endPage le_endPage_iff length_snapshot maxSnapshotPages mem_snapshot
  startPage touches_iff version_bumpWrite Touches)

namespace RuntimeOp

def track (t : PageVersionTracker) : RuntimeOp → PageVersionTracker
  | onGuestWrite paddr len => t.bumpWrite paddr len
  | reset                  => t.reset
  | _                      => t

def writes (page : Nat) : RuntimeOp → Bool
  | onGuestWrite paddr len => Touches paddr len page
  | _                      => false

end RuntimeOp

namespace JitRuntime

variable {w : PointerWidth} {r r' r₁ r₂ : JitRuntime} {ops : List RuntimeOp}
variable {rip : U64} {h : CompiledBlockHandle} {page : Nat}

section Tracking

theorem rejectStale_pageVersions (hr : r.rejectStale rip = .ok r') :
    r'.pageVersions = r.pageVersions := by
  simp only [rejectStale, bind_eq_ok_iff] at hr
  obtain ⟨⟨existing, cache⟩, -, hr⟩ := hr
  cases existing
  case none => cases hr; rfl
  case some h =>
    dsimp only at hr
    split at hr
    case isTrue => cases hr; rfl
    case isFalse =>
      obtain ⟨_, -, hr⟩ := bind_eq_ok_iff.mp hr
      cases hr
      rfl

theorem installHandle_pageVersions (hr : r.installHandle w h = .ok (evicted, r')) :
    r'.pageVersions = r.pageVersions := by
  rw [installHandle] at hr
  split at hr
  case isTrue =>
    obtain ⟨_, -, hr⟩ := bind_eq_ok_iff.mp hr
    cases hr
    rfl
  case isFalse =>
    obtain ⟨_, hs, hr⟩ := bind_eq_ok_iff.mp hr
    cases hr
    exact rejectStale_pageVersions hs

theorem invalidateBlock_pageVersions (hr : r.invalidateBlock rip = .ok (b, r')) :
    r'.pageVersions = r.pageVersions := by
  obtain ⟨⟨removed, _⟩, -, hr⟩ := bind_eq_ok_iff.mp hr
  cases removed <;> cases hr <;> rfl

theorem lookupBlock_ok (hr : r.lookupBlock rip = .ok (handle, stale, r')) :
    r'.pageVersions = r.pageVersions ∧ ∀ h, handle = some h → r.isBlockValid h := by
  obtain ⟨⟨found, _⟩, -, hr⟩ := bind_eq_ok_iff.mp hr
  cases found
  case none =>
    cases hr
    exact ⟨rfl, nofun⟩
  case some h =>
    dsimp only at hr
    split at hr
    case isTrue hv =>
      cases hr
      exact ⟨rfl, fun _ he => Option.some.inj he ▸ hv⟩
    case isFalse =>
      obtain ⟨_, -, hr⟩ := bind_eq_ok_iff.mp hr
      cases hr
      exact ⟨rfl, nofun⟩

theorem prepareBlock_ok (hr : r.prepareBlock rip = .ok (handle, r')) :
    r'.pageVersions = r.pageVersions ∧ ∀ h, handle = some h → r.isBlockValid h := by
  rw [prepareBlock] at hr
  split at hr
  case isTrue =>
    obtain ⟨⟨found, stale, r₁⟩, hl, hr⟩ := bind_eq_ok_iff.mp hr
    have ⟨hp, hv⟩ := lookupBlock_ok hl
    dsimp only at hr
    generalize r₁.profile.recordHit rip found.isSome = hit at hr
    cases hr
    refine ⟨?_, hv⟩
    split <;> exact hp
  case isFalse =>
    cases hr
    exact ⟨rfl, nofun⟩

theorem apply_pageVersions (hr : r.apply w op = .ok r') :
    r'.pageVersions = op.track r.pageVersions := by
  cases op
  case snapshotMeta => cases hr; rfl
  case onGuestWrite => cases hr; rfl
  case installHandle h =>
    obtain ⟨⟨_, _⟩, hi, hr⟩ := bind_eq_ok_iff.mp hr
    cases hr
    exact installHandle_pageVersions hi
  case installBlock =>
    obtain ⟨⟨_, _⟩, hi, hr⟩ := bind_eq_ok_iff.mp hr
    cases hr
    exact installHandle_pageVersions hi
  case invalidateBlock =>
    obtain ⟨⟨_, _⟩, hi, hr⟩ := bind_eq_ok_iff.mp hr
    cases hr
    exact invalidateBlock_pageVersions hi
  case prepareBlock =>
    obtain ⟨⟨_, _⟩, hi, hr⟩ := bind_eq_ok_iff.mp hr
    cases hr
    exact (prepareBlock_ok hi).1
  case reset => cases hr; rfl

theorem applyAll_pageVersions (hr : r.applyAll w ops = .ok r') :
    r'.pageVersions = ops.foldl track r.pageVersions := by
  induction ops generalizing r
  case nil => cases hr; rfl
  case cons op ops ih =>
    obtain ⟨r₁, h₁, hr⟩ := bind_eq_ok_iff.mp hr
    rw [ih hr, apply_pageVersions h₁, foldl_cons]

end Tracking

section Counting

theorem versionsLen_track (t : PageVersionTracker) (op : RuntimeOp) :
    (op.track t).versionsLen = t.versionsLen := by
  cases op <;> simp [track]

theorem versionsLen_foldl_track (t : PageVersionTracker) (ops : List RuntimeOp) :
    (ops.foldl track t).versionsLen = t.versionsLen := by
  induction ops generalizing t
  case nil => rfl
  case cons op ops ih => rw [foldl_cons, ih, versionsLen_track]

theorem generation_foldl_track (t : PageVersionTracker) (ops : List RuntimeOp) :
    (ops.foldl track t).generation =
      t.generation + ofNat 64 (ops.count .reset) := by
  induction ops generalizing t
  case nil => simp
  case cons op ops ih =>
    rw [foldl_cons, ih]
    cases op
    case reset =>
      simp only [track, PageVersionTracker.reset, count_cons_self, ofNat_add]
      grind
    all_goals simp [track]

theorem version_foldl_track (ht : t.Bounded) (hp : page < t.versionsLen) (hr : .reset ∉ ops) :
    (ops.foldl track t).version page =
      t.version page + ofNat 32 (ops.countP (·.writes page)) := by
  induction ops generalizing t
  case nil => simp
  case cons op ops ih =>
    have hl := versionsLen_track t op
    rw [mem_cons, not_or] at hr
    rw [foldl_cons, ih ⟨hl ▸ ht.len_le⟩ (hl ▸ hp) hr.2, countP_cons]
    cases op
    case onGuestWrite paddr len =>
      simp only [track, writes, version_bumpWrite ht hp, ofNat_add]
      split <;> grind
    case reset => exact absurd rfl hr.1
    all_goals simp [track, writes]

end Counting

theorem new_bounded {config : JitConfig} (hr : JitRuntime.new config table = some r) :
    r.pageVersions.Bounded := by
  cases table
  case none =>
    cases hr
    exact .new _
  case some table =>
    rw [new] at hr
    split at hr
    case isTrue hl =>
      cases hr
      exact ⟨hl⟩
    case isFalse => cases hr

-- The snapshot of a block. The compiler fills in the rest of the metadata.
structure SameSnapshot (m m' : CompiledBlockMeta) : Prop where
  codePaddr : m'.codePaddr = m.codePaddr
  byteLen : m'.byteLen = m.byteLen
  generation : m'.pageVersionsGeneration = m.pageVersionsGeneration
  pageVersions : m'.pageVersions = m.pageVersions

theorem isBlockValid_snapshot (hb : byteLen ≠ 0)
    (hs : SameSnapshot (r₁.snapshotMeta codePaddr byteLen) h.blockMeta) (hv : r₂.isBlockValid h) :
    r₂.pageVersions.generation = r₁.pageVersions.generation ∧
      ∀ page, startPage codePaddr ≤ page →
        page ≤ endPage codePaddr byteLen.toNat →
        r₂.pageVersions.version page = r₁.pageVersions.version page := by
  have hpv : h.blockMeta.pageVersions = r₁.pageVersions.snapshot codePaddr byteLen :=
    hs.pageVersions
  have hlen : (r₁.pageVersions.snapshot codePaddr byteLen).length = _ :=
    length_snapshot hb
  have hne : (r₁.pageVersions.snapshot codePaddr byteLen).isEmpty = false := by
    rw [isEmpty_eq_false_iff, ← length_pos_iff, hlen, maxSnapshotPages]
    omega
  have hep : expectedPages h.blockMeta =
      endPage codePaddr byteLen.toNat -
        startPage codePaddr + 1 := by
    rw [expectedPages, hs.codePaddr, hs.byteLen, snapshotMeta, if_neg hb]
  simp only [isBlockValid, hne, Bool.false_or, Bool.and_eq_true, decide_eq_true_eq, hep, hpv,
    all_eq_true, beq_iff_eq] at hv
  obtain ⟨⟨hg, hc⟩, ha⟩ := hv
  refine ⟨hg.symm.trans hs.generation, fun page hp hp' => ?_⟩
  exact ha _ (mem_snapshot hb hc hp hp')

theorem eq_zero_of_add_eq (hk : k < 2 ^ n) (h : x + ofNat n k = x) : k = 0 := by
  have h0 : ofNat n k = 0#n := by simpa using h
  have ht := congrArg toNat h0
  simpa [Nat.mod_eq_of_lt hk] using ht

-- A block that the runtime hands out is not stale: since the snapshot of its metadata there was no
-- reset and no write to a page of its code.
theorem prepareBlock_not_stale {config : JitConfig} {table : Option (List U32)} {start : JitRuntime}
    {before since : List RuntimeOp} {codePaddr : U64} {byteLen : U32}
    (hstart : JitRuntime.new config table = some start)
    (hbefore : start.applyAll w before = .ok r₁) (hsince : r₁.applyAll w since = .ok r₂)
    (hprepare : r₂.prepareBlock rip = .ok (some h, r'))
    (hmeta : SameSnapshot (r₁.snapshotMeta codePaddr byteLen) h.blockMeta)
    (hlen : 0 < byteLen.toNat)
    (hspan : codePaddr.toNat + byteLen.toNat ≤ r₁.pageVersions.versionsLen * 2 ^ pageShift)
    (hwrites : ∀ page, since.countP (·.writes page) < 2 ^ 32)
    (hresets : since.count .reset < 2 ^ 64) :
    .reset ∉ since ∧
      ∀ paddr len, .onGuestWrite paddr len ∈ since → ∀ a b, paddr.toNat ≤ a → a < paddr.toNat + len →
        codePaddr.toNat ≤ b → b < codePaddr.toNat + byteLen.toNat →
        a / 2 ^ pageShift ≠ b / 2 ^ pageShift := by
  have hb : byteLen ≠ 0 := by
    rintro rfl
    exact absurd hlen (by decide)
  have hbd : r₁.pageVersions.Bounded := by
    refine ⟨?_⟩
    rw [applyAll_pageVersions hbefore, versionsLen_foldl_track]
    exact (new_bounded hstart).len_le
  have htr := applyAll_pageVersions hsince
  have ⟨hg, hv⟩ := isBlockValid_snapshot hb hmeta ((prepareBlock_ok hprepare).2 h rfl)
  have hreset : .reset ∉ since := by
    rw [htr, generation_foldl_track] at hg
    exact count_eq_zero.mp (eq_zero_of_add_eq hresets hg)
  refine ⟨hreset, ?_⟩
  intro paddr len hm a b ha ha' hb hb' hab
  have hp : b / 2 ^ pageShift < r₁.pageVersions.versionsLen :=
    Nat.div_lt_of_lt_mul (by rw [Nat.mul_comm]; omega)
  have hp' := Nat.lt_of_lt_of_le hp hbd.len_le
  -- The version of the page is that of the snapshot, so no write to it is counted.
  have hz : since.countP (·.writes (b / 2 ^ pageShift)) = 0 := by
    have he := hv (b / 2 ^ pageShift) (Nat.div_le_div_right hb)
      ((le_endPage_iff hp').mpr (Nat.div_le_div_right (by omega)))
    rw [htr, version_foldl_track hbd hp hreset] at he
    exact eq_zero_of_add_eq (hwrites _) he
  have hw := decide_eq_true (touches_iff.mpr ⟨a, ha, ha', hab⟩)
  exact countP_eq_zero.mp hz _ hm hw

-- Block 7 of one page is installed and found again, after a write to another page.
def exampleConfig : JitConfig where
  enabled := true
  hotThreshold := 32
  cacheMaxBlocks := 4
  cacheMaxBytes := 0
  codeVersionMaxPages := 2

def exampleRuntime : JitRuntime where
  config := exampleConfig
  cache := .new 4 0
  profile := .newWithCapacity 32 256
  pageVersions := { table := [0, 0], generation := 0 }
  compileRequests := []

def exampleHandle : CompiledBlockHandle where
  entryRip := 7
  tableIndex := 0
  blockMeta := exampleRuntime.snapshotMeta 7 4

def exampleOps : List RuntimeOp :=
  [.onGuestWrite 4096 1, .installHandle exampleHandle]

def runAndPrepare (w : PointerWidth) (r : JitRuntime) (ops : List RuntimeOp) (rip : U64) :
    Except CachePanic (Option CompiledBlockHandle) := do
  let r ← r.applyAll w ops
  let (h, _) ← r.prepareBlock rip
  pure h

theorem runAndPrepare_ok (hr : runAndPrepare w r ops rip = .ok handle) :
    ∃ r₂ r', r.applyAll w ops = .ok r₂ ∧ r₂.prepareBlock rip = .ok (handle, r') := by
  obtain ⟨r₂, h₁, hr⟩ := bind_eq_ok_iff.mp hr
  obtain ⟨⟨_, r'⟩, h₂, hr⟩ := bind_eq_ok_iff.mp hr
  cases hr
  exact ⟨r₂, r', h₁, h₂⟩

theorem prepareBlock_not_stale_example :
    runAndPrepare .bits32 exampleRuntime exampleOps 7 = .ok (some exampleHandle) ∧
      ∀ a b, 4096 ≤ a → a < 4097 → 7 ≤ b → b < 11 → a / 2 ^ pageShift ≠ b / 2 ^ pageShift := by
  have hrun : runAndPrepare .bits32 exampleRuntime exampleOps 7 = .ok (some exampleHandle) := rfl
  have hstart : new exampleConfig none = some exampleRuntime := rfl
  have ⟨_, _, hsince, hprepare⟩ := runAndPrepare_ok hrun
  have hbefore : exampleRuntime.applyAll .bits32 [] = .ok exampleRuntime := rfl
  have hmeta : SameSnapshot (exampleRuntime.snapshotMeta 7 4) exampleHandle.blockMeta :=
    ⟨rfl, rfl, rfl, rfl⟩
  have h := prepareBlock_not_stale hstart hbefore hsince hprepare hmeta (by decide) (by decide)
    (fun page => Nat.lt_of_le_of_lt countP_le_length (by decide)) (by decide)
  exact ⟨hrun, h.2 4096 1 (by simp [exampleOps])⟩

section Wrap

structure Fresh (r : JitRuntime) : Prop where
  cache : r.cache.clear = r.cache
  profile : r.profile.reset = r.profile
  table : r.pageVersions.reset.table = r.pageVersions.table

theorem Fresh.applyAll_resets (hf : Fresh r) (n : Nat) :
    r.applyAll w (replicate n .reset) = .ok { r with
      pageVersions := { r.pageVersions with
        generation := r.pageVersions.generation + ofNat 64 n } } := by
  induction n generalizing r
  case zero => simp [applyAll, pure, Except.pure]
  case succ n ih =>
    have hr : r.reset = { r with
        pageVersions := { r.pageVersions with generation := r.pageVersions.generation + 1 } } := by
      have ht : r.pageVersions.reset =
          { r.pageVersions with generation := r.pageVersions.generation + 1 } := by
        show PageVersionTracker.mk r.pageVersions.reset.table _ = _
        rw [hf.table]
      rw [reset, hf.cache, hf.profile, ht]
    have hf' : Fresh r.reset := by
      rw [hr]
      exact ⟨hf.cache, hf.profile, hf.table⟩
    have hs : r.applyAll w (.reset :: replicate n .reset) =
      r.reset.applyAll w (replicate n .reset) := rfl
    simp only [ofNat_add]
    grind

theorem applyAll_append (r : JitRuntime) (ops ops' : List RuntimeOp) :
    r.applyAll w (ops ++ ops') = r.applyAll w ops >>= fun r => r.applyAll w ops' := by
  induction ops generalizing r
  case nil => rfl
  case cons op ops ih =>
    rw [cons_append, applyAll, applyAll, bind_assoc]
    exact congrArg _ (funext ih)

-- The generation is back at its old value after `2 ^ 64` resets, so the runtime takes a block with a
-- snapshot from before the resets.
theorem prepareBlock_stale_after_wrap :
    JitRuntime.new exampleConfig none = some exampleRuntime ∧
      7 + 4 ≤ exampleRuntime.pageVersions.versionsLen * 2 ^ pageShift ∧
      ∃ since r₂ r', exampleRuntime.applyAll .bits32 since = .ok r₂ ∧
        r₂.prepareBlock 7 = .ok (some exampleHandle, r') ∧
        SameSnapshot (exampleRuntime.snapshotMeta 7 4) exampleHandle.blockMeta ∧
        (∀ page, since.countP (·.writes page) = 0) ∧ .reset ∈ since := by
  have hrun : runAndPrepare .bits32 exampleRuntime [.installHandle exampleHandle] 7 =
      .ok (some exampleHandle) := rfl
  have ⟨r₂, r', h₁, h₂⟩ := runAndPrepare_ok hrun
  have hf : Fresh exampleRuntime := ⟨rfl, rfl, rfl⟩
  have ⟨n, hn, hz⟩ : ∃ n, n ≠ 0 ∧ ofNat 64 n = 0 := ⟨2 ^ 64, by decide, by decide⟩
  refine ⟨rfl, by decide, replicate n .reset ++ [.installHandle exampleHandle], r₂, r', ?_, h₂,
    ⟨rfl, rfl, rfl, rfl⟩, ?_, ?_⟩
  · rw [applyAll_append, hf.applyAll_resets, hz]
    exact h₁
  · intro page
    simp [writes]
  · simp [hn]

end Wrap

section Total

open CodeCache (Represents)

variable (hr : Represents r.cache l)
include hr

theorem lookup_returns (rip : U64) :
    (∃ r' l', r.rejectStale rip = .ok r' ∧ Represents r'.cache l') ∧
      ∃ p l', r.lookupBlock rip = .ok p ∧ Represents p.2.2.cache l' := by
  obtain ⟨found, _, l₁, hget, hl₁, -⟩ := hr.getCloned_ok rip
  obtain ⟨_, _, l₂, hremove, hl₂, -⟩ := hl₁.remove_sim rip
  rw [rejectStale, lookupBlock, hget]
  cases found
  case none => exact ⟨⟨_, l₁, rfl, hl₁⟩, _, l₁, rfl, hl₁⟩
  case some h =>
    simp only [ok_bind, hremove]
    split_ifs
    · exact ⟨⟨_, l₁, rfl, hl₁⟩, _, l₁, rfl, hl₁⟩
    · exact ⟨⟨_, l₂, rfl, hl₂⟩, _, l₂, rfl, hl₂⟩

theorem installHandle_returns (h : CompiledBlockHandle) :
    ∃ p l', r.installHandle w h = .ok p ∧ Represents p.2.cache l' := by
  rw [installHandle]
  split
  case isTrue =>
    obtain ⟨_, _, l', hinsert, hl', -⟩ := hr.insert_ok (w := w) h
    rw [hinsert]
    exact ⟨_, l', rfl, hl'⟩
  case isFalse =>
    obtain ⟨_, l', hreject, hl'⟩ := (lookup_returns hr _).1
    rw [hreject]
    exact ⟨_, l', rfl, hl'⟩

theorem apply_returns (op : RuntimeOp) :
    ∃ r' l', r.apply w op = .ok r' ∧ Represents r'.cache l' := by
  cases op
  case snapshotMeta | onGuestWrite => exact ⟨_, l, rfl, hr⟩
  case installHandle h =>
    obtain ⟨_, l', hinstall, hl'⟩ := installHandle_returns (w := w) hr h
    exact ⟨_, l', by rw [apply, hinstall]; rfl, hl'⟩
  case installBlock =>
    obtain ⟨_, l', hinstall, hl'⟩ := installHandle_returns (w := w) hr _
    exact ⟨_, l', by rw [apply, installBlock, hinstall]; rfl, hl'⟩
  case invalidateBlock rip =>
    obtain ⟨removed, _, l', hremove, hl', -⟩ := hr.remove_sim rip
    rw [apply, invalidateBlock, hremove]
    cases removed <;> exact ⟨_, l', rfl, hl'⟩
  case prepareBlock rip =>
    rw [apply, prepareBlock]
    split
    case isTrue =>
      obtain ⟨⟨found, stale, r₁⟩, l', hlookup, hl'⟩ := (lookup_returns hr rip).2
      simp only [hlookup, ok_bind]
      generalize r₁.profile.recordHit rip found.isSome = hit
      refine ⟨_, l', rfl, ?_⟩
      split <;> exact hl'
    case isFalse => exact ⟨_, l, rfl, hr⟩
  case reset => exact ⟨_, [], rfl, .clear _⟩

omit hr in
-- Whatever is done to the runtime, no `expect` of the cache fails and its links stay consistent.
theorem applyAll_consistent {config : JitConfig} (hr : new config table = some r) (w : PointerWidth)
    (ops : List RuntimeOp) :
    ∃ r' nodes, r.applyAll w ops = .ok r' ∧ r'.cache.Consistent nodes := by
  obtain ⟨l, hl⟩ : ∃ l, Represents r.cache l := by
    refine ⟨[], ?_⟩
    cases table
    case none =>
      cases hr
      exact .new ..
    case some =>
      rw [new] at hr
      split at hr <;> cases hr
      exact .new ..
  clear hr
  induction ops generalizing r l
  case nil => exact ⟨r, _, rfl, hl.consistent⟩
  case cons op ops ih =>
    obtain ⟨_, _, happly, hl'⟩ := apply_returns hl op
    rw [applyAll, happly]
    exact ih _ hl'

omit hr in
theorem applyAll_consistent_example : ∃ r' nodes,
    exampleRuntime.applyAll .bits32 exampleOps = .ok r' ∧ r'.cache.Consistent nodes :=
  applyAll_consistent (show new exampleConfig none = _ from rfl) .bits32 exampleOps

end Total

end JitRuntime

end Aero
