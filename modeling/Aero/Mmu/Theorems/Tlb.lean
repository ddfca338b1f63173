import Aero.Mmu.Tlb

namespace Aero.TlbSet

open List Bool

variable {t : TlbSet} {slot : TlbSlot} {e : TlbEntry} {size size' : PageSize}
variable {Q Q' : TlbEntry → Prop} {drop : TlbEntry → Bool}

theorem nodup_slots : slots.Nodup :=
  (nodup_finRange _).product (nodup_finRange _)

theorem mem_slots (slot : TlbSlot) : slot ∈ slots :=
  mem_product.mpr ⟨mem_finRange _, mem_finRange _⟩

def count (t : TlbSet) : PageSize → Nat
  | .size1G => t.count1G
  | .size4M => t.count4M
  | .size2M => t.count2M
  | .size4K => 0

def isLive (size : PageSize) (e : TlbEntry) : Bool :=
  e.valid && e.pageSize == size

theorem toNat_isLive (hv : e.valid) :
    (isLive size e).toNat = if e.pageSize = size then 1 else 0 := by
  rw [isLive, hv]
  split
  case isTrue h => simp [h]
  case isFalse h => simp [beq_eq_false_iff_ne.mpr h]

def tally (t : TlbSet) (size : PageSize) (l : List TlbSlot) : Nat :=
  l.countP fun slot => isLive size (t.entries slot)

def Counted (t : TlbSet) : Prop :=
  ∀ size, size ≠ .size4K → t.count size = t.tally size slots

@[simp]
theorem count_setEntry : (t.setEntry slot e).count size = t.count size := by
  cases size <;> rfl

theorem count_incCount (h : size ≠ .size4K) :
    (t.incCount size').count size = t.count size + if size' = size then 1 else 0 := by
  cases size <;> cases size' <;> first | rfl | exact absurd rfl h

theorem count_decCount :
    (t.decCount size').count size = t.count size - if size' = size then 1 else 0 := by
  cases size <;> cases size' <;> rfl

@[simp]
theorem entries_incCount : (t.incCount size).entries = t.entries := by
  cases size <;> rfl

@[simp]
theorem entries_decCount : (t.decCount size).entries = t.entries := by
  cases size <;> rfl

@[simp]
theorem tally_incCount : (t.incCount size').tally size l = t.tally size l := by
  simp [tally]

@[simp]
theorem tally_decCount : (t.decCount size').tally size l = t.tally size l := by
  simp [tally]

theorem entries_setEntry_self : (t.setEntry slot e).entries slot = e :=
  if_pos rfl

theorem entries_setEntry_ne (h : s ≠ slot) : (t.setEntry slot e).entries s = t.entries s :=
  if_neg h

theorem tally_setEntry_of_notMem (h : slot ∉ l) :
    (t.setEntry slot e).tally size l = t.tally size l := by
  apply countP_congr
  intro s hs
  have hne : s ≠ slot := by
    rintro rfl
    exact h hs
  rw [entries_setEntry_ne hne]

theorem tally_setEntry (t : TlbSet) (e : TlbEntry) (size : PageSize) (hl : l.Nodup) (h : slot ∈ l) :
    (t.setEntry slot e).tally size l + (isLive size (t.entries slot)).toNat =
      t.tally size l + (isLive size e).toNat := by
  induction l
  case nil => simp at h
  case cons s l ih =>
    have ⟨hs, hl⟩ := nodup_cons.mp hl
    simp only [tally, countP_cons]
    change (t.setEntry slot e).tally size l + _ + _ = t.tally size l + _ + _
    by_cases hss : s = slot
    case pos =>
      subst hss
      rw [tally_setEntry_of_notMem hs, entries_setEntry_self]
      cases isLive size (t.entries s) <;> cases isLive size e <;> simp
    case neg =>
      have hrec := ih hl ((mem_cons.mp h).resolve_left (Ne.symm hss))
      rw [entries_setEntry_ne hss]
      omega

-- All valid entries satisfy `Q`, and the counters are exact.
structure All (Q : TlbEntry → Prop) (t : TlbSet) : Prop where
  counted : t.Counted
  live : ∀ slot, (t.entries slot).valid → Q (t.entries slot)

namespace All

theorem mono (h : All Q t) (hQ : ∀ e, e.valid → Q e → Q' e) : All Q' t where
  counted := h.counted
  live slot hv := hQ _ hv (h.live slot hv)

theorem of_none (hc : ∀ size, t.count size = 0) (hn : ∀ slot, (t.entries slot).valid = false) :
    All Q t where
  counted size _ := by
    rw [hc, tally]
    simp [isLive, hn]
  live slot hv := by
    rw [hn slot] at hv
    exact nomatch hv

theorem new : All Q TlbSet.new :=
  of_none (by intro size; cases size <;> rfl) (fun _ => rfl)

theorem flushAll (t : TlbSet) : All Q t.flushAll :=
  of_none (by intro size; cases size <;> rfl) (fun _ => rfl)

theorem live_setEntry (h : ∀ slot, (t.entries slot).valid → Q (t.entries slot))
    (he : e.valid → Q e) (slot s : TlbSlot) (hv : ((t.setEntry slot e).entries s).valid) :
    Q ((t.setEntry slot e).entries s) := by
  by_cases hs : s = slot
  case pos =>
    subst hs
    rw [entries_setEntry_self] at hv ⊢
    exact he hv
  case neg =>
    rw [entries_setEntry_ne hs] at hv ⊢
    exact h s hv

theorem replace (h : All Q t) (he : e.valid → Q e)
    (hl : ∀ size, isLive size e = isLive size (t.entries slot)) : All Q (t.setEntry slot e) where
  counted size hs := by
    have ht := tally_setEntry t e size nodup_slots (mem_slots slot)
    rw [hl] at ht
    rw [count_setEntry, h.counted size hs]
    omega
  live := live_setEntry h.live he slot

theorem setDirtyHit (h : All Q t) (hQ : (t.entries slot).valid → Q (t.entries slot).setDirty) :
    All Q (t.setDirtyHit slot) :=
  h.replace hQ (fun _ => rfl)

theorem remove (h : All Q t) (hv : (t.entries slot).valid) :
    All Q ((t.setEntry slot (t.entries slot).invalidate).decCount (t.entries slot).pageSize) where
  counted size hs := by
    have ht := tally_setEntry t (t.entries slot).invalidate size nodup_slots (mem_slots slot)
    have hd : isLive size (t.entries slot).invalidate = false := rfl
    have hc := h.counted size hs
    rw [count_decCount, count_setEntry, tally_decCount, ← toNat_isLive hv]
    rw [hd, Bool.toNat_false] at ht
    omega
  live s := by
    rw [entries_decCount]
    exact live_setEntry h.live (fun hv => absurd hv Bool.false_ne_true) slot s

theorem invalidateSlot (h : All Q t) (vbase : U64) (way : Fin 4) :
    All Q (invalidateSlot vbase size drop t way) := by
  rw [TlbSet.invalidateSlot]
  split
  case isTrue hc =>
    simp only [and_eq_true, beq_iff_eq] at hc
    have hr := h.remove hc.1.1.1
    rwa [hc.1.2] at hr
  case isFalse => exact h

theorem foldl_ways (h : All Q t) (vbase : U64) (ways : List (Fin 4)) :
    All Q (ways.foldl (TlbSet.invalidateSlot vbase size drop) t) := by
  induction ways generalizing t
  case nil => exact h
  case cons way ways ih => exact ih (h.invalidateSlot vbase way)

theorem invalidateAddress (h : All Q t) (vaddr : U64) (drop : TlbEntry → Bool) :
    All Q (t.invalidateAddress vaddr drop) := by
  rw [TlbSet.invalidateAddress]
  generalize [PageSize.size1G, .size4M, .size2M, .size4K] = sizes
  induction sizes generalizing t
  case nil => exact h
  case cons size sizes ih => exact ih (h.foldl_ways _ _)

end All

-- The loop of the partial flushes, over any slots.
section Flush

theorem entries_flushSlot (t : TlbSet) (slot s : TlbSlot) :
    (flushSlot drop t slot).entries s =
      if s = slot ∧ drop (t.entries s) ∧ (t.entries s).valid then (t.entries s).invalidate
      else t.entries s := by
  rw [flushSlot]
  by_cases hs : s = slot
  case pos =>
    subst hs
    cases (t.entries s).valid <;> cases drop (t.entries s) <;> simp [entries_setEntry_self]
  case neg =>
    cases (t.entries slot).valid <;> cases drop (t.entries slot) <;>
      simp [hs, entries_setEntry_ne]

def kept (drop : TlbEntry → Bool) (size : PageSize) (e : TlbEntry) : Bool :=
  isLive size e && !drop e

theorem count_flushSlot (h : size ≠ .size4K) (t : TlbSet) (slot : TlbSlot) :
    (flushSlot drop t slot).count size =
      t.count size + (kept drop size (t.entries slot)).toNat := by
  rw [flushSlot, kept, isLive]
  cases (t.entries slot).valid
  case false => simp
  case true =>
    cases drop (t.entries slot)
    case true => simp
    case false =>
      by_cases hsz : (t.entries slot).pageSize = size <;> simp [count_incCount h, hsz]

theorem foldl_flushSlot {l : List TlbSlot} (drop : TlbEntry → Bool) (hl : l.Nodup) (t : TlbSet) :
    (∀ s, (l.foldl (flushSlot drop) t).entries s =
      if s ∈ l ∧ drop (t.entries s) ∧ (t.entries s).valid then (t.entries s).invalidate
      else t.entries s) ∧
    ∀ size, size ≠ .size4K → (l.foldl (flushSlot drop) t).count size =
      t.count size + l.countP fun s => kept drop size (t.entries s) := by
  induction l generalizing t
  case nil => simp
  case cons slot l ih =>
    have ⟨hs, hl⟩ := nodup_cons.mp hl
    have ⟨he, hc⟩ := ih hl (flushSlot drop t slot)
    constructor
    · intro s
      rw [foldl_cons, he, entries_flushSlot]
      by_cases hss : s = slot
      case pos =>
        subst hss
        simp [hs]
      case neg => simp [hss]
    · intro size hsize
      rw [foldl_cons, hc size hsize, count_flushSlot hsize, countP_cons]
      have hcong : (l.countP fun s => kept drop size ((flushSlot drop t slot).entries s)) =
          l.countP fun s => kept drop size (t.entries s) := by
        apply countP_congr
        intro s hsl
        have hne : s ≠ slot := by
          rintro rfl
          exact hs hsl
        rw [entries_flushSlot]
        simp [hne]
      rw [hcong]
      cases kept drop size (t.entries slot)
      case true => simp only [toNat_true, if_true]; omega
      case false => simp

theorem All.flushIf (h : All Q t) (hQ : ∀ e, e.valid → drop e = false → Q e → Q' e) :
    All Q' (t.flushIf drop) := by
  have hcount : ∀ size, t.resetCounts.count size = 0 := by
    intro size
    cases size <;> rfl
  have ⟨he, hc⟩ := foldl_flushSlot drop nodup_slots t.resetCounts
  have he' : ∀ s, (t.flushIf drop).entries s =
      if drop (t.entries s) ∧ (t.entries s).valid then (t.entries s).invalidate
      else t.entries s := by
    intro s
    rw [TlbSet.flushIf, he]
    simp [mem_slots, resetCounts]
  refine { counted := ?counted, live := ?live }
  case counted =>
    intro size hs
    have hk : ∀ s, kept drop size (t.entries s) = isLive size ((t.flushIf drop).entries s) := by
      intro s
      rw [he', kept]
      cases drop (t.entries s) <;> cases hv : (t.entries s).valid <;>
        simp [isLive, hv, TlbEntry.invalidate]
    have hc := hc size hs
    rw [hcount, Nat.zero_add] at hc
    rw [tally, ← funext hk]
    exact hc
  case live =>
    intro s hv
    rw [he'] at hv ⊢
    cases hd : drop (t.entries s)
    case true =>
      cases hvs : (t.entries s).valid <;> simp [hd, hvs, TlbEntry.invalidate] at hv
    case false =>
      simp only [hd] at hv ⊢
      exact hQ _ hv hd (h.live s hv)

theorem All.flushNonGlobal (h : All Q t) : All Q t.flushNonGlobal := by
  exact h.flushIf fun _ _ _ he => he

theorem All.flushPcid (h : All Q t) (hQ : ∀ e, e.global ∨ e.pcid ≠ pcid → Q e → Q' e) :
    All Q' (t.flushPcid pcid false) := by
  apply h.flushIf
  intro e _ hd
  apply hQ e
  cases hg : e.global
  case true => exact .inl rfl
  case false => exact .inr (by simpa [hg] using hd)

end Flush

section Lookup

variable {vaddr : U64} {pcid : U16} {pcidEnabled : Bool}

theorem findWay_some {set : Fin (2 ^ 6)} (h : t.findWay set p = some slot) :
    p (t.entries slot) := by
  rw [findWay, Option.map_eq_some_iff] at h
  obtain ⟨way, hw, rfl⟩ := h
  exact find?_some (p := fun way => p (t.entries (set, way))) hw

theorem orElse_eq_some {α : Type} {x y : Option α} {a : α} (h : (x <|> y) = some a) :
    x = some a ∨ y = some a := by
  cases x
  case none => exact .inr h
  case some => exact .inl h

structure Hit (e : TlbEntry) (vaddr : U64) (pcid : U16) (pcidEnabled : Bool) : Prop where
  valid : e.valid
  vbase : e.vbase = e.pageSize.base vaddr
  pcid : pcidEnabled → e.global ∨ e.pcid = pcid

theorem matchesPcid_iff :
    e.matchesPcid pcidEnabled pcid ↔
      e.valid ∧ (pcidEnabled → e.global ∨ e.pcid = pcid) := by
  rw [TlbEntry.matchesPcid]
  cases pcidEnabled <;> simp

theorem hit_of_lookupPageSize (h : t.lookupPageSize vaddr pcid pcidEnabled size = some slot) :
    Hit (t.entries slot) vaddr pcid pcidEnabled := by
  rw [lookupPageSize] at h
  have h := findWay_some h
  simp only [and_eq_true, beq_iff_eq, matchesPcid_iff] at h
  obtain ⟨⟨hs, hb⟩, hv, hp⟩ := h
  exact { valid := hv, vbase := hs ▸ hb, pcid := hp }

theorem size4K_of_counts (hc : t.Counted) (h0 : t.count1G = 0 ∧ t.count2M = 0 ∧ t.count4M = 0)
    (hv : (t.entries slot).valid) : (t.entries slot).pageSize = .size4K := by
  by_contra hne
  have hcount : t.count (t.entries slot).pageSize = 0 := by
    cases (t.entries slot).pageSize
    case size4K => rfl
    case size2M => exact h0.2.1
    case size4M => exact h0.2.2
    case size1G => exact h0.1
  have hz := hc _ hne
  rw [hcount, tally, eq_comm, countP_eq_zero] at hz
  exact hz slot (mem_slots slot) (by simp [isLive, hv])

theorem hit_of_lookup (hc : t.Counted) (h : t.lookup vaddr pcid pcidEnabled sizes = some slot) :
    Hit (t.entries slot) vaddr pcid pcidEnabled := by
  rw [lookup] at h
  split at h
  case isTrue h0 =>
    have h := findWay_some h
    simp only [and_eq_true, beq_iff_eq, matchesPcid_iff] at h
    obtain ⟨hb, hv, hp⟩ := h
    have hs := size4K_of_counts hc h0 hv
    exact { valid := hv, vbase := by rw [hs, hb]; rfl, pcid := hp }
  case isFalse =>
    have hprobe : ∀ {size : PageSize} {p : Prop} [Decidable p],
        (if p then t.lookupPageSize vaddr pcid pcidEnabled size else none) = some slot →
        Hit (t.entries slot) vaddr pcid pcidEnabled := by
      intro size p _ h
      split at h
      case isTrue => exact hit_of_lookupPageSize h
      case isFalse => exact nomatch h
    cases sizes
    case only4K => exact hit_of_lookupPageSize h
    case size2MAnd4K =>
      cases orElse_eq_some h
      case inl h => exact hprobe h
      case inr h => exact hit_of_lookupPageSize h
    case size4MAnd4K =>
      cases orElse_eq_some h
      case inl h => exact hprobe h
      case inr h => exact hit_of_lookupPageSize h
    case size1G2MAnd4K =>
      cases orElse_eq_some h
      case inl h => exact hprobe h
      case inr h =>
        cases orElse_eq_some h
        case inl h => exact hprobe h
        case inr h => exact hit_of_lookupPageSize h

end Lookup

theorem All.place (h : All Q t) (hv : e.valid) (he : Q e) (slot : TlbSlot) :
    All Q (t.place slot e) := by
  rw [TlbSet.place]
  generalize ht' : (if (t.entries slot).valid then t.decCount (t.entries slot).pageSize else t) = t'
  have hent : t'.entries = t.entries := by
    subst ht'
    split <;> simp
  have hcount : ∀ size, size ≠ .size4K →
      t'.count size = t.count size - (isLive size (t.entries slot)).toNat := by
    intro size hs
    subst ht'
    split
    case isTrue hv =>
      rw [count_decCount, toNat_isLive hv]
    case isFalse hv => simp [isLive, hv]
  refine { counted := ?counted, live := ?live }
  case counted =>
    intro size hs
    have ht := tally_setEntry t' e size nodup_slots (mem_slots slot)
    have htt : t'.tally size slots = t.tally size slots := by rw [tally, tally, hent]
    have hc := h.counted size hs
    rw [count_incCount hs, count_setEntry, hcount size hs, tally_incCount, ← toNat_isLive hv]
    rw [hent] at ht
    have hle : (isLive size (t.entries slot)).toNat ≤ t.tally size slots := by
      cases hl : isLive size (t.entries slot)
      case false => exact Nat.zero_le _
      case true => exact countP_pos_iff.mpr ⟨slot, mem_slots slot, hl⟩
    omega
  case live =>
    intro s
    rw [entries_incCount]
    exact live_setEntry (hent ▸ h.live) (fun _ => he) slot s

theorem All.insert (h : All Q t) (hv : e.valid) (he : Q e) : All Q (t.insert e) := by
  rw [TlbSet.insert]
  split
  case h_1 slot hs =>
    have hs := findWay_some hs
    simp only [and_eq_true, beq_iff_eq] at hs
    apply h.replace (fun _ => he)
    intro size
    rw [isLive, isLive, hv, hs.1.1.1, hs.1.2]
  case h_2 =>
    have h' : ∀ n, All Q { t with nextWay := n } := fun n =>
      { counted := fun size hs => by
          have hc : { t with nextWay := n }.count size = t.count size := by cases size <;> rfl
          exact hc.trans (h.counted size hs)
        live := h.live }
    exact (h' _).place hv he _

end Aero.TlbSet
