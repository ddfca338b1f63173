import Aero.Ipc.Ring
import Aero.Lib.CircularLog

namespace Aero.Ipc

open LeBytes CircularLog RingBuffer Nat
open BitVec (lt_def ofNat toNat toNat_ofNat)

structure Capacity (c : Nat) : Prop where
  zero_lt : 0 < c
  align   : 4 ∣ c
  dvd     : c ∣ 2 ^ 32
  lt      : c < 2 ^ 32

def counter (x : Nat) : U32 :=
  BitVec.ofNat 32 x

def recordSize (payload : List U8) : Nat :=
  (4 + payload.length + 3) / 4 * 4

def start (c a : Nat) (payload : List U8) : Nat :=
  a + gap c a (recordSize payload)

def writes (c a : Nat) (payload : List U8) : List (Nat × U8) :=
  (if 0 < gap c a (recordSize payload) then bytesAt a (toLe 4 wrapMarker.toNat) else [])
    ++ bytesAt (start c a payload) (toLe 4 payload.length)
    ++ bytesAt (start c a payload + 4) payload

def cell (c : Nat) (w : Nat × U8) : Nat × U8 :=
  (w.1 % c, w.2)

-- The record for `payload` at `a` is in the storage, from the position `h` on.
def Intact (data : Nat → U8) (c h a : Nat) (payload : List U8) : Prop :=
  ∀ w ∈ writes c a payload, h ≤ w.1 → data (w.1 % c) = w.2

def Fits (c : Nat) (payload : List U8) : Prop :=
  recordSize payload ≤ c ∧ payload.length ≤ 2 ^ 32 - 2

section RecordSize

theorem recordSize_pos (payload : List U8) : 0 < recordSize payload := by
  rw [recordSize]
  omega

theorem recordSize_dvd (payload : List U8) : 4 ∣ recordSize payload :=
  dvd_mul_left 4 _

theorem length_add_four_le (payload : List U8) : payload.length + 4 ≤ recordSize payload := by
  rw [recordSize]
  omega

theorem recordSizeChecked_eq (h : payload.length ≤ 2 ^ 32 - 2) :
    recordSizeChecked payload.length = some (recordSize payload) := by
  have h₁ : 4 + payload.length < 2 ^ 64 := by omega
  have h₂ : 4 + payload.length + 3 < 2 ^ 64 := by omega
  rw [recordSizeChecked, checkedAdd, if_pos h₁, Option.bind_some, alignUpChecked, checkedAdd,
    recordAlign, if_pos h₂]
  rfl

theorem pushSize_eq_some_iff {cap : U32} :
    pushSize cap payload = some n ↔ Fits cap.toNat payload ∧ n = recordSize payload := by
  rw [pushSize, Fits]
  split
  case isTrue h =>
    simp only [reduceCtorEq, false_iff]
    omega
  case isFalse h =>
    rw [recordSizeChecked_eq (by omega), Option.filter_eq_some_iff]
    simp only [Option.some.injEq]
    grind

end RecordSize

section BytesAt

theorem mem_bytesAt : w ∈ bytesAt i bs ↔ ∃ k, bs[k]? = some w.2 ∧ w.1 = i + k := by
  induction bs generalizing i
  case nil => simp [bytesAt]
  case cons b bs ih =>
    rw [bytesAt, List.mem_cons, ih]
    constructor
    · rintro (rfl | ⟨k, hk, hw⟩)
      · exact ⟨0, by simp⟩
      · exact ⟨k + 1, by simpa using hk, by omega⟩
    · rintro ⟨k, hk, hw⟩
      cases k
      case zero =>
        simp only [List.getElem?_cons_zero, Option.some.injEq] at hk
        exact .inl (Prod.ext (by simpa using hw) hk.symm)
      case succ k => exact .inr ⟨k, by simpa using hk, by omega⟩

theorem bytesAt_bounds (h : w ∈ bytesAt i bs) : i ≤ w.1 ∧ w.1 < i + bs.length := by
  obtain ⟨k, hk, hw⟩ := mem_bytesAt.mp h
  have := (List.getElem?_eq_some_iff.mp hk).1
  omega

theorem pairwise_bytesAt (i : Nat) (bs : List U8) :
    (bytesAt i bs).Pairwise (fun v w => v.1 < w.1) := by
  induction bs generalizing i
  case nil => exact .nil
  case cons b bs ih =>
    refine .cons (fun w hw => ?_) (ih (i + 1))
    exact (bytesAt_bounds hw).1

theorem map_bytesAt (h : ∀ k < bs.length, (a + k) % c = i + k) :
    (bytesAt a bs).map (cell c) = bytesAt i bs := by
  induction bs generalizing a i
  case nil => rfl
  case cons b bs ih =>
    have h₀ := h 0 (by simp)
    have htail : (bytesAt (a + 1) bs).map (cell c) = bytesAt (i + 1) bs := by
      apply ih
      intro k hk
      have hk₁ := h (k + 1) (by simpa using hk)
      rw [add_right_comm, add_right_comm i]
      exact hk₁
    rw [bytesAt, bytesAt, List.map_cons, htail, cell]
    simp only [add_zero] at h₀
    rw [h₀]

@[simp]
theorem length_readBytes (data : Nat → U8) (i n : Nat) : (readBytes data i n).length = n := by
  simp [readBytes]

theorem readBytes_succ (data : Nat → U8) (i n : Nat) :
    readBytes data i (n + 1) = readBytes data i n ++ [data (i + n)] := by
  simp [readBytes, List.range_succ]

theorem readBytes_eq {data : Nat → U8} (hn : bs.length = n)
    (h : ∀ k b, bs[k]? = some b → data (i + k) = b) : readBytes data i n = bs := by
  subst hn
  apply List.ext_getElem?
  intro k
  rw [readBytes, List.getElem?_map]
  by_cases hk : k < bs.length
  · rw [List.getElem?_range hk, List.getElem?_eq_getElem hk, Option.map_some,
      h k _ (List.getElem?_eq_getElem hk)]
  · rw [List.getElem?_eq_none (by simpa using hk), List.getElem?_eq_none (by simpa using hk),
      Option.map_none]

theorem readBytes_congr {data data' : Nat → U8} (h : ∀ k < n, data (i + k) = data' (i + k)) :
    readBytes data i n = readBytes data' i n := by
  apply List.map_congr_left
  intro k hk
  exact h k (List.mem_range.mp hk)

end BytesAt

section Counter

theorem counter_add (x y : Nat) : counter x + counter y = counter (x + y) :=
  (BitVec.ofNat_add x y).symm

theorem counter_sub_toNat (h : x ≤ y) (hl : y - x < 2 ^ 32) :
    (counter y - counter x).toNat = y - x := by
  rw [counter, counter, BitVec.toNat_sub, toNat_ofNat, toNat_ofNat]
  omega

theorem counter_inj (h : x ≤ y) (hl : y - x < 2 ^ 32) (he : counter x = counter y) : x = y := by
  have := congrArg toNat he
  rw [counter, counter, toNat_ofNat, toNat_ofNat] at this
  omega

end Counter

namespace Capacity

section

variable (hc : Capacity c)
include hc

theorem le_half : c ≤ 2 ^ 31 := by
  obtain ⟨k, hk⟩ := hc.dvd
  have h2 : 2 ≤ k := by
    by_contra h
    have hk1 : k ≤ 1 := by omega
    have := mul_le_mul_left c hk1
    have := hc.lt
    omega
  have := mul_le_mul_left c h2
  omega

theorem counter_mod (x : Nat) : (counter x % counter c).toNat = x % c := by
  rw [BitVec.toNat_umod, counter, counter, toNat_ofNat, toNat_ofNat,
    mod_eq_of_lt hc.lt, mod_mod_of_dvd _ hc.dvd]

@[simp]
theorem counter_toNat : (counter c).toNat = c := by
  rw [counter, toNat_ofNat, mod_eq_of_lt hc.lt]

theorem remaining_eq (x : Nat) : remaining (counter c) (counter x) = c - x % c := by
  rw [remaining, hc.counter_mod, hc.counter_toNat]

theorem four_le_remaining (hx : 4 ∣ x) : 4 ≤ c - x % c := by
  have h₁ := mod_lt x hc.zero_lt
  have h₂ : 4 ∣ x % c := (dvd_mod_iff hc.align).mpr hx
  have := hc.align
  omega

theorem four_dvd_start (ha : 4 ∣ a) (p : List U8) : 4 ∣ start c a p := by
  rw [start, gap]
  have h₂ : 4 ∣ a % c := (dvd_mod_iff hc.align).mpr ha
  have := hc.align
  split <;> omega

theorem four_dvd_next (ha : 4 ∣ a) (p : List U8) : 4 ∣ next c recordSize a p :=
  Nat.dvd_add (hc.four_dvd_start ha p) (recordSize_dvd p)

theorem four_dvd_pos (l : List (List U8)) (i : Nat) : 4 ∣ pos c recordSize l i := by
  induction i
  case zero => simp
  case succ i ih =>
    cases h : l[i]?
    case none =>
      have hl := List.getElem?_eq_none_iff.mp h
      rw [pos, List.take_of_length_le (by omega)]
      rwa [pos, List.take_of_length_le hl] at ih
    case some p =>
      rw [pos_succ h]
      exact hc.four_dvd_next ih p

theorem padding_eq (ha : 4 ∣ a) (n : Nat) :
    padding (counter c) (counter a) n = (gap c a n, decide (0 < gap c a n)) := by
  have h4 := hc.four_le_remaining ha
  rw [padding, hc.remaining_eq, if_neg (by omega), gap]
  by_cases h : c - a % c < n
  · rw [if_pos h, if_pos h, decide_eq_true (by omega)]
  · rw [if_neg h, if_neg h, decide_eq_false (by omega)]

theorem recordWrites_eq (ha : 4 ∣ a) (hp : Fits c p) :
    recordWrites (counter c) (counter a) (gap c a (recordSize p))
      (decide (0 < gap c a (recordSize p))) p = (writes c a p).map (cell c) := by
  have hs : (counter a + ofNat 32 (gap c a (recordSize p))) % counter c =
      counter (start c a p) % counter c := by
    rw [start, ← counter_add]
    rfl
  have hl := length_add_four_le p
  have hm : ∀ k < recordSize p, (start c a p + k) % c = start c a p % c + k :=
    fun k hk => start_add_mod hc.zero_lt hp.1 hk
  have hlen : (bytesAt (start c a p) (toLe 4 p.length)).map (cell c)
      = bytesAt (start c a p % c) (toLe 4 p.length) := by
    apply map_bytesAt
    intro k hk
    rw [length_toLe] at hk
    exact hm k (by omega)
  have hpay : (bytesAt (start c a p + 4) p).map (cell c) = bytesAt (start c a p % c + 4) p := by
    apply map_bytesAt
    intro k hk
    rw [add_assoc, hm (4 + k) (by omega), add_assoc]
  have hmark : (bytesAt a (toLe 4 wrapMarker.toNat)).map (cell c)
      = bytesAt (a % c) (toLe 4 wrapMarker.toNat) := by
    apply map_bytesAt
    intro k hk
    rw [length_toLe] at hk
    have := hc.four_le_remaining ha
    exact gap_add_mod (by omega)
  simp only [recordWrites, writes, List.map_append, hs, hc.counter_mod, hlen, hpay,
    decide_eq_true_eq]
  congr 2
  split
  · exact hmark.symm
  · rfl

end

end Capacity

section Writes

theorem mem_writes : w ∈ writes c a p ↔
    (0 < gap c a (recordSize p) ∧ w ∈ bytesAt a (toLe 4 wrapMarker.toNat)) ∨
    w ∈ bytesAt (start c a p) (toLe 4 p.length) ∨ w ∈ bytesAt (start c a p + 4) p := by
  rw [writes, List.mem_append, List.mem_append, or_assoc]
  split
  case isTrue h => simp [h]
  case isFalse h => simp [h]

theorem Capacity.four_le_gap (hc : Capacity c) (ha : 4 ∣ a) (h : 0 < gap c a n) :
    4 ≤ gap c a n := by
  rw [gap_eq_of_pos h]
  exact hc.four_le_remaining ha

theorem Capacity.writes_bounds (hc : Capacity c) (ha : 4 ∣ a) (h : w ∈ writes c a p) :
    a ≤ w.1 ∧ w.1 < next c recordSize a p := by
  have hl := length_add_four_le p
  rw [next]
  rcases mem_writes.mp h with ⟨hg, hw⟩ | hw | hw
  · have := bytesAt_bounds hw
    have := hc.four_le_gap ha hg
    rw [length_toLe] at *
    omega
  · have := bytesAt_bounds hw
    rw [length_toLe, start] at *
    omega
  · have := bytesAt_bounds hw
    rw [start] at *
    omega

theorem Capacity.pairwise_writes (hc : Capacity c) (ha : 4 ∣ a) (p : List U8) :
    (writes c a p).Pairwise (fun v w => v.1 < w.1) := by
  rw [writes, List.append_assoc, List.pairwise_append]
  refine ⟨?marker, ?record, ?before⟩
  case marker =>
    split
    · exact pairwise_bytesAt _ _
    · exact .nil
  case record =>
    refine List.pairwise_append.mpr ⟨pairwise_bytesAt _ _, pairwise_bytesAt _ _, ?_⟩
    intro v hv w hw
    have h₁ := bytesAt_bounds hv
    have h₂ := bytesAt_bounds hw
    rw [length_toLe] at h₁
    omega
  case before =>
    intro v hv w hw
    split at hv
    case isTrue hg =>
      have h₁ := bytesAt_bounds hv
      have h₂ := hc.four_le_gap ha hg
      have h₃ : start c a p ≤ w.1 := by
        rcases List.mem_append.mp hw with hw | hw
        · exact (bytesAt_bounds hw).1
        · have := (bytesAt_bounds hw).1
          omega
      rw [length_toLe] at h₁
      rw [start] at h₃
      omega
    case isFalse => simp at hv

end Writes

section Reads

variable {data : Nat → U8}

section

variable (hc : Capacity c)
include hc

theorem Intact.marker (ha : 4 ∣ a) (hi : Intact data c h a p) (hh : h ≤ a)
    (hg : 0 < gap c a (recordSize p)) : readBytes data (a % c) 4 = toLe 4 wrapMarker.toNat := by
  have h4 := hc.four_le_remaining ha
  apply readBytes_eq (length_toLe ..)
  intro k b hb
  have hk := (List.getElem?_eq_some_iff.mp hb).1
  rw [length_toLe] at hk
  rw [← gap_add_mod (by omega)]
  refine hi (a + k, b) (mem_writes.mpr (.inl ⟨hg, ?_⟩)) (by simp only; omega)
  exact mem_bytesAt.mpr ⟨k, hb, rfl⟩

theorem Intact.length (hp : Fits c p) (hi : Intact data c h a p) (hh : h ≤ start c a p) :
    readBytes data (start c a p % c) 4 = toLe 4 p.length := by
  have hl := length_add_four_le p
  apply readBytes_eq (length_toLe ..)
  intro k b hb
  have hk := (List.getElem?_eq_some_iff.mp hb).1
  rw [length_toLe] at hk
  rw [start, ← start_add_mod hc.zero_lt hp.1 (by omega)]
  refine hi (start c a p + k, b) (mem_writes.mpr (.inr (.inl ?_))) (by simp only; omega)
  exact mem_bytesAt.mpr ⟨k, hb, rfl⟩

theorem Intact.byte (hp : Fits c p) (hi : Intact data c h a p) (hh : h ≤ start c a p)
    (hb : p[k]? = some b) : data (start c a p % c + 4 + k) = b := by
  have hl := length_add_four_le p
  have hk := (List.getElem?_eq_some_iff.mp hb).1
  rw [add_assoc, start, ← start_add_mod hc.zero_lt hp.1 (by omega)]
  refine hi (start c a p + (4 + k), b) (mem_writes.mpr (.inr (.inr ?_))) (by simp only; omega)
  exact mem_bytesAt.mpr ⟨k, hb, (add_assoc ..).symm⟩

theorem Intact.payload (hp : Fits c p) (hi : Intact data c h a p) (hh : h ≤ start c a p) :
    readBytes data (start c a p % c + 4) p.length = p :=
  readBytes_eq rfl fun _ _ hb => hi.byte hc hp hh hb

theorem Capacity.look_eq (ha : 4 ∣ a) (hat : a < t) (ht : t ≤ a + c) :
    look (counter c) (counter a) (counter t) = .length := by
  have hne : counter a ≠ counter t := by
    intro he
    have := counter_inj hat.le (by have := hc.lt; omega) he
    omega
  have h4 := hc.four_le_remaining ha
  rw [look, if_neg hne, hc.remaining_eq, if_neg (by omega)]

theorem Capacity.find_marker (hg : 0 < gap c a (recordSize p)) (tail : U32) :
    find (counter c) (counter a) tail wrapMarker = .skip (counter (start c a p)) := by
  rw [find, hc.remaining_eq, start, gap_eq_of_pos hg, ← counter_add]
  rfl

theorem Capacity.find_record (hp : Fits c p) (ht : start c a p + recordSize p ≤ t)
    (ht' : t ≤ start c a p + c) :
    find (counter c) (counter (start c a p)) (counter t) (ofNat 32 p.length) =
      .record (counter (next c recordSize a p)) := by
  have hlt := hc.lt
  have hlen : (ofNat 32 p.length).toNat = p.length := by
    have := hp.2
    rw [toNat_ofNat]
    omega
  have hne : ofNat 32 p.length ≠ wrapMarker := by
    intro he
    have := congrArg toNat he
    have hw : wrapMarker.toNat = 2 ^ 32 - 1 := rfl
    have := hp.2
    omega
  have hrem : ¬(recordSize p > remaining (counter c) (counter (start c a p))
      ∨ counter t - counter (start c a p) < ofNat 32 (recordSize p)) := by
    have h₁ := start_mod_add_le (a := a) hc.zero_lt hp.1
    have h₂ := hp.1
    rw [← start] at h₁
    rw [hc.remaining_eq, lt_def, counter_sub_toNat (by omega) (by omega), toNat_ofNat]
    omega
  rw [find, if_neg hne, hlen, recordSizeChecked_eq hp.2]
  simp only [if_neg hrem]
  rw [next, ← counter_add]
  rfl

end

end Reads

section Attempt

variable {c x t n padding reserve : Nat}

theorem Capacity.attempt_exchange (hc : Capacity c) (ht : 4 ∣ t) {head : U32}
    (h : attempt (counter c) head (counter t) n = .exchange padding wrap reserve) :
    padding = gap c t n ∧ wrap = decide (0 < gap c t n) ∧ reserve = gap c t n + n := by
  rw [attempt] at h
  simp only [hc.padding_eq ht] at h
  split at h
  · cases h
  · split at h
    · cases h
    · injection h with h₁ h₂ h₃
      exact ⟨h₁.symm, h₂.symm, h₃.symm⟩

-- An attempt with an exact number of used bytes does not reserve more than there is room for.
theorem Capacity.attempt_room (hc : Capacity c) (ht : 4 ∣ t) (hn : n ≤ c) (hx : x ≤ t)
    (hl : t - x < 2 ^ 32)
    (h : attempt (counter c) (counter x) (counter t) n = .exchange padding wrap reserve) :
    t + gap c t n + n ≤ x + c := by
  have hused := counter_sub_toNat hx hl
  have hg : gap c t n ≤ n := gap_le
  have hhalf := hc.le_half
  have hreserve : (ofNat 32 (gap c t n + n)).toNat = gap c t n + n := by
    rw [toNat_ofNat]
    by_cases hpos : 0 < gap c t n
    · have : gap c t n < n := by
        rw [gap] at hpos ⊢
        split at hpos <;> grind
      omega
    · omega
  rw [attempt] at h
  simp only [hc.padding_eq ht] at h
  split at h
  case isTrue => cases h
  case isFalse hu =>
    split at h
    case isTrue => cases h
    case isFalse hf =>
      rw [gt_iff_lt, lt_def, hc.counter_toNat] at hu
      rw [gt_iff_lt, lt_def, BitVec.toNat_sub_of_le, hc.counter_toNat]
        at hf
      · omega
      · rw [BitVec.le_def, hc.counter_toNat]
        omega

theorem Capacity.attempt_ne_retry (hc : Capacity c) (hx : x ≤ t) (ht : t ≤ x + c) :
    attempt (counter c) (counter x) (counter t) n ≠ .retry := by
  have hlt := hc.lt
  have hu : ¬counter t - counter x > counter c := by
    rw [gt_iff_lt, lt_def, counter_sub_toNat hx (by omega), hc.counter_toNat]
    omega
  rw [attempt]
  simp only [if_neg hu]
  split <;> simp

end Attempt

section Store

variable {data : Nat → U8} {c h a x : Nat} {ws : List (Nat × U8)}

theorem store_self (data : Nat → U8) (w : Nat × U8) : store data w w.1 = w.2 :=
  if_pos rfl

theorem store_of_ne (hi : i ≠ w.1) : store data w i = data i :=
  if_neg hi

theorem foldl_store_of_ne (hi : ∀ w ∈ ws, i ≠ w.1) : ws.foldl store data i = data i := by
  induction ws generalizing data
  case nil => rfl
  case cons w ws ih =>
    rw [List.foldl_cons, ih (fun v hv => hi v (List.mem_cons_of_mem _ hv)),
      store_of_ne (hi w List.mem_cons_self)]

theorem foldl_store_of_mem (hd : ws.Pairwise (fun v w => v.1 ≠ w.1)) (hw : w ∈ ws) :
    ws.foldl store data w.1 = w.2 := by
  induction ws generalizing data
  case nil => simp at hw
  case cons v ws ih =>
    rw [List.pairwise_cons] at hd
    rw [List.foldl_cons]
    rcases List.mem_cons.mp hw with rfl | hw
    · rw [foldl_store_of_ne hd.1, store_self]
    · exact ih hd.2 hw

theorem cell_ne (hx : h ≤ x) (hx' : x < h + c) (hy : h ≤ y) (hy' : y < h + c) (hne : x ≠ y) :
    x % c ≠ y % c := by
  rcases lt_or_gt_of_ne hne with hlt | hgt
  · exact mod_ne_mod hlt (by omega)
  · exact (mod_ne_mod hgt (by omega)).symm

theorem Intact.congr (hi : Intact data c h a p)
    (hd : ∀ w ∈ writes c a p, h ≤ w.1 → data' (w.1 % c) = data (w.1 % c)) :
    Intact data' c h a p := by
  intro w hw hh
  rw [hd w hw hh, hi w hw hh]

theorem Intact.mono (hi : Intact data c h a p) (hh : h ≤ h') : Intact data c h' a p :=
  fun w hw hw' => hi w hw (hh.trans hw')

end Store

end Aero.Ipc
