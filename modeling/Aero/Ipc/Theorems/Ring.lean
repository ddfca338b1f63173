import Aero.Ipc.Record

namespace Aero.Ipc

open LeBytes CircularLog RingBuffer BitVec Option
open BitVec (lt_def ofNat sub_self toNat toNat_ofNat)

-- The ring holds the payloads of `log` from the index `j` on.
structure Holds (ring : RingBuffer) (c : Nat) (log : List (List U8)) (j : Nat) : Prop where
  cap         : ring.cap = counter c
  head        : ring.head = counter (pos c recordSize log j)
  tailReserve : ring.tailReserve = counter (pos c recordSize log log.length)
  tailCommit  : ring.tailCommit = counter (pos c recordSize log log.length)
  le          : j ≤ log.length
  window      : pos c recordSize log log.length ≤ pos c recordSize log j + c
  fits        : ∀ p ∈ log, Fits c p
  intact      : ∀ i p, j ≤ i → log[i]? = some p →
    Intact ring.data c (pos c recordSize log j) (pos c recordSize log i) p

def Fifo (fuel : Nat) (ring : RingBuffer) : Prop :=
  ∀ ops, ∃ results, ring.run fuel ops = some results ∧ IsFifo [] ops results

section Divides

theorem new_holds (h : new c = some ring) : Holds ring c [] 0 := by
  rw [new] at h
  split at h
  case isFalse => cases h
  case isTrue =>
    cases h
    exact {
      cap := rfl
      head := by simp [counter]
      tailReserve := by simp [counter]
      tailCommit := by simp [counter]
      le := le_rfl
      window := by simp
      fits := by simp
      intact := by simp
    }

theorem Holds.push (hc : Capacity c) (h : Holds ring c log j) (hp : Fits c p)
    (hroom : next c recordSize (pos c recordSize log log.length) p ≤ pos c recordSize log j + c) :
    Holds { ring with
      tailReserve := counter (next c recordSize (pos c recordSize log log.length) p)
      tailCommit := counter (next c recordSize (pos c recordSize log log.length) p)
      data := ((writes c (pos c recordSize log log.length) p).map (cell c)).foldl store ring.data }
      c (log ++ [p]) j := by
  obtain ⟨a, ha⟩ : ∃ a, pos c recordSize log log.length = a := ⟨_, rfl⟩
  have ha4 := ha ▸ hc.four_dvd_pos log log.length
  have hj : pos c recordSize (log ++ [p]) j = pos c recordSize log j := pos_append h.le [p]
  have hja := ha ▸ pos_mono h.le
  rw [ha] at hroom ⊢
  have hb : ∀ w ∈ writes c a p, a ≤ w.1 ∧ w.1 < pos c recordSize log j + c := by
    intro w hw
    have := hc.writes_bounds ha4 hw
    omega
  refine ⟨h.cap, ?head, ?tailReserve, ?tailCommit, ?le, ?window, ?fits, ?intact⟩
  case head => rw [hj]; exact h.head
  case tailReserve => rw [List.length_append, List.length_singleton, pos_append_succ, ha]
  case tailCommit => rw [List.length_append, List.length_singleton, pos_append_succ, ha]
  case le => rw [List.length_append]; exact h.le.trans (Nat.le_add_right ..)
  case window => rw [List.length_append, List.length_singleton, pos_append_succ, hj, ha]; exact hroom
  case fits =>
    intro q hq
    rcases List.mem_append.mp hq with hq | hq
    · exact h.fits q hq
    · rw [List.mem_singleton.mp hq]; exact hp
  case intact =>
    intro i q hi hq
    rw [hj]
    by_cases hlt : i < log.length
    case pos =>
      -- an older record lies before the new one
      rw [List.getElem?_append_left hlt] at hq
      rw [pos_append hlt.le]
      refine (h.intact i q hi hq).congr ?_
      intro v hv hvj
      have h₁ := hc.writes_bounds (hc.four_dvd_pos log i) hv
      have h₂ : next c recordSize (pos c recordSize log i) q ≤ a := by
        rw [← pos_succ hq, ← ha]
        exact pos_mono hlt
      apply foldl_store_of_ne
      intro w hw
      obtain ⟨u, hu, rfl⟩ := List.mem_map.mp hw
      have := hb u hu
      exact cell_ne hvj (by omega) (by omega) this.2 (by omega)
    case neg =>
      have hi' : i = log.length := by
        have := (List.getElem?_eq_some_iff.mp hq).1
        rw [List.length_append, List.length_singleton] at this
        omega
      subst hi'
      rw [List.getElem?_concat_length, some.injEq] at hq
      subst hq
      rw [pos_append le_rfl, ha]
      intro w hw _
      refine foldl_store_of_mem ?_ (List.mem_map_of_mem hw)
      refine List.pairwise_map.mpr ?_
      refine List.Pairwise.imp_of_mem ?_ (hc.pairwise_writes ha4 p)
      intro u v hu hv huv
      have h₁ := hb u hu
      have h₂ := hb v hv
      exact cell_ne (by omega) h₁.2 (by omega) h₂.2 (by omega)

theorem Holds.tryPush_eq (hc : Capacity c) (h : Holds ring c log j) (p : List U8) :
    (∃ e, ring.tryPush p = some (.error e, ring)) ∨
    ∃ ring', ring.tryPush p = some (.ok (), ring') ∧ Holds ring' c (log ++ [p]) j := by
  have ht4 := hc.four_dvd_pos log log.length
  have hjn : pos c recordSize log j ≤ pos c recordSize log log.length := pos_mono h.le
  rw [tryPush]
  cases hs : pushSize ring.cap p
  case none => exact .inl ⟨_, rfl⟩
  case some n =>
    rw [h.cap, pushSize_eq_some_iff, hc.counter_toNat] at hs
    obtain ⟨hp, rfl⟩ := hs
    simp only [h.cap, h.head, h.tailReserve, h.tailCommit]
    cases hat : attempt (counter c) (counter (pos c recordSize log j))
      (counter (pos c recordSize log log.length)) (recordSize p)
    case retry => exact absurd hat (hc.attempt_ne_retry hjn h.window)
    case full => exact .inl ⟨_, rfl⟩
    case exchange padding wrap reserve =>
      obtain ⟨rfl, rfl, rfl⟩ := hc.attempt_exchange ht4 hat
      have hroom := hc.attempt_room ht4 hp.1 hjn (by have := h.window; have := hc.lt; omega) hat
      refine .inr ⟨_, rfl, ?_⟩
      have := h.push hc hp hroom
      rw [← hc.recordWrites_eq ht4 hp, next, Nat.add_assoc, ← counter_add] at this
      simpa only [h.cap, h.head, counter] using this

theorem Holds.pop (h : Holds ring c log j) (hp : log[j]? = some p) :
    Holds { ring with head := counter (pos c recordSize log (j + 1)) } c log (j + 1) := by
  have hj := (List.getElem?_eq_some_iff.mp hp).1
  have hle : pos c recordSize log j ≤ pos c recordSize log (j + 1) := pos_le_succ log j
  exact {
    __ := h
    head := rfl
    le := hj
    window := h.window.trans (by omega)
    intact := fun i q hi hq => (h.intact i q (by omega) hq).mono hle
  }

theorem Holds.tryPop_start (hc : Capacity c) (h : Holds ring c log j) (hp : log[j]? = some p)
    (fuel : Nat) :
    tryPop (fuel + 1) { ring with head := counter (start c (pos c recordSize log j) p) } =
      some (.ok p, { ring with head := counter (pos c recordSize log (j + 1)) }) := by
  have hfit := h.fits p (List.mem_of_getElem? hp)
  have hj := (List.getElem?_eq_some_iff.mp hp).1
  have hint := h.intact j p le_rfl hp
  have hstart : pos c recordSize log j ≤ start c (pos c recordSize log j) p := Nat.le_add_right ..
  have hnext : start c (pos c recordSize log j) p + recordSize p ≤
      pos c recordSize log log.length := by
    rw [start, ← next, ← pos_succ hp]
    exact pos_mono hj
  have hs4 := hc.four_dvd_start (hc.four_dvd_pos log j) p
  have hpos := recordSize_pos p
  have hwin := h.window
  have hlen : ofLe (toLe 4 p.length) = p.length := by
    have := hfit.2
    exact ofLe_toLe (by omega)
  have hlen32 : (ofNat 32 p.length).toNat = p.length := by
    have := hfit.2
    rw [toNat_ofNat]
    omega
  rw [tryPop]
  simp only [h.cap, h.tailCommit, headIndex, hc.counter_mod]
  rw [hc.look_eq hs4 (by omega) (by omega)]
  simp only [hint.length hc hfit hstart, hlen, hlen32, hint.payload hc hfit hstart]
  rw [hc.find_record hfit hnext (by omega), ← pos_succ hp]

theorem Holds.tryPop_eq (hc : Capacity c) (h : Holds ring c log j) (hf : 2 ≤ fuel) :
    (j = log.length ∧ tryPop fuel ring = some (.error .empty, ring)) ∨
    ∃ p ring', log[j]? = some p ∧ tryPop fuel ring = some (.ok p, ring') ∧
      Holds ring' c log (j + 1) := by
  obtain ⟨fuel, rfl⟩ : ∃ n, fuel = n + 2 := ⟨fuel - 2, by omega⟩
  cases hp : log[j]?
  case none =>
    have hj : j = log.length := by
      have := List.getElem?_eq_none_iff.mp hp
      have := h.le
      omega
    refine .inl ⟨hj, ?_⟩
    rw [tryPop]
    simp [look, h.head, h.tailCommit, hj]
  case some p =>
    refine .inr ⟨p, { ring with head := counter (pos c recordSize log (j + 1)) }, rfl, ?_, h.pop hp⟩
    by_cases hg : 0 < gap c (pos c recordSize log j) (recordSize p)
    case neg =>
      have hs : start c (pos c recordSize log j) p = pos c recordSize log j := by
        rw [start]
        omega
      have := h.tryPop_start hc hp (fuel + 1)
      rwa [hs, ← h.head] at this
    case pos =>
      -- the first round skips the padding
      have ha4 := hc.four_dvd_pos log j
      have hj := (List.getElem?_eq_some_iff.mp hp).1
      have hlt : pos c recordSize log j < pos c recordSize log log.length :=
        pos_lt recordSize_pos hj le_rfl
      have hmark : ofNat 32 (ofLe (toLe 4 wrapMarker.toNat)) = wrapMarker := by decide
      rw [tryPop]
      simp only [h.cap, h.head, h.tailCommit, headIndex, hc.counter_mod]
      rw [hc.look_eq ha4 hlt h.window]
      simp only [(h.intact j p le_rfl hp).marker hc ha4 le_rfl hg, hmark]
      rw [hc.find_marker hg]
      have := h.tryPop_start hc hp fuel
      simpa only [h.cap, h.tailCommit] using this

theorem Holds.run_eq (hc : Capacity c) (hf : 2 ≤ fuel) (ops : List Op)
    (h : Holds ring c log j) :
    ∃ results, ring.run fuel ops = some results ∧ IsFifo (log.drop j) ops results := by
  induction ops generalizing ring log j
  case nil => exact ⟨[], rfl, trivial⟩
  case cons op ops ih =>
    cases op
    case push p =>
      rcases h.tryPush_eq hc p with ⟨e, he⟩ | ⟨ring', he, h'⟩
      · obtain ⟨rs, hrs, hq⟩ := ih h
        exact ⟨.pushed (.error e) :: rs, by simp [run, apply, he, hrs], hq⟩
      · obtain ⟨rs, hrs, hq⟩ := ih h'
        refine ⟨.pushed (.ok ()) :: rs, by simp [run, apply, he, hrs], ?_⟩
        rwa [List.drop_append_of_le_length h.le] at hq
    case pop =>
      rcases h.tryPop_eq hc hf with ⟨hj, he⟩ | ⟨p, ring', hp, he, h'⟩
      · obtain ⟨rs, hrs, hq⟩ := ih h
        refine ⟨.popped (.error .empty) :: rs, by simp [run, apply, he, hrs], ?_, hq⟩
        rw [hj, List.drop_length]
      · obtain ⟨rs, hrs, hq⟩ := ih h'
        refine ⟨.popped (.ok p) :: rs, by simp [run, apply, he, hrs], log.drop (j + 1), ?_, hq⟩
        obtain ⟨hj, rfl⟩ := List.getElem?_eq_some_iff.mp hp
        exact List.drop_eq_getElem_cons hj

end Divides

section Jumps

variable {ring : RingBuffer} {c x n fuel i u : Nat} {p : List U8}

structure Idle (ring : RingBuffer) (c x : Nat) : Prop where
  cap         : ring.cap = counter c
  head        : ring.head = counter x
  tailReserve : ring.tailReserve = counter x
  tailCommit  : ring.tailCommit = counter x

theorem tryPush_plain (hcap : ring.cap.toNat = c) (hp : Fits c p)
    (hcommit : ring.tailCommit = ring.tailReserve)
    (hi : (ring.tailReserve % ring.cap).toNat = i) (hic : i + recordSize p ≤ c)
    (hu : (ring.tailReserve - ring.head).toNat + recordSize p ≤ c) :
    ring.tryPush p = some (.ok (), { ring with
      tailReserve := ring.tailReserve + counter (recordSize p)
      tailCommit := ring.tailReserve + counter (recordSize p)
      data := (bytesAt i (toLe 4 p.length) ++ bytesAt (i + 4) p).foldl store ring.data }) := by
  have hpos := length_add_four_le p
  have hpad : padding ring.cap ring.tailReserve (recordSize p) = (0, false) := by
    rw [padding, remaining, if_neg (by omega), if_neg (by omega)]
  have hsize := pushSize_eq_some_iff.mpr ⟨hcap.symm ▸ hp, rfl⟩
  have hused : ¬ring.tailReserve - ring.head > ring.cap := by
    rw [gt_iff_lt, lt_def]
    omega
  have hfree : ¬ofNat 32 (0 + recordSize p) > ring.cap - (ring.tailReserve - ring.head) := by
    rw [gt_iff_lt, lt_def, BitVec.toNat_sub_of_le, toNat_ofNat]
    · omega
    · rw [BitVec.le_def]
      omega
  rw [tryPush, hsize]
  simp only [attempt, if_neg hused, hpad, if_neg hfree, if_pos hcommit]
  simp [recordWrites, hi, counter]

theorem tryPop_plain (hcap : ring.cap.toNat = c) (hp : Fits c p)
    (hi : (ring.head % ring.cap).toNat = i) (hic : i + recordSize p ≤ c)
    (hu : recordSize p ≤ (ring.tailCommit - ring.head).toNat)
    (hlen : readBytes ring.data i 4 = toLe 4 p.length) (fuel : Nat) :
    ring.tryPop (fuel + 1) = some (.ok (readBytes ring.data (i + 4) p.length),
      { ring with head := ring.head + counter (recordSize p) }) := by
  have hpos := length_add_four_le p
  have hofLe : ofLe (toLe 4 p.length) = p.length := ofLe_toLe (by omega)
  have hlen32 : (ofNat 32 p.length).toNat = p.length := by
    rw [toNat_ofNat]
    omega
  have hne : ring.head ≠ ring.tailCommit := by
    intro he
    rw [he, sub_self] at hu
    simp only [toNat_ofNat] at hu
    omega
  have hmark : ofNat 32 p.length ≠ wrapMarker := by
    intro he
    have := congrArg toNat he
    have hw : wrapMarker.toNat = 2 ^ 32 - 1 := rfl
    omega
  have hgood : ¬(recordSize p > remaining ring.cap ring.head
      ∨ ring.tailCommit - ring.head < ofNat 32 (recordSize p)) := by
    rw [remaining, lt_def, toNat_ofNat]
    omega
  have hlook : look ring.cap ring.head ring.tailCommit = .length := by
    rw [look, if_neg hne, if_neg (by omega)]
  have hfind : find ring.cap ring.head ring.tailCommit (ofNat 32 p.length) =
      .record (ring.head + counter (recordSize p)) := by
    rw [find, if_neg hmark, hlen32, recordSizeChecked_eq hp.2]
    simp only [if_neg hgood]
    rfl
  rw [tryPop]
  simp only [headIndex, hi, hlook, hlen, hofLe, hfind, hlen32]

theorem readBytes_foldl_bytesAt (data : Nat → U8) (i : Nat) (bs : List U8) :
    readBytes ((bytesAt i bs).foldl store data) i bs.length = bs := by
  apply readBytes_eq rfl
  intro k b hb
  refine foldl_store_of_mem (w := (i + k, b)) ?_ (mem_bytesAt.mpr ⟨k, hb, rfl⟩)
  exact (pairwise_bytesAt i bs).imp (fun h => h.ne)

theorem fits_nil (hc : 4 ≤ c) : Fits c [] :=
  ⟨hc, by simp⟩

theorem Idle.round (h : Idle ring c x) (hc : 4 ∣ c) (hpos : 0 < c) (hlt : c < 2 ^ 32)
    (hx : 4 ∣ x) (hx' : x < 2 ^ 32) (fuel : Nat) :
    ∃ pushed ring', ring.tryPush [] = some (.ok (), pushed) ∧
      pushed.tryPop (fuel + 1) = some (.ok [], ring') ∧ Idle ring' c (x + 4) ∧
      pushed.cap = counter c ∧ pushed.head = counter x ∧ pushed.tailReserve = counter (x + 4) := by
  have hcap : ring.cap.toNat = c := by
    rw [h.cap, counter, toNat_ofNat, Nat.mod_eq_of_lt hlt]
  have hi : (counter x % counter c).toNat = x % c := by
    rw [counter, counter, toNat_umod, toNat_ofNat, toNat_ofNat,
      Nat.mod_eq_of_lt hlt, Nat.mod_eq_of_lt hx']
  have hnil : recordSize [] = 4 := rfl
  have hic : x % c + recordSize [] ≤ c := by
    have h₁ := Nat.mod_lt x hpos
    have h₂ : 4 ∣ x % c := (Nat.dvd_mod_iff hc).mpr hx
    omega
  have h4 := Nat.le_of_dvd hpos hc
  have hpush := tryPush_plain hcap (fits_nil h4)
    (by rw [h.tailCommit, h.tailReserve]) (by rw [h.tailReserve, h.cap, hi]) hic
    (by rw [h.tailReserve, h.head, sub_self]; exact h4)
  obtain ⟨pushed, hpushed⟩ : ∃ r : RingBuffer, r = { ring with
      tailReserve := ring.tailReserve + counter (recordSize [])
      tailCommit := ring.tailReserve + counter (recordSize [])
      data := (bytesAt (x % c) (toLe 4 ([] : List U8).length) ++ bytesAt (x % c + 4) []).foldl store
        ring.data } := ⟨_, rfl⟩
  have hcap₁ : pushed.cap.toNat = c := by rw [hpushed]; exact hcap
  have hpop := tryPop_plain hcap₁ (fits_nil h4) (by rw [hpushed, h.head, h.cap, hi]) hic
    (by
      simp only [hpushed, h.tailReserve, h.head, counter_add]
      rw [counter_sub_toNat (by omega) (by rw [hnil]; omega)]
      omega)
    (by
      rw [hpushed]
      exact readBytes_foldl_bytesAt ring.data (x % c) (toLe 4 0))
    fuel
  have hadd : counter x + counter (recordSize []) = counter (x + 4) := counter_add x 4
  rw [← hpushed] at hpush
  refine ⟨pushed, _, hpush, hpop, ?idle, ?fields⟩
  case idle =>
    subst hpushed
    exact {
      cap := h.cap
      head := by rw [h.head, hadd]
      tailReserve := by rw [h.tailReserve, hadd]
      tailCommit := by rw [h.tailReserve, hadd]
    }
  case fields =>
    subst hpushed
    exact ⟨h.cap, h.head, by rw [h.tailReserve, hadd]⟩

def rounds (n : Nat) : List Op :=
  (List.replicate n [.push [], .pop]).flatten

def roundResults (n : Nat) : List Result :=
  (List.replicate n [.pushed (.ok ()), .popped (.ok [])]).flatten

theorem isFifo_rounds (n : Nat) (ops : List Op) (rs : List Result) :
    IsFifo [] (rounds n ++ ops) (roundResults n ++ rs) ↔ IsFifo [] ops rs := by
  induction n
  case zero => rfl
  case succ n ih =>
    rw [← ih]
    constructor
    · rintro ⟨rest, hrest, hq⟩
      cases hrest
      exact hq
    · intro hq
      exact ⟨[], rfl, hq⟩

theorem Idle.run_rounds (h : Idle ring c x) (hc : 4 ∣ c) (hpos : 0 < c) (hlt : c < 2 ^ 32)
    (hx : 4 ∣ x) (hn : x + 4 * n < 2 ^ 32) (fuel : Nat) :
    ∃ ring', Idle ring' c (x + 4 * n) ∧ ∀ ops, ring.run (fuel + 1) (rounds n ++ ops) =
      (ring'.run (fuel + 1) ops).map (roundResults n ++ ·) := by
  induction n generalizing ring x
  case zero => exact ⟨ring, h, fun ops => by simp [rounds, roundResults]⟩
  case succ n ih =>
    obtain ⟨pushed, ring₁, hpush, hpop, h₁, -⟩ := h.round hc hpos hlt hx (by omega) fuel
    obtain ⟨ring₂, h₂, hrun₂⟩ := ih h₁ (by omega) (by omega)
    refine ⟨ring₂, ?_, fun ops => ?_⟩
    · rw [Nat.mul_succ, Nat.add_comm (4 * n), ← Nat.add_assoc]
      exact h₂
    · have hstep : ring.run (fuel + 1) (rounds (n + 1) ++ ops) =
          (ring₁.run (fuel + 1) (rounds n ++ ops)).map
            fun rs => .pushed (.ok ()) :: .popped (.ok []) :: rs := by
        simp only [rounds, List.replicate_succ, List.flatten_cons, List.cons_append,
          run, apply, hpush, hpop, map_some, bind_some,
          map_map]
        rfl
      rw [hstep, hrun₂ ops, map_map]
      rfl

-- The storage after a record for `[1, 1, 1, 1]` at the index `i` and a record of zeros at the
-- index 4, as long as it takes to reach the length field at `i`.
def overlapped (data : Nat → U8) (i : Nat) : Nat → U8 :=
  (bytesAt 4 (toLe 4 (i - 4)) ++ bytesAt 8 (List.replicate (i - 4) 0)).foldl store
    ((bytesAt i (toLe 4 4) ++ bytesAt (i + 4) [1, 1, 1, 1]).foldl store data)

theorem overlapped_zero (data : Nat → U8) :
    readBytes (overlapped data 0) 0 4 = toLe 4 4 ∧ readBytes (overlapped data 0) 4 4 = toLe 4 0 := by
  constructor <;> rfl

theorem overlapped_length (data : Nat → U8) (hi : 4 ∣ i) (hi0 : 0 < i) :
    readBytes (overlapped data i) i 4 = toLe 4 0 := by
  obtain rfl | h8 : i = 4 ∨ 8 ≤ i := by omega
  · rfl
  · apply readBytes_eq (length_toLe 4 0)
    intro k b hb
    have hk := (List.getElem?_eq_some_iff.mp hb).1
    rw [length_toLe] at hk
    have hb0 : b = 0 := List.eq_of_mem_replicate (n := 4) (List.mem_of_getElem? hb)
    rw [overlapped, List.foldl_append]
    refine foldl_store_of_mem (w := (i + k, b))
      ((pairwise_bytesAt _ _).imp (fun h => h.ne)) (mem_bytesAt.mpr ⟨i + k - 8, ?_, by simp only; omega⟩)
    rw [List.getElem?_replicate, if_pos (by omega), hb0]

theorem jump_bounds (hc : 4 ∣ c) (hpos : 0 < c) (hdvd : ¬c ∣ 2 ^ 32) (hi : i = 2 ^ 32 % c - 4) :
    4 ∣ i ∧ i + 8 ≤ c ∧ 12 ≤ c ∧ (2 ^ 32 - 4) % c = i := by
  have hmod : 2 ^ 32 % c < c := Nat.mod_lt _ hpos
  have hmod4 : 4 ∣ 2 ^ 32 % c := (Nat.dvd_mod_iff hc).mpr (by decide)
  refine ⟨by omega, by omega, ?_, ?_⟩
  · by_contra hc8
    obtain rfl | rfl : c = 4 ∨ c = 8 := by omega
    · exact hdvd (by decide)
    · exact hdvd (by decide)
  · have hdm := Nat.div_add_mod (2 ^ 32) c
    have he : 2 ^ 32 - 4 = i + c * (2 ^ 32 / c) := by omega
    rw [he, Nat.add_mul_mod_self_left, Nat.mod_eq_of_lt (by omega)]

section

variable (h : Idle ring c (2 ^ 32 - 4)) (hc : 4 ∣ c) (hpos : 0 < c) (hlt : c < 2 ^ 32)
  (hdvd : ¬c ∣ 2 ^ 32) (hi : i = 2 ^ 32 % c - 4)
include h hc hpos hlt hdvd hi

theorem Idle.overlap :
    ∃ ring₁ ring₂, ring.tryPush [1, 1, 1, 1] = some (.ok (), ring₁) ∧
      ring₁.tryPush (List.replicate (i - 4) 0) = some (.ok (), ring₂) ∧
      ring₂.cap = ring.cap ∧ ring₂.head = ring.head ∧
      ring₂.tailCommit = counter (max i 4 + 4) ∧ ring₂.data = overlapped ring.data i := by
  obtain ⟨hi4, hic, hc12, hindex⟩ := jump_bounds hc hpos hdvd hi
  have hcap : ring.cap.toNat = c := by
    rw [h.cap, counter, toNat_ofNat, Nat.mod_eq_of_lt hlt]
  have hsize : recordSize (List.replicate (i - 4) 0) = max i 4 := by
    rw [recordSize, List.length_replicate]
    omega
  have htail : counter (2 ^ 32 - 4) + counter (recordSize [1, 1, 1, 1]) = counter 4 := by decide
  have hused : (counter 4 - counter (2 ^ 32 - 4)).toNat = 8 := by decide
  have hone := tryPush_plain (p := [1, 1, 1, 1]) hcap
    ⟨le_trans (by decide) hc12, by simp⟩
    (by rw [h.tailCommit, h.tailReserve])
    (by
      rw [h.tailReserve, toNat_umod, hcap, counter, toNat_ofNat,
        Nat.mod_eq_of_lt (b := 2 ^ 32) (by omega), hindex])
    hic
    (by
      rw [h.tailReserve, h.head]
      exact le_trans (by decide) hc12)
  rw [h.tailReserve, htail] at hone
  obtain ⟨ring₁, hring₁⟩ : ∃ r : RingBuffer, r = { ring with
      tailReserve := counter 4
      tailCommit := counter 4
      data := (bytesAt i (toLe 4 ([1, 1, 1, 1] : List U8).length)
        ++ bytesAt (i + 4) [1, 1, 1, 1]).foldl store ring.data } := ⟨_, rfl⟩
  rw [← hring₁] at hone
  have hcap₁ : ring₁.cap.toNat = c := by rw [hring₁]; exact hcap
  have htwo := tryPush_plain (p := List.replicate (i - 4) 0) (i := 4) hcap₁
    ⟨by omega, by rw [List.length_replicate]; omega⟩
    (by rw [hring₁])
    (by
      rw [hring₁, toNat_umod]
      simp only [hcap]
      exact Nat.mod_eq_of_lt (show 4 < c by omega))
    (by omega)
    (by
      rw [hring₁]
      simp only [h.head]
      omega)
  refine ⟨ring₁, _, hone, htwo, ?_, ?_, ?_, ?_⟩
  · rw [hring₁]
  · rw [hring₁]
  · rw [hring₁, hsize]
    simp only [counter_add, Nat.add_comm]
  · simp only [hring₁, List.length_replicate]
    rfl

theorem Idle.run_overlap (fuel : Nat) :
    ring.run (fuel + 1) [.push [1, 1, 1, 1], .push (List.replicate (i - 4) 0), .pop] =
      some [.pushed (.ok ()), .pushed (.ok ()),
        .popped (.ok (if i = 0 then [0, 0, 0, 0] else []))] := by
  obtain ⟨ring₁, ring₂, hone, htwo, hcap, hhead, htail, hdata⟩ := h.overlap hc hpos hlt hdvd hi
  obtain ⟨hi4, hic, hc12, hindex⟩ := jump_bounds hc hpos hdvd hi
  have hcap₂ : ring₂.cap.toNat = c := by
    rw [hcap, h.cap, counter, toNat_ofNat, Nat.mod_eq_of_lt hlt]
  have hhead₂ : (ring₂.head % ring₂.cap).toNat = i := by
    rw [toNat_umod, hcap₂, hhead, h.head, counter, toNat_ofNat,
      Nat.mod_eq_of_lt (b := 2 ^ 32) (by omega), hindex]
  have hused : (ring₂.tailCommit - ring₂.head).toNat = max i 4 + 8 := by
    rw [htail, hhead, h.head, counter, counter, toNat_sub, toNat_ofNat, toNat_ofNat]
    omega
  have hpop : ∃ ring₃, ring₂.tryPop (fuel + 1) =
      some (.ok (if i = 0 then [0, 0, 0, 0] else []), ring₃) := by
    by_cases hi0 : i = 0
    case pos =>
      -- the payload is overwritten with the length field of the second record
      subst hi0
      have hread := overlapped_zero ring.data
      have hpop := tryPop_plain (p := [0, 0, 0, 0]) hcap₂ ⟨hic, by simp⟩ hhead₂ hic
        (by rw [hused]; decide) (by rw [hdata]; exact hread.1) fuel
      have hout : readBytes (overlapped ring.data 0) (0 + 4) ([0, 0, 0, 0] : List U8).length =
          [0, 0, 0, 0] := hread.2
      rw [hdata] at hpop
      exact ⟨_, hpop⟩
    case neg =>
      -- the length field is overwritten with zeros
      have hpop := tryPop_plain hcap₂ (fits_nil (by omega)) hhead₂
        (by have : recordSize [] = 4 := rfl; omega) (by rw [hused, recordSize]; simp)
        (by rw [hdata]; exact overlapped_length ring.data hi4 (by omega)) fuel
      rw [if_neg hi0]
      exact ⟨_, hpop⟩
  obtain ⟨ring₃, hpop⟩ := hpop
  simp only [run, apply, hone, htwo, hpop, map_some, bind_some]

end

theorem not_isFifo_overlap (zeros : List U8) (hne : out ≠ [1, 1, 1, 1]) :
    ¬IsFifo [] [.push [1, 1, 1, 1], .push zeros, .pop]
      [.pushed (.ok ()), .pushed (.ok ()), .popped (.ok out)] := by
  rintro ⟨rest, hrest, _⟩
  injection hrest with hout
  exact hne hout.symm

def overlapOps (c : Nat) : List Op :=
  rounds (2 ^ 30 - 1) ++
    [.push [1, 1, 1, 1], .push (List.replicate (2 ^ 32 % c - 4 - 4) 0), .pop]

def overlapResults (out : List U8) : List Result :=
  roundResults (2 ^ 30 - 1) ++ [.pushed (.ok ()), .pushed (.ok ()), .popped (.ok out)]

theorem run_overlapOps (h : new c = some ring) (hdvd : ¬c ∣ 2 ^ 32) (fuel : Nat) :
    ring.run (fuel + 1) (overlapOps c) =
      some (overlapResults (if 2 ^ 32 % c - 4 = 0 then [0, 0, 0, 0] else [])) := by
  rw [new] at h
  split at h
  case isFalse => cases h
  case isTrue hok =>
    cases h
    obtain ⟨hpos, halign, hlt⟩ := hok
    have hc := Nat.dvd_of_mod_eq_zero halign
    have hidle : Idle ⟨ofNat 32 c, 0, 0, 0, fun _ => 0⟩ c 0 := ⟨rfl, rfl, rfl, rfl⟩
    obtain ⟨n, hn⟩ : ∃ n, n = 2 ^ 30 - 1 := ⟨_, rfl⟩
    obtain ⟨ring₁, h₁, hrun⟩ := hidle.run_rounds hc hpos (by omega) (Nat.dvd_zero 4)
      (n := n) (by omega) fuel
    have hx : 0 + 4 * n = 2 ^ 32 - 4 := by omega
    rw [hx] at h₁
    rw [overlapOps, ← hn, hrun, h₁.run_overlap hc hpos (by omega) hdvd rfl, overlapResults, ← hn]
    rfl

theorem not_isFifo_overlapOps (hne : out ≠ [1, 1, 1, 1]) :
    ¬IsFifo [] (overlapOps c) (overlapResults out) := by
  rw [overlapOps, overlapResults, isFifo_rounds]
  exact not_isFifo_overlap _ hne

end Jumps

-- A ring of 12 bytes returns a payload that nobody has pushed.
theorem fifo_twelve_bytes : ∃ ring, new 12 = some ring ∧
    ring.run 2 (rounds (2 ^ 30 - 1) ++ [.push [1, 1, 1, 1], .push [], .pop]) =
      some (roundResults (2 ^ 30 - 1) ++
        [.pushed (.ok ()), .pushed (.ok ()), .popped (.ok [0, 0, 0, 0])]) ∧
    ¬IsFifo [] (rounds (2 ^ 30 - 1) ++ [.push [1, 1, 1, 1], .push [], .pop])
      (roundResults (2 ^ 30 - 1) ++
        [.pushed (.ok ()), .pushed (.ok ()), .popped (.ok [0, 0, 0, 0])]) := by
  have hnew : new 12 = some ⟨12, 0, 0, 0, fun _ => 0⟩ := rfl
  have hrun := run_overlapOps hnew (by decide) 1
  have hfifo : ¬IsFifo [] (overlapOps 12) (overlapResults [0, 0, 0, 0]) :=
    not_isFifo_overlapOps (by decide)
  -- the jump of a ring of 12 bytes is 4, so that the second payload is empty
  exact ⟨_, hnew, hrun, hfifo⟩

theorem fifo_iff_dvd {capacityBytes : Nat} {ring : RingBuffer} (h : new capacityBytes = some ring) :
    (∀ fuel, 2 ≤ fuel → Fifo fuel ring) ↔ capacityBytes ∣ 2 ^ 32 := by
  constructor
  case mp =>
    intro hfifo
    by_contra hdvd
    obtain ⟨rs, hrs, hq⟩ := hfifo 2 le_rfl (overlapOps capacityBytes)
    rw [run_overlapOps h hdvd 1, some.injEq] at hrs
    subst hrs
    refine not_isFifo_overlapOps ?_ hq
    split <;> decide
  case mpr =>
    intro hdvd fuel hfuel ops
    have hc : Capacity capacityBytes := by
      rw [new] at h
      split at h
      case isFalse => cases h
      case isTrue hok => exact ⟨hok.1, Nat.dvd_of_mod_eq_zero hok.2.1, hdvd, by omega⟩
    exact (new_holds h).run_eq hc hfuel ops

theorem fifo_iff_dvd_sixteen_bytes : ∃ ring, new 16 = some ring ∧
    ((∀ fuel, 2 ≤ fuel → Fifo fuel ring) ↔ 16 ∣ 2 ^ 32) :=
  ⟨_, rfl, fifo_iff_dvd rfl⟩

section Empty

variable {cap tail : U32} {p : List U8} {n : Nat}

theorem attempt_empty (hn : 4 ≤ n) (hcap : n ≤ cap.toNat) :
    (∃ padding wrap reserve, attempt cap tail tail n = .exchange padding wrap reserve) ↔
      n ≤ remaining cap tail ∨ remaining cap tail + n ≤ cap.toNat ∨
        2 ^ 32 ≤ remaining cap tail + n := by
  have hused : ¬tail - tail > cap := by simp
  -- the sum of the two is cut to 32 bits before it is compared
  have hfits : ∀ reserve, ofNat 32 reserve > cap - (tail - tail) ↔
      cap.toNat < reserve % 2 ^ 32 := by
    intro reserve
    rw [gt_iff_lt, lt_def, sub_self]
    simp
  rw [attempt]
  simp only [if_neg hused, hfits]
  rw [padding]
  split
  · simp only
    split_ifs <;> simp <;> omega
  split
  · simp only
    split_ifs <;> simp <;> omega
  · simp only
    split_ifs <;> simp <;> omega

theorem tryPush_empty_iff (ring : RingBuffer) (p : List U8)
    (hhead : ring.head = ring.tailReserve) (hcommit : ring.tailCommit = ring.tailReserve)
    (hsize : pushSize ring.cap p = some n) :
    (∃ ring', ring.tryPush p = some (.ok (), ring')) ↔
      n ≤ remaining ring.cap ring.tailReserve ∨
        remaining ring.cap ring.tailReserve + n ≤ ring.cap.toNat ∨
        2 ^ 32 ≤ remaining ring.cap ring.tailReserve + n := by
  obtain ⟨hfits, rfl⟩ := pushSize_eq_some_iff.mp hsize
  have hfour := length_add_four_le p
  rw [← attempt_empty (by omega) hfits.1, tryPush, hsize]
  simp only [hhead, hcommit]
  cases attempt ring.cap ring.tailReserve ring.tailReserve (recordSize p)
  case retry => simp
  case full => simp
  case exchange padding wrap reserve => simp

theorem tryPush_empty_iff_new : ∃ ring, new 12 = some ring ∧
    ∃ ring', ring.tryPush [0, 0, 0, 0, 0, 0, 0, 0] = some (.ok (), ring') :=
  ⟨_, rfl, (tryPush_empty_iff ⟨12, 0, 0, 0, fun _ => 0⟩ [0, 0, 0, 0, 0, 0, 0, 0] rfl rfl rfl).mpr
    (by decide)⟩

-- After a record of 8 bytes has come and gone, the empty ring of 12 bytes never takes a record of 12.
theorem full_while_empty : ∃ ring ring₁ ring₂, new 12 = some ring ∧
    ring.tryPush [0, 0, 0, 0] = some (.ok (), ring₁) ∧
    ring₁.tryPop 1 = some (.ok [0, 0, 0, 0], ring₂) ∧
    ring₂.head = ring₂.tailReserve ∧ ring₂.tailCommit = ring₂.tailReserve ∧
    pushSize ring₂.cap [0, 0, 0, 0, 0, 0, 0, 0] = some 12 ∧ ring₂.cap = 12 ∧
    ring₂.tryPush [0, 0, 0, 0, 0, 0, 0, 0] = some (.error .full, ring₂) :=
  ⟨_, _, _, rfl, rfl, rfl, rfl, rfl, rfl, rfl, rfl⟩

end Empty

end Aero.Ipc
