import Aero.Ipc.Record
import Aero.Ipc.RingSystem

namespace Aero.Ipc

open LeBytes CircularLog RingBuffer

namespace System

variable {ι : Type*} [DecidableEq ι]

def payloads (s : System ι) : List (List U8) :=
  s.reservations.map (·.payload)

def place (s : System ι) (c i : Nat) : Nat :=
  pos c recordSize s.payloads i

end System

def Producer.ticket? : Producer → Option Nat
  | copy ticket _ _ _    => some ticket
  | storeCommit ticket _ => some ticket
  | _                    => none

namespace System

variable {ι : Type*}

def Pending (c : Nat) (s : System ι) (p : ι) (ticket : Nat) (newTail : U32) : Prop :=
  s.commits ≤ ticket ∧ newTail = counter (s.place c (ticket + 1)) ∧
    ∃ r, s.reservations[ticket]? = some r ∧ r.owner = p

-- The bytes of the reservation `ticket` that do not have to be copied any more are in the storage.
def Copied (c : Nat) (s : System ι) (ticket : Nat) (todo : List (Nat × U8)) : Prop :=
  ∃ q copied rest, s.payloads[ticket]? = some q ∧ writes c (s.place c ticket) q = copied ++ rest ∧
    todo = rest.map (cell c) ∧ ∀ w ∈ copied, s.ring.data (w.1 % c) = w.2

def ProducerInv (c : Nat) (s : System ι) (h : Nat) (p : ι) : Producer → Prop
  | .idle => True
  | .done _ => True
  | .loadHead payload n => Fits c payload ∧ n = recordSize payload
  | .loadTail payload n head seenHead =>
    Fits c payload ∧ n = recordSize payload ∧ seenHead ≤ s.reserved ∧
      ∃ x ≤ h, head = counter x ∧ x ≤ seenHead ∧ seenHead ≤ x + c
  | .exchange payload n tail padding wrap reserve seenHead seenTail =>
    Fits c payload ∧ n = recordSize payload ∧ tail = counter seenTail ∧ seenHead ≤ seenTail ∧
      seenTail ≤ s.reserved ∧ padding = gap c seenTail n ∧ wrap = decide (0 < gap c seenTail n) ∧
      reserve = gap c seenTail n + n ∧
      (seenTail - seenHead < 2 ^ 32 - c → seenTail + gap c seenTail n + n ≤ h + c)
  | .copy ticket tail newTail todo =>
    s.Pending c p ticket newTail ∧ tail = counter (s.place c ticket) ∧ s.Copied c ticket todo
  | .storeCommit ticket newTail =>
    s.Pending c p ticket newTail ∧ ticket = s.commits ∧ s.Copied c ticket []

def AtRecord (c : Nat) (s : System ι) (h : Nat) (q : List U8) : Prop :=
  s.popped.length < s.commits ∧ s.payloads[s.popped.length]? = some q ∧
    h = start c (s.place c s.popped.length) q

def ConsumerInv (c : Nat) (s : System ι) (h : Nat) : Consumer → Prop
  | .idle => True
  | .loadHead => True
  | .done result => result ≠ .error .corrupt
  | .loadTail head => head = counter h
  | .readLength head tail bytes =>
    head = counter h ∧ bytes.length < 4 ∧ bytes = readBytes s.ring.data (h % c) bytes.length ∧
      ∃ m ≤ s.commits, tail = counter (s.place c m) ∧ h < s.place c m
  | .copy head newHead len bytes =>
    head = counter h ∧ ∃ q, s.AtRecord c h q ∧
      newHead = counter (s.place c (s.popped.length + 1)) ∧ len = q.length ∧ bytes <+: q
  | .skip newHead =>
    ∃ q, s.popped.length < s.commits ∧ s.payloads[s.popped.length]? = some q ∧
      h = s.place c s.popped.length ∧ newHead = counter (start c h q)

-- `h` is the position of the head.
structure Inv (c : Nat) (s : System ι) (h : Nat) : Prop where
  cap         : s.ring.cap = counter c
  head        : s.ring.head = counter h
  tailReserve : s.ring.tailReserve = counter (s.place c s.reservations.length)
  tailCommit  : s.ring.tailCommit = counter (s.place c s.commits)
  reserved    : s.reserved = s.place c s.reservations.length
  shape       : ∀ i r, s.reservations[i]? = some r → r.start = s.place c i ∧
    r.padding = gap c (s.place c i) (recordSize r.payload) ∧
    r.reserve = r.padding + recordSize r.payload
  fits        : ∀ q ∈ s.payloads, Fits c q
  commits     : s.commits ≤ s.reservations.length
  popped      : s.popped <+: s.payloads
  popped_le   : s.popped.length ≤ s.commits
  atHead      : h = s.place c s.popped.length ∨ ∃ q, s.AtRecord c h q
  window      : s.place c s.reservations.length ≤ h + c
  intact      : ∀ i q, s.popped.length ≤ i → i < s.commits → s.payloads[i]? = some q →
    Intact s.ring.data c h (s.place c i) q
  producers   : ∀ p, s.ProducerInv c h p (s.producers p)
  tickets     : ∀ i r, s.commits ≤ i → s.reservations[i]? = some r →
    (s.producers r.owner).ticket? = some i
  consumer    : s.ConsumerInv c h s.consumer

section Places

variable {c h i j : Nat} {s s' : System ι}

theorem length_payloads (s : System ι) : s.payloads.length = s.reservations.length :=
  List.length_map ..

theorem payloads_getElem? (hr : s.reservations[i]? = some r) : s.payloads[i]? = some r.payload := by
  rw [payloads, List.getElem?_map, hr]
  rfl

theorem place_mono (hij : i ≤ j) : s.place c i ≤ s.place c j := pos_mono hij

theorem place_succ (hq : s.payloads[i]? = some q) :
    s.place c (i + 1) = start c (s.place c i) q + recordSize q := pos_succ hq

theorem place_lt (hij : i < j) (hj : j ≤ s.reservations.length) : s.place c i < s.place c j :=
  pos_lt recordSize_pos hij (by rw [length_payloads]; exact hj)

theorem four_dvd_place (hc : Capacity c) (s : System ι) (i : Nat) : 4 ∣ s.place c i :=
  hc.four_dvd_pos s.payloads i

section

variable (hp : s.reservations <+: s'.reservations)
include hp

theorem payloads_mono : s.payloads <+: s'.payloads :=
  hp.map _

theorem payloads_extend (hq : s.payloads[i]? = some q) : s'.payloads[i]? = some q := by
  obtain ⟨rest, hrest⟩ := payloads_mono hp
  rw [← hrest, List.getElem?_append_left (List.getElem?_eq_some_iff.mp hq).1, hq]

theorem place_extend (hi : i ≤ s.reservations.length) : s'.place c i = s.place c i := by
  obtain ⟨rest, hrest⟩ := payloads_mono hp
  rw [place, ← hrest, pos_append (by rw [length_payloads]; exact hi), place]

end

end Places

namespace Inv

variable {s : System ι}

theorem four_dvd_head (hc : Capacity c) (hi : Inv c s h) : 4 ∣ h := by
  rcases hi.atHead with rfl | ⟨q, -, -, rfl⟩
  · exact four_dvd_place hc s _
  · exact hc.four_dvd_start (four_dvd_place hc s _) q

theorem place_popped_le (hi : Inv c s h) : s.place c s.popped.length ≤ h := by
  rcases hi.atHead with rfl | ⟨q, -, -, rfl⟩
  · exact le_rfl
  · exact Nat.le_add_right ..

theorem head_le (hi : Inv c s h) : h ≤ s.place c s.commits := by
  rcases hi.atHead with rfl | ⟨q, hlt, hq, rfl⟩
  · exact place_mono hi.popped_le
  · calc start c (s.place c s.popped.length) q
        ≤ start c (s.place c s.popped.length) q + recordSize q := Nat.le_add_right ..
      _ = s.place c (s.popped.length + 1) := (place_succ hq).symm
      _ ≤ s.place c s.commits := place_mono hlt

theorem commits_le (hi : Inv c s h) : s.place c s.commits ≤ s.place c s.reservations.length :=
  place_mono hi.commits

end Inv

section Frames

variable {c h h' : Nat} {s s' : System ι} {state : Producer}

-- What the others may do without a producer noticing it.
structure Frame (c : Nat) (s s' : System ι) (state : Producer) : Prop where
  reservations : s.reservations <+: s'.reservations
  reserved     : s.reserved ≤ s'.reserved
  commits      : ∀ t, state.ticket? = some t →
    s'.commits ≤ t ∧ (t = s.commits → s'.commits = s.commits)
  data         : ∀ t q w, state.ticket? = some t → s.payloads[t]? = some q →
    w ∈ writes c (s.place c t) q → s'.ring.data (w.1 % c) = s.ring.data (w.1 % c)

theorem Pending.lt (hp : s.Pending c p t newTail) : t < s.reservations.length := by
  obtain ⟨-, -, r, hr, -⟩ := hp
  exact (List.getElem?_eq_some_iff.mp hr).1

theorem ProducerInv.pending (hi : s.ProducerInv c h p state) (ht : state.ticket? = some t) :
    ∃ newTail, s.Pending c p t newTail := by
  cases state <;> cases ht
  case copy => exact ⟨_, hi.1⟩
  case storeCommit => exact ⟨_, hi.1⟩

theorem ProducerInv.ticket_ne (hi : s.ProducerInv c h p state) (ht : state.ticket? = some t)
    (hi' : s.ProducerInv c h p' state') (ht' : state'.ticket? = some t') (hp : p' ≠ p) :
    t' ≠ t := by
  rintro rfl
  obtain ⟨_, -, -, r, hr, ho⟩ := hi.pending ht
  obtain ⟨_, -, -, r', hr', ho'⟩ := hi'.pending ht'
  rw [hr, Option.some.injEq] at hr'
  exact hp (ho'.symm.trans (hr' ▸ ho))

theorem Pending.frame (hp : s.Pending c p t newTail) (hres : s.reservations <+: s'.reservations)
    (hcom : s'.commits ≤ t) : s'.Pending c p t newTail := by
  obtain ⟨-, rfl, r, hr, ho⟩ := hp
  have hlt := (List.getElem?_eq_some_iff.mp hr).1
  refine ⟨hcom, ?_, r, ?_, ho⟩
  · rw [place_extend hres hlt]
  · obtain ⟨rest, hrest⟩ := hres
    rw [← hrest, List.getElem?_append_left hlt, hr]

theorem Copied.frame (hp : s.Copied c t todo) (hf : Frame c s s' state)
    (ht : state.ticket? = some t) : s'.Copied c t todo := by
  obtain ⟨q, copied, rest, hq, hw, htodo, hdata⟩ := hp
  have hlt := (List.getElem?_eq_some_iff.mp hq).1
  rw [length_payloads] at hlt
  refine ⟨q, copied, rest, payloads_extend hf.reservations hq, ?_, htodo, ?_⟩
  · rw [place_extend hf.reservations hlt.le, hw]
  · intro w hwc
    rw [hf.data t q w ht hq (by rw [hw]; exact List.mem_append_left _ hwc), hdata w hwc]

theorem ProducerInv.frame (hi : s.ProducerInv c h p state) (hf : Frame c s s' state)
    (hh : h ≤ h') : s'.ProducerInv c h' p state := by
  cases state
  case idle => trivial
  case done => trivial
  case loadHead => exact hi
  case loadTail =>
    obtain ⟨h₁, h₂, h₃, x, hx, h₄⟩ := hi
    exact ⟨h₁, h₂, h₃.trans hf.reserved, x, hx.trans hh, h₄⟩
  case exchange =>
    obtain ⟨h₁, h₂, h₃, h₄, h₅, h₆, h₇, h₈, h₉⟩ := hi
    exact ⟨h₁, h₂, h₃, h₄, h₅.trans hf.reserved, h₆, h₇, h₈, fun hlt => (h₉ hlt).trans (by omega)⟩
  case copy t tail newTail todo =>
    obtain ⟨h₁, h₂, h₃⟩ := hi
    refine ⟨h₁.frame hf.reservations (hf.commits t rfl).1, ?_, h₃.frame hf rfl⟩
    rw [place_extend hf.reservations h₁.lt.le, h₂]
  case storeCommit t newTail =>
    obtain ⟨h₁, h₂, h₃⟩ := hi
    have hcom := hf.commits t rfl
    exact ⟨h₁.frame hf.reservations hcom.1, h₂.trans (hcom.2 h₂).symm, h₃.frame hf rfl⟩

theorem AtRecord.frame (ha : s.AtRecord c h q) (hi : Inv c s h)
    (hres : s.reservations <+: s'.reservations) (hcom : s.commits ≤ s'.commits)
    (hpop : s'.popped = s.popped) : s'.AtRecord c h q := by
  obtain ⟨h₁, h₂, h₃⟩ := ha
  have hle := hi.popped_le.trans hi.commits
  rw [AtRecord, hpop, place_extend hres hle]
  exact ⟨h₁.trans_le hcom, payloads_extend hres h₂, h₃⟩

theorem ConsumerInv.frame (hc : Capacity c) {state : Consumer} (hi : s.ConsumerInv c h state)
    (hinv : Inv c s h) (hres : s.reservations <+: s'.reservations)
    (hcom : s.commits ≤ s'.commits) (hpop : s'.popped = s.popped)
    (hdata : ∀ x, h ≤ x → x < s.place c s.commits →
      s'.ring.data (x % c) = s.ring.data (x % c)) : s'.ConsumerInv c h state := by
  have hle := hinv.popped_le.trans hinv.commits
  cases state
  case idle => trivial
  case loadHead => trivial
  case done => exact hi
  case loadTail => exact hi
  case readLength head tail bytes =>
    obtain ⟨h₁, h₂, h₃, m, hm, h₄, h₅⟩ := hi
    refine ⟨h₁, h₂, ?_, m, hm.trans hcom, ?_, ?_⟩
    · refine h₃.trans (readBytes_congr ?_)
      intro k hk
      -- the field ends before the loaded tail
      have hh4 := hinv.four_dvd_head hc
      have hm4 := four_dvd_place hc s m
      have hmc : s.place c m ≤ s.place c s.commits := place_mono hm
      have hrem := hc.four_le_remaining hh4
      rw [← gap_add_mod (by omega), hdata (h + k) (by omega) (by omega)]
    · rw [place_extend hres (hm.trans hinv.commits), h₄]
    · rw [place_extend hres (hm.trans hinv.commits)]
      exact h₅
  case copy head newHead len bytes =>
    obtain ⟨h₁, q, h₂, h₃, h₄⟩ := hi
    refine ⟨h₁, q, h₂.frame hinv hres hcom hpop, ?_, h₄⟩
    rw [hpop, place_extend hres (h₂.1.trans_le hinv.commits), h₃]
  case skip newHead =>
    obtain ⟨q, h₁, h₂, h₃, h₄⟩ := hi
    refine ⟨q, ?_, ?_, ?_, h₄⟩
    · rw [hpop]; exact h₁.trans_le hcom
    · rw [hpop]; exact payloads_extend hres h₂
    · rw [hpop, place_extend hres hle]; exact h₃

end Frames

end System

end Aero.Ipc
