import Aero.Ipc.RingInvariant

namespace Aero.Ipc

open LeBytes CircularLog RingBuffer List

namespace System

variable {ι : Type*}

section Consumer

variable {s : System ι}

theorem setConsumer_producerInv :
    (s.setConsumer state).ProducerInv c h p state' ↔ s.ProducerInv c h p state' := by
  cases state' <;> rfl

theorem setConsumer_consumerInv :
    (s.setConsumer state).ConsumerInv c h state' ↔ s.ConsumerInv c h state' := by
  cases state' <;> rfl

theorem Inv.setConsumer (hi : Inv c s h) (hs : s.ConsumerInv c h state) :
    Inv c (s.setConsumer state) h where
  __ := hi
  producers p := setConsumer_producerInv.mpr (hi.producers p)
  consumer := setConsumer_consumerInv.mpr hs

theorem Inv.lookAt (hc : Capacity c) (hi : Inv c s h) : s.ConsumerInv c h (s.lookAt (counter h)) := by
  rw [System.lookAt, hi.cap, hi.tailCommit]
  have hle := hi.head_le
  have hwin := hi.commits_le.trans hi.window
  by_cases he : h = s.place c s.commits
  case pos =>
    rw [look, if_pos (congrArg counter he)]
    simp [ConsumerInv]
  case neg =>
    rw [hc.look_eq (hi.four_dvd_head hc) (by omega) hwin]
    exact ⟨rfl, by simp, by simp [readBytes], s.commits, le_rfl, rfl, by omega⟩

-- The whole length field is the wrap marker before the padding and the length before the payload.
theorem Inv.findAt (hc : Capacity c) (hi : Inv c s h) (hm : m ≤ s.commits) (hlt : h < s.place c m) :
    ∃ q, s.payloads[s.popped.length]? = some q ∧ s.popped.length < s.commits ∧
      ((h = s.place c s.popped.length ∧ find (counter c) (counter h) (counter (s.place c m))
          (BitVec.ofNat 32 (ofLe (readBytes s.ring.data (h % c) 4))) =
            .skip (counter (start c h q))) ∨
        (s.AtRecord c h q ∧ (BitVec.ofNat 32 (ofLe (readBytes s.ring.data (h % c) 4))).toNat =
            q.length ∧
          find (counter c) (counter h) (counter (s.place c m))
            (BitVec.ofNat 32 (ofLe (readBytes s.ring.data (h % c) 4))) =
              .record (counter (s.place c (s.popped.length + 1))))) := by
  have hjm : s.popped.length < m := by
    by_contra hge
    have h₁ : s.place c m ≤ s.place c s.popped.length := place_mono (by omega)
    have h₂ := hi.place_popped_le
    omega
  have hj : s.popped.length < s.payloads.length := by
    rw [length_payloads]
    have := hi.commits
    omega
  obtain ⟨q, hq⟩ : ∃ q, s.payloads[s.popped.length]? = some q :=
    ⟨_, getElem?_eq_getElem hj⟩
  have hfit := hi.fits q (mem_of_getElem? hq)
  have hint := hi.intact _ q le_rfl (by omega) hq
  refine ⟨q, hq, by omega, ?_⟩
  by_cases hg : h = s.place c s.popped.length ∧ 0 < gap c h (recordSize q)
  case pos =>
    obtain ⟨rfl, hg⟩ := hg
    have hmark : BitVec.ofNat 32 (ofLe (toLe 4 wrapMarker.toNat)) = wrapMarker := by decide
    refine .inl ⟨rfl, ?_⟩
    rw [hint.marker hc (four_dvd_place hc s _) le_rfl hg, hmark, hc.find_marker hg]
  case neg =>
    have hat : s.AtRecord c h q := by
      rcases hi.atHead with rfl | ⟨q', hq'⟩
      · refine ⟨by omega, hq, ?_⟩
        rw [start]
        omega
      · have hqq := hq'.2.1
        rw [hq, Option.some.injEq] at hqq
        exact hqq ▸ hq'
    have hstart := hat.2.2
    have hnext : start c (s.place c s.popped.length) q + recordSize q ≤ s.place c m := by
      rw [← place_succ hq]
      exact place_mono hjm
    have hwin : s.place c m ≤ h + c :=
      (place_mono (hm.trans hi.commits)).trans hi.window
    have hlen : ofLe (toLe 4 q.length) = q.length := by
      have := hfit.2
      exact ofLe_toLe (by omega)
    refine .inr ⟨hat, ?_, ?_⟩
    · have := hfit.2
      rw [hstart, hint.length hc hfit hstart.le, BitVec.toNat_ofNat]
      omega
    · rw [hstart, hint.length hc hfit hstart.le, hlen, hc.find_record hfit hnext (hstart ▸ hwin),
        place_succ hq]
      rfl

theorem Inv.readByte (hc : Capacity c) (hi : Inv c s h) {head tail : U32}
    (hs : s.ConsumerInv c h (.readLength head tail bytes)) :
    s.ConsumerInv c h (s.readByte head tail bytes) := by
  obtain ⟨rfl, hlen, hbytes, m, hm, rfl, hlt⟩ := hs
  have hmore : bytes ++ [s.ring.data (headIndex s.ring.cap (counter h) + bytes.length)] =
      readBytes s.ring.data (h % c) (bytes.length + 1) := by
    rw [headIndex, hi.cap, hc.counter_mod, readBytes_succ, ← hbytes]
  rw [System.readByte, hmore, length_readBytes]
  by_cases h4 : bytes.length + 1 < 4
  case pos =>
    rw [if_pos h4]
    exact ⟨rfl, by rw [length_readBytes]; exact h4, by rw [length_readBytes], m, hm, rfl, hlt⟩
  case neg =>
    have hk : bytes.length + 1 = 4 := by omega
    rw [hk, hi.cap]
    obtain ⟨q, hq, hj, ⟨hh, hfind⟩ | ⟨hat, hlenq, hfind⟩⟩ := hi.findAt hc hm hlt
    · simp only [hfind]
      exact ⟨q, hj, hq, hh, rfl⟩
    · simp only [hfind]
      exact ⟨rfl, q, hat, rfl, hlenq, List.nil_prefix⟩

theorem prefix_concat (hl : l <+: l') (hx : l'[l.length]? = some x) : l ++ [x] <+: l' := by
  obtain ⟨rest, rfl⟩ := hl
  rw [getElem?_append_right le_rfl, Nat.sub_self] at hx
  cases rest
  case nil => simp at hx
  case cons y rest =>
    simp only [getElem?_cons_zero, Option.some.injEq] at hx
    exact ⟨rest, by rw [hx, append_assoc]; rfl⟩

theorem Inv.copyPayload (hc : Capacity c) (hi : Inv c s h) {head newHead : U32}
    (hs : s.ConsumerInv c h (.copy head newHead len bytes)) (hlen : bytes.length < len) :
    s.ConsumerInv c h (.copy head newHead len
      (bytes ++ [s.ring.data (headIndex s.ring.cap head + 4 + bytes.length)])) := by
  obtain ⟨rfl, q, hat, hnew, rfl, hpre⟩ := hs
  refine ⟨rfl, q, hat, hnew, rfl, prefix_concat hpre ?_⟩
  obtain ⟨hj, hq, hstart⟩ := hat
  have hfit := hi.fits q (mem_of_getElem? hq)
  have hint := hi.intact _ q le_rfl hj hq
  have hb := getElem?_eq_getElem hlen
  rw [headIndex, hi.cap, hc.counter_mod, hb, hstart, hint.byte hc hfit hstart.le hb]

theorem Inv.storeHead (hi : Inv c s h) (hring : s'.ring = { s.ring with head := counter h' })
    (hh : h ≤ h') (hprod : s'.producers = s.producers) (hres : s'.reservations = s.reservations)
    (hreserved : s'.reserved = s.reserved) (hcom : s'.commits = s.commits)
    (hpop : s'.popped <+: s'.payloads) (hlen : s.popped.length ≤ s'.popped.length)
    (hle : s'.popped.length ≤ s'.commits)
    (hat : h' = s'.place c s'.popped.length ∨ ∃ q, s'.AtRecord c h' q)
    (hcons : s'.ConsumerInv c h' s'.consumer) : Inv c s' h' := by
  have hpay : s'.payloads = s.payloads := by rw [payloads, hres, payloads]
  have hplace : s'.place c = s.place c := by
    funext i
    rw [place, hpay, place]
  have hpre : s.reservations <+: s'.reservations := by rw [hres]
  refine {
    cap := by rw [hring]; exact hi.cap
    head := by rw [hring]
    tailReserve := by rw [hring, hplace, hres]; exact hi.tailReserve
    tailCommit := by rw [hring, hplace, hcom]; exact hi.tailCommit
    reserved := by rw [hreserved, hplace, hres]; exact hi.reserved
    shape := by rw [hres, hplace]; exact hi.shape
    fits := by rw [hpay]; exact hi.fits
    commits := by rw [hcom, hres]; exact hi.commits
    popped := hpop
    popped_le := hle
    atHead := hat
    window := by rw [hplace, hres]; exact hi.window.trans (by omega)
    intact := ?intact
    producers := ?producers
    tickets := by rw [hres, hcom, hprod]; exact hi.tickets
    consumer := hcons
  }
  case intact =>
    intro i q hji hic hq
    rw [hring, hplace]
    exact (hi.intact i q (by omega) (hcom ▸ hic) (hpay ▸ hq)).mono hh
  case producers =>
    intro p
    rw [hprod]
    refine (hi.producers p).frame ⟨hpre, hreserved.ge, ?_, ?_⟩ hh
    · intro t ht
      obtain ⟨_, hpend⟩ := (hi.producers p).pending ht
      exact ⟨hcom ▸ hpend.1, fun _ => hcom⟩
    · intro t q w _ _ _
      rw [hring]

theorem Inv.stepConsumer (hc : Capacity c) (hi : Inv c s h) : ∃ h', Inv c s.stepConsumer h' := by
  have hs := hi.consumer
  rw [System.stepConsumer]
  cases hcon : s.consumer
  case idle => exact ⟨h, hi⟩
  case done => exact ⟨h, hi⟩
  case loadHead => exact ⟨h, hi.setConsumer hi.head⟩
  case loadTail head =>
    rw [hcon] at hs
    obtain rfl := hs
    exact ⟨h, hi.setConsumer (hi.lookAt hc)⟩
  case readLength head tail bytes =>
    rw [hcon] at hs
    exact ⟨h, hi.setConsumer (hi.readByte hc hs)⟩
  case copy head newHead len bytes =>
    rw [hcon] at hs
    simp only
    split
    case isTrue hlen => exact ⟨h, hi.setConsumer (hi.copyPayload hc hs hlen)⟩
    case isFalse hlen =>
      obtain ⟨rfl, q, ⟨hj, hq, hstart⟩, rfl, rfl, hpre⟩ := hs
      obtain rfl := hpre.eq_of_length_le (by omega)
      have hsucc := place_succ (c := c) hq
      refine ⟨s.place c (s.popped.length + 1), hi.storeHead rfl (by omega) rfl rfl rfl rfl
        (prefix_concat hi.popped hq) ?_ ?_ (.inl ?_) (by simp [ConsumerInv])⟩
      · rw [length_append]; omega
      · rw [length_append]; exact hj
      · rw [length_append]; rfl
  case skip newHead =>
    rw [hcon] at hs
    obtain ⟨q, hj, hq, hh, rfl⟩ := hs
    refine ⟨start c h q, hi.storeHead rfl (Nat.le_add_right ..) rfl rfl rfl rfl hi.popped le_rfl
      hi.popped_le (.inr ⟨q, hj, hq, by rw [hh]; rfl⟩) trivial⟩

end Consumer

end System

end Aero.Ipc
