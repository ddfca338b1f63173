import Aero.Ipc.RingInvariant

namespace Aero.Ipc

open LeBytes CircularLog RingBuffer Function Option

namespace System

variable {ι : Type*}

section Loads

variable {p : ι}

theorem Inv.beginPush (hc : Capacity c) (hi : Inv c s h) (payload : List U8) :
    s.ProducerInv c h p (s.beginPush payload) ∧ (s.beginPush payload).ticket? = none := by
  rw [System.beginPush]
  cases hn : pushSize s.ring.cap payload
  case none => exact ⟨trivial, rfl⟩
  case some n =>
    rw [hi.cap, pushSize_eq_some_iff, hc.counter_toNat] at hn
    exact ⟨hn, rfl⟩

theorem Inv.afterLoads (hc : Capacity c) (hi : Inv c s h) {head : U32}
    (hs : s.ProducerInv c h p (.loadTail payload n head seenHead)) :
    s.ProducerInv c h p (s.afterLoads payload n head seenHead) ∧
      (s.afterLoads payload n head seenHead).ticket? = none := by
  obtain ⟨hfit, hn, hseen, x, hx, rfl, hxs, hsx⟩ := hs
  have ht4 := four_dvd_place hc s s.reservations.length
  rw [System.afterLoads, hi.cap, hi.tailReserve]
  cases ha : attempt (counter c) (counter x) (counter (s.place c s.reservations.length)) n
  case retry => exact ⟨⟨hfit, hn⟩, rfl⟩
  case full => exact ⟨trivial, rfl⟩
  case exchange padding wrap reserve =>
    obtain ⟨hpad, hwrap, hres⟩ := hc.attempt_exchange ht4 ha
    rw [← hi.reserved] at ha ht4 hpad hwrap hres ⊢
    refine ⟨⟨hfit, hn, rfl, hseen, le_rfl, hpad, hwrap, hres, fun hlt => ?_⟩, rfl⟩
    have hroom := hc.attempt_room ht4 (hn ▸ hfit.1) (by omega) (by omega) ha
    omega

end Loads

section Producers

variable [DecidableEq ι] {c h : Nat} {s : System ι} {p : ι}

theorem setProducer_producerInv :
    (s.setProducer p state).ProducerInv c h p' state' ↔ s.ProducerInv c h p' state' := by
  cases state' <;> rfl

theorem setProducer_consumerInv :
    (s.setProducer p state).ConsumerInv c h state' ↔ s.ConsumerInv c h state' := by
  cases state' <;> rfl

theorem Inv.setProducer (hi : Inv c s h) (hs : s.ProducerInv c h p state)
    (ht : state.ticket? = (s.producers p).ticket?) : Inv c (s.setProducer p state) h where
  __ := hi
  producers := by
    refine (forall_update_iff s.producers _).mpr ⟨?_, fun p' _ => ?_⟩
    · exact setProducer_producerInv.mpr hs
    · exact setProducer_producerInv.mpr (hi.producers p')
  tickets := by
    intro i r hir hr
    have hold := hi.tickets i r hir hr
    by_cases hp : r.owner = p
    · rw [hp] at hold ⊢
      exact (congrArg Producer.ticket? (update_self ..)).trans (ht.trans hold)
    · exact (congrArg Producer.ticket? (update_of_ne hp ..)).trans hold
  consumer := setProducer_consumerInv.mpr hi.consumer

-- What a step of a producer on the shared state owes to the others.
structure ProducerStep (c h : Nat) (s s' : System ι) (p : ι) (state : Producer) : Prop where
  cap          : s'.ring.cap = s.ring.cap
  head         : s'.ring.head = s.ring.head
  reservations : s.reservations <+: s'.reservations
  reserved     : s.reserved ≤ s'.reserved
  commits      : s.commits ≤ s'.commits
  popped       : s'.popped = s.popped
  consumer     : s'.consumer = s.consumer
  producers    : s'.producers = Function.update s.producers p state
  own          : s'.ProducerInv c h p state
  others       : ∀ p' t, p' ≠ p → (s.producers p').ticket? = some t → s'.commits ≤ t ∧
    (t = s.commits → s'.commits = s.commits)
  -- it writes where no other record is
  data         : ∀ x, h ≤ x → x < s.place c s.reservations.length →
    s'.ring.data (x % c) = s.ring.data (x % c) ∨
      ∃ t, (s.producers p).ticket? = some t ∧ s.place c t ≤ x ∧ x < s.place c (t + 1)

theorem ProducerStep.intact (hc : Capacity c) (hst : ProducerStep c h s s' p state) (hi : Inv c s h)
    (hji : s.popped.length ≤ i) (hic : i < s.commits) (hq : s.payloads[i]? = some q) :
    Intact s'.ring.data c h (s'.place c i) q := by
  rw [place_extend hst.reservations (hic.le.trans hi.commits)]
  refine (hi.intact i q hji hic hq).congr ?_
  intro w hw hh
  have hb := hc.writes_bounds (four_dvd_place hc s i) hw
  have hn : next c recordSize (s.place c i) q = s.place c (i + 1) := (place_succ hq).symm
  have hle : s.place c (i + 1) ≤ s.place c s.commits := place_mono hic
  have hle' := hi.commits_le
  rcases hst.data w.1 hh (by omega) with hd | ⟨t, ht, htle, _⟩
  · exact hd
  · obtain ⟨_, hpend⟩ := (hi.producers p).pending ht
    have : s.place c s.commits ≤ s.place c t := place_mono hpend.1
    omega

theorem ProducerStep.frame (hc : Capacity c) (hst : ProducerStep c h s s' p state) (hi : Inv c s h)
    (hp : p' ≠ p) : Frame c s s' (s.producers p') where
  __ := hst
  commits t ht := hst.others p' t hp ht
  data := by
    intro t q w ht hq hw
    obtain ⟨_, hpend⟩ := (hi.producers p').pending ht
    have hb := hc.writes_bounds (four_dvd_place hc s t) hw
    have hn : next c recordSize (s.place c t) q = s.place c (t + 1) := (place_succ hq).symm
    have hle : s.place c (t + 1) ≤ s.place c s.reservations.length := place_mono hpend.lt
    have hh := hi.head_le
    have hcom : s.place c s.commits ≤ s.place c t := place_mono hpend.1
    rcases hst.data w.1 (by omega) (by omega) with hd | ⟨t', ht', htle, hlt⟩
    · exact hd
    · -- the positions of different reservations do not meet
      have hne := (hi.producers p).ticket_ne ht' (hi.producers p') ht hp
      rcases Nat.lt_or_gt_of_ne hne with hlt' | hgt
      · have : s.place c (t + 1) ≤ s.place c t' := place_mono hlt'
        omega
      · have : s.place c (t' + 1) ≤ s.place c t := place_mono hgt
        omega

theorem ProducerStep.inv (hc : Capacity c) (hst : ProducerStep c h s s' p state) (hi : Inv c s h)
    (htailReserve : s'.ring.tailReserve = counter (s'.place c s'.reservations.length))
    (htailCommit : s'.ring.tailCommit = counter (s'.place c s'.commits))
    (hreserved : s'.reserved = s'.place c s'.reservations.length)
    (hshape : ∀ i r, s'.reservations[i]? = some r → r.start = s'.place c i ∧
      r.padding = gap c (s'.place c i) (recordSize r.payload) ∧
      r.reserve = r.padding + recordSize r.payload) (hfits : ∀ q ∈ s'.payloads, Fits c q)
    (hcommits : s'.commits ≤ s'.reservations.length)
    (hwindow : s'.place c s'.reservations.length ≤ h + c)
    (hintact : ∀ i q, s.commits ≤ i → i < s'.commits → s'.payloads[i]? = some q →
      Intact s'.ring.data c h (s'.place c i) q)
    (htickets : ∀ i r, s'.commits ≤ i → s'.reservations[i]? = some r →
      (s'.producers r.owner).ticket? = some i) : Inv c s' h := by
  have hle := hi.popped_le.trans hi.commits
  refine {
    cap := hst.cap.trans hi.cap
    head := hst.head.trans hi.head
    tailReserve := htailReserve
    tailCommit := htailCommit
    reserved := hreserved
    shape := hshape
    fits := hfits
    commits := hcommits
    popped := hst.popped ▸ hi.popped.trans (payloads_mono hst.reservations)
    popped_le := hst.popped ▸ hi.popped_le.trans hst.commits
    atHead := ?atHead
    window := hwindow
    intact := ?intact
    producers := ?producers
    tickets := htickets
    consumer := ?consumer
  }
  case atHead =>
    rcases hi.atHead with hh | ⟨q, hq⟩
    · left
      rw [hst.popped, place_extend hst.reservations hle, hh]
    · exact .inr ⟨q, hq.frame hi hst.reservations hst.commits hst.popped⟩
  case intact =>
    intro i q hji hic hq
    by_cases hold : i < s.commits
    · obtain ⟨r, hr⟩ : ∃ r, s.payloads[i]? = some r :=
        ⟨_, List.getElem?_eq_getElem (by
          rw [length_payloads]
          exact hold.trans_le hi.commits)⟩
      obtain rfl : r = q := by
        have := payloads_extend hst.reservations hr
        rw [hq, some.injEq] at this
        exact this.symm
      exact hst.intact hc hi (hst.popped ▸ hji) hold hr
    · exact hintact i q (by omega) hic hq
  case producers =>
    rw [hst.producers]
    refine (forall_update_iff s.producers _).mpr ⟨hst.own, fun p' hp => ?_⟩
    exact (hi.producers p').frame (hst.frame hc hi hp) le_rfl
  case consumer =>
    rw [hst.consumer]
    refine hi.consumer.frame hc hi hst.reservations hst.commits hst.popped ?_
    intro x hx hlt
    have hle' := hi.commits_le
    rcases hst.data x hx (by omega) with hd | ⟨t, ht, htle, _⟩
    · exact hd
    · obtain ⟨_, hpend⟩ := (hi.producers p).pending ht
      have : s.place c s.commits ≤ s.place c t := place_mono hpend.1
      omega

theorem Inv.reserve (hc : Capacity c) (hi : Inv c s h) {padding reserve seenHead seenTail : Nat}
    (hp : s.producers p = .exchange payload n tail padding wrap reserve seenHead seenTail)
    (hfew : s.reserved - seenHead < 2 ^ 32 - c) (htail : s.ring.tailReserve = tail) :
    Inv c (s.reserve p payload tail padding wrap reserve) h := by
  have hs := hi.producers p
  rw [hp] at hs
  obtain ⟨hfit, rfl, rfl, hhead, hle, rfl, rfl, rfl, hroom⟩ := hs
  -- the tail has not moved since it was loaded
  have hseen : seenTail = s.place c s.reservations.length := by
    rw [hi.tailReserve] at htail
    rw [hi.reserved] at hle hfew
    exact counter_inj hle (by omega) htail.symm
  have ht4 := hseen ▸ four_dvd_place hc s _
  obtain ⟨s', hs'⟩ : ∃ s', s' = s.reserve p payload (counter seenTail)
    (gap c seenTail (recordSize payload)) (decide (0 < gap c seenTail (recordSize payload)))
    (gap c seenTail (recordSize payload) + recordSize payload) := ⟨_, rfl⟩
  have hres : s'.reservations = s.reservations ++ [⟨p, payload, s.reserved,
      gap c seenTail (recordSize payload),
      gap c seenTail (recordSize payload) + recordSize payload⟩] := by rw [hs']; rfl
  have hpre : s.reservations <+: s'.reservations := ⟨_, hres.symm⟩
  have hlen : s'.reservations.length = s.reservations.length + 1 := by
    rw [hres, List.length_append, List.length_singleton]
  have hlast : s'.reservations[s.reservations.length]? = some ⟨p, payload, s.reserved,
      gap c seenTail (recordSize payload),
      gap c seenTail (recordSize payload) + recordSize payload⟩ := by
    rw [hres, List.getElem?_concat_length]
  have hpay := payloads_getElem? hlast
  have hplace : s'.place c s.reservations.length = seenTail := by
    rw [place_extend hpre le_rfl, hseen]
  have hnext : s'.place c (s.reservations.length + 1) =
      seenTail + (gap c seenTail (recordSize payload) + recordSize payload) := by
    rw [place_succ hpay, hplace, start, Nat.add_assoc]
  have hcommits : s'.commits = s.commits := by rw [hs']; rfl
  have hprod : s'.producers = update s.producers p (.copy s.reservations.length
      (counter seenTail) (counter (s'.place c (s.reservations.length + 1)))
      ((writes c seenTail payload).map (cell c))) := by
    rw [hnext, ← counter_add, ← hc.recordWrites_eq ht4 hfit, hs', System.reserve, hi.cap]
    rfl
  have hst : ProducerStep c h s s' p (.copy s.reservations.length (counter seenTail)
      (counter (s'.place c (s.reservations.length + 1)))
      ((writes c seenTail payload).map (cell c))) := {
    cap := by rw [hs']; rfl
    head := by rw [hs']; rfl
    reservations := hpre
    reserved := by rw [hs']; exact Nat.le_add_right ..
    commits := hcommits.ge
    popped := by rw [hs']; rfl
    consumer := by rw [hs']; rfl
    producers := hprod
    own := by
      refine ⟨⟨by rw [hcommits]; exact hi.commits, rfl, _, hlast, rfl⟩, by rw [hplace], payload, [],
        writes c seenTail payload, hpay, by rw [hplace]; rfl, rfl, by simp⟩
    others := by
      intro p' t _ ht
      obtain ⟨_, hpend⟩ := (hi.producers p').pending ht
      exact ⟨hcommits ▸ hpend.1, fun _ => hcommits⟩
    data := fun x _ _ => .inl (by rw [hs']; rfl)
  }
  rw [← hs']
  refine hst.inv hc hi ?tailReserve ?tailCommit ?reserved ?shape ?fits ?commits ?window ?intact
    ?tickets
  case tailReserve =>
    rw [hlen, hnext, ← counter_add, hs']
    rfl
  case tailCommit =>
    rw [hcommits, place_extend hpre hi.commits, hs']
    exact hi.tailCommit
  case reserved =>
    have : s'.reserved = s.reserved + (gap c seenTail (recordSize payload) + recordSize payload) := by
      rw [hs']; rfl
    rw [this, hlen, hnext, hi.reserved, hseen]
  case shape =>
    intro i r hr
    by_cases hlt : i < s.reservations.length
    · rw [hres, List.getElem?_append_left hlt] at hr
      rw [place_extend hpre hlt.le]
      exact hi.shape i r hr
    · have hi' : i = s.reservations.length := by
        have := (List.getElem?_eq_some_iff.mp hr).1
        omega
      subst hi'
      rw [hlast, some.injEq] at hr
      subst hr
      rw [hplace]
      exact ⟨hi.reserved.trans hseen.symm, rfl, rfl⟩
  case fits =>
    intro q hq
    rw [payloads, hres, List.map_append, List.mem_append] at hq
    rcases hq with hq | hq
    · exact hi.fits q hq
    · rw [List.mem_singleton.mp hq]
      exact hfit
  case commits =>
    rw [hcommits, hlen]
    exact hi.commits.trans (Nat.le_succ _)
  case window =>
    rw [hlen, hnext, ← Nat.add_assoc]
    exact hroom (by omega)
  case intact =>
    intro i q hle hlt
    omega
  case tickets =>
    intro i r hir hr
    rw [hprod]
    by_cases hlt : i < s.reservations.length
    · rw [hres, List.getElem?_append_left hlt] at hr
      have hold := hi.tickets i r (hcommits ▸ hir) hr
      have hne : r.owner ≠ p := by
        rintro rfl
        rw [hp] at hold
        cases hold
      rw [update_of_ne hne, hold]
    · have hi' : i = s.reservations.length := by
        have := (List.getElem?_eq_some_iff.mp hr).1
        omega
      subst hi'
      rw [hlast, some.injEq] at hr
      subst hr
      rw [update_self]
      rfl

theorem Inv.copyByte (hc : Capacity c) (hi : Inv c s h)
    (hp : s.producers p = .copy t tail newTail (w :: todo)) :
    Inv c (s.copyByte p t tail newTail w todo) h := by
  have hs := hi.producers p
  rw [hp] at hs
  obtain ⟨hpend, htail, q, copied, rest, hq, hw, htodo, hdata⟩ := hs
  obtain ⟨v, rest, rfl, rfl, rfl⟩ : ∃ v rest', rest = v :: rest' ∧ w = cell c v ∧
      todo = rest'.map (cell c) := by
    cases rest
    case nil => simp at htodo
    case cons v rest =>
      rw [List.map_cons, List.cons.injEq] at htodo
      exact ⟨v, rest, rfl, htodo⟩
  have hnext : next c recordSize (s.place c t) q = s.place c (t + 1) := (place_succ hq).symm
  have hmem : ∀ u ∈ writes c (s.place c t) q, s.place c t ≤ u.1 ∧ u.1 < s.place c (t + 1) := by
    intro u hu
    rw [← hnext]
    exact hc.writes_bounds (four_dvd_place hc s t) hu
  have hv := hmem v (by rw [hw]; simp)
  have hhead := hi.head_le.trans (place_mono hpend.1)
  have hwin := hi.window
  have hlast : s.place c (t + 1) ≤ s.place c s.reservations.length := place_mono hpend.lt
  have hstore : ∀ x, h ≤ x → x < s.place c s.reservations.length → x ≠ v.1 →
      store s.ring.data (cell c v) (x % c) = s.ring.data (x % c) := by
    intro x hx hlt hne
    exact store_of_ne (cell_ne hx (by omega) (by omega) (by omega) hne)
  have hst : ProducerStep c h s (s.copyByte p t tail newTail (cell c v) (rest.map (cell c))) p
      (.copy t tail newTail (rest.map (cell c))) := {
    cap := rfl
    head := rfl
    reservations := List.prefix_rfl
    reserved := le_rfl
    commits := le_rfl
    popped := rfl
    consumer := rfl
    producers := rfl
    own := by
      refine ⟨hpend, htail, q, copied ++ [v], rest, hq, ?_, rfl, ?_⟩
      · rw [List.append_assoc]
        exact hw
      · intro u hu
        rcases List.mem_append.mp hu with hu | hu
        · have hu' := hmem u (by rw [hw]; exact List.mem_append_left _ hu)
          have hlt : u.1 < v.1 := by
            have hpair := hc.pairwise_writes (four_dvd_place hc s t) q
            rw [hw, List.pairwise_append] at hpair
            exact hpair.2.2 u hu v List.mem_cons_self
          exact (hstore u.1 (by omega) (by omega) (by omega)).trans (hdata u hu)
        · rw [List.mem_singleton.mp hu]
          exact store_self _ (cell c v)
    others := by
      intro p' t' _ ht
      obtain ⟨_, hpend'⟩ := (hi.producers p').pending ht
      exact ⟨hpend'.1, fun _ => rfl⟩
    data := by
      intro x hx hlt
      by_cases hxv : x = v.1
      · exact .inr ⟨t, by rw [hp]; rfl, by omega, by omega⟩
      · exact .inl (hstore x hx hlt hxv)
  }
  refine hst.inv hc hi hi.tailReserve hi.tailCommit hi.reserved hi.shape hi.fits hi.commits
    hi.window ?intact ?tickets
  case intact => exact fun i q hle hlt => absurd hlt (Nat.not_lt.mpr hle)
  case tickets =>
    intro i r hir hr
    have hold := hi.tickets i r hir hr
    by_cases hr' : r.owner = p
    · rw [hr', hp] at hold
      rw [hr', hst.producers, update_self]
      exact hold
    · exact (congrArg Producer.ticket? (update_of_ne hr' ..)).trans hold

theorem Inv.commit (hc : Capacity c) (hi : Inv c s h) (hp : s.producers p = .storeCommit t newTail) :
    Inv c (s.commit p newTail) h := by
  have hs := hi.producers p
  have htick : (s.producers p).ticket? = some t := by rw [hp]; rfl
  rw [hp] at hs
  obtain ⟨hpend, rfl, q, copied, rest, hq, hw, htodo, hdata⟩ := hs
  have hst : ProducerStep c h s (s.commit p newTail) p (.done (.ok ())) := {
    cap := rfl
    head := rfl
    reservations := List.prefix_rfl
    reserved := le_rfl
    commits := Nat.le_succ _
    popped := rfl
    consumer := rfl
    producers := rfl
    own := trivial
    others := by
      intro p' t hne ht
      obtain ⟨_, hpend'⟩ := (hi.producers p').pending ht
      have hne' := (hi.producers p).ticket_ne htick (hi.producers p') ht hne
      exact ⟨Nat.lt_of_le_of_ne hpend'.1 hne'.symm, fun he => absurd he hne'⟩
    data := fun x _ _ => .inl rfl
  }
  refine hst.inv hc hi hi.tailReserve hpend.2.1 hi.reserved hi.shape hi.fits hpend.lt hi.window
    ?intact ?tickets
  case intact =>
    intro i q' hle hlt hq'
    obtain rfl := Nat.le_antisymm (Nat.le_of_lt_succ hlt) hle
    obtain rfl := some.inj (hq.symm.trans hq')
    intro w hwm _
    obtain rfl := List.map_eq_nil_iff.mp htodo.symm
    refine hdata w ?_
    rw [List.append_nil] at hw
    exact hw ▸ hwm
  case tickets =>
    intro i r hir hr
    have hold := hi.tickets i r ((Nat.le_succ _).trans hir) hr
    have hne : r.owner ≠ p := by
      rintro rfl
      rw [htick, some.injEq] at hold
      exact absurd hir (by simp [commit, hold])
    exact (congrArg Producer.ticket? (update_of_ne hne ..)).trans hold

theorem Inv.stepProducer (hc : Capacity c) (hi : Inv c s h)
    (hfew : s.FewSinceHead (.producer p)) : Inv c (s.stepProducer p) h := by
  have hs := hi.producers p
  rw [System.stepProducer]
  cases hp : s.producers p
  case idle => exact hi
  case done => exact hi
  case loadHead payload n =>
    rw [hp] at hs
    have hle := hi.head_le.trans hi.commits_le
    refine hi.setProducer ⟨hs.1, hs.2, le_rfl, h, le_rfl, hi.head, ?_, ?_⟩ (by rw [hp]; rfl)
    · exact hi.reserved ▸ hle
    · exact hi.reserved ▸ hi.window
  case loadTail payload n head seenHead =>
    rw [hp] at hs
    obtain ⟨hnew, htick⟩ := hi.afterLoads hc hs
    exact hi.setProducer hnew (htick.trans (by rw [hp]; rfl))
  case exchange payload n tail padding wrap reserve seenHead seenTail =>
    simp only
    split
    case isTrue htail =>
      rw [FewSinceHead, hp, hi.cap, hc.counter_toNat] at hfew
      exact hi.reserve hc hp hfew htail
    case isFalse =>
      rw [hp] at hs
      exact hi.setProducer ⟨hs.1, hs.2.1⟩ (by rw [hp]; rfl)
  case copy t tail newTail todo =>
    cases todo
    case cons w todo => exact hi.copyByte hc hp
    case nil =>
      simp only
      split
      case isFalse => exact hi
      case isTrue htail =>
        rw [hp] at hs
        obtain ⟨hpend, rfl, hcopied⟩ := hs
        -- the counters of the commits and of the ticket are less than a window apart
        have ht : s.commits = t := by
          by_contra hne
          have hlt := place_lt (c := c) (Nat.lt_of_le_of_ne hpend.1 hne) hpend.lt.le
          have h₁ : s.place c t ≤ s.place c s.reservations.length := place_mono hpend.lt.le
          have h₂ := hi.window
          have h₃ := hi.head_le
          have h₄ := hc.lt
          rw [hi.tailCommit] at htail
          have := counter_inj hlt.le (by omega) htail
          omega
        exact hi.setProducer ⟨hpend, ht.symm, hcopied⟩ (by rw [hp]; rfl)
  case storeCommit t newTail => exact hi.commit hc hp

end Producers

end System

end Aero.Ipc
