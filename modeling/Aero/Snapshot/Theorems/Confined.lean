import Aero.Snapshot.Ram

namespace Aero.Snapshot

open Hoare

def RamWrite.stop (w : RamWrite) : Nat := w.1 + w.2.length

structure Below (bound : Nat) (writes : List RamWrite) : Prop where
  ordered : writes.Pairwise fun v w => v.stop ≤ w.1
  stop_le : ∀ w ∈ writes, w.stop ≤ bound

namespace Below

theorem nil : Below bound [] := ⟨.nil, nofun⟩

theorem mono (h : Below bound writes) (hle : bound ≤ bound') : Below bound' writes :=
  ⟨h.ordered, fun w hw => (h.stop_le w hw).trans hle⟩

theorem append (h : Below bound writes) (hle : bound ≤ offset) (data : List U8) :
    Below (offset + data.length) (writes ++ [(offset, data)]) := by
  refine ⟨List.pairwise_append.mpr ⟨h.ordered, List.pairwise_singleton .., ?_⟩, ?_⟩
  · intro v hv w hw
    obtain rfl := List.mem_singleton.mp hw
    exact (h.stop_le v hv).trans hle
  · intro w hw
    rcases List.mem_append.mp hw with hw | hw
    · have hstop := h.stop_le w hw
      omega
    · obtain rfl := List.mem_singleton.mp hw
      exact le_rfl

end Below

variable {lz : Lz4} {s : DecodeState}

theorem wp_read (hQ : ∀ a input, Q a { s with input }) (hE : ∀ e, E e s) : Wp (read p) Q E s := by
  rw [Wp, EStateM.run, read]
  cases p.run s.input
  case error e => exact hE e
  case ok r => exact hQ r.1 r.2

theorem wp_readExact {Q : List U8 → DecodeState → Prop}
    (hQ : ∀ data input : List U8, data.length = len → Q data { s with input }) (hE : ∀ e, E e s) :
    Wp (readExact len) Q E s := by
  rw [Wp, EStateM.run, readExact, read]
  cases hrun : (Parse.take SnapshotError.io len).run s.input
  case error e => exact hE e
  case ok r => exact hQ r.1 r.2 (Parse.run_take_eq_ok_iff.mp hrun).2

theorem wp_liftM {x : Except SnapshotError α} (hQ : ∀ a, x = .ok a → Q a s) (hE : ∀ e, E e s) :
    Wp (liftM x : Decode α) Q E s :=
  wp_lift.mpr ⟨hQ, fun e _ => hE e⟩

theorem wp_writeRam {Q : Unit → DecodeState → Prop}
    (hQ : Q () { s with writes := s.writes ++ [(offset, data)] })
    (hE : ∀ e, E e { s with writes := s.writes ++ [(offset, data)] }) :
    Wp (writeRam answer offset data) Q E s := by
  exact wp_liftM (fun _ _ => hQ) hE

theorem length_decompressInto (h : lz.decompressInto compressed output = some out) :
    out.length = output.length := by
  rw [Lz4.decompressInto] at h
  cases hbytes : lz.decompress compressed <;> rw [hbytes] at h
  case none => cases h
  case some bytes =>
    simp only [Option.bind_eq_bind, Option.bind_some] at h
    split_ifs at h with hle
    cases h
    rw [List.length_append, List.length_drop]
    omega

theorem wp_lz4DecompressInto (hlen : len ≤ s.decompressed.length) {Q : List U8 → DecodeState → Prop}
    (hQ : ∀ out decompressed : List U8, out.length = len →
      decompressed.length = s.decompressed.length → Q out { s with decompressed }) (hE : ∀ e, E e s) :
    Wp (lz4DecompressInto lz compressed len) Q E s := by
  rw [lz4DecompressInto, wp_bind, wp_get]
  cases hout : lz.decompressInto compressed (s.decompressed.take len)
  case none => exact hE _
  case some out =>
    have hlength := length_decompressInto hout
    rw [List.length_take_of_le hlen] at hlength
    refine hQ out _ hlength ?_
    rw [List.length_append, List.length_drop]
    omega

def Room (compression : Compression) (len : Nat) (s : DecodeState) : Prop :=
  compression = .lz4 → len ≤ s.decompressed.length

theorem wp_decodePayload (hbelow : Below bound s.writes) (hbound : bound ≤ offset)
    (hroom : Room compression size s) (hlen : len ≤ size) :
    Wp (decodePayload lz answer compression offset len)
      (fun _ s' => Below (offset + len) s'.writes ∧ Room compression size s')
      (fun _ s' => Below (offset + len) s'.writes) s := by
  have hmono : Below (offset + len) s.writes := hbelow.mono (by omega)
  rw [decodePayload, wp_bind]
  refine wp_read (fun clen input => ?_) fun _ => hmono
  rw [wp_bind]
  refine wp_liftM (fun _ hvalid => ?_) fun _ => hmono
  rw [wp_bind]
  refine wp_readExact (fun data input hdata => ?_) fun _ => hmono
  cases compression
  case none =>
    rw [validateCompressedLen] at hvalid
    split_ifs at hvalid with hclen
    obtain rfl := hdata.trans (not_not.mp hclen)
    have happend := hbelow.append hbound data
    exact wp_writeRam ⟨happend, nofun⟩ fun _ => happend
  case lz4 =>
    rw [wp_bind]
    have hout : len ≤ ({ s with input } : DecodeState).decompressed.length := hlen.trans (hroom rfl)
    refine wp_lz4DecompressInto hout (fun out decompressed hout hsize => ?_) fun _ => hmono
    have happend := hbelow.append hbound out
    rw [hout] at happend
    exact wp_writeRam ⟨happend, fun _ => hsize ▸ hroom rfl⟩ fun _ => happend

theorem wp_allocDecompressed {Q : Unit → DecodeState → Prop}
    (hQ : ∀ decompressed, Room compression size { s with decompressed } →
      Q () { s with decompressed }) : Wp (allocDecompressed compression size) Q E s := by
  cases compression
  case none => exact hQ s.decompressed nofun
  case lz4 =>
    exact hQ _ fun _ => (List.length_replicate ..).ge

-- By induction on the rounds; what has been written ends at the offset.
theorem wp_decodeFullLoop (hbelow : Below offset s.writes) (hoffset : offset ≤ total)
    (hroom : Room compression size s) :
    Wp (decodeFullLoop lz answer compression total size rounds offset)
      (fun _ s' => Below total s'.writes) (fun _ s' => Below total s'.writes) s := by
  induction rounds generalizing s offset
  case zero => exact hbelow.mono hoffset
  case succ rounds ih =>
    rw [decodeFullLoop]
    split_ifs with hlt
    · rw [wp_bind]
      refine wp_read (fun len input => ?_) fun _ => hbelow.mono hoffset
      rw [wp_ite]
      refine ⟨fun _ => hbelow.mono hoffset, fun hlen => ?_⟩
      have hle : offset + len.toNat ≤ total := by omega
      have hpayload : Wp (decodePayload lz answer compression offset len.toNat) _ _ { s with input } :=
        wp_decodePayload hbelow le_rfl hroom (by omega)
      refine Wp.bind (hpayload.mono (fun _ _ h => h) fun _ _ h => h.mono hle) fun _ s' h => ?_
      exact ih h.1 hle h.2
    · exact hbelow.mono hoffset

theorem wp_decodeFull (hwrites : s.writes = []) :
    Wp (decodeFull lz answer total compression)
      (fun _ s' => Below total s'.writes) (fun _ s' => Below total s'.writes) s := by
  have hbelow : Below total s.writes := hwrites ▸ .nil
  rw [decodeFull, wp_bind]
  refine wp_read (fun size input => ?_) fun _ => hbelow
  rw [wp_ite]
  refine ⟨fun _ => hbelow, fun _ => ?_⟩
  rw [wp_bind]
  refine wp_allocDecompressed fun decompressed hroom => ?_
  exact wp_decodeFullLoop (hwrites ▸ .nil) (Nat.zero_le _) hroom

def nextPage : Option Nat → Nat
  | none      => 0
  | some prev => prev + 1

theorem wp_decodePages (hbelow : Below (min (nextPage prev * size) total) s.writes)
    (hroom : Room compression size s) :
    Wp (decodePages lz answer compression total size count prev)
      (fun _ s' => Below total s'.writes) (fun _ s' => Below total s'.writes) s := by
  induction count generalizing s prev
  case zero => exact hbelow.mono (by omega)
  case succ count ih =>
    have htotal : Below total s.writes := hbelow.mono (by omega)
    rw [decodePages, wp_bind]
    refine wp_read (fun page input => ?_) fun _ => htotal
    rw [wp_ite]
    refine ⟨fun _ => htotal, fun hprev => ?_⟩
    rw [wp_ite]
    refine ⟨fun _ => htotal, fun _ => ?_⟩
    rw [wp_ite]
    refine ⟨fun _ => htotal, fun hrange => ?_⟩
    rw [wp_bind]
    refine wp_read (fun len input => ?_) fun _ => htotal
    rw [wp_ite]
    refine ⟨fun _ => htotal, fun hlen => ?_⟩
    have hnext : nextPage prev ≤ page.toNat := by
      cases prev
      case none => exact Nat.zero_le _
      case some prev => exact Nat.succ_le_of_lt (by simpa using hprev)
    have hstart : min (nextPage prev * size) total ≤ page.toNat * size :=
      (Nat.min_le_left ..).trans (Nat.mul_le_mul_right size hnext)
    have hstop : page.toNat * size + len.toNat = min (nextPage (some page.toNat) * size) total := by
      rw [nextPage, Nat.succ_mul]
      omega
    have hpayload : Wp (decodePayload lz answer compression (page.toNat * size) len.toNat) _ _
        { s with input } := wp_decodePayload hbelow hstart hroom (by omega)
    rw [hstop] at hpayload
    refine Wp.bind (hpayload.mono (fun _ _ h => h) fun _ _ h => h.mono (by omega)) fun _ s' h => ?_
    exact ih h.1 h.2

theorem wp_decodeDirty (hwrites : s.writes = []) :
    Wp (decodeDirty lz answer total size compression)
      (fun _ s' => Below total s'.writes) (fun _ s' => Below total s'.writes) s := by
  have hbelow : Below total s.writes := hwrites ▸ .nil
  rw [decodeDirty, wp_bind]
  refine wp_read (fun count input => ?_) fun _ => hbelow
  rw [wp_ite]
  refine ⟨fun _ => hbelow, fun _ => ?_⟩
  rw [wp_ite]
  refine ⟨fun _ => hbelow, fun _ => ?_⟩
  rw [wp_bind]
  refine wp_allocDecompressed fun decompressed hroom => ?_
  exact wp_decodePages (hwrites ▸ .nil) hroom

theorem wp_decodeRamSectionInto (total : U64) (hwrites : s.writes = []) :
    Wp (decodeRamSectionInto lz answer total)
      (fun _ s' => Below total.toNat s'.writes) (fun _ s' => Below total.toNat s'.writes) s := by
  have hbelow : Below total.toNat s.writes := hwrites ▸ .nil
  rw [decodeRamSectionInto, wp_bind]
  refine wp_read (fun found input => ?_) fun _ => hbelow
  rw [wp_ite]
  refine ⟨fun _ => hbelow, fun hfound => ?_⟩
  obtain rfl := not_not.mp hfound
  rw [wp_bind]
  refine wp_read (fun size input => ?_) fun _ => hbelow
  rw [wp_ite]
  refine ⟨fun _ => hbelow, fun _ => ?_⟩
  rw [wp_bind]
  refine wp_read (fun mode input => ?_) fun _ => hbelow
  rw [wp_bind]
  refine wp_liftM (fun mode _ => ?_) fun _ => hbelow
  rw [wp_bind]
  refine wp_read (fun compression input => ?_) fun _ => hbelow
  rw [wp_bind]
  refine wp_liftM (fun compression _ => ?_) fun _ => hbelow
  rw [wp_bind]
  refine wp_read (fun reserved input => ?_) fun _ => hbelow
  cases mode
  case full => exact wp_decodeFull hwrites
  case dirty => exact wp_decodeDirty hwrites

end Aero.Snapshot
