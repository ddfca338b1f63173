import Aero.Net.Theorems.StackCalls

namespace Aero.Net

open List Net.Action
open BitVec (add_assoc ofNat ofNat_add)

def layout (seq : U32) : List (List U8) → List (U32 × List U8)
  | []                  => []
  | payload :: payloads =>
    (seq, payload) :: layout (seq + BitVec.ofNat 32 payload.length) payloads

def bytesOf (segments : List (U32 × List U8)) : List U8 :=
  (segments.map Prod.snd).flatten

-- The segments carry consecutive bytes after the SYN, and the FIN comes after all of them.
structure Sequenced (isn : U32) (segments : List (U32 × List U8)) (fins : List U32) : Prop where
  consecutive : segments = layout (isn + 1) (segments.map Prod.snd)
  size : ∀ segment ∈ segments, segment.2.length ≤ 1460
  fin : fins = [] ∨ fins = [isn + 1 + BitVec.ofNat 32 (bytesOf segments).length]

def Action.data? : Action → Option (TcpKey × U32 × List U8)
  | .emitFrame ⟨_, _, .tcp _ remoteIp _ segment⟩ =>
    if segment.payload.isEmpty then none
    else some (⟨segment.dstPort, remoteIp, segment.srcPort⟩, segment.seqNumber, segment.payload)
  | _ => none

section Layout

theorem layout_map_snd (seq : U32) (ps : List (List U8)) :
    (layout seq ps).map Prod.snd = ps := by
  induction ps generalizing seq with
  | nil => rfl
  | cons p ps ih => rw [layout, map_cons, ih]

theorem bytesOf_layout (seq : U32) (ps : List (List U8)) :
    bytesOf (layout seq ps) = ps.flatten := by
  rw [bytesOf, layout_map_snd]

theorem bytesOf_append (segments segments' : List (U32 × List U8)) :
    bytesOf (segments ++ segments') = bytesOf segments ++ bytesOf segments' := by
  rw [bytesOf, map_append, flatten_append, bytesOf, bytesOf]

theorem layout_append (seq : U32) (ps qs : List (List U8)) :
    layout seq (ps ++ qs) =
      layout seq ps ++ layout (seq + ofNat 32 ps.flatten.length) qs := by
  induction ps generalizing seq with
  | nil =>
    rw [List.nil_append, layout, List.nil_append, List.flatten_nil, List.length_nil,
      BitVec.add_zero]
  | cons p ps ih =>
    rw [List.cons_append, layout, ih, layout, List.cons_append, List.flatten_cons,
      List.length_append, ofNat_add, ← add_assoc]

theorem Sequenced.nil : Sequenced isn [] [] :=
  ⟨rfl, fun _ h => (not_mem_nil h).elim, .inl rfl⟩

section

variable (h : Sequenced isn segments [])
  (hseq : seq = isn + 1 + BitVec.ofNat 32 (bytesOf segments).length)
include h hseq

theorem Sequenced.data (hsize : ∀ p ∈ ps, p.length ≤ 1460) :
    Sequenced isn (segments ++ layout seq ps) [] := by
  refine ⟨?_, fun segment hmem => ?_, .inl rfl⟩
  · rw [List.map_append, layout_map_snd, layout_append, ← h.consecutive, hseq, bytesOf]
  · rcases List.mem_append.mp hmem with hold | hnew
    · exact h.size segment hold
    · have hp := List.mem_map_of_mem hnew (f := Prod.snd)
      rw [layout_map_snd] at hp
      exact hsize _ hp

theorem Sequenced.finish : Sequenced isn segments [seq] :=
  ⟨h.consecutive, h.size, .inr (by rw [hseq])⟩

end

end Layout

section Emission

variable {out : List Action}

theorem Action.data?_of_isControl {a : Action} (h : a.isControl = true) : a.data? = none := by
  cases a with
  | emitFrame frame =>
    obtain ⟨mac, mac', payload⟩ := frame
    cases payload with
    | tcp ident remoteIp guestIp segment => exact if_pos h
    | arpReply => rfl
    | udp => rfl
    | icmpEchoReply => rfl
  | tcpProxySend => rfl
  | tcpProxyClose => rfl
  | tcpProxyConnect => rfl
  | udpProxySend => rfl
  | dnsResolve => rfl

theorem Confined.data_eq (h : Confined out sends fins) : out.filterMap data? = [] := by
  refine filterMap_eq_nil_iff.mpr fun a ha => ?_
  rcases h.kinds a ha with hc | hs
  · exact data?_of_isControl hc
  · cases a with
    | tcpProxySend => rfl
    | emitFrame => cases hs
    | tcpProxyClose => rfl
    | tcpProxyConnect => rfl
    | udpProxySend => rfl
    | dnsResolve => rfl

theorem quiet_none (h : ∀ a ∈ out, a.isQuiet = true) :
    out.filterMap data? = [] ∧ out.filterMap fin? = [] := by
  have hnone a (ha : a ∈ out) : a.data? = none ∧ a.fin? = none := by
    have hq := h a ha
    cases a with
    | emitFrame frame =>
      obtain ⟨mac, mac', payload⟩ := frame
      cases payload with
      | tcp ident remoteIp guestIp segment =>
        rw [isQuiet, Bool.and_eq_true, Bool.not_eq_true'] at hq
        exact ⟨if_pos hq.1, fin?_of_not_contains hq.2⟩
      | arpReply => exact ⟨rfl, rfl⟩
      | udp => exact ⟨rfl, rfl⟩
      | icmpEchoReply => exact ⟨rfl, rfl⟩
    | tcpProxySend => cases hq
    | tcpProxyClose => exact ⟨rfl, rfl⟩
    | tcpProxyConnect => exact ⟨rfl, rfl⟩
    | udpProxySend => exact ⟨rfl, rfl⟩
    | dnsResolve => exact ⟨rfl, rfl⟩
  exact ⟨filterMap_eq_nil_iff.mpr fun a ha => (hnone a ha).1,
    filterMap_eq_nil_iff.mpr fun a ha => (hnone a ha).2⟩

theorem emitChunks_data {s : NetworkStack} (hmac : s.guestMac.isSome = true) (conn : TcpConn)
    (start rounds : Nat) (data : List U8) (hlen : data.length ≤ rounds) :
    (s.emitChunks conn start rounds data).2.filterMap fin? = [] ∧
    ∃ payloads, payloads.flatten = data ∧ (∀ p ∈ payloads, p ≠ [] ∧ p.length ≤ 1460) ∧
      (s.emitChunks conn start rounds data).2.filterMap data? =
        (layout (conn.ourNextSeq + ofNat 32 start) payloads).map fun segment =>
          (⟨conn.guestPort, conn.remoteIp, conn.remotePort⟩, segment) := by
  induction rounds generalizing s start data with
  | zero =>
    rw [List.length_eq_zero_iff.mp (Nat.le_zero.mp hlen)]
    exact ⟨rfl, [], rfl, fun _ h => (List.not_mem_nil h).elim, rfl⟩
  | succ rounds ih =>
    rw [NetworkStack.emitChunks]
    by_cases hempty : data.isEmpty = true
    case pos =>
      rw [List.isEmpty_iff.mp hempty]
      exact ⟨rfl, [], rfl, fun _ h => (List.not_mem_nil h).elim, rfl⟩
    case neg =>
      have hpos : 0 < data.length := by
        rw [List.isEmpty_iff] at hempty
        exact List.length_pos_iff.mpr hempty
      have hmss : NetworkStack.tcpMss = 1460 := rfl
      obtain ⟨mac, hmac'⟩ := Option.isSome_iff_exists.mp hmac
      rw [if_neg hempty]
      simp only [NetworkStack.emitIpv4, hmac', List.singleton_append]
      obtain ⟨hfin, payloads, hdata, hsize, hsegments⟩ :=
        ih (s := s.nextIpv4Ident.1) hmac (start + NetworkStack.tcpMss)
          (data.drop NetworkStack.tcpMss) (by rw [List.length_drop]; omega)
      have hne : data.take NetworkStack.tcpMss ≠ [] := by
        rw [Ne, ← List.length_eq_zero_iff, List.length_take]
        omega
      have hnofin : ((TcpFlags.ack ||| TcpFlags.psh).contains TcpFlags.fin) = false := by decide
      refine ⟨?_, data.take NetworkStack.tcpMss :: payloads, ?_, ?_, ?_⟩
      · rw [List.filterMap_cons_none (fin?_of_not_contains hnofin), hfin]
      · rw [List.flatten_cons, hdata, List.take_append_drop]
      · intro p hp
        rcases List.mem_cons.mp hp with rfl | hp
        · refine ⟨hne, ?_⟩
          rw [List.length_take]
          omega
        · exact hsize p hp
      · -- the next sequence number only matters if there is a next payload
        have hnext : layout (conn.ourNextSeq + ofNat 32 start +
            ofNat 32 (data.take NetworkStack.tcpMss).length) payloads =
            layout (conn.ourNextSeq + ofNat 32 (start + NetworkStack.tcpMss)) payloads := by
          cases payloads with
          | nil => rw [layout, layout]
          | cons p payloads =>
            have hp := List.length_pos_iff.mpr (hsize p List.mem_cons_self).1
            have hdrop := congrArg List.length hdata
            rw [List.flatten_cons, List.length_append, List.length_drop] at hdrop
            rw [List.length_take, Nat.min_eq_left (by omega), add_assoc, ← ofNat_add]
        rw [layout, List.map_cons, hnext, ← hsegments]
        exact List.filterMap_cons_some (if_neg (by rwa [List.isEmpty_iff]))

end Emission

end Aero.Net
