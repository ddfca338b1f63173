import Aero.Net.Stack

namespace Aero.Net

open List Net.Action

namespace Action

def isControl : Action → Bool
  | .emitFrame ⟨_, _, .tcp _ _ _ segment⟩ => segment.payload.isEmpty
  | .emitFrame _                          => true
  | .tcpProxyClose _                      => true
  | _                                     => false

def tcpSend? : Action → Option (U32 × List U8)
  | .tcpProxySend id data => some (id, data)
  | _                     => none

def fin? : Action → Option (TcpKey × U32)
  | .emitFrame ⟨_, _, .tcp _ remoteIp _ segment⟩ =>
    if segment.flags.contains TcpFlags.fin then
      some (⟨segment.dstPort, remoteIp, segment.srcPort⟩, segment.seqNumber)
    else
      none
  | _ => none

theorem fin?_of_not_contains {segment : TcpSegment}
    (h : segment.flags.contains TcpFlags.fin = false) :
    (emitFrame ⟨mac, mac', .tcp ident remoteIp guestIp segment⟩).fin? = none := by
  rw [fin?, h]
  rfl

theorem fin?_finAck {ack : U32} :
    (emitFrame ⟨mac, mac', .tcp ident remoteIp guestIp
      (.finAck remotePort guestPort seq ack windowSize)⟩).fin? =
      some (⟨guestPort, remoteIp, remotePort⟩, seq) :=
  if_pos (by decide : (TcpFlags.fin ||| TcpFlags.ack).contains TcpFlags.fin = true)

theorem tcpSend?_of_isControl {a : Action} (h : a.isControl = true) : a.tcpSend? = none := by
  cases a with
  | tcpProxySend => cases h
  | emitFrame => rfl
  | tcpProxyClose => rfl
  | tcpProxyConnect => rfl
  | udpProxySend => rfl
  | dnsResolve => rfl

end Action

-- Control actions, with data for the tunnels and FINs to the guest as listed.
structure Confined (out : List Action) (sends : List (U32 × List U8)) (fins : List (TcpKey × U32)) :
    Prop where
  kinds : ∀ a ∈ out, a.isControl = true ∨ a.tcpSend?.isSome = true
  sends_eq : out.filterMap Action.tcpSend? = sends
  fins_eq : out.filterMap Action.fin? = fins

namespace Confined

variable {out out' : List Action} {ds ds' : List (U32 × List U8)} {fs fs' : List (TcpKey × U32)}
variable {a : Action}

theorem nil : Confined [] [] [] :=
  ⟨fun _ h => (not_mem_nil h).elim, rfl, rfl⟩

theorem control (h : a.isControl = true) : Confined [a] [] a.fin?.toList := by
  refine ⟨fun b hb => .inl ?_, ?_, ?_⟩
  · rw [mem_singleton.mp hb, h]
  · rw [filterMap_cons_none (tcpSend?_of_isControl h), filterMap_nil]
  · rw [filterMap_cons]
    cases a.fin? <;> rfl

theorem single (h : a.isControl = true) (hfin : a.fin? = none) : Confined [a] [] [] := by
  have hout := control h
  rwa [hfin] at hout

theorem fin (h : a.isControl = true) (hfin : a.fin? = some f) : Confined [a] [] [f] := by
  have hout := control h
  rwa [hfin] at hout

theorem send (id : U32) (data : List U8) (h : Confined out ds fs) :
    Confined (.tcpProxySend id data :: out) ((id, data) :: ds) fs := by
  refine ⟨fun a ha => ?_, ?_, h.fins_eq⟩
  · rcases mem_cons.mp ha with rfl | ha
    · exact .inr rfl
    · exact h.kinds a ha
  · rw [filterMap_cons, h.sends_eq]
    rfl

theorem append (h : Confined out ds fs) (h' : Confined out' ds' fs') :
    Confined (out ++ out') (ds ++ ds') (fs ++ fs') := by
  refine ⟨fun a ha => ?_, by rw [filterMap_append, h.sends_eq, h'.sends_eq],
    by rw [filterMap_append, h.fins_eq, h'.fins_eq]⟩
  rcases mem_append.mp ha with ha | ha
  · exact h.kinds a ha
  · exact h'.kinds a ha

end Confined

namespace TcpConn

def accepts (conn : TcpConn) (tcp : TcpSegment) : Bool :=
  !tcp.payload.isEmpty &&
    (tcp.seqNumber == conn.guestNextSeq ||
      (!decide (tcp.seqNumber + BitVec.ofNat 32 tcp.payload.length ≤ conn.guestNextSeq) &&
        decide (tcp.seqNumber < conn.guestNextSeq)))

def newBytes (conn : TcpConn) (tcp : TcpSegment) : List U8 :=
  tcp.payload.drop (conn.guestNextSeq - tcp.seqNumber).toNat

def take (conn : TcpConn) (data : List U8) : TcpConn :=
  if conn.proxyConnected then
    { conn with guestNextSeq := conn.guestNextSeq + BitVec.ofNat 32 data.length }
  else
    { conn with
      bufferedToProxyBytes := conn.bufferedToProxyBytes + data.length
      bufferedToProxy := conn.bufferedToProxy ++ [data]
      guestNextSeq := conn.guestNextSeq + BitVec.ofNat 32 data.length }

def sends (conn : TcpConn) (data : List U8) : List (U32 × List U8) :=
  if conn.proxyConnected then [(conn.id, data)] else []

def onPayload (conn : TcpConn) (tcp : TcpSegment) : TcpConn :=
  if conn.accepts tcp then conn.take (conn.newBytes tcp) else conn

def payloadSends (conn : TcpConn) (tcp : TcpSegment) : List (U32 × List U8) :=
  if conn.accepts tcp then conn.sends (conn.newBytes tcp) else []

def onGuestFin (conn : TcpConn) (tcp : TcpSegment) : TcpConn :=
  if tcp.seqNumber + BitVec.ofNat 32 tcp.payload.length = conn.guestNextSeq then
    { conn with guestNextSeq := conn.guestNextSeq + 1, guestFinReceived := true }
  else
    conn

def onFinSent (conn : TcpConn) : TcpConn :=
  if conn.finSent then conn
  else { conn with finSent := true, finSeq := conn.ourNextSeq, ourNextSeq := conn.ourNextSeq + 1 }

def fins (conn : TcpConn) : List (TcpKey × U32) :=
  if conn.finSent then []
  else [(⟨conn.guestPort, conn.remoteIp, conn.remotePort⟩, conn.ourNextSeq)]

theorem onPayload_fins (conn : TcpConn) (tcp : TcpSegment) :
    (conn.onPayload tcp).fins = conn.fins := by
  rw [onPayload]
  split
  · rw [take]
    split <;> rfl
  · rfl

def onAck (conn : TcpConn) (tcp : TcpSegment) : TcpConn :=
  if tcp.flags.contains TcpFlags.ack then conn.onGuestAck tcp.ackNumber else conn

def onFin (conn : TcpConn) (tcp : TcpSegment) : TcpConn :=
  if tcp.flags.contains TcpFlags.fin then (conn.onGuestFin tcp).onFinSent else conn

end TcpConn

namespace NetworkStack

variable (s : NetworkStack)

def withIdent (ident : U16) : NetworkStack :=
  { s with ipv4Ident := ident }

variable {s}

theorem emitIpv4_fst (payload : U16 → OutPayload) :
    ∃ ident, (s.emitIpv4 payload).1 = s.withIdent ident := by
  rw [emitIpv4]
  cases s.guestMac with
  | none => exact ⟨s.ipv4Ident, rfl⟩
  | some mac => exact ⟨s.ipv4Ident + 1, rfl⟩

theorem emitIpv4_eq (payload : U16 → OutPayload)
    (h : ∀ ident mac mac', (emitFrame ⟨mac, mac', payload ident⟩).isControl = true)
    (hfin : ∀ ident mac mac', (emitFrame ⟨mac, mac', payload ident⟩).fin? = none) :
    ∃ ident out, s.emitIpv4 payload = (s.withIdent ident, out) ∧ Confined out [] [] := by
  rw [emitIpv4]
  cases s.guestMac with
  | none => exact ⟨s.ipv4Ident, [], rfl, .nil⟩
  | some mac => exact ⟨s.ipv4Ident + 1, _, rfl, .single (h ..) (hfin ..)⟩

section Emit

variable (s) (conn : TcpConn)

theorem emitTcpSynAck_eq :
    ∃ ident out, s.emitTcpSynAck conn = (s.withIdent ident, out) ∧ Confined out [] [] :=
  emitIpv4_eq _ (fun _ _ _ => rfl) fun _ _ _ =>
    fin?_of_not_contains (by decide : (TcpFlags.syn ||| TcpFlags.ack).contains TcpFlags.fin = false)

theorem emitTcpAck_eq :
    ∃ ident out, s.emitTcpAck conn = (s.withIdent ident, out) ∧ Confined out [] [] :=
  emitIpv4_eq _ (fun _ _ _ => rfl) fun _ _ _ =>
    fin?_of_not_contains (by decide : TcpFlags.ack.contains TcpFlags.fin = false)

theorem emitTcpRst_eq :
    ∃ ident out, s.emitTcpRst conn = (s.withIdent ident, out) ∧ Confined out [] [] :=
  emitIpv4_eq _ (fun _ _ _ => rfl) fun _ _ _ =>
    fin?_of_not_contains (by decide : (TcpFlags.rst ||| TcpFlags.ack).contains TcpFlags.fin = false)

theorem emitTcpRstForSyn_eq (guestIp : Ipv4Addr) (guestPort : U16) (remoteIp : Ipv4Addr)
    (remotePort : U16) (guestSeq : U32) :
    ∃ ident out, s.emitTcpRstForSyn guestIp guestPort remoteIp remotePort guestSeq =
      (s.withIdent ident, out) ∧ Confined out [] [] :=
  emitIpv4_eq _ (fun _ _ _ => rfl) fun _ _ _ =>
    fin?_of_not_contains (by decide : (TcpFlags.rst ||| TcpFlags.ack).contains TcpFlags.fin = false)

theorem emitTcpFin_eq (hmac : s.guestMac.isSome = true) :
    ∃ ident out, s.emitTcpFin conn = (s.withIdent ident, conn.onFinSent, out) ∧
      Confined out [] conn.fins := by
  rw [emitTcpFin, TcpConn.onFinSent, TcpConn.fins]
  by_cases hfin : conn.finSent = true
  case pos =>
    rw [if_pos hfin, if_pos hfin, if_pos hfin]
    exact ⟨s.ipv4Ident, [], rfl, .nil⟩
  case neg =>
    rw [if_neg hfin, if_neg hfin, if_neg hfin]
    obtain ⟨mac, hmac⟩ := Option.isSome_iff_exists.mp hmac
    simp only [emitIpv4, hmac]
    exact ⟨s.ipv4Ident + 1, _, rfl, .fin rfl fin?_finAck⟩

theorem handleFin_eq (tcp : TcpSegment) (hmac : s.guestMac.isSome = true) :
    ∃ ident out,
      s.handleFin conn tcp = (s.withIdent ident, (conn.onGuestFin tcp).onFinSent, out) ∧
        Confined out [] conn.fins := by
  obtain ⟨ident, ack, hack, hout⟩ := s.emitTcpAck_eq (conn.onGuestFin tcp)
  obtain ⟨ident', fin, hfin, hout'⟩ :=
    (s.withIdent ident).emitTcpFin_eq (conn.onGuestFin tcp) hmac
  have hfins : (conn.onGuestFin tcp).fins = conn.fins := by
    rw [TcpConn.onGuestFin]
    split <;> rfl
  rw [hfins] at hout'
  refine ⟨ident', ack ++ [.tcpProxyClose (conn.onGuestFin tcp).onFinSent.id] ++ fin, ?_,
    (hout.append (.single rfl rfl)).append hout'⟩
  rw [TcpConn.onGuestFin] at hack hfin ⊢
  simp only [handleFin, hack, hfin]
  rfl

end Emit

section Segment

variable (s) (conn : TcpConn) (tcp : TcpSegment)

theorem forwardToProxy_eq (data : List U8) :
    ∃ ident out, (s.forwardToProxy conn data = (s.withIdent ident, none, out) ∧
        conn.proxyConnected = false ∧ Confined out [] []) ∨
      (s.forwardToProxy conn data = (s.withIdent ident, some (conn.take data), out) ∧
        Confined out (conn.sends data) []) := by
  rw [forwardToProxy, TcpConn.take, TcpConn.sends]
  by_cases hproxy : conn.proxyConnected = true
  case pos =>
    simp only [if_pos hproxy]
    obtain ⟨ident, out, he, hout⟩ := s.emitTcpAck_eq
      { conn with guestNextSeq := conn.guestNextSeq + BitVec.ofNat 32 data.length }
    rw [he]
    exact ⟨ident, _, .inr ⟨rfl, .send _ _ hout⟩⟩
  case neg =>
    simp only [if_neg hproxy]
    by_cases hlimit : s.tcpBufferWouldExceedLimit conn data.length = true
    case pos =>
      rw [if_pos hlimit]
      obtain ⟨ident, out, he, hout⟩ := s.emitTcpRst_eq conn
      rw [he]
      exact ⟨ident, _, .inl ⟨rfl, Bool.eq_false_iff.mpr hproxy, hout.append (.single rfl rfl)⟩⟩
    case neg =>
      rw [if_neg hlimit]
      obtain ⟨ident, out, he, hout⟩ := s.emitTcpAck_eq
        { conn with
          bufferedToProxyBytes := conn.bufferedToProxyBytes + data.length
          bufferedToProxy := conn.bufferedToProxy ++ [data]
          guestNextSeq := conn.guestNextSeq + BitVec.ofNat 32 data.length }
      rw [he]
      exact ⟨ident, _, .inr ⟨rfl, hout⟩⟩

-- The three comparisons of a segment with the next byte that is expected.
theorem handlePayload_eq (h : tcp.payload.isEmpty = false) :
    s.handlePayload conn tcp =
      if conn.accepts tcp then s.forwardToProxy conn (conn.newBytes tcp)
      else
        ((s.emitTcpAck conn).1, some conn, (s.emitTcpAck conn).2) := by
  rw [handlePayload, TcpConn.accepts, h]
  by_cases hseq : tcp.seqNumber = conn.guestNextSeq
  case pos =>
    have hnew : conn.newBytes tcp = tcp.payload := by
      rw [TcpConn.newBytes, hseq, BitVec.sub_self]
      rfl
    simp [hseq, hnew]
  case neg =>
    by_cases hend : tcp.seqNumber + BitVec.ofNat 32 tcp.payload.length ≤ conn.guestNextSeq
    case pos => simp [hseq, hend]
    case neg =>
      by_cases hlt : tcp.seqNumber < conn.guestNextSeq
      case pos => simp [hseq, hend, TcpConn.newBytes]
      case neg => simp [hseq, hlt]

theorem handlePayload_cases :
    ∃ ident out,
      ((if tcp.payload.isEmpty then (s, some conn, []) else s.handlePayload conn tcp) =
          (s.withIdent ident, none, out) ∧
        conn.accepts tcp = true ∧ conn.proxyConnected = false ∧ Confined out [] []) ∨
      ((if tcp.payload.isEmpty then (s, some conn, []) else s.handlePayload conn tcp) =
          (s.withIdent ident, some (conn.onPayload tcp), out) ∧
        Confined out (conn.payloadSends tcp) []) := by
  rw [TcpConn.onPayload, TcpConn.payloadSends]
  by_cases hemp : tcp.payload.isEmpty = true
  case pos =>
    have hacc : conn.accepts tcp = false := by rw [TcpConn.accepts, hemp]; rfl
    rw [if_pos hemp, hacc]
    exact ⟨s.ipv4Ident, [], .inr ⟨rfl, .nil⟩⟩
  case neg =>
    rw [if_neg hemp, s.handlePayload_eq conn tcp (Bool.eq_false_iff.mpr hemp)]
    by_cases hacc : conn.accepts tcp = true
    case pos =>
      simp only [if_pos hacc]
      obtain ⟨ident, out, ⟨he, hproxy, hout⟩ | ⟨he, hout⟩⟩ :=
        s.forwardToProxy_eq conn (conn.newBytes tcp)
      · exact ⟨ident, out, .inl ⟨he, hacc, hproxy, hout⟩⟩
      · exact ⟨ident, out, .inr ⟨he, hout⟩⟩
    case neg =>
      simp only [if_neg hacc]
      obtain ⟨ident, out, he, hout⟩ := s.emitTcpAck_eq conn
      rw [he]
      exact ⟨ident, out, .inr ⟨rfl, hout⟩⟩

-- A segment of a connection: the connection is aborted, or goes through its acknowledgement, its
-- payload and its FIN.
theorem handleSegment_cases (key : TcpKey) (hmac : s.guestMac.isSome = true) :
    ∃ ident out,
      (s.handleSegment key conn tcp = (s.withIdent ident, out) ∧
        (conn.onAck tcp).accepts tcp = true ∧ conn.proxyConnected = false ∧ Confined out [] []) ∨
      (s.handleSegment key conn tcp =
          (if (((conn.onAck tcp).onPayload tcp).onFin tcp).shouldRemove then s.withIdent ident
          else
            { s.withIdent ident with
              tcp := s.tcp.insert key (((conn.onAck tcp).onPayload tcp).onFin tcp) }, out) ∧
        Confined out ((conn.onAck tcp).payloadSends tcp)
          (if tcp.flags.contains TcpFlags.fin then conn.fins else [])) := by
  have hsyn : ∃ ident syn,
      (if tcp.flags.contains TcpFlags.syn && !tcp.flags.contains TcpFlags.ack && !conn.synAcked &&
          tcp.seqNumber == conn.guestIsn then s.emitTcpSynAck conn else (s, [])) =
        (s.withIdent ident, syn) ∧ Confined syn [] [] := by
    split
    · exact s.emitTcpSynAck_eq conn
    · exact ⟨s.ipv4Ident, [], rfl, .nil⟩
  obtain ⟨ident₁, syn, hsyn, hout₁⟩ := hsyn
  rw [handleSegment, hsyn]
  have hproxy : (conn.onAck tcp).proxyConnected = conn.proxyConnected := by
    rw [TcpConn.onAck]
    split <;> rfl
  have hfins : ((conn.onAck tcp).onPayload tcp).fins = conn.fins := by
    rw [TcpConn.onPayload_fins, TcpConn.onAck]
    split <;> rfl
  obtain ⟨ident₂, data, ⟨he, hacc, hp, hout₂⟩ | ⟨he, hout₂⟩⟩ :=
    (s.withIdent ident₁).handlePayload_cases (conn.onAck tcp) tcp
  · rw [TcpConn.onAck] at he
    simp only [he]
    exact ⟨ident₂, _, .inl ⟨rfl, hacc, hproxy ▸ hp, hout₁.append hout₂⟩⟩
  · have hfin : ∃ ident fin,
        (if tcp.flags.contains TcpFlags.fin then
            ((s.withIdent ident₁).withIdent ident₂).handleFin ((conn.onAck tcp).onPayload tcp) tcp
          else ((s.withIdent ident₁).withIdent ident₂, (conn.onAck tcp).onPayload tcp, [])) =
          (s.withIdent ident, ((conn.onAck tcp).onPayload tcp).onFin tcp, fin) ∧
        Confined fin [] (if tcp.flags.contains TcpFlags.fin then conn.fins else []) := by
      rw [TcpConn.onFin]
      split
      · rw [← hfins]
        exact handleFin_eq _ _ tcp hmac
      · exact ⟨ident₂, [], rfl, .nil⟩
    obtain ⟨ident₃, fin, hfin, hout₃⟩ := hfin
    rw [TcpConn.onAck] at he hfin
    simp only [he, hfin]
    refine ⟨ident₃, _, .inr ⟨rfl, ?_⟩⟩
    have hout := (hout₁.append hout₂).append hout₃
    rwa [nil_append, append_nil, append_nil, nil_append] at hout

end Segment

theorem emitChunks_fst (s : NetworkStack) (conn : TcpConn) (start rounds : Nat) (data : List U8) :
    ∃ ident, (s.emitChunks conn start rounds data).1 = s.withIdent ident := by
  induction rounds generalizing s start data with
  | zero => exact ⟨s.ipv4Ident, rfl⟩
  | succ rounds ih =>
    rw [emitChunks]
    split
    · exact ⟨s.ipv4Ident, rfl⟩
    · obtain ⟨ident, he⟩ := emitIpv4_fst fun ident =>
        .tcp ident conn.remoteIp s.cfg.guestIp ⟨conn.remotePort, conn.guestPort,
          conn.ourNextSeq + BitVec.ofNat 32 start, conn.guestNextSeq, TcpFlags.ack ||| TcpFlags.psh,
          65535, data.take tcpMss⟩
      obtain ⟨ident', he'⟩ := ih (s.withIdent ident) (start + tcpMss) (data.drop tcpMss)
      refine ⟨ident', ?_⟩
      dsimp only
      rw [he, he']
      rfl

theorem emitChunks_frames (s : NetworkStack) (conn : TcpConn) (start rounds : Nat)
    (data : List U8) : ∀ a ∈ (s.emitChunks conn start rounds data).2, ∃ frame, a = emitFrame frame := by
  induction rounds generalizing s start data with
  | zero => exact fun a ha => (not_mem_nil ha).elim
  | succ rounds ih =>
    rw [emitChunks]
    split
    · exact fun a ha => (not_mem_nil ha).elim
    · intro a ha
      rcases mem_append.mp ha with ha | ha
      · rw [emitIpv4] at ha
        split at ha
        · exact (not_mem_nil ha).elim
        · exact ⟨_, mem_singleton.mp ha⟩
      · exact ih _ _ _ a ha

section Example

def exampleConfig : StackConfig where
  ourMac := 0x020000000001
  gatewayIp := 0x0a000202
  guestIp := 0x0a00020f
  netmask := 0xffffff00
  dnsIp := 0x0a000202
  dhcpLeaseTimeSecs := 86400
  webrtcUdp := true
  hostPolicy := ⟨true, [], [], [], []⟩
  maxTcpConnections := 1024
  maxBufferedTcpBytesPerConn := 262144
  maxDnsCacheEntries := 10000
  maxPendingDns := 1024

def exampleDhcp : StackOp :=
  .frame (some ⟨0x525400123456, .ipv4 ⟨0, Ipv4Addr.broadcast,
    .udp ⟨68, 67, [], some ⟨1, 0, 0x525400123456, .request⟩, none⟩⟩⟩) 0

def exampleSegment (seq ack : U32) (flags : TcpFlags) (payload : List U8) : StackOp :=
  .frame (some ⟨0x525400123456, .ipv4 ⟨0x0a00020f, 0x5db8d822,
    .tcp ⟨40000, 80, seq, ack, flags, 65535, payload⟩⟩⟩) 0

end Example

end NetworkStack

end Aero.Net
