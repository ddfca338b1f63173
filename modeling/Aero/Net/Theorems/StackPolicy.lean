import Aero.Net.Theorems.StackSteps
import Aero.Lib.Runs

namespace Aero.Net

open Net.Action List

def Action.Permitted (policy : HostPolicy) : Action → Prop
  | .tcpProxyConnect _ remoteIp _  => policy.enabled = true ∧ policy.allowsIp remoteIp = true
  | .udpProxySend _ _ dstIp _ _    => policy.enabled = true ∧ policy.allowsIp dstIp = true
  | .tcpProxySend _ _              => policy.enabled = true
  | .dnsResolve _ _                => policy.enabled = true
  | .emitFrame _                   => True
  | .tcpProxyClose _               => True

def HostPolicy.Permits (policy : HostPolicy) (out : List Action) : Prop :=
  ∀ a ∈ out, a.Permitted policy

-- Every action of a call is permitted by the policy that was in force.
def NetworkStack.Obeys (s : NetworkStack) (op : StackOp) : Prop :=
  s.cfg.hostPolicy.Permits (s.call op).2

def NetworkStack.forwardsSegment (s : NetworkStack) (dstIp : Ipv4Addr) (tcp : TcpSegment) : Bool :=
  match s.tcp.lookup ⟨tcp.srcPort, dstIp, tcp.dstPort⟩ with
  | some conn =>
    s.ipAssigned && !tcp.flags.contains TcpFlags.rst && conn.proxyConnected &&
      if conn.seqSynced then conn.accepts tcp
      else tcp.flags.contains TcpFlags.ack && !tcp.payload.isEmpty
  | none => false

-- The call has data for a tunnel that is open already: new bytes of the guest, or bytes that wait
-- for the tunnel to become connected.
def NetworkStack.forwards (s : NetworkStack) : StackOp → Bool
  | .frame (some ⟨_, .ipv4 ⟨_, dstIp, .tcp tcp⟩⟩) _ => s.forwardsSegment dstIp tcp
  | .tcpEvent (.connected connectionId) _ =>
    match s.findKey connectionId with
    | some (_, conn) => !conn.bufferedToProxy.isEmpty
    | none => false
  | _ => false

section Permitted

variable {policy : HostPolicy} {a : Action}

theorem Action.permitted_of_isControl (h : a.isControl = true) : a.Permitted policy := by
  cases a with
  | emitFrame => trivial
  | tcpProxyClose => trivial
  | tcpProxyConnect => cases h
  | tcpProxySend => cases h
  | udpProxySend => cases h
  | dnsResolve => cases h

-- Data for a tunnel is all that a policy can object to.
theorem Confined.permitted_iff (h : Confined out ds fs) :
    policy.Permits out ↔ (policy.enabled = true ∨ ds = []) := by
  constructor
  · intro hall
    cases hds : ds with
    | nil => exact .inr rfl
    | cons d ds' =>
      left
      have hd : d ∈ out.filterMap tcpSend? := by
        rw [h.sends_eq, hds]
        exact mem_cons_self
      obtain ⟨a, ha, hsend⟩ := mem_filterMap.mp hd
      have hp := hall a ha
      cases a with
      | tcpProxySend => exact hp
      | emitFrame => cases hsend
      | tcpProxyClose => cases hsend
      | tcpProxyConnect => cases hsend
      | udpProxySend => cases hsend
      | dnsResolve => cases hsend
  · intro hor a ha
    rcases h.kinds a ha with hc | hs
    · exact permitted_of_isControl hc
    · rcases hor with he | hds
      · cases a with
        | tcpProxySend => exact he
        | emitFrame => cases hs
        | tcpProxyClose => cases hs
        | tcpProxyConnect => cases hs
        | udpProxySend => cases hs
        | dnsResolve => cases hs
      · obtain ⟨d, hd⟩ := Option.isSome_iff_exists.mp hs
        have hmem := mem_filterMap.mpr ⟨a, ha, hd⟩
        rw [h.sends_eq, hds] at hmem
        exact (not_mem_nil hmem).elim

namespace HostPolicy.Permits

theorem nil : policy.Permits [] :=
  fun _ h => (not_mem_nil h).elim

theorem cons (h : a.Permitted policy) (h' : policy.Permits out) : policy.Permits (a :: out) := by
  intro b hb
  rcases mem_cons.mp hb with rfl | hb
  · exact h
  · exact h' b hb

theorem iff_of_not (h : policy.Permits out) (hb : b = false) :
    policy.Permits out ↔ (policy.enabled = true ∨ b = false) :=
  iff_of_true h (.inr hb)

end HostPolicy.Permits

end Permitted

namespace NetworkStack

open HostPolicy

variable (s : NetworkStack) {policy : HostPolicy}

theorem emitIpv4_permitted (payload : U16 → OutPayload) : policy.Permits (s.emitIpv4 payload).2 := by
  rw [emitIpv4]
  cases s.guestMac with
  | none => exact .nil
  | some mac => exact .cons trivial .nil

theorem openConn_permitted (key : TcpKey) (ip : Ipv4Packet) (tcp : TcpSegment) :
    s.cfg.hostPolicy.Permits (s.openConn key ip tcp).2 := by
  rw [openConn]
  split
  case isTrue => exact emitIpv4_permitted _ _
  case isFalse hpol =>
    split
    · exact emitIpv4_permitted _ _
    · exact .cons (by simpa [Action.Permitted, newConn] using hpol) (emitIpv4_permitted _ _)

theorem startDns_permitted (query : DnsQuery) (srcPort : U16) (name : Name)
    (h : s.cfg.hostPolicy.enabled = true) :
    s.cfg.hostPolicy.Permits (s.startDns query srcPort name).2 := by
  rw [startDns]
  split
  · exact emitIpv4_permitted _ _
  · exact .cons h .nil

theorem handleDnsQuery_permitted (udp : UdpPacket) (nowMs : Millis) :
    s.cfg.hostPolicy.Permits (s.handleDnsQuery udp nowMs).2 := by
  rw [handleDnsQuery]
  split
  case h_1 => exact .nil
  case h_2 query _ =>
    split
    case h_1 => exact .nil
    case h_2 name _ =>
      generalize (Name.trimEndMatches (· == '.') name).makeAsciiLowercase = name
      dsimp only
      by_cases hen : s.cfg.hostPolicy.enabled = true
      case neg =>
        rw [if_pos (by simp [hen])]
        exact emitIpv4_permitted _ _
      case pos =>
        split
        · exact emitIpv4_permitted _ _
        split
        · exact emitIpv4_permitted _ _
        split
        · split
          · split
            · exact emitIpv4_permitted _ _
            · exact emitIpv4_permitted _ _
          · exact startDns_permitted _ _ _ _ hen
        · exact startDns_permitted _ _ _ _ hen

theorem handleDhcp_permitted (udp : UdpPacket) : policy.Permits (s.handleDhcp udp).2 := by
  rw [handleDhcp]
  split
  · exact .nil
  · dsimp only
    split
    · exact .nil
    split
    · exact .cons trivial (.cons trivial .nil)
    · exact .cons trivial .nil

theorem handleUdp_permitted (ip : Ipv4Packet) (udp : UdpPacket) (nowMs : Millis) :
    s.cfg.hostPolicy.Permits (s.handleUdp ip udp nowMs).2 := by
  rw [handleUdp]
  split
  · exact handleDhcp_permitted _ _
  split
  · exact handleDnsQuery_permitted _ _ _
  split
  · exact .nil
  split
  case isTrue => exact .nil
  case isFalse hpol => exact .cons (by simpa [Action.Permitted] using hpol) .nil

theorem handleIcmp_permitted (ip : Ipv4Packet) (echo : Option IcmpEcho) :
    policy.Permits (s.handleIcmp ip echo).2 := by
  unfold handleIcmp
  split
  · exact .nil
  split
  · exact .nil
  split
  · exact .nil
  split
  · exact .nil
  · exact emitIpv4_permitted _ _

theorem handleArp_permitted (arp : ArpPacket) : policy.Permits (s.handleArp arp).2 := by
  rw [handleArp]
  split
  · exact .nil
  split
  · dsimp only
    split
    · exact .nil
    split
    · exact .nil
    · exact .cons trivial .nil
  · exact .nil

theorem emitTcpFin_permitted (conn : TcpConn) : policy.Permits (s.emitTcpFin conn).2.2 := by
  rw [emitTcpFin]
  split
  · exact .nil
  · dsimp only
    split
    · exact .nil
    · exact emitIpv4_permitted _ _

theorem emitChunks_permitted (conn : TcpConn) (start rounds : Nat) (data : List U8) :
    policy.Permits (s.emitChunks conn start rounds data).2 := by
  induction rounds generalizing s start data with
  | zero => exact .nil
  | succ rounds ih =>
    rw [emitChunks]
    split
    · exact .nil
    · intro a ha
      rcases mem_append.mp ha with ha | ha
      · exact emitIpv4_permitted _ _ a ha
      · exact ih _ _ _ a ha

theorem onTcpProxyData_permitted (connectionId : U32) (data : List U8) :
    policy.Permits (s.onTcpProxyData connectionId data).2 := by
  rw [onTcpProxyData]
  split
  · exact .nil
  split
  · exact .nil
  split
  · exact .nil
  · exact emitChunks_permitted _ _ _ _ _

theorem sends_eq_nil_iff (conn : TcpConn) (tcp : TcpSegment) :
    conn.payloadSends tcp = [] ↔ (conn.proxyConnected && conn.accepts tcp) = false := by
  rw [TcpConn.payloadSends, TcpConn.sends]
  cases conn.accepts tcp with
  | false => simp
  | true => cases conn.proxyConnected <;> simp

theorem handleSegment_permitted_iff (key : TcpKey) (conn : TcpConn) (tcp : TcpSegment)
    (hmac : s.guestMac.isSome = true) :
    policy.Permits (s.handleSegment key conn tcp).2 ↔
      (policy.enabled = true ∨ (conn.proxyConnected && conn.accepts tcp) = false) := by
  have hack : (conn.onAck tcp).payloadSends tcp = conn.payloadSends tcp := by
    rw [TcpConn.onAck]
    split <;> rfl
  rw [← sends_eq_nil_iff, ← hack]
  obtain ⟨ident, out, ⟨he, hacc, hproxy, hout⟩ | ⟨he, hout⟩⟩ :=
    s.handleSegment_cases conn tcp key hmac
  · rw [he, hack]
    refine hout.permitted_iff.trans (iff_of_true (.inr rfl) (.inr ?_))
    rw [sends_eq_nil_iff, hproxy]
    rfl
  · rw [he]
    exact hout.permitted_iff

theorem handleTcp_permitted_iff (ip : Ipv4Packet) (tcp : TcpSegment)
    (hmac : s.guestMac.isSome = true) :
    s.cfg.hostPolicy.Permits (s.handleTcp ip tcp).2 ↔
      (s.cfg.hostPolicy.enabled = true ∨ s.forwardsSegment ip.dstIp tcp = false) := by
  rw [handleTcp, forwardsSegment]
  cases hass : s.ipAssigned with
  | false =>
    refine Permits.iff_of_not .nil ?_
    split <;> rfl
  | true =>
    simp only [Bool.not_true, Bool.false_eq_true, if_false]
    cases hconn : s.tcp.lookup ⟨tcp.srcPort, ip.dstIp, tcp.dstPort⟩ with
    | none =>
      refine Permits.iff_of_not ?_ rfl
      dsimp only
      split
      · exact .nil
      split
      · exact .nil
      · exact openConn_permitted _ _ _ _
    | some conn =>
      dsimp only
      by_cases hrst : tcp.flags.contains TcpFlags.rst = true
      case pos =>
        rw [if_pos hrst]
        exact Permits.iff_of_not (.cons trivial .nil) (by simp [hrst])
      case neg =>
        rw [if_neg hrst]
        have hrst' := Bool.eq_false_iff.mpr hrst
        by_cases hsync : conn.seqSynced = true
        case pos =>
          simp only [if_pos hsync, hrst', Bool.not_false]
          exact handleSegment_permitted_iff _ _ _ _ hmac
        case neg =>
          simp only [if_neg hsync, hrst', Bool.not_false]
          cases hack : tcp.flags.contains TcpFlags.ack with
          | false =>
            refine iff_of_true ?_ (.inr (by simp))
            split
            · exact .cons trivial (openConn_permitted _ _ _ _)
            · exact .nil
          | true =>
            simp only [Bool.not_true, Bool.and_false, Bool.false_eq_true]
            refine (handleSegment_permitted_iff _ _ _ _ (by exact hmac)).trans ?_
            simp [TcpConn.accepts]

theorem handleUdpProxyEvent_permitted (event : UdpProxyEvent) (nowMs : Millis) :
    policy.Permits (s.handleUdpProxyEvent event nowMs).2 := by
  unfold handleUdpProxyEvent
  dsimp only
  split
  · exact .nil
  split
  · exact .nil
  split
  · exact .nil
  · dsimp only
    split
    · exact .nil
    · exact emitIpv4_permitted _ _

theorem handleDnsResolved_permitted (resolved : DnsResolved) (nowMs : Millis) :
    policy.Permits (s.handleDnsResolved resolved nowMs).2 := by
  unfold handleDnsResolved
  dsimp only
  split
  · exact .nil
  split
  · exact .nil
  split
  · exact emitIpv4_permitted _ _
  · exact emitIpv4_permitted _ _

theorem handleTcpProxyEvent_permitted_iff (event : TcpProxyEvent) (nowMs : Millis) :
    s.cfg.hostPolicy.Permits (s.handleTcpProxyEvent event nowMs).2 ↔
      (s.cfg.hostPolicy.enabled = true ∨ s.forwards (.tcpEvent event nowMs) = false) := by
  have hfind id : (s.syncInternalNowMs nowMs).1.findKey id = s.findKey id := rfl
  unfold handleTcpProxyEvent
  cases event with
  | data id data => exact Permits.iff_of_not (onTcpProxyData_permitted _ _ _) rfl
  | connected id =>
    simp only [hfind, forwards]
    cases s.findKey id with
    | none => exact Permits.iff_of_not .nil rfl
    | some found =>
      have hout (chunks : List (List U8)) :
          Confined (chunks.map (tcpProxySend found.2.id))
            (chunks.map fun chunk => (found.2.id, chunk)) [] := by
        induction chunks with
        | nil => exact .nil
        | cons chunk chunks ih => exact .send _ _ ih
      refine (hout _).permitted_iff.trans ?_
      simp
  | closed id =>
    refine Permits.iff_of_not ?_ rfl
    simp only [hfind]
    cases s.findKey id with
    | none => exact .nil
    | some found =>
      dsimp only
      split
      · exact .nil
      split
      · exact emitIpv4_permitted _ _
      · exact emitTcpFin_permitted _ _
  | error id =>
    refine Permits.iff_of_not ?_ rfl
    simp only [hfind]
    cases s.findKey id with
    | none => exact .nil
    | some found =>
      dsimp only
      split
      · exact .nil
      · exact emitIpv4_permitted _ _

theorem processOutboundEthernet_permitted_iff (frame : Option EthernetFrame) (nowMs : Millis) :
    s.cfg.hostPolicy.Permits (s.processOutboundEthernet frame nowMs).2 ↔
      (s.cfg.hostPolicy.enabled = true ∨ s.forwards (.frame frame nowMs) = false) := by
  cases frame with
  | none => exact Permits.iff_of_not .nil rfl
  | some eth =>
    obtain ⟨mac, payload⟩ := eth
    cases payload with
    | other => exact Permits.iff_of_not .nil rfl
    | arp arp => exact Permits.iff_of_not (handleArp_permitted _ _) rfl
    | ipv4 ip =>
      obtain ⟨srcIp, dstIp, payload⟩ := ip
      cases payload with
      | other => exact Permits.iff_of_not .nil rfl
      | udp udp =>
        refine Permits.iff_of_not ?_ rfl
        exact handleUdp_permitted { (s.syncInternalNowMs nowMs).1 with
          guestMac := s.guestMac.or (some mac) } _ _ _
      | icmp echo => exact Permits.iff_of_not (handleIcmp_permitted _ _ _) rfl
      | tcp tcp =>
        exact handleTcp_permitted_iff { (s.syncInternalNowMs nowMs).1 with
          guestMac := s.guestMac.or (some mac) } ⟨srcIp, dstIp, .tcp tcp⟩ tcp (by simp)

theorem obeys_iff (op : StackOp) :
    s.Obeys op ↔ (s.cfg.hostPolicy.enabled = true ∨ s.forwards op = false) := by
  cases op with
  | setNetworkEnabled enabled => exact Permits.iff_of_not .nil rfl
  | udpEvent event nowMs => exact Permits.iff_of_not (handleUdpProxyEvent_permitted _ _ _) rfl
  | dnsResolved resolved nowMs =>
    exact Permits.iff_of_not (handleDnsResolved_permitted _ _ _) rfl
  | tcpEvent event nowMs => exact handleTcpProxyEvent_permitted_iff _ _ _
  | frame frame nowMs => exact processOutboundEthernet_permitted_iff _ _ _

-- Every call of a run obeys the policy in force exactly when no call has data for an open tunnel
-- while the network is disabled.
theorem policy_obeyed_iff (s : NetworkStack) (ops : List StackOp) :
    Runs.Each step Obeys s ops ↔
      Runs.Each step (fun s op => s.cfg.hostPolicy.enabled = true ∨ s.forwards op = false) s ops :=
  Runs.each_congr obeys_iff

-- The guest sends a byte on an open connection after the network was disabled.
theorem data_sent_while_disabled :
    (tcpProxySend 1 [0x47] ∈
        (([exampleDhcp, exampleSegment 100 0 TcpFlags.syn [], .tcpEvent (.connected 1) 0,
          .setNetworkEnabled false].foldl step (new exampleConfig)).call
            (exampleSegment 101 1000005 TcpFlags.ack [0x47])).2) ∧
      ¬Runs.Each step Obeys (new exampleConfig)
        [exampleDhcp, exampleSegment 100 0 TcpFlags.syn [], .tcpEvent (.connected 1) 0,
          .setNetworkEnabled false, exampleSegment 101 1000005 TcpFlags.ack [0x47]] := by
  have hsent : tcpProxySend 1 [0x47] ∈
      (([exampleDhcp, exampleSegment 100 0 TcpFlags.syn [], .tcpEvent (.connected 1) 0,
        .setNetworkEnabled false].foldl step (new exampleConfig)).call
          (exampleSegment 101 1000005 TcpFlags.ack [0x47])).2 := by decide +kernel
  refine ⟨hsent, fun h => ?_⟩
  have hperm := h.2.2.2.2.1 _ hsent
  cases hperm

end NetworkStack

end Aero.Net
