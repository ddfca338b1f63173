import Aero.Net.Theorems.StackSteps
import Aero.Lib.Runs

namespace Aero.Net

open TcpConn List Net.Action AList

-- Neither a tunnel nor data for one, and neither TCP data nor a FIN for the guest.
def Action.isQuiet : Action → Bool
  | .emitFrame ⟨_, _, .tcp _ _ _ segment⟩ =>
    segment.payload.isEmpty && !segment.flags.contains TcpFlags.fin
  | .tcpProxySend _ _ => false
  | .tcpProxyConnect _ _ _ => false
  | _ => true

def Action.isConnect : Action → Bool
  | .tcpProxyConnect _ _ _ => true
  | _ => false

-- The number of connections that the actions open.
def connects (out : List Action) : Nat :=
  out.countP Action.isConnect

theorem connects_append (out out' : List Action) :
    connects (out ++ out') = connects out + connects out' :=
  countP_append

theorem connects_of_quiet {out : List Action} (h : ∀ a ∈ out, a.isQuiet = true) :
    connects out = 0 := by
  refine countP_eq_zero.mpr fun a ha hc => ?_
  have hq := h a ha
  cases a <;> cases hc
  cases hq

theorem Confined.connects_eq (h : Confined out ds fs) : connects out = 0 := by
  refine countP_eq_zero.mpr fun a ha hc => ?_
  have hkind := h.kinds a ha
  cases a <;> cases hc
  rcases hkind with hk | hk <;> cases hk

theorem emitChunks_connects (s : NetworkStack) (conn : TcpConn) (start rounds : Nat)
    (data : List U8) : connects (s.emitChunks conn start rounds data).2 = 0 := by
  refine countP_eq_zero.mpr fun a ha hc => ?_
  obtain ⟨frame, rfl⟩ := s.emitChunks_frames conn start rounds data a ha
  cases hc

theorem Confined.quiet (h : Confined out [] []) : ∀ a ∈ out, a.isQuiet = true := by
  intro a ha
  rcases h.kinds a ha with hc | hs
  · cases a with
    | emitFrame frame =>
      obtain ⟨mac, mac', payload⟩ := frame
      cases payload with
      | tcp ident remoteIp guestIp segment =>
        have hfin := filterMap_eq_nil_iff.mp h.fins_eq _ ha
        rw [fin?] at hfin
        split at hfin
        · cases hfin
        case isFalse hflag =>
          rw [isQuiet, Bool.eq_false_iff.mpr hflag, Bool.not_false, Bool.and_true]
          exact hc
      | arpReply => rfl
      | udp => rfl
      | icmpEchoReply => rfl
    | tcpProxyClose => rfl
    | tcpProxyConnect => cases hc
    | tcpProxySend => cases hc
    | udpProxySend => rfl
    | dnsResolve => rfl
  · obtain ⟨d, hd⟩ := Option.isSome_iff_exists.mp hs
    have hmem := mem_filterMap.mpr ⟨a, ha, hd⟩
    rw [h.sends_eq] at hmem
    exact (not_mem_nil hmem).elim

def TcpConn.fresh (id : U32) (key : TcpKey) (guestIsn ourIsn : U32) : TcpConn where
  id := id
  __ := key
  guestIsn := guestIsn
  guestNextSeq := guestIsn + 1
  ourIsn := ourIsn
  ourNextSeq := ourIsn + 1
  synAcked := false
  finSent := false
  finSeq := 0
  finAcked := false
  guestFinReceived := false
  proxyConnected := false
  proxyReconnecting := false
  seqSynced := true
  bufferedToProxy := []
  bufferedToProxyBytes := 0

def TcpConn.connect (conn : TcpConn) : TcpConn :=
  { conn with
    proxyConnected := true
    proxyReconnecting := false
    bufferedToProxy := []
    bufferedToProxyBytes := 0 }

def TcpConn.onData (conn : TcpConn) (bytes : List U8) : TcpConn :=
  { conn with ourNextSeq := conn.ourNextSeq + BitVec.ofNat 32 bytes.length }

def TcpConn.onSegment (conn : TcpConn) (tcp : TcpSegment) : TcpConn :=
  ((conn.onAck tcp).onPayload tcp).onFin tcp

inductive StackOp.IsSegment : StackOp → TcpKey → TcpSegment → Prop
  | mk {mac : MacAddr} {srcIp dstIp : Ipv4Addr} {tcp : TcpSegment} {nowMs : Millis} :
      IsSegment (.frame (some ⟨mac, .ipv4 ⟨srcIp, dstIp, .tcp tcp⟩⟩) nowMs)
        ⟨tcp.srcPort, dstIp, tcp.dstPort⟩ tcp

structure NetworkStack.Keeps (s s' : NetworkStack) : Prop where
  nextTcpId : s'.nextTcpId = s.nextTcpId
  guestMac : s.guestMac.isSome = true → s'.guestMac.isSome = true

-- The effect of a call on the table of connections, with the actions for tunnels and TCP data.
inductive NetworkStack.CallEffect (s : NetworkStack) :
    StackOp → NetworkStack → List Action → Prop
  | idle (keeps : s.Keeps s')
      (tcp : s'.tcp = s.tcp) (quiet : ∀ a ∈ out, a.isQuiet = true)
      (data : ∀ id bytes nowMs, op = .tcpEvent (.data id bytes) nowMs →
        ∀ found, s.findKey id = some found →
          found.2.finSent = true ∨ found.2.synAcked = false)
      (closing : ∀ id nowMs,
        op = .tcpEvent (.closed id) nowMs ∨ op = .tcpEvent (.error id) nowMs →
          s.findKey id = none)
      (segment : ∀ key tcp conn, op.IsSegment key tcp → s.tcp.lookup key = some conn →
        s.ipAssigned = false) :
      CallEffect s op s' out
  | opened (isSegment : op.IsSegment key seg) (absent : s.tcp.lookup key = none)
      (nextTcpId : s'.nextTcpId = s.nextTcpId + 1) (guestMac : s'.guestMac.isSome = true)
      (table : s'.tcp = s.tcp.insert key (.fresh s.nextTcpId key seg.seqNumber isn))
      (quiet : ∀ a ∈ out, a.isQuiet = true) :
      CallEffect s op s' (.tcpProxyConnect s.nextTcpId dst port :: out)
  | reset (isSegment : op.IsSegment key seg) (present : s.tcp.lookup key = some conn)
      (rst : seg.flags.contains TcpFlags.rst = true) (keeps : s.Keeps s')
      (table : s'.tcp = s.tcp.erase key) (quiet : ∀ a ∈ out, a.isQuiet = true) :
      CallEffect s op s' out
  | aborted (isSegment : op.IsSegment key seg)
      (present : s.tcp.lookup key = some conn) (rst : seg.flags.contains TcpFlags.rst = false)
      (accepts : conn.accepts seg = true) (keeps : s.Keeps s')
      (table : s'.tcp = s.tcp.erase key) (quiet : ∀ a ∈ out, a.isQuiet = true) :
      CallEffect s op s' out
  | segment (isSegment : op.IsSegment key seg)
      (present : s.tcp.lookup key = some conn) (rst : seg.flags.contains TcpFlags.rst = false)
      (assigned : s.ipAssigned = true) (keeps : s.Keeps s')
      (table : s'.tcp = if (conn.onSegment seg).shouldRemove then s.tcp.erase key
        else (s.tcp.erase key).insert key (conn.onSegment seg))
      (confined : Confined out (conn.payloadSends seg)
        (if seg.flags.contains TcpFlags.fin then conn.fins else [])) :
      CallEffect s op s' out
  | connected (found : s.findKey connId = some (key, conn)) (keeps : s.Keeps s')
      (table : s'.tcp = s.tcp.insert key conn.connect)
      (confined : Confined out (conn.bufferedToProxy.map fun chunk => (conn.id, chunk)) []) :
      CallEffect s (.tcpEvent (.connected connId) nowMs) s' out
  | finished (found : s.findKey connId = some (key, conn)) (keeps : s.Keeps s')
      (table : s'.tcp = if conn.onFinSent.shouldRemove then s.tcp.erase key
        else (s.tcp.erase key).insert key conn.onFinSent)
      (confined : Confined out [] conn.fins) :
      CallEffect s (.tcpEvent (.closed connId) nowMs) s' out
  | dropped (found : s.findKey connId = some (key, conn))
      (op_eq : op = .tcpEvent (.closed connId) nowMs ∨ op = .tcpEvent (.error connId) nowMs)
      (keeps : s.Keeps s') (table : s'.tcp = s.tcp.erase key)
      (quiet : ∀ a ∈ out, a.isQuiet = true) :
      CallEffect s op s' out
  | data (found : s.findKey connId = some (key, conn))
      (synAcked : conn.synAcked = true) (finSent : conn.finSent = false) (keeps : s.Keeps s')
      (table : s'.tcp = s.tcp.insert key (conn.onData bytes))
      (chunks : ∃ s₀ : NetworkStack, s₀.guestMac.isSome = true ∧
        out = (s₀.emitChunks conn 0 bytes.length bytes).2) :
      CallEffect s (.tcpEvent (.data connId bytes) nowMs) s' out

namespace NetworkStack

variable {s : NetworkStack}

theorem mem_of_findKey {id : U32} (h : s.findKey id = some (key, conn)) :
    s.tcp.lookup key = some conn ∧ conn.id = id := by
  rw [findKey, Option.map_eq_some_iff] at h
  obtain ⟨⟨k, c⟩, hfind, he⟩ := h
  cases he
  have hid := find?_some hfind
  have hmem := mem_of_find?_eq_some hfind
  exact ⟨mem_lookup_iff.mpr hmem, by simpa using hid⟩

theorem findKey_of_lookup (h : s.tcp.lookup key = some conn) :
    ∃ key' conn', s.findKey conn.id = some (key', conn') := by
  have hmem := mem_lookup_iff.mp h
  cases hfind : s.tcp.entries.find? fun e => e.2.id == conn.id with
  | none =>
    have := find?_eq_none.mp hfind _ hmem
    simp at this
  | some e => exact ⟨e.1, e.2, by rw [findKey, hfind]; rfl⟩

structure Idle (s : NetworkStack) (r : NetworkStack × List Action) : Prop where
  keeps : s.Keeps r.1
  tcp : r.1.tcp = s.tcp
  quiet : ∀ a ∈ r.2, a.isQuiet = true

section Idle

theorem Keeps.refl (s : NetworkStack) : s.Keeps s :=
  ⟨rfl, id⟩

theorem Keeps.trans {s₁ s₂ s₃ : NetworkStack} (h : s₁.Keeps s₂) (h' : s₂.Keeps s₃) :
    s₁.Keeps s₃ :=
  ⟨h'.nextTcpId.trans h.nextTcpId, fun hm => h'.guestMac (h.guestMac hm)⟩

theorem Idle.trans (h : s'.Idle r) (hk : s.Keeps s') (ht : s'.tcp = s.tcp) : s.Idle r :=
  ⟨hk.trans h.keeps, h.tcp.trans ht, h.quiet⟩

theorem Idle.nil : s.Idle (s, []) :=
  ⟨.refl s, rfl, fun _ h => (not_mem_nil h).elim⟩

theorem Idle.ofEmit (h : ∃ ident out, r = (s.withIdent ident, out) ∧ Confined out [] []) :
    s.Idle r := by
  obtain ⟨ident, out, rfl, hout⟩ := h
  exact ⟨⟨rfl, id⟩, rfl, hout.quiet⟩

theorem emitDns_idle (dstPort : U16) (response : DnsResponse) : s.Idle (s.emitDns dstPort response) :=
  .ofEmit (emitIpv4_eq _ (fun _ _ _ => rfl) fun _ _ _ => rfl)

theorem startDns_idle (query : DnsQuery) (srcPort : U16) (name : Name) :
    s.Idle (s.startDns query srcPort name) := by
  rw [startDns]
  split
  · exact emitDns_idle ..
  · refine ⟨⟨rfl, id⟩, rfl, fun a ha => ?_⟩
    rw [mem_singleton.mp ha]
    rfl

theorem handleDnsQuery_idle (udp : UdpPacket) (nowMs : Millis) :
    s.Idle (s.handleDnsQuery udp nowMs) := by
  rw [handleDnsQuery]
  split
  · exact .nil
  split
  · exact .nil
  case h_2 name _ =>
    generalize (Name.trimEndMatches (· == '.') name).makeAsciiLowercase = name
    dsimp only
    split
    · exact emitDns_idle ..
    split
    · exact emitDns_idle ..
    split
    · split
      · split
        · exact emitDns_idle ..
        · exact emitDns_idle ..
      · exact startDns_idle ..
    · exact startDns_idle ..

theorem handleDhcp_idle (udp : UdpPacket) : s.Idle (s.handleDhcp udp) := by
  rw [handleDhcp]
  split
  · exact .nil
  · dsimp only
    split
    · exact .nil
    case h_2 msg _ _ replyType markAssigned _ =>
      have hkeeps : s.Keeps (if markAssigned then s.assignIp msg.clientMac else s) := by
        split
        · exact ⟨rfl, fun _ => rfl⟩
        · exact .refl s
      have htcp : (if markAssigned then s.assignIp msg.clientMac else s).tcp = s.tcp := by
        split <;> rfl
      generalize (if markAssigned then s.assignIp msg.clientMac else s) = s' at hkeeps htcp
      split
      · exact ⟨⟨hkeeps.nextTcpId, hkeeps.guestMac⟩, htcp, by simp [isQuiet]⟩
      · exact ⟨⟨hkeeps.nextTcpId, hkeeps.guestMac⟩, htcp, by simp [isQuiet]⟩

theorem handleUdp_idle (ip : Ipv4Packet) (udp : UdpPacket) (nowMs : Millis) :
    s.Idle (s.handleUdp ip udp nowMs) := by
  rw [handleUdp]
  split
  · exact handleDhcp_idle udp
  split
  · exact handleDnsQuery_idle udp nowMs
  split
  · exact .nil
  split
  · exact .nil
  · exact ⟨.refl s, rfl, by simp [isQuiet]⟩

theorem handleIcmp_idle (ip : Ipv4Packet) (echo : Option IcmpEcho) :
    s.Idle (s.handleIcmp ip echo) := by
  unfold handleIcmp
  split
  · exact .nil
  split
  · exact .nil
  split
  · exact .nil
  split
  · exact .nil
  · exact .ofEmit (emitIpv4_eq _ (fun _ _ _ => rfl) fun _ _ _ => rfl)

theorem handleArp_idle (arp : ArpPacket) : s.Idle (s.handleArp arp) := by
  rw [handleArp]
  split
  · exact .nil
  split
  case h_2 => exact .nil
  case h_1 senderHw senderIp targetIp _ _ _ =>
    have hkeeps : s.Keeps (s.cacheGuestMac senderHw senderIp) := by
      rw [cacheGuestMac]
      split
      · exact ⟨rfl, fun _ => rfl⟩
      · exact .refl s
    have htcp : (s.cacheGuestMac senderHw senderIp).tcp = s.tcp := by
      rw [cacheGuestMac]
      split <;> rfl
    dsimp only
    split
    · exact Idle.nil.trans hkeeps htcp
    split
    · exact Idle.nil.trans hkeeps htcp
    · exact ⟨hkeeps, htcp, by simp [isQuiet]⟩

theorem handleUdpProxyEvent_idle (event : UdpProxyEvent) (nowMs : Millis) :
    s.Idle (s.handleUdpProxyEvent event nowMs) := by
  have hkeeps : s.Keeps (s.syncInternalNowMs nowMs).1 := ⟨rfl, id⟩
  unfold handleUdpProxyEvent
  refine Idle.trans ?_ hkeeps rfl
  dsimp only
  split
  · exact .nil
  split
  · exact .nil
  split
  · exact .nil
  · have hemit : (s.syncInternalNowMs nowMs).1.Idle
        ((s.syncInternalNowMs nowMs).1.emitIpv4 fun ident =>
          .udp ident event.srcIp (s.syncInternalNowMs nowMs).1.cfg.guestIp event.srcPort
            event.dstPort (.data event.data)) :=
      .ofEmit (emitIpv4_eq _ (fun _ _ _ => rfl) fun _ _ _ => rfl)
    refine ⟨hemit.keeps, hemit.tcp, ?_⟩
    split
    · exact fun _ h => (not_mem_nil h).elim
    · exact hemit.quiet

theorem handleDnsResolved_idle (resolved : DnsResolved) (nowMs : Millis) :
    s.Idle (s.handleDnsResolved resolved nowMs) := by
  have hinsert (s : NetworkStack) name entry :
      s.Keeps (s.insertDnsCache name entry) ∧ (s.insertDnsCache name entry).tcp = s.tcp := by
    rw [insertDnsCache]
    split
    · exact ⟨.refl s, rfl⟩
    · exact ⟨⟨rfl, id⟩, rfl⟩
  have hkeeps : s.Keeps { (s.syncInternalNowMs nowMs).1 with
      pendingDns := (s.syncInternalNowMs nowMs).1.pendingDns.erase resolved.requestId } :=
    ⟨rfl, id⟩
  unfold handleDnsResolved
  dsimp only
  split
  · exact Idle.nil.trans ⟨rfl, id⟩ rfl
  split
  · exact Idle.nil.trans hkeeps rfl
  split
  · obtain ⟨hk, ht⟩ := hinsert { (s.syncInternalNowMs nowMs).1 with
      pendingDns := (s.syncInternalNowMs nowMs).1.pendingDns.erase resolved.requestId } _ _
    exact (emitDns_idle ..).trans (hkeeps.trans hk) ht
  · exact (emitDns_idle ..).trans hkeeps rfl

end Idle

-- The table of connections of a stack that was not restored from a snapshot.
structure Valid (s : NetworkStack) : Prop where
  synced : ∀ key conn, s.tcp.lookup key = some conn → conn.seqSynced = true
  keyed : ∀ key conn, s.tcp.lookup key = some conn →
    (⟨conn.guestPort, conn.remoteIp, conn.remotePort⟩ : TcpKey) = key
  ids_lt : ∀ key conn, s.tcp.lookup key = some conn → conn.id < s.nextTcpId
  ids_inj : ∀ key conn key' conn', s.tcp.lookup key = some conn →
    s.tcp.lookup key' = some conn' → conn.id = conn'.id → key = key'
  guestMac : ∀ key conn, s.tcp.lookup key = some conn → s.guestMac.isSome = true

theorem Idle.effect (h : s.Idle r) (hop : ∀ event nowMs, op ≠ .tcpEvent event nowMs)
    (hseg : ∀ key tcp conn, op.IsSegment key tcp → s.tcp.lookup key = some conn →
      s.ipAssigned = false) : s.CallEffect op r.1 r.2 := by
  refine .idle h.keeps h.tcp h.quiet (fun _ _ _ ho => absurd ho (hop _ _)) (fun id nowMs ho => ?_)
    hseg
  rcases ho with ho | ho
  · exact absurd ho (hop _ _)
  · exact absurd ho (hop _ _)

section Effect

theorem isSegment_unique {op : StackOp} {tcp tcp' : TcpSegment} (h : op.IsSegment key tcp)
    (h' : op.IsSegment key' tcp') : key' = key ∧ tcp' = tcp := by
  cases h
  generalize ho : StackOp.frame _ _ = op at h'
  cases h'
  cases ho
  exact ⟨rfl, rfl⟩

theorem isSegment_ne_tcpEvent {op : StackOp} {tcp : TcpSegment} (h : op.IsSegment key tcp)
    (event : TcpProxyEvent) (nowMs : Millis) : op ≠ .tcpEvent event nowMs := by
  cases h
  exact fun h => by cases h

theorem openConn_effect {tcp : TcpSegment} {s₀ : NetworkStack} (hkeeps : s₀.Keeps s)
    (htcp : s.tcp = s₀.tcp) (hmac : s.guestMac.isSome = true) (hop : op.IsSegment key tcp)
    (hkey : key = ⟨tcp.srcPort, ip.dstIp, tcp.dstPort⟩) (habs : s₀.tcp.lookup key = none) :
    s₀.CallEffect op (s.openConn key ip tcp).1 (s.openConn key ip tcp).2 := by
  have hidle {r : NetworkStack × List Action} (h : s.Idle r) : s₀.CallEffect op r.1 r.2 := by
    refine (h.trans hkeeps htcp).effect (isSegment_ne_tcpEvent hop) ?_
    intro key' tcp' conn hop' hpres
    rw [(isSegment_unique hop hop').1, habs] at hpres
    cases hpres
  rw [openConn]
  split
  · exact hidle (.ofEmit (s.emitTcpRstForSyn_eq ..))
  split
  · exact hidle (.ofEmit (s.emitTcpRstForSyn_eq ..))
  · obtain ⟨ident, out, he, hout⟩ :=
      { s with nextTcpId := s.nextTcpId + 1 }.emitTcpSynAck_eq (s.newConn ip tcp)
    simp only [he]
    have htable : s.tcp.insert key (s.newConn ip tcp) = s₀.tcp.insert key
        (.fresh s₀.nextTcpId key tcp.seqNumber s.allocateIsn) := by
      rw [← htcp, hkey, ← hkeeps.nextTcpId]
      rfl
    have hid : (s.newConn ip tcp).id = s₀.nextTcpId := hkeeps.nextTcpId
    rw [hid]
    exact .opened hop habs (congrArg (· + 1) hkeeps.nextTcpId) hmac htable hout.quiet

theorem handleTcp_effect (ip : Ipv4Packet) {tcp : TcpSegment} {s₀ : NetworkStack} (hv : s₀.Valid)
    (hkeeps : s₀.Keeps s) (htcp : s.tcp = s₀.tcp) (hass : s.ipAssigned = s₀.ipAssigned)
    (hmac : s.guestMac.isSome = true) (hop : op.IsSegment ⟨tcp.srcPort, ip.dstIp, tcp.dstPort⟩ tcp) :
    s₀.CallEffect op (s.handleTcp ip tcp).1 (s.handleTcp ip tcp).2 := by
  have hidle (h : ∀ conn, s₀.tcp.lookup ⟨tcp.srcPort, ip.dstIp, tcp.dstPort⟩ = some conn →
      s₀.ipAssigned = false) : s₀.CallEffect op s [] := by
    refine (Idle.nil.trans hkeeps htcp).effect (isSegment_ne_tcpEvent hop) ?_
    intro key' tcp' conn hop' hpres
    rw [(isSegment_unique hop hop').1] at hpres
    exact h conn hpres
  rw [handleTcp]
  split
  case isTrue hassigned =>
    refine hidle fun _ _ => ?_
    rw [← hass]
    simpa using hassigned
  case isFalse hassigned =>
    have hassigned' : s₀.ipAssigned = true := by
      rw [← hass]
      simpa using hassigned
    dsimp only
    split
    case h_1 habs =>
      rw [htcp] at habs
      have hnone := hidle fun conn h => by rw [habs] at h; cases h
      split
      · exact hnone
      split
      · exact hnone
      · exact openConn_effect hkeeps htcp hmac hop rfl habs
    case h_2 conn hpres =>
      rw [htcp] at hpres
      split
      case isTrue hrst =>
        exact .reset hop hpres hrst ⟨hkeeps.nextTcpId, hkeeps.guestMac⟩ (by simp only [htcp])
          (by simp [isQuiet])
      case isFalse hrst =>
        have hrst' := Bool.eq_false_iff.mpr hrst
        rw [if_pos (hv.synced _ _ hpres)]
        have haccepts : (conn.onAck tcp).accepts tcp = conn.accepts tcp := by
          rw [onAck]
          split <;> rfl
        have hsends : (conn.onAck tcp).payloadSends tcp = conn.payloadSends tcp := by
          rw [onAck]
          split <;> rfl
        obtain ⟨ident, out, ⟨he, hacc, -, hout⟩ | ⟨he, hout⟩⟩ :=
          { s with tcp := s.tcp.erase ⟨tcp.srcPort, ip.dstIp, tcp.dstPort⟩ }.handleSegment_cases
            conn tcp ⟨tcp.srcPort, ip.dstIp, tcp.dstPort⟩ hmac
        · rw [he]
          exact .aborted hop hpres hrst' (haccepts ▸ hacc) ⟨hkeeps.nextTcpId, hkeeps.guestMac⟩
            (by simp only [withIdent, htcp]) hout.quiet
        · rw [he]
          refine .segment hop hpres hrst' hassigned' ?_ ?_ (hsends ▸ hout)
          · split
            · exact ⟨hkeeps.nextTcpId, hkeeps.guestMac⟩
            · exact ⟨hkeeps.nextTcpId, hkeeps.guestMac⟩
          · rw [onSegment]
            split
            · simp only [withIdent, htcp]
            · simp only [htcp]

theorem onTcpProxyData_effect {s₀ : NetworkStack} (hv : s₀.Valid) (hkeeps : s₀.Keeps s)
    (htcp : s.tcp = s₀.tcp) (id : U32) (bytes : List U8) (nowMs : Millis) :
    s₀.CallEffect (.tcpEvent (.data id bytes) nowMs) (s.onTcpProxyData id bytes).1
      (s.onTcpProxyData id bytes).2 := by
  have hfind : s.findKey id = s₀.findKey id := by rw [findKey, htcp, findKey]
  have hidle (h : ∀ found, s₀.findKey id = some found →
      found.2.finSent = true ∨ found.2.synAcked = false) :
      s₀.CallEffect (.tcpEvent (.data id bytes) nowMs) s [] := by
    refine .idle hkeeps htcp (fun _ h => (not_mem_nil h).elim) (fun _ _ _ ho => ?_)
      (fun _ _ ho => ?_) ?_
    · cases ho
      exact h
    · rcases ho with ho | ho
      · cases ho
      · cases ho
    · exact fun _ _ _ ho => absurd rfl (isSegment_ne_tcpEvent ho _ _)
  rw [onTcpProxyData, hfind]
  cases hf : s₀.findKey id with
  | none =>
    have hnone := hidle fun found h => by rw [hf] at h; cases h
    cases s.guestMac with
    | none => exact hnone
    | some mac => exact hnone
  | some found =>
    obtain ⟨key, conn⟩ := found
    obtain ⟨hpres, -⟩ := mem_of_findKey hf
    have hmac := hkeeps.guestMac (hv.guestMac key conn hpres)
    obtain ⟨mac, hmac'⟩ := Option.isSome_iff_exists.mp hmac
    simp only [hmac', hv.synced key conn hpres, Bool.not_true]
    by_cases hdrop : conn.finSent = true ∨ conn.synAcked = false
    case pos =>
      rw [if_pos (by simpa using hdrop)]
      refine hidle fun found h => ?_
      rw [hf] at h
      cases h
      exact hdrop
    case neg =>
      rw [not_or] at hdrop
      rw [if_neg (by simpa using hdrop)]
      obtain ⟨ident, he⟩ := s.emitChunks_fst conn 0 bytes.length bytes
      refine .data hf (by simpa using hdrop.2) (by simpa using hdrop.1) ?_ ?_ ⟨s, hmac, rfl⟩
      · exact ⟨(congrArg nextTcpId he).trans hkeeps.nextTcpId,
          fun hm => (congrArg (·.guestMac.isSome) he).trans (hkeeps.guestMac hm)⟩
      · have ht : (s.emitChunks conn 0 bytes.length bytes).1.tcp = s₀.tcp :=
          (congrArg tcp he).trans htcp
        simp only [ht, onData, hv.synced key conn hpres]

theorem emitted_dropped {id : U32} (hf : s.findKey id = some (key, conn))
    (hop : op = .tcpEvent (.closed id) nowMs ∨ op = .tcpEvent (.error id) nowMs)
    (hkeeps : s.Keeps s') (htcp : s'.tcp = s.tcp.erase key) (he : r = (s'.withIdent ident, out))
    (hout : Confined out [] []) : s.CallEffect op r.1 r.2 := by
  subst he
  exact .dropped hf hop ⟨hkeeps.nextTcpId, hkeeps.guestMac⟩ htcp hout.quiet

theorem handleTcpProxyEvent_effect (hv : s.Valid) (event : TcpProxyEvent) (nowMs : Millis) :
    s.CallEffect (.tcpEvent event nowMs) (s.handleTcpProxyEvent event nowMs).1
      (s.handleTcpProxyEvent event nowMs).2 := by
  have hkeeps : s.Keeps (s.syncInternalNowMs nowMs).1 := ⟨rfl, id⟩
  have hfind id : (s.syncInternalNowMs nowMs).1.findKey id = s.findKey id := rfl
  have hidle (hdata : ∀ id bytes, event ≠ .data id bytes)
      (hclosing : ∀ id, event = .closed id ∨ event = .error id → s.findKey id = none) :
      s.CallEffect (.tcpEvent event nowMs) (s.syncInternalNowMs nowMs).1 [] := by
    refine .idle hkeeps rfl (fun _ h => (not_mem_nil h).elim) (fun id bytes now h => ?_)
      (fun id now h => ?_) ?_
    · cases h
      exact absurd rfl (hdata id bytes)
    · refine hclosing id ?_
      rcases h with h | h
      · cases h
        exact .inl rfl
      · cases h
        exact .inr rfl
    · exact fun _ _ _ ho => absurd rfl (isSegment_ne_tcpEvent ho _ _)
  unfold handleTcpProxyEvent
  cases event with
  | data connId bytes => exact onTcpProxyData_effect hv hkeeps rfl connId bytes nowMs
  | connected connId =>
    simp only [hfind]
    cases hf : s.findKey connId with
    | none => exact hidle (fun _ _ h => by cases h) (fun _ h => by rcases h with h | h <;> cases h)
    | some found =>
      obtain ⟨key, conn⟩ := found
      refine .connected hf ⟨rfl, id⟩ rfl ?_
      dsimp only
      generalize conn.bufferedToProxy = chunks
      induction chunks with
      | nil => exact .nil
      | cons chunk chunks ih => exact .send _ _ ih
  | closed connId =>
    simp only [hfind]
    cases hf : s.findKey connId with
    | none =>
      refine hidle (fun _ _ h => by cases h) fun id h => ?_
      rcases h with h | h
      · cases h
        exact hf
      · cases h
    | some found =>
      obtain ⟨key, conn⟩ := found
      obtain ⟨hpres, -⟩ := mem_of_findKey hf
      simp only [hv.synced key conn hpres, Bool.not_true, Bool.false_eq_true, if_false]
      have hmac := hv.guestMac key conn hpres
      split
      · obtain ⟨ident, out, he, hout⟩ := { (s.syncInternalNowMs nowMs).1 with
          tcp := s.tcp.erase key }.emitTcpRst_eq conn
        refine emitted_dropped hf (.inl rfl) ?_ ?_ he hout
        · exact ⟨rfl, id⟩
        · rfl
      · obtain ⟨ident, out, he, hout⟩ := { (s.syncInternalNowMs nowMs).1 with
          tcp := s.tcp.erase key }.emitTcpFin_eq conn hmac
        have he' : { (s.syncInternalNowMs nowMs).1 with
          tcp := (s.syncInternalNowMs nowMs).1.tcp.erase key }.emitTcpFin conn = _ := he
        simp only [he']
        refine .finished hf ?_ ?_ hout
        · split
          · exact ⟨rfl, id⟩
          · exact ⟨rfl, id⟩
        · split
          · rfl
          · rfl
  | error connId =>
    simp only [hfind]
    cases hf : s.findKey connId with
    | none =>
      refine hidle (fun _ _ h => by cases h) fun id h => ?_
      rcases h with h | h
      · cases h
      · cases h
        exact hf
    | some found =>
      obtain ⟨key, conn⟩ := found
      obtain ⟨hpres, -⟩ := mem_of_findKey hf
      simp only [hv.synced key conn hpres]
      obtain ⟨ident, out, he, hout⟩ := { (s.syncInternalNowMs nowMs).1 with
        tcp := s.tcp.erase key }.emitTcpRst_eq conn
      refine emitted_dropped hf (.inr rfl) ?_ ?_ he hout
      · exact ⟨rfl, id⟩
      · rfl

theorem call_effect (hv : s.Valid) (op : StackOp) : s.CallEffect op (s.call op).1 (s.call op).2 := by
  cases op with
  | tcpEvent event nowMs => exact handleTcpProxyEvent_effect hv event nowMs
  | setNetworkEnabled enabled =>
    have hidle : s.Idle (s.setNetworkEnabled enabled, []) := Idle.nil.trans ⟨rfl, id⟩ rfl
    exact hidle.effect (fun _ _ h => by cases h) (fun _ _ _ h => by cases h)
  | udpEvent event nowMs =>
    exact (handleUdpProxyEvent_idle event nowMs).effect (fun _ _ h => by cases h)
      (fun _ _ _ h => by cases h)
  | dnsResolved resolved nowMs =>
    exact (handleDnsResolved_idle resolved nowMs).effect (fun _ _ h => by cases h)
      (fun _ _ _ h => by cases h)
  | frame frame nowMs =>
    have hdata frame event now :
        StackOp.frame frame nowMs ≠ .tcpEvent event now := fun h => by cases h
    cases frame with
    | none =>
      have hsync : s.Keeps (s.syncInternalNowMs nowMs).1 := ⟨rfl, id⟩
      exact (Idle.nil.trans hsync rfl).effect (hdata _) (fun _ _ _ h => by cases h)
    | some eth =>
      obtain ⟨mac, payload⟩ := eth
      have hmac : s.Keeps { (s.syncInternalNowMs nowMs).1 with
          guestMac := s.guestMac.or (some mac) } := ⟨rfl, fun _ => by simp⟩
      cases payload with
      | other => exact (Idle.nil.trans hmac rfl).effect (hdata _) (fun _ _ _ h => by cases h)
      | arp arp =>
        exact ((handleArp_idle arp).trans hmac rfl).effect (hdata _) (fun _ _ _ h => by cases h)
      | ipv4 ip =>
        obtain ⟨srcIp, dstIp, payload⟩ := ip
        cases payload with
        | other => exact (Idle.nil.trans hmac rfl).effect (hdata _) (fun _ _ _ h => by cases h)
        | udp udp =>
          exact ((handleUdp_idle _ udp _).trans hmac rfl).effect (hdata _)
            (fun _ _ _ h => by cases h)
        | icmp echo =>
          exact ((handleIcmp_idle _ echo).trans hmac rfl).effect (hdata _)
            (fun _ _ _ h => by cases h)
        | tcp tcp =>
          exact handleTcp_effect ⟨srcIp, dstIp, .tcp tcp⟩ hv hmac rfl rfl (by simp) .mk

end Effect

end NetworkStack

namespace TcpConn

structure Same (conn conn' : TcpConn) : Prop where
  id : conn'.id = conn.id
  key : (⟨conn'.guestPort, conn'.remoteIp, conn'.remotePort⟩ : TcpKey) =
    ⟨conn.guestPort, conn.remoteIp, conn.remotePort⟩
  guestIsn : conn'.guestIsn = conn.guestIsn
  ourIsn : conn'.ourIsn = conn.ourIsn
  seqSynced : conn'.seqSynced = conn.seqSynced

theorem Same.refl (conn : TcpConn) : conn.Same conn :=
  ⟨rfl, rfl, rfl, rfl, rfl⟩

theorem Same.trans {c₁ c₂ c₃ : TcpConn} (h : c₁.Same c₂) (h' : c₂.Same c₃) : c₁.Same c₃ :=
  ⟨h'.id.trans h.id, h'.key.trans h.key, h'.guestIsn.trans h.guestIsn, h'.ourIsn.trans h.ourIsn,
    h'.seqSynced.trans h.seqSynced⟩

variable (conn : TcpConn) (tcp : TcpSegment)

theorem onAck_same : conn.Same (conn.onAck tcp) := by
  rw [onAck]
  split
  · exact ⟨rfl, rfl, rfl, rfl, rfl⟩
  · exact .refl conn

theorem onPayload_same : conn.Same (conn.onPayload tcp) := by
  rw [onPayload]
  split
  · rw [take]
    split
    · exact ⟨rfl, rfl, rfl, rfl, rfl⟩
    · exact ⟨rfl, rfl, rfl, rfl, rfl⟩
  · exact .refl conn

theorem onFinSent_same : conn.Same conn.onFinSent := by
  rw [onFinSent]
  split
  · exact .refl conn
  · exact ⟨rfl, rfl, rfl, rfl, rfl⟩

theorem onFin_same : conn.Same (conn.onFin tcp) := by
  rw [onFin]
  split
  · refine Same.trans ?_ (onFinSent_same _)
    rw [onGuestFin]
    split
    · exact ⟨rfl, rfl, rfl, rfl, rfl⟩
    · exact .refl conn
  · exact .refl conn

theorem onSegment_same : conn.Same (conn.onSegment tcp) :=
  (onAck_same ..).trans ((onPayload_same ..).trans (onFin_same ..))

theorem connect_same : conn.Same conn.connect :=
  ⟨rfl, rfl, rfl, rfl, rfl⟩

theorem onData_same (bytes : List U8) : conn.Same (conn.onData bytes) :=
  ⟨rfl, rfl, rfl, rfl, rfl⟩

end TcpConn

namespace NetworkStack

variable {s s' : NetworkStack}

theorem lookup_of_insert {m : AList fun _ : TcpKey => TcpConn}
    (h : (m.insert key conn).lookup key' = some conn') :
    (key' = key ∧ conn' = conn) ∨ (key' ≠ key ∧ m.lookup key' = some conn') := by
  by_cases hk : key' = key
  case pos =>
    subst hk
    rw [lookup_insert, Option.some.injEq] at h
    exact .inl ⟨rfl, h.symm⟩
  case neg =>
    rw [lookup_insert_ne hk] at h
    exact .inr ⟨hk, h⟩

theorem lookup_of_erase {m : AList fun _ : TcpKey => TcpConn}
    (h : (m.erase key).lookup key' = some conn') : key' ≠ key ∧ m.lookup key' = some conn' := by
  by_cases hk : key' = key
  case pos =>
    subst hk
    rw [lookup_erase] at h
    cases h
  case neg =>
    rw [lookup_erase_ne hk] at h
    exact ⟨hk, h⟩

theorem lookup_of_replace {m : AList fun _ : TcpKey => TcpConn} {remove : Bool}
    (h : (if remove then m.erase key else (m.erase key).insert key conn).lookup key' =
      some conn') : (key' = key ∧ conn' = conn) ∨ (key' ≠ key ∧ m.lookup key' = some conn') := by
  split at h
  · exact .inr (lookup_of_erase h)
  · rcases lookup_of_insert h with heq | ⟨hne, hl⟩
    · exact .inl heq
    · exact .inr ⟨hne, (lookup_of_erase hl).2⟩

theorem CallEffect.origin (h : s.CallEffect op s' out) (hl : s'.tcp.lookup key' = some conn') :
    (∃ conn, s.tcp.lookup key' = some conn ∧ conn.Same conn') ∨
      (s'.nextTcpId = s.nextTcpId + 1 ∧ s'.guestMac.isSome = true ∧
        ∃ tcp ourIsn, op.IsSegment key' tcp ∧
          conn' = .fresh s.nextTcpId key' tcp.seqNumber ourIsn) := by
  -- a table in which one connection was changed or removed
  have hinsert {key : TcpKey} {conn c : TcpConn} (hpres : s.tcp.lookup key = some conn)
      (hsame : conn.Same c) {m : AList fun _ : TcpKey => TcpConn}
      (hm : ∀ conn', m.lookup key' = some conn' → s.tcp.lookup key' = some conn')
      (h : (m.insert key c).lookup key' = some conn') :
      ∃ conn, s.tcp.lookup key' = some conn ∧ conn.Same conn' := by
    rcases lookup_of_insert h with ⟨rfl, rfl⟩ | ⟨-, hl⟩
    · exact ⟨conn, hpres, hsame⟩
    · exact ⟨conn', hm _ hl, .refl _⟩
  have herase {key : TcpKey} {conn' : TcpConn} (h : (s.tcp.erase key).lookup key' = some conn') :
      s.tcp.lookup key' = some conn' := (lookup_of_erase h).2
  cases h with
  | idle keeps tcp =>
    rw [tcp] at hl
    exact .inl ⟨conn', hl, .refl _⟩
  | opened isSegment absent nextTcpId guestMac table =>
    rw [table] at hl
    rcases lookup_of_insert hl with ⟨rfl, rfl⟩ | ⟨-, hl⟩
    · exact .inr ⟨nextTcpId, guestMac, _, _, isSegment, rfl⟩
    · exact .inl ⟨conn', hl, .refl _⟩
  | reset isSegment present rst keeps table =>
    rw [table] at hl
    exact .inl ⟨conn', herase hl, .refl _⟩
  | aborted isSegment present rst accepts keeps table =>
    rw [table] at hl
    exact .inl ⟨conn', herase hl, .refl _⟩
  | dropped found op_eq keeps table =>
    rw [table] at hl
    exact .inl ⟨conn', herase hl, .refl _⟩
  | segment isSegment present rst assigned keeps table =>
    rw [table] at hl
    split at hl
    · exact .inl ⟨conn', herase hl, .refl _⟩
    · exact .inl (hinsert present (onSegment_same ..) (fun _ => herase) hl)
  | connected found keeps table =>
    rw [table] at hl
    exact .inl (hinsert (mem_of_findKey found).1 (connect_same _) (fun _ => id) hl)
  | finished found keeps table =>
    rw [table] at hl
    split at hl
    · exact .inl ⟨conn', herase hl, .refl _⟩
    · exact .inl (hinsert (mem_of_findKey found).1 (onFinSent_same _) (fun _ => herase) hl)
  | data found synAcked finSent keeps table =>
    rw [table] at hl
    exact .inl (hinsert (mem_of_findKey found).1 (onData_same ..) (fun _ => id) hl)

theorem CallEffect.connects (h : s.CallEffect op s' out) :
    (s'.nextTcpId = s.nextTcpId ∧ connects out = 0) ∨
      (s'.nextTcpId = s.nextTcpId + 1 ∧ connects out = 1) := by
  cases h with
  | idle keeps tcp quiet => exact .inl ⟨keeps.nextTcpId, connects_of_quiet quiet⟩
  | opened isSegment absent nextTcpId guestMac table quiet =>
    refine .inr ⟨nextTcpId, ?_⟩
    rw [Net.connects, countP_cons_of_pos rfl]
    exact congrArg (· + 1) (connects_of_quiet quiet)
  | reset isSegment present rst keeps table quiet =>
    exact .inl ⟨keeps.nextTcpId, connects_of_quiet quiet⟩
  | aborted isSegment present rst accepts keeps table quiet =>
    exact .inl ⟨keeps.nextTcpId, connects_of_quiet quiet⟩
  | segment isSegment present rst assigned keeps table confined =>
    exact .inl ⟨keeps.nextTcpId, confined.connects_eq⟩
  | connected found keeps table confined => exact .inl ⟨keeps.nextTcpId, confined.connects_eq⟩
  | finished found keeps table confined => exact .inl ⟨keeps.nextTcpId, confined.connects_eq⟩
  | dropped found op_eq keeps table quiet =>
    exact .inl ⟨keeps.nextTcpId, connects_of_quiet quiet⟩
  | data found synAcked finSent keeps table chunks =>
    obtain ⟨s₀, -, rfl⟩ := chunks
    exact .inl ⟨keeps.nextTcpId, emitChunks_connects ..⟩

theorem CallEffect.guestMac (h : s.CallEffect op s' out) (hmac : s.guestMac.isSome = true) :
    s'.guestMac.isSome = true := by
  cases h with
  | opened isSegment absent nextTcpId guestMac => exact guestMac
  | _ => exact Keeps.guestMac ‹_› hmac

-- The counter does not wrap as long as there are identifiers left.
theorem CallEffect.nextTcpId (h : s.CallEffect op s' out)
    (hroom : s.nextTcpId.toNat + Net.connects out < 2 ^ 32) :
    s'.nextTcpId.toNat = s.nextTcpId.toNat + Net.connects out := by
  obtain ⟨hnext, hzero⟩ | ⟨hnext, hone⟩ := h.connects
  · rw [hnext, hzero, Nat.add_zero]
  · rw [hone] at hroom ⊢
    rw [hnext, BitVec.toNat_add]
    exact Nat.mod_eq_of_lt hroom

theorem Valid.effect (hv : s.Valid) (h : s.CallEffect op s' out)
    (hroom : s.nextTcpId.toNat + connects out < 2 ^ 32) : s'.Valid := by
  have hid := h.nextTcpId hroom
  refine ⟨?synced, ?keyed, ?ids_lt, ?ids_inj, ?guestMac⟩
  case synced =>
    intro key conn' hl
    rcases h.origin hl with ⟨conn, hl₀, hsame⟩ | ⟨-, -, _, _, -, rfl⟩
    · exact hsame.seqSynced.trans (hv.synced key conn hl₀)
    · rfl
  case keyed =>
    intro key conn' hl
    rcases h.origin hl with ⟨conn, hl₀, hsame⟩ | ⟨-, -, _, _, -, rfl⟩
    · exact hsame.key.trans (hv.keyed key conn hl₀)
    · rfl
  case ids_lt =>
    intro key conn' hl
    rcases h.origin hl with ⟨conn, hl₀, hsame⟩ | ⟨hnext, -, _, _, -, rfl⟩
    · have := hv.ids_lt key conn hl₀
      rw [hsame.id]
      bv_omega
    · obtain ⟨hsame, -⟩ | ⟨-, hone⟩ := h.connects
      · rw [hsame] at hnext
        bv_omega
      · rw [hone] at hid
        exact BitVec.lt_def.mpr (hid ▸ Nat.lt_succ_self _)
  case ids_inj =>
    -- an old connection never has the identifier of a new one
    have hold {key₁ key₂ : TcpKey} {c conn₁ : TcpConn} {seq isn : U32}
        (h₁ : s.tcp.lookup key₁ = some c) (hs₁ : c.Same conn₁)
        (heq : conn₁.id = (fresh s.nextTcpId key₂ seq isn).id) : False := by
      have hlt := hv.ids_lt _ _ h₁
      rw [hs₁.id] at heq
      rw [heq] at hlt
      exact BitVec.lt_irrefl _ hlt
    intro key₁ conn₁ key₂ conn₂ hl₁ hl₂ heq
    rcases h.origin hl₁ with ⟨c₁, h₁, hs₁⟩ | ⟨-, -, _, _, hseg₁, rfl⟩
    · rcases h.origin hl₂ with ⟨c₂, h₂, hs₂⟩ | ⟨-, -, _, _, -, rfl⟩
      · exact hv.ids_inj _ _ _ _ h₁ h₂ (by rw [← hs₁.id, ← hs₂.id, heq])
      · exact (hold h₁ hs₁ heq).elim
    · rcases h.origin hl₂ with ⟨c₂, h₂, hs₂⟩ | ⟨-, -, _, _, hseg₂, rfl⟩
      · exact (hold h₂ hs₂ heq.symm).elim
      · exact (isSegment_unique hseg₂ hseg₁).1
  case guestMac =>
    intro key conn' hl
    rcases h.origin hl with ⟨conn, hl₀, -⟩ | ⟨-, hmac', -⟩
    · exact h.guestMac (hv.guestMac key conn hl₀)
    · exact hmac'

theorem new_valid (cfg : StackConfig) : (new cfg).Valid := by
  have hnone key conn : (new cfg).tcp.lookup key ≠ some conn :=
    fun h => by cases h
  exact ⟨fun _ _ h => absurd h (hnone _ _), fun _ _ h => absurd h (hnone _ _),
    fun _ _ h => absurd h (hnone _ _), fun _ _ _ _ h => absurd h (hnone _ _),
    fun _ _ h => absurd h (hnone _ _)⟩

-- The state after so many connections were opened.
structure Opened (n : Nat) (s : NetworkStack) : Prop extends s.Valid where
  count : s.nextTcpId.toNat = 1 + n

theorem Opened.effect (h : s.Opened n) (heff : s.CallEffect op s' out)
    (hroom : n + connects out < 2 ^ 32 - 1) :
    s'.Opened (n + connects out) ∧ s.nextTcpId ≤ s'.nextTcpId := by
  have hcount := h.count
  have hroom : s.nextTcpId.toNat + connects out < 2 ^ 32 := by omega
  have hnext := heff.nextTcpId hroom
  exact ⟨⟨h.toValid.effect heff hroom, by omega⟩, BitVec.le_def.mpr (by omega)⟩

theorem new_opened (cfg : StackConfig) : (new cfg).Opened 0 :=
  ⟨new_valid cfg, rfl⟩

theorem Opened.always (h : s.Opened n) (hroom : n + ops.length < 2 ^ 32 - 1) :
    Runs.Always step Valid s ops := by
  induction ops generalizing s n
  case nil => exact h.toValid
  case cons op ops ih =>
    rw [length_cons] at hroom
    have heff := call_effect h.toValid op
    have hone : connects (s.call op).2 ≤ 1 := by
      obtain h | h := heff.connects <;> omega
    exact ⟨h.toValid, ih (h.effect heff (by omega)).1 (by omega)⟩

theorem connections_found_by_id (cfg : StackConfig) (ops : List StackOp)
    (h : ops.length < 2 ^ 32 - 1) :
    Runs.Always step (fun s => ∀ key conn, s.tcp.lookup key = some conn →
      s.findKey conn.id = some (key, conn) ∧ conn.id < s.nextTcpId) (new cfg) ops := by
  refine ((new_opened cfg).always (by omega)).mono fun s hv key conn hl =>
    ⟨?_, hv.ids_lt key conn hl⟩
  obtain ⟨key', conn', hfound⟩ := findKey_of_lookup hl
  obtain ⟨hl', hid⟩ := mem_of_findKey hfound
  obtain rfl := hv.ids_inj _ _ _ _ hl hl' hid.symm
  rw [hfound, Option.some.inj (hl.symm.trans hl')]

theorem connections_found_by_id_first :
    let s := [exampleDhcp, exampleSegment 100 0 TcpFlags.syn []].foldl step (new exampleConfig)
    (s.tcp.lookup ⟨40000, 0x5db8d822, 80⟩).isSome = true ∧
      ∀ key conn, s.tcp.lookup key = some conn →
        s.findKey conn.id = some (key, conn) ∧ conn.id < s.nextTcpId :=
  ⟨by decide +kernel, (connections_found_by_id exampleConfig _ (by decide)).last⟩

end NetworkStack

end Aero.Net
