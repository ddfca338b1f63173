import Aero.Net.Packet
import Mathlib.Data.List.AList

namespace Aero.Net

abbrev Millis := Nat

structure StackConfig where
  ourMac : MacAddr
  gatewayIp : Ipv4Addr
  guestIp : Ipv4Addr
  netmask : Ipv4Addr
  dnsIp : Ipv4Addr
  dhcpLeaseTimeSecs : U32
  webrtcUdp : Bool
  hostPolicy : HostPolicy
  maxTcpConnections : Nat
  maxBufferedTcpBytesPerConn : Nat
  maxDnsCacheEntries : Nat
  maxPendingDns : Nat
  deriving DecidableEq, Repr

inductive UdpTransport
  | webRtc
  | proxy
  deriving DecidableEq, Repr

inductive Action
  | emitFrame (frame : OutFrame)
  | tcpProxyConnect (connectionId : U32) (remoteIp : Ipv4Addr) (remotePort : U16)
  | tcpProxySend (connectionId : U32) (data : List U8)
  | tcpProxyClose (connectionId : U32)
  | udpProxySend (transport : UdpTransport) (srcPort : U16) (dstIp : Ipv4Addr) (dstPort : U16)
      (data : List U8)
  | dnsResolve (requestId : U32) (name : Name)
  deriving DecidableEq, Repr

inductive TcpProxyEvent
  | connected (connectionId : U32)
  | data (connectionId : U32) (data : List U8)
  | closed (connectionId : U32)
  | error (connectionId : U32)
  deriving DecidableEq, Repr

structure UdpProxyEvent where
  srcIp : Ipv4Addr
  srcPort : U16
  dstPort : U16
  data : List U8
  deriving DecidableEq, Repr

structure DnsResolved where
  requestId : U32
  addr : Option Ipv4Addr
  ttlSecs : Nat
  deriving DecidableEq, Repr

structure TcpKey where
  guestPort : U16
  remoteIp : Ipv4Addr
  remotePort : U16
  deriving DecidableEq, Repr

structure TcpConn where
  id : U32
  guestPort : U16
  remoteIp : Ipv4Addr
  remotePort : U16
  guestIsn : U32
  guestNextSeq : U32
  ourIsn : U32
  ourNextSeq : U32
  synAcked : Bool
  finSent : Bool
  finSeq : U32
  finAcked : Bool
  guestFinReceived : Bool
  proxyConnected : Bool
  proxyReconnecting : Bool
  seqSynced : Bool
  bufferedToProxy : List (List U8)
  bufferedToProxyBytes : Nat
  deriving DecidableEq, Repr

def seqAfter (a b : U32) : Bool :=
  a - b != 0 && (a - b).toNat < 0x80000000

namespace TcpConn

def onGuestAck (self : TcpConn) (ack : U32) : TcpConn :=
  { self with
    synAcked := self.synAcked || seqAfter ack self.ourIsn
    finAcked := self.finAcked || (self.finSent && seqAfter ack self.finSeq) }

def shouldRemove (self : TcpConn) : Bool :=
  self.guestFinReceived && self.finSent && self.finAcked

end TcpConn

structure PendingDns where
  txid : U16
  srcPort : U16
  name : Name
  qname : List U8
  qtype : U16
  qclass : U16
  rd : Bool
  deriving DecidableEq, Repr

structure DnsCacheEntry where
  addr : Ipv4Addr
  expiresAtMs : Millis
  deriving DecidableEq, Repr

structure NetworkStack where
  cfg : StackConfig
  guestMac : Option MacAddr
  ipAssigned : Bool
  nextTcpId : U32
  nextDnsId : U32
  ipv4Ident : U16
  timeOffsetMs : Int
  restoreTimeAnchorMs : Option Millis
  lastNowMs : Millis
  tcp : AList fun _ : TcpKey => TcpConn
  pendingDns : AList fun _ : U32 => PendingDns
  dnsCache : AList fun _ : Name => DnsCacheEntry
  dnsCacheFifo : List Name

namespace NetworkStack

def new (cfg : StackConfig) : NetworkStack where
  cfg := cfg
  guestMac := none
  ipAssigned := false
  nextTcpId := 1
  nextDnsId := 1
  ipv4Ident := 1
  timeOffsetMs := 0
  restoreTimeAnchorMs := none
  lastNowMs := 0
  tcp := ∅
  pendingDns := ∅
  dnsCache := ∅
  dnsCacheFifo := []

def setNetworkEnabled (self : NetworkStack) (enabled : Bool) : NetworkStack :=
  { self with cfg.hostPolicy.enabled := enabled }

def syncInternalNowMs (self : NetworkStack) (nowMs : Millis) : NetworkStack × Millis :=
  let timeOffsetMs :=
    match self.restoreTimeAnchorMs with
    | some anchor => max (-2 ^ 63) (min ((anchor : Int) - nowMs) (2 ^ 63 - 1))
    | none => self.timeOffsetMs
  let internal := min ((nowMs : Int) + timeOffsetMs).toNat (2 ^ 64 - 1)
  ({ self with
      restoreTimeAnchorMs := none
      timeOffsetMs := timeOffsetMs
      lastNowMs := internal }, internal)

def nextIpv4Ident (self : NetworkStack) : NetworkStack × U16 :=
  ({ self with ipv4Ident := self.ipv4Ident + 1 }, self.ipv4Ident)

def allocateIsn (self : NetworkStack) : U32 :=
  self.nextTcpId * 1000000 + self.ipv4Ident.setWidth 32

def tcpBufferWouldExceedLimit (self : NetworkStack) (conn : TcpConn) (newBytes : Nat) : Bool :=
  if self.cfg.maxBufferedTcpBytesPerConn = 0 then 0 < newBytes
  else self.cfg.maxBufferedTcpBytesPerConn < conn.bufferedToProxyBytes + newBytes

section Emit

def emitIpv4 (self : NetworkStack) (payload : U16 → OutPayload) : NetworkStack × List Action :=
  match self.guestMac with
  | none => (self, [])
  | some guestMac =>
    let (self, identification) := self.nextIpv4Ident
    (self, [.emitFrame ⟨guestMac, self.cfg.ourMac, payload identification⟩])

def emitTcpSynAck (self : NetworkStack) (conn : TcpConn) : NetworkStack × List Action :=
  self.emitIpv4 fun ident => .tcp ident conn.remoteIp self.cfg.guestIp
    (.synAck conn.remotePort conn.guestPort conn.ourIsn conn.guestNextSeq 65535)

def emitTcpAck (self : NetworkStack) (conn : TcpConn) : NetworkStack × List Action :=
  self.emitIpv4 fun ident => .tcp ident conn.remoteIp self.cfg.guestIp
    (.ack conn.remotePort conn.guestPort conn.ourNextSeq conn.guestNextSeq 65535)

def emitTcpRst (self : NetworkStack) (conn : TcpConn) : NetworkStack × List Action :=
  self.emitIpv4 fun ident => .tcp ident conn.remoteIp self.cfg.guestIp
    (.rst conn.remotePort conn.guestPort conn.ourNextSeq conn.guestNextSeq 0)

def emitTcpRstForSyn (self : NetworkStack) (guestIp : Ipv4Addr) (guestPort : U16)
    (remoteIp : Ipv4Addr) (remotePort : U16) (guestSeq : U32) : NetworkStack × List Action :=
  self.emitIpv4 fun ident => .tcp ident remoteIp guestIp
    (.rst remotePort guestPort 0 (guestSeq + 1) 0)

-- The sequence number moves past the FIN when it was built.
def emitTcpFin (self : NetworkStack) (conn : TcpConn) :
    NetworkStack × TcpConn × List Action :=
  if conn.finSent then (self, conn, [])
  else
    let finSeq := conn.ourNextSeq
    let conn := { conn with finSent := true, finSeq := finSeq }
    match self.guestMac with
    | none => (self, conn, [])
    | some _ =>
      let (self, out) := self.emitIpv4 fun ident => .tcp ident conn.remoteIp self.cfg.guestIp
        (.finAck conn.remotePort conn.guestPort conn.finSeq conn.guestNextSeq 65535)
      (self, { conn with ourNextSeq := conn.ourNextSeq + 1 }, out)

def emitDns (self : NetworkStack) (dstPort : U16) (response : DnsResponse) :
    NetworkStack × List Action :=
  self.emitIpv4 fun ident => .udp ident self.cfg.dnsIp self.cfg.guestIp 53 dstPort (.dns response)

def emitDnsError (self : NetworkStack) (query : DnsQuery) (dstPort : U16)
    (rcode : DnsResponseCode) : NetworkStack × List Action :=
  self.emitDns dstPort
    ⟨query.id, query.recursionDesired, rcode, query.qname, query.qtype, query.qclass, none, 0⟩

end Emit

section Dns

def evictDnsCache (max : Nat) (cache : AList fun _ : Name => DnsCacheEntry) :
    List Name → (AList fun _ : Name => DnsCacheEntry) × List Name
  | []           => (cache, [])
  | name :: fifo =>
    if max < cache.entries.length then evictDnsCache max (cache.erase name) fifo
    else (cache, name :: fifo)

def insertDnsCache (self : NetworkStack) (name : Name) (entry : DnsCacheEntry) : NetworkStack :=
  let max := self.cfg.maxDnsCacheEntries
  if max = 0 then self
  else
    let fifo := if name ∈ self.dnsCache then self.dnsCacheFifo else self.dnsCacheFifo ++ [name]
    let (cache, fifo) := evictDnsCache max (self.dnsCache.insert name entry) fifo
    { self with dnsCache := cache, dnsCacheFifo := fifo.drop (fifo.length - max) }

def startDns (self : NetworkStack) (query : DnsQuery) (srcPort : U16) (name : Name) :
    NetworkStack × List Action :=
  if self.cfg.maxPendingDns = 0 ∨ self.cfg.maxPendingDns ≤ self.pendingDns.entries.length then
    self.emitDnsError query srcPort .serverFailure
  else
    let requestId := self.nextDnsId
    let pending : PendingDns :=
      ⟨query.id, srcPort, name, query.qname, query.qtype, query.qclass, query.recursionDesired⟩
    ({ self with
        nextDnsId := self.nextDnsId + 1
        pendingDns := self.pendingDns.insert requestId pending },
      [.dnsResolve requestId name])

def handleDnsQuery (self : NetworkStack) (udp : UdpPacket) (nowMs : Millis) :
    NetworkStack × List Action :=
  match udp.query with
  | none => (self, [])
  | some query =>
    match query.name with
    | none => (self, [])
    | some name =>
      let name := Name.makeAsciiLowercase (Name.trimEndMatches (· == '.') name)
      if !self.cfg.hostPolicy.enabled || !self.cfg.hostPolicy.allowsDomain name then
        self.emitDnsError query udp.srcPort .nameError
      else if query.qtype ≠ 1 ∨ query.qclass ≠ 1 then
        self.emitDnsError query udp.srcPort .notImplemented
      else
        match self.dnsCache.lookup name with
        | some entry =>
          if nowMs < entry.expiresAtMs then
            if !self.cfg.hostPolicy.allowsIp entry.addr then
              self.emitDnsError query udp.srcPort .nameError
            else
              self.emitDns udp.srcPort
                ⟨query.id, query.recursionDesired, .noError, query.qname, query.qtype,
                  query.qclass, some entry.addr,
                  min ((entry.expiresAtMs - nowMs) / 1000) (2 ^ 32 - 1)⟩
          else
            self.startDns query udp.srcPort name
        | none => self.startDns query udp.srcPort name

def handleDnsResolved (self : NetworkStack) (resolved : DnsResolved) (nowMs : Millis) :
    NetworkStack × List Action :=
  let (self, nowMs) := self.syncInternalNowMs nowMs
  match self.pendingDns.lookup resolved.requestId with
  | none => (self, [])
  | some pending =>
    let self := { self with pendingDns := self.pendingDns.erase resolved.requestId }
    match self.guestMac with
    | none => (self, [])
    | some _ =>
      match resolved.addr.filter self.cfg.hostPolicy.allowsIp with
      | some addr =>
        let expiresAtMs := min (nowMs + resolved.ttlSecs * 1000) (2 ^ 64 - 1)
        let self := self.insertDnsCache pending.name ⟨addr, expiresAtMs⟩
        self.emitDns pending.srcPort
          ⟨pending.txid, pending.rd, .noError, pending.qname, pending.qtype, pending.qclass,
            some addr, resolved.ttlSecs⟩
      | none =>
        self.emitDns pending.srcPort
          ⟨pending.txid, pending.rd, .nameError, pending.qname, pending.qtype, pending.qclass,
            none, resolved.ttlSecs⟩

end Dns

def handleUdpProxyEvent (self : NetworkStack) (event : UdpProxyEvent) (nowMs : Millis) :
    NetworkStack × List Action :=
  let (self, _) := self.syncInternalNowMs nowMs
  match self.guestMac with
  | none => (self, [])
  | some _ =>
    if !self.ipAssigned then
      (self, [])
    -- a datagram that is too long for UDP
    else if 65535 < 8 + event.data.length then (self, [])
    else
      let (next, out) := self.emitIpv4 fun ident =>
        .udp ident event.srcIp self.cfg.guestIp event.srcPort event.dstPort (.data event.data)
      -- the identification is used up before the length of the packet is checked
      (next, if 65535 < 20 + (8 + event.data.length) then [] else out)

def cacheGuestMac (self : NetworkStack) (senderHw : MacAddr) (senderIp : Ipv4Addr) :
    NetworkStack :=
  if senderIp ≠ Ipv4Addr.unspecified ∧ self.ipAssigned ∧ senderIp = self.cfg.guestIp then
    { self with guestMac := some senderHw }
  else
    self

def handleArp (self : NetworkStack) (arp : ArpPacket) : NetworkStack × List Action :=
  if arp.htype ≠ htypeEthernet ∨ arp.ptype ≠ ptypeIpv4 ∨ arp.hlen ≠ 6 ∨ arp.plen ≠ 4 then
    (self, [])
  else
    match arp.senderMac, arp.senderIp, arp.targetIp with
    | some senderHw, some senderIp, some targetIp =>
      let self := self.cacheGuestMac senderHw senderIp
      if arp.opcode ≠ arpOpRequest then (self, [])
      else if targetIp ≠ self.cfg.gatewayIp ∧ targetIp ≠ self.cfg.dnsIp then (self, [])
      else
        (self, [.emitFrame ⟨senderHw, self.cfg.ourMac,
          .arpReply self.cfg.ourMac targetIp senderHw senderIp⟩])
    | _, _, _ => (self, [])

def assignIp (self : NetworkStack) (guestMac : MacAddr) : NetworkStack :=
  { self with ipAssigned := true, guestMac := some guestMac }

def handleDhcp (self : NetworkStack) (udp : UdpPacket) : NetworkStack × List Action :=
  match udp.dhcp with
  | none => (self, [])
  | some msg =>
    -- the type of the reply, and whether the address is now in use
    let reply : Option (DhcpMessageType × Bool) :=
      match msg.messageType with
      | .discover => some (.offer, false)
      | .request => some (.ack, true)
      | _ => none
    match reply with
    | none => (self, [])
    | some (replyType, markAssigned) =>
      let content := UdpContent.dhcp
        ⟨replyType, msg.transactionId, msg.flags, msg.clientMac, self.cfg.guestIp,
          self.cfg.gatewayIp, self.cfg.netmask, self.cfg.gatewayIp, [self.cfg.dnsIp],
          self.cfg.dhcpLeaseTimeSecs⟩
      let self := if markAssigned then self.assignIp msg.clientMac else self
      let (self, identification) := self.nextIpv4Ident
      let broadcast := Action.emitFrame ⟨MacAddr.broadcast, self.cfg.ourMac,
        .udp identification self.cfg.gatewayIp Ipv4Addr.broadcast 67 68 content⟩
      if msg.clientMac ≠ MacAddr.broadcast then
        let (self, identification) := self.nextIpv4Ident
        (self, [broadcast, .emitFrame ⟨msg.clientMac, self.cfg.ourMac,
          .udp identification self.cfg.gatewayIp self.cfg.guestIp 67 68 content⟩])
      else
        (self, [broadcast])

def handleIcmp (self : NetworkStack) (ip : Ipv4Packet) (echo : Option IcmpEcho) :
    NetworkStack × List Action :=
  if !self.ipAssigned then (self, [])
  else if ip.dstIp ≠ self.cfg.gatewayIp then (self, [])
  else
    match echo with
    | none => (self, [])
    | some echo =>
      if echo.icmpType ≠ 8 then (self, [])
      else
        self.emitIpv4 fun ident => .icmpEchoReply ident self.cfg.gatewayIp self.cfg.guestIp
          echo.identifier echo.sequence echo.payload

def handleUdp (self : NetworkStack) (ip : Ipv4Packet) (udp : UdpPacket) (nowMs : Millis) :
    NetworkStack × List Action :=
  if udp.srcPort = 68 ∧ udp.dstPort = 67 then self.handleDhcp udp
  else if udp.dstPort = 53 ∧ ip.dstIp = self.cfg.dnsIp then self.handleDnsQuery udp nowMs
  else if !self.ipAssigned then (self, [])
  else if !self.cfg.hostPolicy.enabled || !self.cfg.hostPolicy.allowsIp ip.dstIp then (self, [])
  else
    let transport := if self.cfg.webrtcUdp then UdpTransport.webRtc else UdpTransport.proxy
    (self, [.udpProxySend transport udp.srcPort ip.dstIp udp.dstPort udp.payload])

section Tcp

def newConn (self : NetworkStack) (ip : Ipv4Packet) (tcp : TcpSegment) : TcpConn where
  id := self.nextTcpId
  guestPort := tcp.srcPort
  remoteIp := ip.dstIp
  remotePort := tcp.dstPort
  guestIsn := tcp.seqNumber
  guestNextSeq := tcp.seqNumber + 1
  ourIsn := self.allocateIsn
  ourNextSeq := self.allocateIsn + 1
  synAcked := false
  finSent := false
  finSeq := 0
  finAcked := false
  guestFinReceived := false
  proxyConnected := false
  proxyReconnecting := false
  seqSynced := true
  bufferedToProxy := []
  bufferedToProxyBytes := 0

def openConn (self : NetworkStack) (key : TcpKey) (ip : Ipv4Packet) (tcp : TcpSegment) :
    NetworkStack × List Action :=
  if !self.cfg.hostPolicy.enabled || !self.cfg.hostPolicy.allowsIp ip.dstIp then
    self.emitTcpRstForSyn ip.srcIp tcp.srcPort ip.dstIp tcp.dstPort tcp.seqNumber
  else if self.cfg.maxTcpConnections = 0 ∨
      self.cfg.maxTcpConnections ≤ self.tcp.entries.length then
    self.emitTcpRstForSyn ip.srcIp tcp.srcPort ip.dstIp tcp.dstPort tcp.seqNumber
  else
    let conn := self.newConn ip tcp
    let self := { self with nextTcpId := self.nextTcpId + 1 }
    let (self, out) := self.emitTcpSynAck conn
    ({ self with tcp := self.tcp.insert key conn },
      .tcpProxyConnect conn.id conn.remoteIp conn.remotePort :: out)

-- New bytes of the guest go to the proxy, or wait for it. `none` is a connection that has too many
-- bytes waiting and is aborted.
def forwardToProxy (self : NetworkStack) (conn : TcpConn) (data : List U8) :
    NetworkStack × Option TcpConn × List Action :=
  if conn.proxyConnected then
    let conn := { conn with guestNextSeq := conn.guestNextSeq + BitVec.ofNat 32 data.length }
    let (self, out) := self.emitTcpAck conn
    (self, some conn, .tcpProxySend conn.id data :: out)
  else if self.tcpBufferWouldExceedLimit conn data.length then
    let (self, out) := self.emitTcpRst conn
    (self, none, out ++ [.tcpProxyClose conn.id])
  else
    let conn := { conn with
      bufferedToProxyBytes := conn.bufferedToProxyBytes + data.length
      bufferedToProxy := conn.bufferedToProxy ++ [data]
      guestNextSeq := conn.guestNextSeq + BitVec.ofNat 32 data.length }
    let (self, out) := self.emitTcpAck conn
    (self, some conn, out)

def handlePayload (self : NetworkStack) (conn : TcpConn) (tcp : TcpSegment) :
    NetworkStack × Option TcpConn × List Action :=
  let payload := tcp.payload
  let segSeq := tcp.seqNumber
  let segEnd := segSeq + BitVec.ofNat 32 payload.length
  if segSeq = conn.guestNextSeq then self.forwardToProxy conn payload
  else if segEnd ≤ conn.guestNextSeq then
    let (self, out) := self.emitTcpAck conn
    (self, some conn, out)
  else if segSeq < conn.guestNextSeq then
    let offset := (conn.guestNextSeq - segSeq).toNat
    self.forwardToProxy conn (payload.drop offset)
  else
    let (self, out) := self.emitTcpAck conn
    (self, some conn, out)

def handleFin (self : NetworkStack) (conn : TcpConn) (tcp : TcpSegment) :
    NetworkStack × TcpConn × List Action :=
  let finSeq := tcp.seqNumber + BitVec.ofNat 32 tcp.payload.length
  let conn :=
    if finSeq = conn.guestNextSeq then
      { conn with guestNextSeq := conn.guestNextSeq + 1, guestFinReceived := true }
    else
      conn
  let (self, ack) := self.emitTcpAck conn
  let (self, conn, fin) := self.emitTcpFin conn
  (self, conn, ack ++ [.tcpProxyClose conn.id] ++ fin)

-- A segment of a connection whose sequence numbers are known. The connection is not in the table
-- while it is handled.
def handleSegment (self : NetworkStack) (key : TcpKey) (conn : TcpConn) (tcp : TcpSegment) :
    NetworkStack × List Action :=
  let flags := tcp.flags
  let (self, syn) :=
    if flags.contains TcpFlags.syn && !flags.contains TcpFlags.ack && !conn.synAcked &&
        tcp.seqNumber == conn.guestIsn then
      self.emitTcpSynAck conn
    else
      (self, [])
  let conn := if flags.contains TcpFlags.ack then conn.onGuestAck tcp.ackNumber else conn
  let (self, conn, data) :=
    if tcp.payload.isEmpty then (self, some conn, []) else self.handlePayload conn tcp
  match conn with
  | none => (self, syn ++ data)
  | some conn =>
    let (self, conn, fin) :=
      if flags.contains TcpFlags.fin then self.handleFin conn tcp else (self, conn, [])
    (if conn.shouldRemove then self else { self with tcp := self.tcp.insert key conn },
      syn ++ data ++ fin)

def handleTcp (self : NetworkStack) (ip : Ipv4Packet) (tcp : TcpSegment) :
    NetworkStack × List Action :=
  if !self.ipAssigned then (self, [])
  else
    let key : TcpKey := ⟨tcp.srcPort, ip.dstIp, tcp.dstPort⟩
    let flags := tcp.flags
    match self.tcp.lookup key with
    | none =>
      if flags.contains TcpFlags.rst then (self, [])
      else if !flags.contains TcpFlags.syn || flags.contains TcpFlags.ack then (self, [])
      else self.openConn key ip tcp
    | some conn =>
      let self := { self with tcp := self.tcp.erase key }
      if flags.contains TcpFlags.rst then (self, [.tcpProxyClose conn.id])
      else if conn.seqSynced then
        self.handleSegment key conn tcp
      -- a restored connection learns its sequence numbers from the first segment with ACK
      else if flags.contains TcpFlags.syn && !flags.contains TcpFlags.ack then
        let (self, out) := self.openConn key ip tcp
        (self, .tcpProxyClose conn.id :: out)
      else if !flags.contains TcpFlags.ack then ({ self with tcp := self.tcp.insert key conn }, [])
      else
        self.handleSegment key
          { conn with
            synAcked := true
            guestNextSeq := tcp.seqNumber
            ourNextSeq := tcp.ackNumber
            seqSynced := true } tcp

def findKey (self : NetworkStack) (connectionId : U32) : Option (TcpKey × TcpConn) :=
  (self.tcp.entries.find? fun e => e.2.id == connectionId).map fun e => (e.1, e.2)

def tcpMss : Nat := 1460

def emitChunks (self : NetworkStack) (conn : TcpConn) (start : Nat) :
    (rounds : Nat) → (data : List U8) → NetworkStack × List Action
  | 0,          _    => (self, [])
  | rounds + 1, data =>
    if data.isEmpty then (self, [])
    else
      let (self, frame) := self.emitIpv4 fun ident => .tcp ident conn.remoteIp self.cfg.guestIp
        ⟨conn.remotePort, conn.guestPort, conn.ourNextSeq + BitVec.ofNat 32 start,
          conn.guestNextSeq, TcpFlags.ack ||| TcpFlags.psh, 65535, data.take tcpMss⟩
      let (self, rest) :=
        emitChunks self conn (start + tcpMss) rounds (data.drop tcpMss)
      (self, frame ++ rest)

def onTcpProxyData (self : NetworkStack) (connectionId : U32) (data : List U8) :
    NetworkStack × List Action :=
  match self.guestMac with
  | none => (self, [])
  | some _ =>
    match self.findKey connectionId with
    | none => (self, [])
    | some (key, conn) =>
      if conn.finSent || !conn.synAcked || !conn.seqSynced then (self, [])
      else
        let (self, out) := self.emitChunks conn 0 data.length data
        let conn := { conn with ourNextSeq := conn.ourNextSeq + BitVec.ofNat 32 data.length }
        ({ self with tcp := self.tcp.insert key conn }, out)

def handleTcpProxyEvent (self : NetworkStack) (event : TcpProxyEvent) (nowMs : Millis) :
    NetworkStack × List Action :=
  let (self, _) := self.syncInternalNowMs nowMs
  match event with
  | .data connectionId data => self.onTcpProxyData connectionId data
  | .connected connectionId =>
    match self.findKey connectionId with
    | none => (self, [])
    | some (key, conn) =>
      let out := conn.bufferedToProxy.map (Action.tcpProxySend conn.id)
      let conn := { conn with
        proxyConnected := true
        proxyReconnecting := false
        bufferedToProxy := []
        bufferedToProxyBytes := 0 }
      ({ self with tcp := self.tcp.insert key conn }, out)
  | .closed connectionId =>
    match self.findKey connectionId with
    | none => (self, [])
    | some (key, conn) =>
      let self := { self with tcp := self.tcp.erase key }
      if !conn.seqSynced then (self, [])
      else if !conn.synAcked then self.emitTcpRst conn
      else
        let (self, conn, out) := self.emitTcpFin conn
        (if conn.shouldRemove then self else { self with tcp := self.tcp.insert key conn }, out)
  | .error connectionId =>
    match self.findKey connectionId with
    | none => (self, [])
    | some (key, conn) =>
      let self := { self with tcp := self.tcp.erase key }
      if !conn.seqSynced then (self, [])
      else self.emitTcpRst conn

end Tcp

def handleIpv4 (self : NetworkStack) (ip : Ipv4Packet) (nowMs : Millis) :
    NetworkStack × List Action :=
  match ip.payload with
  | .udp udp => self.handleUdp ip udp nowMs
  | .tcp tcp => self.handleTcp ip tcp
  | .icmp echo => self.handleIcmp ip echo
  | .other => (self, [])

-- `none` is a frame that is too short for Ethernet.
def processOutboundEthernet (self : NetworkStack) (frame : Option EthernetFrame)
    (nowMs : Millis) : NetworkStack × List Action :=
  let (self, nowMs) := self.syncInternalNowMs nowMs
  match frame with
  | none => (self, [])
  | some eth =>
    let self := { self with guestMac := self.guestMac.or (some eth.srcMac) }
    match eth.payload with
    | .arp arp => self.handleArp arp
    | .ipv4 ip => self.handleIpv4 ip nowMs
    | .other => (self, [])

end NetworkStack

inductive StackOp
  | frame (frame : Option EthernetFrame) (nowMs : Millis)
  | tcpEvent (event : TcpProxyEvent) (nowMs : Millis)
  | udpEvent (event : UdpProxyEvent) (nowMs : Millis)
  | dnsResolved (resolved : DnsResolved) (nowMs : Millis)
  | setNetworkEnabled (enabled : Bool)
  deriving DecidableEq, Repr

def NetworkStack.call (self : NetworkStack) : StackOp → NetworkStack × List Action
  | .frame frame nowMs => self.processOutboundEthernet frame nowMs
  | .tcpEvent event nowMs => self.handleTcpProxyEvent event nowMs
  | .udpEvent event nowMs => self.handleUdpProxyEvent event nowMs
  | .dnsResolved resolved nowMs => self.handleDnsResolved resolved nowMs
  | .setNetworkEnabled enabled => (self.setNetworkEnabled enabled, [])

def NetworkStack.step (self : NetworkStack) (op : StackOp) : NetworkStack :=
  (self.call op).1

end Aero.Net
