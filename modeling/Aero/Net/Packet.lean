import Aero.Net.Policy

namespace Aero.Net

abbrev TcpFlags := U16

namespace TcpFlags

def fin : TcpFlags := 0x0001
def syn : TcpFlags := 0x0002
def rst : TcpFlags := 0x0004
def psh : TcpFlags := 0x0008
def ack : TcpFlags := 0x0010

def contains (self other : TcpFlags) : Bool :=
  self &&& other == other

end TcpFlags

structure TcpSegment where
  srcPort : U16
  dstPort : U16
  seqNumber : U32
  ackNumber : U32
  flags : TcpFlags
  windowSize : U16
  payload : List U8
  deriving DecidableEq, Repr

namespace TcpSegment

def synAck (srcPort dstPort : U16) (seqNumber ackNumber : U32) (windowSize : U16) : TcpSegment :=
  ⟨srcPort, dstPort, seqNumber, ackNumber, TcpFlags.syn ||| TcpFlags.ack, windowSize, []⟩

def ack (srcPort dstPort : U16) (seqNumber ackNumber : U32) (windowSize : U16) : TcpSegment :=
  ⟨srcPort, dstPort, seqNumber, ackNumber, TcpFlags.ack, windowSize, []⟩

def rst (srcPort dstPort : U16) (seqNumber ackNumber : U32) (windowSize : U16) : TcpSegment :=
  ⟨srcPort, dstPort, seqNumber, ackNumber, TcpFlags.rst ||| TcpFlags.ack, windowSize, []⟩

def finAck (srcPort dstPort : U16) (seqNumber ackNumber : U32) (windowSize : U16) : TcpSegment :=
  ⟨srcPort, dstPort, seqNumber, ackNumber, TcpFlags.fin ||| TcpFlags.ack, windowSize, []⟩

end TcpSegment

structure ArpPacket where
  htype : U16
  ptype : U16
  hlen : U8
  plen : U8
  opcode : U16
  senderMac : Option MacAddr
  senderIp : Option Ipv4Addr
  targetIp : Option Ipv4Addr
  deriving DecidableEq, Repr

def htypeEthernet : U16 := 1
def ptypeIpv4 : U16 := 0x0800
def arpOpRequest : U16 := 1

inductive DhcpMessageType
  | discover
  | offer
  | request
  | decline
  | ack
  | nak
  | release
  | inform
  deriving DecidableEq, Repr

structure DhcpMessage where
  transactionId : U32
  flags : U16
  clientMac : MacAddr
  messageType : DhcpMessageType
  deriving DecidableEq, Repr

structure DnsQuery where
  id : U16
  recursionDesired : Bool
  qname : List U8
  name : Option Name
  qtype : U16
  qclass : U16
  deriving DecidableEq, Repr

-- `dhcp` and `query` are what the parsers of the two protocols answer for the payload.
structure UdpPacket where
  srcPort : U16
  dstPort : U16
  payload : List U8
  dhcp : Option DhcpMessage
  query : Option DnsQuery
  deriving DecidableEq, Repr

structure IcmpEcho where
  icmpType : U8
  identifier : U16
  sequence : U16
  payload : List U8
  deriving DecidableEq, Repr

-- The payload of an IPv4 packet. Protocols that the stack does not know and payloads that do not
-- parse are `other`.
inductive Ipv4Payload
  | udp (udp : UdpPacket)
  | tcp (tcp : TcpSegment)
  | icmp (echo : Option IcmpEcho)
  | other
  deriving DecidableEq, Repr

structure Ipv4Packet where
  srcIp : Ipv4Addr
  dstIp : Ipv4Addr
  payload : Ipv4Payload
  deriving DecidableEq, Repr

inductive EthernetPayload
  | arp (arp : ArpPacket)
  | ipv4 (ip : Ipv4Packet)
  | other
  deriving DecidableEq, Repr

structure EthernetFrame where
  srcMac : MacAddr
  payload : EthernetPayload
  deriving DecidableEq, Repr

inductive DnsResponseCode
  | noError
  | serverFailure
  | nameError
  | notImplemented
  deriving DecidableEq, Repr

structure DnsResponse where
  id : U16
  rd : Bool
  rcode : DnsResponseCode
  qname : List U8
  qtype : U16
  qclass : U16
  answerA : Option Ipv4Addr
  ttl : Nat
  deriving DecidableEq, Repr

structure DhcpReply where
  messageType : DhcpMessageType
  transactionId : U32
  flags : U16
  clientMac : MacAddr
  yourIp : Ipv4Addr
  serverIp : Ipv4Addr
  subnetMask : Ipv4Addr
  router : Ipv4Addr
  dnsServers : List Ipv4Addr
  leaseTimeSecs : U32
  deriving DecidableEq, Repr

inductive UdpContent
  | data (bytes : List U8)
  | dns (response : DnsResponse)
  | dhcp (reply : DhcpReply)
  deriving DecidableEq, Repr

inductive OutPayload
  | arpReply (senderMac : MacAddr) (senderIp : Ipv4Addr) (targetMac : MacAddr)
      (targetIp : Ipv4Addr)
  | udp (identification : U16) (srcIp dstIp : Ipv4Addr) (srcPort dstPort : U16)
      (content : UdpContent)
  | tcp (identification : U16) (srcIp dstIp : Ipv4Addr) (segment : TcpSegment)
  | icmpEchoReply (identification : U16) (srcIp dstIp : Ipv4Addr) (identifier sequence : U16)
      (payload : List U8)
  deriving DecidableEq, Repr

structure OutFrame where
  destMac : MacAddr
  srcMac : MacAddr
  payload : OutPayload
  deriving DecidableEq, Repr

end Aero.Net
