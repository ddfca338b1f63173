import Aero.Net.Addr

namespace Aero.Net.UdpRelay

def v1HeaderLen : Nat := 8
def v2Magic : U8 := 0xa2
def v2Version : U8 := 0x02
def v2AfIpv4 : U8 := 0x04
def v2AfIpv6 : U8 := 0x06
def v2TypeDatagram : U8 := 0x00

structure Limits where
  maxPayload : Nat
  deriving DecidableEq, Repr

inductive FramingVersion
  | v1
  | v2
  deriving DecidableEq, Repr

inductive AddressFamily
  | ipv4
  | ipv6
  deriving DecidableEq, Repr

def AddressFamily.fromIp : IpAddr → AddressFamily
  | .v4 _ => .ipv4
  | .v6 _ => .ipv6

structure TransportFlags where
  version : FramingVersion
  addressFamily : AddressFamily
  deriving DecidableEq, Repr

structure Datagram where
  guestPort : U16
  remoteIp : IpAddr
  remotePort : U16
  payload : List U8
  transport : TransportFlags
  deriving DecidableEq

inductive DecodeError
  | tooShort (len min : Nat)
  | payloadTooLarge (len max : Nat)
  | v2UnsupportedMessageType (msgType : U8)
  | v2UnknownAddressFamily (addressFamily : U8)
  | v2MissingPrefix
  deriving DecidableEq, Repr

inductive EncodeError
  | payloadTooLarge (len max : Nat)
  | v1RequiresIpv4
  | transportAddressFamilyMismatch (transport ip : AddressFamily)
  deriving DecidableEq, Repr

def toBeBytes (port : U16) : List U8 :=
  [port.extractLsb' 8 8, port.extractLsb' 0 8]

def fromBeBytes (hi lo : U8) : U16 :=
  hi ++ lo

def isV2Prefix (buf : List U8) : Bool :=
  match buf with
  | b₀ :: b₁ :: _ => b₀ == v2Magic && b₁ == v2Version
  | _             => false

def decodeV1DatagramWithLimits (frame : List U8) (limits : Limits) :
    Except DecodeError Datagram :=
  match frame with
  | p₀ :: p₁ :: a :: b :: c :: d :: q₀ :: q₁ :: payload =>
    if limits.maxPayload < payload.length then
      .error (.payloadTooLarge payload.length limits.maxPayload)
    else
      .ok
        { guestPort := fromBeBytes p₀ p₁
          remoteIp := .v4 (.new a b c d)
          remotePort := fromBeBytes q₀ q₁
          payload
          transport := ⟨.v1, .ipv4⟩ }
  | _ => .error (.tooShort frame.length v1HeaderLen)

def decodeFamily (af : U8) : Except DecodeError (AddressFamily × Nat) :=
  if af = v2AfIpv4 then .ok (.ipv4, 4)
  else if af = v2AfIpv6 then .ok (.ipv6, 16)
  else .error (.v2UnknownAddressFamily af)

def decodeIp (frame : List U8) (headerLen : Nat) : AddressFamily → Except DecodeError IpAddr
  | .ipv4 => .ok (.v4 (.new (frame.getD 6 0) (frame.getD 7 0) (frame.getD 8 0) (frame.getD 9 0)))
  | .ipv6 =>
    if h : ((frame.drop 6).take 16).length = 16 then .ok (.v6 ⟨(frame.drop 6).take 16, h⟩)
    else .error (.tooShort frame.length headerLen)

def decodeV2Body (frame : List U8) (limits : Limits) (addressFamily : AddressFamily)
    (ipLen : Nat) : Except DecodeError Datagram :=
  let headerLen := 4 + 2 + ipLen + 2
  if frame.length < headerLen then .error (.tooShort frame.length headerLen)
  else
    match decodeIp frame headerLen addressFamily with
    | .error e     => .error e
    | .ok remoteIp =>
      let payload := frame.drop headerLen
      if limits.maxPayload < payload.length then
        .error (.payloadTooLarge payload.length limits.maxPayload)
      else
        .ok
          { guestPort := fromBeBytes (frame.getD 4 0) (frame.getD 5 0)
            remoteIp
            remotePort := fromBeBytes (frame.getD (6 + ipLen) 0) (frame.getD (6 + ipLen + 1) 0)
            payload
            transport := ⟨.v2, addressFamily⟩ }

def decodeV2DatagramWithLimits (frame : List U8) (limits : Limits) :
    Except DecodeError Datagram :=
  if frame.length < 12 then .error (.tooShort frame.length 12)
  else if !isV2Prefix frame then .error .v2MissingPrefix
  else
    let msgType := frame.getD 3 0
    if msgType ≠ v2TypeDatagram then .error (.v2UnsupportedMessageType msgType)
    else
      match decodeFamily (frame.getD 2 0) with
      | .error e                    => .error e
      | .ok (addressFamily, ipLen) => decodeV2Body frame limits addressFamily ipLen

def decodeDatagramWithLimits (frame : List U8) (limits : Limits) : Except DecodeError Datagram :=
  if isV2Prefix frame then decodeV2DatagramWithLimits frame limits
  else decodeV1DatagramWithLimits frame limits

-- The order of the checks is that of the source; the family of `remote_ip` is looked at twice.
def encodeV1DatagramWithLimits (d : Datagram) (limits : Limits) :
    Except EncodeError (List U8) :=
  if limits.maxPayload < d.payload.length then
    .error (.payloadTooLarge d.payload.length limits.maxPayload)
  else
    match d.remoteIp with
    | .v6 _  => .error .v1RequiresIpv4
    | .v4 ip =>
      if d.transport.addressFamily ≠ .ipv4 then
        .error (.transportAddressFamilyMismatch d.transport.addressFamily .ipv4)
      else .ok (toBeBytes d.guestPort ++ ip.octets ++ toBeBytes d.remotePort ++ d.payload)

def afByte : IpAddr → U8
  | .v4 _ => v2AfIpv4
  | .v6 _ => v2AfIpv6

def ipBytes : IpAddr → List U8
  | .v4 ip => ip.octets
  | .v6 ip => ip.val

def encodeV2DatagramWithLimits (d : Datagram) (limits : Limits) :
    Except EncodeError (List U8) :=
  if limits.maxPayload < d.payload.length then
    .error (.payloadTooLarge d.payload.length limits.maxPayload)
  else if d.transport.addressFamily ≠ .fromIp d.remoteIp then
    .error (.transportAddressFamilyMismatch d.transport.addressFamily (.fromIp d.remoteIp))
  else
    .ok ([v2Magic, v2Version, afByte d.remoteIp, v2TypeDatagram] ++ toBeBytes d.guestPort ++
      ipBytes d.remoteIp ++ toBeBytes d.remotePort ++ d.payload)

def encodeDatagramWithLimits (d : Datagram) (limits : Limits) : Except EncodeError (List U8) :=
  match d.transport.version with
  | .v1 => encodeV1DatagramWithLimits d limits
  | .v2 => encodeV2DatagramWithLimits d limits

end Aero.Net.UdpRelay
