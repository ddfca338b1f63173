import Aero.Types

namespace Aero.Net

abbrev MacAddr := BitVec 48

def MacAddr.broadcast : MacAddr := BitVec.allOnes 48

-- The address as a number, as `u32::from` gives it.
abbrev Ipv4Addr := U32

namespace Ipv4Addr

def new (a b c d : U8) : Ipv4Addr :=
  a ++ b ++ c ++ d

def octets (ip : Ipv4Addr) : List U8 :=
  [ip.extractLsb' 24 8, ip.extractLsb' 16 8, ip.extractLsb' 8 8, ip.extractLsb' 0 8]

def unspecified : Ipv4Addr := 0

def broadcast : Ipv4Addr := BitVec.allOnes 32

end Ipv4Addr

abbrev Ipv6Addr := { octets : List U8 // octets.length = 16 }

inductive IpAddr
  | v4 (ip : Ipv4Addr)
  | v6 (ip : Ipv6Addr)
  deriving DecidableEq

end Aero.Net
