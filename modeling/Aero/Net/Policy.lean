import Aero.Net.Addr

namespace Aero.Net

abbrev Name := List Char

namespace Name

-- The characters that `str::trim` removes.
def isWhitespace (c : Char) : Bool :=
  (0x09 ≤ c.toNat && c.toNat ≤ 0x0d) || c.toNat == 0x20 || c.toNat == 0x85 || c.toNat == 0xa0 ||
    c.toNat == 0x1680 || (0x2000 ≤ c.toNat && c.toNat ≤ 0x200a) || c.toNat == 0x2028 ||
      c.toNat == 0x2029 || c.toNat == 0x202f || c.toNat == 0x205f || c.toNat == 0x3000

def trimStartMatches (p : Char → Bool) (name : Name) : Name :=
  name.dropWhile p

def trimEndMatches (p : Char → Bool) (name : Name) : Name :=
  (name.reverse.dropWhile p).reverse

def trimMatches (p : Char → Bool) (name : Name) : Name :=
  trimEndMatches p (trimStartMatches p name)

def asciiLowercase (c : Char) : Char :=
  if 'A' ≤ c ∧ c ≤ 'Z' then Char.ofNat (c.toNat + 32) else c

def makeAsciiLowercase (name : Name) : Name :=
  name.map asciiLowercase

def eqIgnoreAsciiCase (a b : Name) : Bool :=
  makeAsciiLowercase a == makeAsciiLowercase b

end Name

structure IpCidr where
  network : Ipv4Addr
  prefixLen : U8
  deriving DecidableEq, Repr

def IpCidr.contains (self : IpCidr) (ip : Ipv4Addr) : Bool :=
  let prefixLen := min self.prefixLen.toNat 32
  let mask : U32 := if prefixLen = 0 then 0 else BitVec.allOnes 32 <<< (32 - prefixLen)
  self.network &&& mask == ip &&& mask

def domainMatches (name suffix : Name) : Bool :=
  let suffix := Name.trimMatches (· == '.') (Name.trimMatches Name.isWhitespace suffix)
  if suffix.isEmpty then false
  else if Name.eqIgnoreAsciiCase name suffix then true
  else if name.length ≤ suffix.length then false
  else
    let start := name.length - suffix.length
    if name[start - 1]? ≠ some '.' then false
    else Name.eqIgnoreAsciiCase (name.drop start) suffix

structure HostPolicy where
  enabled : Bool
  allowIps : List IpCidr
  denyIps : List IpCidr
  allowDomains : List Name
  denyDomains : List Name
  deriving DecidableEq, Repr

namespace HostPolicy

def allowsIp (self : HostPolicy) (ip : Ipv4Addr) : Bool :=
  if self.denyIps.any (·.contains ip) then false
  else if !self.allowIps.isEmpty then self.allowIps.any (·.contains ip)
  else true

def allowsDomain (self : HostPolicy) (name : Name) : Bool :=
  let name := Name.trimMatches (· == '.') (Name.trimMatches Name.isWhitespace name)
  if self.denyDomains.any (domainMatches name) then false
  else if !self.allowDomains.isEmpty then self.allowDomains.any (domainMatches name)
  else true

end HostPolicy

end Aero.Net
