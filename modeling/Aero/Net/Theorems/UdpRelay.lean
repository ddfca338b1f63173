import Aero.Net.UdpRelay
import Aero.Lib.Except

namespace Aero.Net.UdpRelay

open List

variable {d d' : Datagram} {limits : Limits} {frame : List U8}

theorem extract_append (x : BitVec w) (start len len' : Nat) :
    x.extractLsb' (start + len) len' ++ x.extractLsb' start len =
      x.extractLsb' start (len' + len) :=
  BitVec.extractLsb'_append_extractLsb'_eq_extractLsb' rfl

theorem fromBeBytes_toBeBytes (port : U16) :
    fromBeBytes (port.extractLsb' 8 8) (port.extractLsb' 0 8) = port := by
  rw [fromBeBytes, extract_append port 0 8 8]
  exact BitVec.extractLsb'_eq_self

theorem new_octets (ip : Ipv4Addr) : Ipv4Addr.new (ip.extractLsb' 24 8) (ip.extractLsb' 16 8)
    (ip.extractLsb' 8 8) (ip.extractLsb' 0 8) = ip := by
  rw [Ipv4Addr.new, extract_append ip 16 8 8, extract_append ip 8 8 16, extract_append ip 0 8 24]
  exact BitVec.extractLsb'_eq_self

-- The first two bytes of a version 1 frame are the guest port.
theorem isV2Prefix_v1 : isV2Prefix (toBeBytes port ++ rest) = true ↔ port = 0xa202 := by
  have hport := fromBeBytes_toBeBytes port
  simp only [toBeBytes, cons_append, isV2Prefix, Bool.and_eq_true, beq_iff_eq]
  constructor
  · rintro ⟨hhi, hlo⟩
    rw [← hport, hhi, hlo]
    rfl
  · rintro rfl
    exact ⟨rfl, rfl⟩

theorem encodeV1_eq_ok_iff : encodeV1DatagramWithLimits d limits = .ok frame ↔
    d.payload.length ≤ limits.maxPayload ∧ d.transport.addressFamily = .ipv4 ∧
      ∃ ip, d.remoteIp = .v4 ip ∧
        frame = toBeBytes d.guestPort ++ ip.octets ++ toBeBytes d.remotePort ++ d.payload := by
  rw [encodeV1DatagramWithLimits]
  split
  case isTrue hlen => exact iff_of_false (fun h => by cases h) fun h => by omega
  case isFalse hlen =>
    split
    case h_1 ip hip => simp [hip]
    case h_2 ip hip =>
      split
      case isTrue hfamily => exact iff_of_false (fun h => by cases h) fun h => hfamily h.2.1
      case isFalse hfamily =>
        simp only [Except.ok.injEq, not_not.mp hfamily, true_and, Nat.le_of_not_lt hlen, hip,
          IpAddr.v4.injEq, exists_eq_left']
        exact eq_comm

theorem encodeV2_eq_ok_iff : encodeV2DatagramWithLimits d limits = .ok frame ↔
    d.payload.length ≤ limits.maxPayload ∧ d.transport.addressFamily = .fromIp d.remoteIp ∧
      frame = [v2Magic, v2Version, afByte d.remoteIp, v2TypeDatagram] ++ toBeBytes d.guestPort ++
        ipBytes d.remoteIp ++ toBeBytes d.remotePort ++ d.payload := by
  rw [encodeV2DatagramWithLimits]
  split
  case isTrue hlen => exact iff_of_false (fun h => by cases h) fun h => by omega
  case isFalse hlen =>
    split
    case isTrue hfamily => exact iff_of_false (fun h => by cases h) fun h => hfamily h.2.1
    case isFalse hfamily =>
      simp only [Except.ok.injEq, not_not.mp hfamily, true_and, Nat.le_of_not_lt hlen]
      exact eq_comm

theorem decodeV1_encodeV1 (hversion : d.transport.version = .v1)
    (h : encodeV1DatagramWithLimits d limits = .ok frame) :
    decodeV1DatagramWithLimits frame limits = .ok d := by
  obtain ⟨hlen, hfamily, ip, hip, rfl⟩ := encodeV1_eq_ok_iff.mp h
  obtain ⟨guestPort, remoteIp, remotePort, payload, version, family⟩ := d
  obtain rfl := hip
  obtain rfl := hversion
  obtain rfl := hfamily
  simp only [toBeBytes, Ipv4Addr.octets, cons_append, nil_append]
  rw [decodeV1DatagramWithLimits, if_neg (Nat.not_lt.mpr hlen), fromBeBytes_toBeBytes,
    fromBeBytes_toBeBytes, new_octets]

theorem decodeV2Body_version (h : decodeV2Body frame limits family ipLen = .ok d) :
    d.transport.version = .v2 := by
  rw [decodeV2Body] at h
  split at h
  · cases h
  split at h
  · cases h
  dsimp only at h
  split at h
  · cases h
  · cases h
    rfl

theorem decodeV2_version (h : decodeV2DatagramWithLimits frame limits = .ok d) :
    d.transport.version = .v2 := by
  rw [decodeV2DatagramWithLimits] at h
  split at h
  · cases h
  split at h
  · cases h
  dsimp only at h
  split at h
  · cases h
  split at h
  · cases h
  · exact decodeV2Body_version h

theorem decodeV2Body_frame (hlen : payload.length ≤ limits.maxPayload)
    (hip : decodeIp (b₀ :: b₁ :: b₂ :: b₃ :: p₀ :: p₁ :: (ip ++ q₀ :: q₁ :: payload))
      (4 + 2 + ip.length + 2) family = .ok remoteIp) :
    decodeV2Body (b₀ :: b₁ :: b₂ :: b₃ :: p₀ :: p₁ :: (ip ++ q₀ :: q₁ :: payload)) limits family
      ip.length =
        .ok ⟨fromBeBytes p₀ p₁, remoteIp, fromBeBytes q₀ q₁, payload, ⟨.v2, family⟩⟩ := by
  generalize hframe : b₀ :: b₁ :: b₂ :: b₃ :: p₀ :: p₁ :: (ip ++ q₀ :: q₁ :: payload) = frame at *
  have hlong : ¬ frame.length < 4 + 2 + ip.length + 2 := by
    rw [← hframe]
    simp only [length_cons, length_append]
    omega
  have hport₀ : frame.getD (6 + ip.length) 0 = q₀ := by
    rw [← hframe, Nat.add_comm]
    simp
  have hport₁ : frame.getD (6 + ip.length + 1) 0 = q₁ := by
    rw [← hframe, show 6 + ip.length + 1 = ip.length + 1 + 6 by omega]
    simp
  have hpayload : frame.drop (4 + 2 + ip.length + 2) = payload := by
    rw [← hframe, show 4 + 2 + ip.length + 2 = ip.length + 2 + 6 by omega]
    simp
  rw [decodeV2Body]
  rw [if_neg hlong, hip]
  dsimp only
  rw [hpayload, if_neg (Nat.not_lt.mpr hlen), hport₀, hport₁, ← hframe]
  rfl

theorem decodeV2_encodeV2 (hversion : d.transport.version = .v2)
    (h : encodeV2DatagramWithLimits d limits = .ok frame) :
    decodeV2DatagramWithLimits frame limits = .ok d := by
  obtain ⟨hlen, hfamily, hframe⟩ := encodeV2_eq_ok_iff.mp h
  obtain ⟨guestPort, remoteIp, remotePort, payload, version, family⟩ := d
  obtain rfl := hversion
  obtain rfl : family = .fromIp remoteIp := hfamily
  have hframe : frame = v2Magic :: v2Version :: afByte remoteIp :: v2TypeDatagram ::
      guestPort.extractLsb' 8 8 :: guestPort.extractLsb' 0 8 :: (ipBytes remoteIp ++
        remotePort.extractLsb' 8 8 :: remotePort.extractLsb' 0 8 :: payload) := by
    simpa [toBeBytes] using hframe
  have hfour : 4 ≤ (ipBytes remoteIp).length := by
    cases remoteIp with
    | v4 ip => exact Nat.le_refl 4
    | v6 ip => exact ip.property ▸ (by decide)
  have hlong : ¬ frame.length < 12 := by
    rw [hframe]
    simp only [length_cons, length_append]
    omega
  have hprefix : isV2Prefix frame = true := by
    rw [hframe]
    rfl
  have hbody : decodeV2Body frame limits (.fromIp remoteIp) (ipBytes remoteIp).length =
      .ok ⟨guestPort, remoteIp, remotePort, payload, ⟨.v2, .fromIp remoteIp⟩⟩ := by
    rw [hframe, decodeV2Body_frame hlen, fromBeBytes_toBeBytes, fromBeBytes_toBeBytes]
    cases remoteIp with
    | v4 ip => exact congrArg (Except.ok ∘ IpAddr.v4) (new_octets ip)
    | v6 ip =>
      obtain ⟨ip, hip⟩ := ip
      simp [decodeIp, ipBytes, AddressFamily.fromIp, hip]
  rw [decodeV2DatagramWithLimits, if_neg hlong, hprefix]
  have htype : frame.getD 3 0 = v2TypeDatagram := by
    rw [hframe]
    rfl
  have haf : frame.getD 2 0 = afByte remoteIp := by
    rw [hframe]
    rfl
  rw [htype, haf, ← hbody]
  cases remoteIp with
  | v4 ip => rfl
  | v6 ip =>
    obtain ⟨ip, hip⟩ := ip
    simp [decodeFamily, afByte, v2AfIpv6, v2AfIpv4, ipBytes, hip, AddressFamily.fromIp]

-- A frame that was encoded is decoded to its datagram, but for the version 1 frames of the guest port
-- whose bytes are the prefix of version 2.
theorem decode_encode_iff (d : Datagram) (limits : Limits) (frame : List U8)
    (h : encodeDatagramWithLimits d limits = .ok frame) :
    decodeDatagramWithLimits frame limits = .ok d ↔
      ¬ (d.transport.version = .v1 ∧ d.guestPort = 0xa202) := by
  cases hversion : d.transport.version
  case v1 =>
    rw [encodeDatagramWithLimits, hversion] at h
    obtain ⟨-, -, ip, -, hframe⟩ := encodeV1_eq_ok_iff.mp h
    have hprefix : isV2Prefix frame = true ↔ d.guestPort = 0xa202 := by
      rw [hframe]
      exact isV2Prefix_v1
    rw [decodeDatagramWithLimits, ← hprefix]
    cases hv2 : isV2Prefix frame
    case false => exact iff_of_true (decodeV1_encodeV1 hversion h) (by simp)
    case true =>
      refine iff_of_false (fun hdecode => ?_) (by simp)
      cases hversion.symm.trans (decodeV2_version hdecode)
  case v2 =>
    rw [encodeDatagramWithLimits, hversion] at h
    obtain ⟨-, -, hframe⟩ := encodeV2_eq_ok_iff.mp h
    have hprefix : isV2Prefix frame = true := by
      rw [hframe]
      rfl
    rw [decodeDatagramWithLimits, if_pos hprefix]
    exact iff_of_true (decodeV2_encodeV2 hversion h) (by simp)

def dnsQuery (guestPort : U16) (version : FramingVersion) : Datagram where
  guestPort
  remoteIp := .v4 (.new 8 8 8 8)
  remotePort := 53
  payload := [1, 2, 3, 4]
  transport := ⟨version, .ipv4⟩

theorem decode_encode_dnsQuery :
    ∃ frame, encodeDatagramWithLimits (dnsQuery 50000 .v1) ⟨1200⟩ = .ok frame ∧
      decodeDatagramWithLimits frame ⟨1200⟩ = .ok (dnsQuery 50000 .v1) :=
  ⟨_, rfl, (decode_encode_iff (dnsQuery 50000 .v1) ⟨1200⟩ _ rfl).mpr (by decide)⟩

theorem decode_encode_port_41474 :
    ∃ frame, encodeDatagramWithLimits (dnsQuery 0xa202 .v1) ⟨1200⟩ = .ok frame ∧
      decodeDatagramWithLimits frame ⟨1200⟩ = .error (.v2UnsupportedMessageType 8) :=
  ⟨_, rfl, rfl⟩

end Aero.Net.UdpRelay
