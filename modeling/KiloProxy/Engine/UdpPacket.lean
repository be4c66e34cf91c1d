import KiloProxy.Net.Checksum
import Mathlib.Data.Vector.Basic

/-!
# `ipv4_proto.h` and `udp_proto.h`

The headers as they are copied from a packet, the checks of a packet and the checksums. A
checksum is what completes a sum of words: of the header of the first, of the addresses, the
protocol, the length and the whole datagram of the second.
-/

namespace KiloProxy.Engine
set_option autoImplicit false
open KiloProxy.Net

/-! ## IPv4 -/

def ipv4ProtocolUdp : UInt8 := 17

/-- `struct ipv4_header`, in network order. -/
structure Ipv4Header where
  version4Ihl4 : UInt8
  ds : UInt8
  totalLength : List.Vector UInt8 2
  identification : List.Vector UInt8 2
  flags3Fragmentoffset13 : List.Vector UInt8 2
  ttl : UInt8
  protocol : UInt8
  checksum : List.Vector UInt8 2
  sourceAddress : List.Vector UInt8 4
  destinationAddress : List.Vector UInt8 4
deriving DecidableEq

namespace Ipv4Header

def ofBytes : List UInt8 → Option Ipv4Header
  | v :: d :: l₀ :: l₁ :: i₀ :: i₁ :: f₀ :: f₁ :: t :: p :: c₀ :: c₁ :: s₀ :: s₁ :: s₂ :: s₃ :: d₀ :: d₁ :: d₂ :: d₃ :: _ =>
    some ⟨v, d, ⟨[l₀, l₁], rfl⟩, ⟨[i₀, i₁], rfl⟩, ⟨[f₀, f₁], rfl⟩, t, p, ⟨[c₀, c₁], rfl⟩, ⟨[s₀, s₁, s₂, s₃], rfl⟩,
      ⟨[d₀, d₁, d₂, d₃], rfl⟩⟩
  | _ => none

def bytes (h : Ipv4Header) : List UInt8 :=
  h.version4Ihl4 :: h.ds :: (h.totalLength.toList ++ (h.identification.toList ++ (h.flags3Fragmentoffset13.toList ++
    h.ttl :: h.protocol :: (h.checksum.toList ++ (h.sourceAddress.toList ++ h.destinationAddress.toList)))))

/-- `IPV4_GET_VERSION`. -/
def version (h : Ipv4Header) : Nat := h.version4Ihl4.toNat / 16

/-- `IPV4_GET_IHL`, in bytes. -/
def headerLen (h : Ipv4Header) : Nat := h.version4Ihl4.toNat % 16 * 4

end Ipv4Header

/-- `sizeof(struct ipv4_header)`. -/
def ipv4HeaderSize : Nat := 20

def ipv4Checksum (header : Ipv4Header) (extra : List UInt8) : List.Vector UInt8 2 :=
  hton16 (65535 - carried (wordSum header.bytes + wordSum extra))

/-- The header and the payload. -/
def ipv4Check (data : List UInt8) : Option (Ipv4Header × List UInt8) :=
  (Ipv4Header.ofBytes data).bind fun header =>
    if header.version ≠ 4 then none
    else if header.headerLen < ipv4HeaderSize ∨ data.length < header.headerLen then none
    else if ntoh16 header.totalLength < header.headerLen ∨ data.length < ntoh16 header.totalLength then none
    else if header.checksum ≠ ipv4Checksum { header with checksum := hton16 0 }
        ((data.drop ipv4HeaderSize).take (header.headerLen - ipv4HeaderSize)) then none
    else some (header, (data.take (ntoh16 header.totalLength)).drop header.headerLen)

/-! ## UDP -/

/-- `struct udp_header`, in network order. -/
structure UdpHeader where
  sourcePort : List.Vector UInt8 2
  destPort : List.Vector UInt8 2
  length : List.Vector UInt8 2
  checksum : List.Vector UInt8 2
deriving DecidableEq

namespace UdpHeader

def ofBytes : List UInt8 → Option UdpHeader
  | s₀ :: s₁ :: d₀ :: d₁ :: l₀ :: l₁ :: c₀ :: c₁ :: _ =>
    some ⟨⟨[s₀, s₁], rfl⟩, ⟨[d₀, d₁], rfl⟩, ⟨[l₀, l₁], rfl⟩, ⟨[c₀, c₁], rfl⟩⟩
  | _ => none

def bytes (h : UdpHeader) : List UInt8 :=
  h.sourcePort.toList ++ (h.destPort.toList ++ (h.length.toList ++ h.checksum.toList))

end UdpHeader

/-- `sizeof(struct udp_header)`. -/
def udpHeaderSize : Nat := 8

/-- The sum of the payload; a last byte alone is the high one of a word. -/
def udpPayloadSum (payload : List UInt8) : Nat :=
  if payload.length % 2 = 0 then wordSum payload
  else wordSum (payload.take (payload.length - 1)) + wordSum (hton16 ((payload.getLast?.getD 0).toNat * 256)).toList

/-- The sum of the addresses, the protocol, the length, the header and the payload. -/
def udpSum (header : UdpHeader) (payload : List UInt8) (sourceAddr destAddr : List.Vector UInt8 4) : Nat :=
  wordSum sourceAddr.toList + wordSum destAddr.toList + wordSum (hton16 ipv4ProtocolUdp.toNat).toList +
    wordSum (hton16 (udpHeaderSize + payload.length)).toList + wordSum header.bytes + udpPayloadSum payload

def udpChecksum (header : UdpHeader) (payload : List UInt8) (sourceAddr destAddr : List.Vector UInt8 4) :
    List.Vector UInt8 2 :=
  let t := carried (udpSum header payload sourceAddr destAddr)
  hton16 (65535 - if t = 0 then 65535 else t)

/-- The header and the payload; what is behind it is not looked at. -/
def udpCheck (data : List UInt8) : Option (UdpHeader × List UInt8) :=
  (UdpHeader.ofBytes data).bind fun header =>
    if ntoh16 header.length < udpHeaderSize ∨ data.length < ntoh16 header.length then none
    else some (header, (data.take (ntoh16 header.length)).drop udpHeaderSize)

/-! ## Copies -/

theorem exists_pair (v : List.Vector UInt8 2) : ∃ a b, v = ⟨[a, b], rfl⟩ := by
  match v with
  | ⟨[a, b], _⟩ => exact ⟨a, b, rfl⟩

theorem exists_quad (v : List.Vector UInt8 4) : ∃ a b c d, v = ⟨[a, b, c, d], rfl⟩ := by
  match v with
  | ⟨[a, b, c, d], _⟩ => exact ⟨a, b, c, d, rfl⟩

/-- A header is read back from the bytes it was written as. -/
theorem Ipv4Header.ofBytes_append (h : Ipv4Header) (s : List UInt8) : ofBytes (h.bytes ++ s) = some h := by
  obtain ⟨v, d, l, i, f, t, p, c, src, dst⟩ := h
  obtain ⟨_, _, rfl⟩ := exists_pair l
  obtain ⟨_, _, rfl⟩ := exists_pair i
  obtain ⟨_, _, rfl⟩ := exists_pair f
  obtain ⟨_, _, rfl⟩ := exists_pair c
  obtain ⟨_, _, _, _, rfl⟩ := exists_quad src
  obtain ⟨_, _, _, _, rfl⟩ := exists_quad dst
  rfl

/-- Bytes that are read as a header start with that header. -/
theorem Ipv4Header.ofBytes_eq_some {h : Ipv4Header} {s : List UInt8} (hs : ofBytes s = some h) :
    s = h.bytes ++ s.drop ipv4HeaderSize := by
  unfold ofBytes at hs
  split at hs
  · obtain rfl := Option.some.inj hs
    rfl
  · cases hs

theorem Ipv4Header.bytes_length (h : Ipv4Header) : h.bytes.length = ipv4HeaderSize := by
  simp [bytes, ipv4HeaderSize]

theorem Ipv4Header.bytes_protocol (h : Ipv4Header) (s : List UInt8) : (h.bytes ++ s)[9]? = some h.protocol := by
  obtain ⟨v, d, l, i, f, t, p, c, src, dst⟩ := h
  obtain ⟨_, _, rfl⟩ := exists_pair l
  obtain ⟨_, _, rfl⟩ := exists_pair i
  obtain ⟨_, _, rfl⟩ := exists_pair f
  rfl

/-- A UDP header is read back. -/
theorem UdpHeader.ofBytes_append (h : UdpHeader) (s : List UInt8) : ofBytes (h.bytes ++ s) = some h := by
  obtain ⟨src, dst, l, c⟩ := h
  obtain ⟨_, _, rfl⟩ := exists_pair src
  obtain ⟨_, _, rfl⟩ := exists_pair dst
  obtain ⟨_, _, rfl⟩ := exists_pair l
  obtain ⟨_, _, rfl⟩ := exists_pair c
  rfl

theorem UdpHeader.bytes_length (h : UdpHeader) : h.bytes.length = udpHeaderSize := by
  simp [bytes, udpHeaderSize]

/-! ## Sums -/

/-- A checksum counts in the sum of its header as the word it is. -/
theorem Ipv4Header.wordSum_checksum (h : Ipv4Header) (c : List.Vector UInt8 2) :
    wordSum { h with checksum := c }.bytes = wordSum { h with checksum := hton16 0 }.bytes + ntoh16 c := by
  obtain ⟨v, d, l, i, f, t, p, c', src, dst⟩ := h
  obtain ⟨_, _, rfl⟩ := exists_pair l
  obtain ⟨_, _, rfl⟩ := exists_pair i
  obtain ⟨_, _, rfl⟩ := exists_pair f
  obtain ⟨_, _, rfl⟩ := exists_pair c
  obtain ⟨_, _, _, _, rfl⟩ := exists_quad src
  obtain ⟨_, _, _, _, rfl⟩ := exists_quad dst
  simp only [bytes, List.Vector.toList, List.cons_append, List.nil_append, wordSum, hton16, ntoh16, List.Vector.get]
  simp
  omega

/-- A checksum counts in the sum of the UDP header as the word it is. -/
theorem UdpHeader.wordSum_checksum (h : UdpHeader) (c : List.Vector UInt8 2) :
    wordSum { h with checksum := c }.bytes = wordSum { h with checksum := hton16 0 }.bytes + ntoh16 c := by
  obtain ⟨src, dst, l, c'⟩ := h
  obtain ⟨_, _, rfl⟩ := exists_pair src
  obtain ⟨_, _, rfl⟩ := exists_pair dst
  obtain ⟨_, _, rfl⟩ := exists_pair l
  obtain ⟨_, _, rfl⟩ := exists_pair c
  simp only [bytes, List.Vector.toList, List.cons_append, List.nil_append, wordSum, hton16, ntoh16, List.Vector.get]
  simp
  omega

/-- **The header verifies**: with the checksum in its place the words sum to 65535. -/
theorem ipv4Checksum_verifies (h : Ipv4Header) (extra : List UInt8) :
    carried (wordSum { h with checksum := ipv4Checksum { h with checksum := hton16 0 } extra }.bytes + wordSum extra) = 65535 := by
  have hle := (carried_spec (wordSum { h with checksum := hton16 0 }.bytes + wordSum extra)).1
  rw [Ipv4Header.wordSum_checksum, ipv4Checksum, ntoh16_hton16 (by omega), Nat.add_right_comm]
  exact carried_complement _

theorem udpSum_checksum (h : UdpHeader) (c : List.Vector UInt8 2) (payload : List UInt8)
    (sourceAddr destAddr : List.Vector UInt8 4) :
    udpSum { h with checksum := c } payload sourceAddr destAddr =
      udpSum { h with checksum := hton16 0 } payload sourceAddr destAddr + ntoh16 c := by
  unfold udpSum
  rw [UdpHeader.wordSum_checksum]
  omega

/-- **The datagram verifies** with the addresses that its checksum was made for. -/
theorem udpChecksum_verifies (h : UdpHeader) (payload : List UInt8) (sourceAddr destAddr : List.Vector UInt8 4) :
    carried (udpSum
      { h with checksum := udpChecksum { h with checksum := hton16 0 } payload sourceAddr destAddr } payload sourceAddr
        destAddr) = 65535 := by
  have hpos : 0 < udpSum { h with checksum := hton16 0 } payload sourceAddr destAddr := by
    have hproto : wordSum (hton16 ipv4ProtocolUdp.toNat).toList = 17 := by decide
    unfold udpSum
    omega
  obtain ⟨hle, _, hcarried⟩ := carried_spec (udpSum { h with checksum := hton16 0 } payload sourceAddr destAddr)
  have hne := Nat.ne_of_gt (hcarried hpos)
  rw [udpSum_checksum, udpChecksum, if_neg hne, ntoh16_hton16 (by omega)]
  exact carried_complement _

/-! ## What the checks accept -/

/-- What the engine checks of an IPv4 packet. -/
theorem ipv4Check_eq_some {data body : List UInt8} {h : Ipv4Header} :
    ipv4Check data = some (h, body) ↔
      Ipv4Header.ofBytes data = some h ∧ h.version = 4 ∧ (ipv4HeaderSize ≤ h.headerLen ∧ h.headerLen ≤ data.length) ∧
        (h.headerLen ≤ ntoh16 h.totalLength ∧ ntoh16 h.totalLength ≤ data.length) ∧
          h.checksum = ipv4Checksum { h with checksum := hton16 0 }
            ((data.drop ipv4HeaderSize).take (h.headerLen - ipv4HeaderSize)) ∧
            (data.take (ntoh16 h.totalLength)).drop h.headerLen = body := by
  unfold ipv4Check
  rw [Option.bind_eq_some_iff]
  constructor
  · rintro ⟨h', hof, hrest⟩
    split at hrest
    · cases hrest
    · split at hrest
      · cases hrest
      · split at hrest
        · cases hrest
        · split at hrest
          · cases hrest
          · rename_i hversion hheader htotal hsum
            obtain ⟨rfl, rfl⟩ := Prod.mk.inj (Option.some.inj hrest)
            exact ⟨hof, not_not.mp hversion, by omega, by omega, not_not.mp hsum, rfl⟩
  · rintro ⟨hof, hversion, hheader, htotal, hsum, rfl⟩
    exact ⟨h, hof, by rw [if_neg (not_not_intro hversion), if_neg (by omega), if_neg (by omega), if_neg (not_not_intro hsum)]⟩

/-- What the engine checks of a datagram. -/
theorem udpCheck_eq_some {data payload : List UInt8} {u : UdpHeader} :
    udpCheck data = some (u, payload) ↔
      UdpHeader.ofBytes data = some u ∧ (udpHeaderSize ≤ ntoh16 u.length ∧ ntoh16 u.length ≤ data.length) ∧
        (data.take (ntoh16 u.length)).drop udpHeaderSize = payload := by
  unfold udpCheck
  rw [Option.bind_eq_some_iff]
  constructor
  · rintro ⟨u', hof, hrest⟩
    split at hrest
    · cases hrest
    · rename_i hlength
      obtain ⟨rfl, rfl⟩ := Prod.mk.inj (Option.some.inj hrest)
      exact ⟨hof, by omega, rfl⟩
  · rintro ⟨hof, hlength, rfl⟩
    exact ⟨u, hof, by rw [if_neg (by omega)]⟩

/-- A datagram with its length is read as it is. -/
theorem udpCheck_append {u : UdpHeader} {payload : List UInt8} (hlength : ntoh16 u.length = udpHeaderSize + payload.length) :
    udpCheck (u.bytes ++ payload) = some (u, payload) := by
  have hbody : (u.bytes ++ payload).length = udpHeaderSize + payload.length := by
    rw [List.length_append, u.bytes_length]
  refine udpCheck_eq_some.mpr ⟨u.ofBytes_append _, by omega, ?_⟩
  rw [List.take_of_length_le (by omega), List.drop_left' u.bytes_length]

end KiloProxy.Engine
