import KiloProxy.Engine.UdpPacket

/-!
# `ipv6_proto.h` and UDP over IPv6

The header as it is copied from a packet, its check, and the checksum of a datagram, whose
length and protocol are words of thirty-two bits here.
-/

namespace KiloProxy.Engine
set_option autoImplicit false
open KiloProxy.Net

def ipv6NextUdp : UInt8 := 17

/-- `struct ipv6_header`, in network order. -/
structure Ipv6Header where
  version4Tc4 : UInt8
  tc4Fl4 : UInt8
  fl : List.Vector UInt8 2
  payloadLength : List.Vector UInt8 2
  nextHeader : UInt8
  hopLimit : UInt8
  sourceAddress : List.Vector UInt8 16
  destinationAddress : List.Vector UInt8 16
deriving DecidableEq

namespace Ipv6Header

def ofBytes : List UInt8 → Option Ipv6Header
  | v :: t :: f₀ :: f₁ :: l₀ :: l₁ :: n :: h :: s =>
    (takeVector 16 s).bind fun (source, s) => (takeVector 16 s).map fun (destination, _) =>
      ⟨v, t, .cons f₀ (.cons f₁ .nil), .cons l₀ (.cons l₁ .nil), n, h, source, destination⟩
  | _ => none

def bytes (h : Ipv6Header) : List UInt8 :=
  h.version4Tc4 :: h.tc4Fl4 :: (h.fl.toList ++ (h.payloadLength.toList ++
    h.nextHeader :: h.hopLimit :: (h.sourceAddress.toList ++ h.destinationAddress.toList)))

def version (h : Ipv6Header) : Nat := h.version4Tc4.toNat / 16

end Ipv6Header

/-- `sizeof(struct ipv6_header)`. -/
def ipv6HeaderSize : Nat := 40

/-- The header and the payload; extension headers are not looked at. -/
def ipv6Check (data : List UInt8) : Option (Ipv6Header × List UInt8) :=
  (Ipv6Header.ofBytes data).bind fun header =>
    if header.version ≠ 6 then none
    else if data.length - ipv6HeaderSize < ntoh16 header.payloadLength then none
    else some (header, (data.drop ipv6HeaderSize).take (ntoh16 header.payloadLength))

/-- The sum of the addresses, the length, the protocol, the header and the payload. -/
def udpIp6Sum (header : UdpHeader) (payload : List UInt8) (sourceAddr destAddr : List.Vector UInt8 16) : Nat :=
  wordSum sourceAddr.toList + wordSum destAddr.toList + wordSum (hton32 (udpHeaderSize + payload.length)).toList +
    wordSum (hton32 ipv6NextUdp.toNat).toList + wordSum header.bytes + udpPayloadSum payload

def udpIp6Checksum (header : UdpHeader) (payload : List UInt8) (sourceAddr destAddr : List.Vector UInt8 16) :
    List.Vector UInt8 2 :=
  let t := carried (udpIp6Sum header payload sourceAddr destAddr)
  hton16 (65535 - if t = 0 then 65535 else t)

/-! ## Copies -/

/-- A header is read back from the bytes it was written as. -/
theorem Ipv6Header.ofBytes_append (h : Ipv6Header) (s : List UInt8) : ofBytes (h.bytes ++ s) = some h := by
  obtain ⟨v, t, f, l, n, hop, source, destination⟩ := h
  obtain ⟨f₀, f₁, rfl⟩ := exists_pair f
  obtain ⟨l₀, l₁, rfl⟩ := exists_pair l
  have hsplit : (bytes ⟨v, t, ⟨[f₀, f₁], rfl⟩, ⟨[l₀, l₁], rfl⟩, n, hop, source, destination⟩ ++ s) =
      v :: t :: f₀ :: f₁ :: l₀ :: l₁ :: n :: hop :: (source.toList ++ (destination.toList ++ s)) := by
    simp [bytes, List.append_assoc]
  rw [hsplit]
  show (takeVector 16 (source.toList ++ (destination.toList ++ s))).bind _ = _
  rw [takeVector_append, Option.bind_some]
  show (takeVector 16 (destination.toList ++ s)).map _ = _
  rw [takeVector_append, Option.map_some]
  rfl

theorem Ipv6Header.bytes_length (h : Ipv6Header) : h.bytes.length = ipv6HeaderSize := by
  simp [bytes, ipv6HeaderSize]

theorem Ipv6Header.bytes_nextHeader (h : Ipv6Header) (s : List UInt8) : (h.bytes ++ s)[6]? = some h.nextHeader := by
  obtain ⟨v, t, f, l, n, hop, source, destination⟩ := h
  obtain ⟨_, _, rfl⟩ := exists_pair f
  obtain ⟨_, _, rfl⟩ := exists_pair l
  rfl

/-- The engine accepts a header with its body. -/
theorem ipv6Check_append {h : Ipv6Header} (hversion : h.version = 6) {body : List UInt8}
    (hlength : ntoh16 h.payloadLength = body.length) : ipv6Check (h.bytes ++ body) = some (h, body) := by
  have hsub : (h.bytes ++ body).length - ipv6HeaderSize = body.length := by
    rw [List.length_append, h.bytes_length]
    omega
  unfold ipv6Check
  rw [h.ofBytes_append, Option.bind_some, if_neg (not_not_intro hversion), if_neg (by omega),
    List.drop_left' h.bytes_length, List.take_of_length_le (by omega)]

end KiloProxy.Engine
