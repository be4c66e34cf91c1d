import KiloProxy.Engine.DnsGateway
import KiloProxy.Engine.Ipv6Packet
import KiloProxy.Engine.SocksUdpGwClient

/-!
# The device of `tun2socks.c`

A packet that the device reads goes to the DNS gateway, or as a datagram to the UDP gateway
client, or to lwIP. A datagram that comes back is written to the device as a packet from the
remote address to the local one. `none` is a failed assertion. The options `dnsgw` and
`udpgw_remote_server_addr` are given.
-/

namespace KiloProxy.Engine
set_option autoImplicit false
open KiloProxy.Run KiloProxy.Net

def defaultUdpgwMaxConnections : Nat := 256

/-- `udpgw_compute_mtu`: a header, the longer address and the data. -/
def udpgwComputeMtu (dgramMtu : Nat) : Nat := 4 + 18 + dgramMtu

/-- The options of the interface, and the MTU of the device. -/
structure DeviceOptions where
  netifIpaddr : List.Vector UInt8 4
  netifIp6addr : Bool
  udpgwTransparentDns : Bool
  deviceMtu : Nat
deriving DecidableEq

namespace DeviceOptions

variable (options : DeviceOptions)

/-- `udp_mtu`: the longest data of a datagram in one packet. -/
def udpMtu : Nat :=
  max (options.deviceMtu - (ipv4HeaderSize + udpHeaderSize))
    (if options.netifIp6addr then options.deviceMtu - (ipv6HeaderSize + udpHeaderSize) else 0)

/-- A packet of UDP over IPv6 whose checksum is right: its headers and its data. -/
def parseUdpIp6 (data : List UInt8) : Option (Ipv6Header × UdpHeader × List UInt8) :=
  if data.length < ipv6HeaderSize ∨ data[6]? ≠ some ipv6NextUdp then none
  else
    (ipv6Check data).bind fun (ipv6Header, data) => (udpCheck data).bind fun (udpHeader, data) =>
      if udpHeader.checksum ≠
          udpIp6Checksum { udpHeader with checksum := hton16 0 } data ipv6Header.sourceAddress
            ipv6Header.destinationAddress then none
      else some (ipv6Header, { udpHeader with checksum := hton16 0 }, data)

/-- The addresses, whether it is for the DNS server, and the data. -/
def parseDevicePacket (data : List UInt8) : Option (Conaddr × Bool × List UInt8) :=
  match (data.head?.getD 0).toNat / 16 with
  | 4 =>
    (DnsGateway.parseUdp data).map fun (ipv4Header, udpHeader, data) =>
      (⟨.ipv4 ipv4Header.sourceAddress udpHeader.sourcePort, .ipv4 ipv4Header.destinationAddress udpHeader.destPort⟩,
        options.udpgwTransparentDns ∧ ipv4Header.destinationAddress = options.netifIpaddr ∧ udpHeader.destPort = hton16 53,
        data)
  | 6 =>
    if ¬ options.netifIp6addr then none
    else
      (parseUdpIp6 data).map fun (ipv6Header, udpHeader, data) =>
        (⟨.ipv6 ipv6Header.sourceAddress udpHeader.sourcePort, .ipv6 ipv6Header.destinationAddress udpHeader.destPort⟩,
          false, data)
  | _ => none

/-- `process_device_udp_packet`, up to what is submitted. -/
def processDeviceUdpPacket (data : List UInt8) : Option (Conaddr × Bool × List UInt8) :=
  (parseDevicePacket options data).bind fun (conaddr, isDns, data) =>
    if options.udpMtu < data.length then none else some (conaddr, isDns, data)

end DeviceOptions

/-- A packet over IPv6 with its checksum. -/
def packetIp6 (ipv6Header : Ipv6Header) (udpHeader : UdpHeader) (data : List UInt8) : List UInt8 :=
  let udpHeader := { udpHeader with checksum := hton16 0 }
  let udpHeader :=
    { udpHeader with checksum := udpIp6Checksum udpHeader data ipv6Header.sourceAddress ipv6Header.destinationAddress }
  ipv6Header.bytes ++ udpHeader.bytes ++ data

/-- `read` are the packets that the device read, `lwip` those passed to lwIP, `written` the datagrams written to
the device; they are no part of the program. -/
structure Device where
  options : DeviceOptions
  dnsGateway : DnsGateway
  udpgwClient : SocksUdpGwClient
  read : List (List UInt8)
  lwip : List (List UInt8)
  written : List (List UInt8)

namespace Device

/-- `BTap_Send`. -/
def send (d : Device) (packet : List UInt8) : Option Device :=
  if d.options.deviceMtu < packet.length then none else some { d with written := d.written ++ [packet] }

/-- The headers of a datagram from the remote to the local address. -/
def ipv4HeaderOf (localIp remoteIp : List.Vector UInt8 4) (data : List UInt8) : Ipv4Header where
  version4Ihl4 := UInt8.ofNat (4 * 16 + ipv4HeaderSize / 4)
  ds := 0
  totalLength := hton16 (ipv4HeaderSize + udpHeaderSize + data.length)
  identification := hton16 0
  flags3Fragmentoffset13 := hton16 0
  ttl := 64
  protocol := ipv4ProtocolUdp
  checksum := hton16 0
  sourceAddress := remoteIp
  destinationAddress := localIp

def ipv6HeaderOf (localIp remoteIp : List.Vector UInt8 16) (data : List UInt8) : Ipv6Header where
  version4Tc4 := UInt8.ofNat (6 * 16)
  tc4Fl4 := 0
  fl := hton16 0
  payloadLength := hton16 (udpHeaderSize + data.length)
  nextHeader := ipv6NextUdp
  hopLimit := 64
  sourceAddress := remoteIp
  destinationAddress := localIp

def udpHeaderOf (localPort remotePort : List.Vector UInt8 2) (data : List UInt8) : UdpHeader where
  sourcePort := remotePort
  destPort := localPort
  length := hton16 (udpHeaderSize + data.length)
  checksum := hton16 0

def udpgwClientHandlerReceived (d : Device) (localAddr remoteAddr : BAddr) (data : List UInt8) : Option Device :=
  match localAddr, remoteAddr with
  | .ipv4 localIp localPort, .ipv4 remoteIp remotePort =>
    if 65535 - (ipv4HeaderSize + udpHeaderSize) < data.length ∨
        d.options.deviceMtu < ipv4HeaderSize + udpHeaderSize + data.length then some d
    else d.send (DnsGateway.packet (ipv4HeaderOf localIp remoteIp data) (udpHeaderOf localPort remotePort data) data)
  | .ipv6 localIp localPort, .ipv6 remoteIp remotePort =>
    if ¬ d.options.netifIp6addr then some d
    else if 65535 - udpHeaderSize < data.length ∨
        d.options.deviceMtu < ipv6HeaderSize + udpHeaderSize + data.length then some d
    else d.send (packetIp6 (ipv6HeaderOf localIp remoteIp data) (udpHeaderOf localPort remotePort data) data)
  | _, _ => none

/-- A call of the gateway client, and then the handler of what it received, if it did. -/
def client (d : Device) (a : SocksUdpGwClient.Call) : Option Device :=
  (d.udpgwClient.handle a).bind fun c =>
    match c.udpgwClient.received.drop d.udpgwClient.udpgwClient.received.length with
    | [] => some { d with udpgwClient := c }
    | (localAddr, remoteAddr, data) :: _ => udpgwClientHandlerReceived { d with udpgwClient := c } localAddr remoteAddr data

/-- `device_read_handler_send`; `room` tells whether the buffer of the connection has room. -/
def deviceReadHandlerSend (d : Device) (data : List UInt8) (room : Bool) : Option Device :=
  let d := { d with read := d.read ++ [data] }
  match d.dnsGateway.processDeviceDnsPacket data with
  | (true, dnsGateway) => some { d with dnsGateway := dnsGateway }
  | (false, dnsGateway) =>
    let d := { d with dnsGateway := dnsGateway }
    match d.options.processDeviceUdpPacket data with
    | some (conaddr, isDns, data) => d.client (.udpgw (.submit conaddr isDns data room))
    | none => some (if 65535 < data.length then d else { d with lwip := d.lwip ++ [data] })

/-- What `main` sets up, unless the MTU is too large. -/
def init (options : DeviceOptions) (dnsgw : Ipv4Addr) (authInfo : List AuthInfo) (remoteUdpgwAddr : BAddr) (ok : Bool) :
    Option Device :=
  if packetprotoMaxpayload < udpgwComputeMtu options.udpMtu then none
  else (SocksUdpGwClient.init authInfo remoteUdpgwAddr options.udpMtu defaultUdpgwMaxConnections ok).map fun udpgwClient =>
      ⟨options, .init dnsgw options.netifIpaddr, udpgwClient, [], [], []⟩

inductive Call where
  | read (data : List UInt8) (room : Bool)
  | client (a : SocksUdpGwClient.Call)
deriving DecidableEq

/-- The device reads packets up to its MTU, when no job is pending; only what it reads is submitted. -/
def Calls (d : Device) : Call → Prop
  | .read data _ => d.udpgwClient.udpgwClient.Idle ∧ data.length ≤ d.options.deviceMtu
  | .client (.udpgw (.submit _ _ _ _)) => False
  | .client a => d.udpgwClient.Calls a

instance (d : Device) (a : Call) : Decidable (d.Calls a) := by
  unfold Calls
  split <;> infer_instance

def handle (d : Device) : Call → Option Device
  | .read data room => d.deviceReadHandlerSend data room
  | .client a => d.client a

def system (options : DeviceOptions) (dnsgw : Ipv4Addr) (authInfo : List AuthInfo) (remoteUdpgwAddr : BAddr) :
    System Device Call where
  init d := ∃ ok, init options dnsgw authInfo remoteUdpgwAddr ok = some d
  step d a := if d.Calls a then d.handle a else none

end Device
end KiloProxy.Engine
