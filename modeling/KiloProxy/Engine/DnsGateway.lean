import KiloProxy.Engine.UdpPacket
import KiloProxy.Run.System
import KiloProxy.Store.Entries

/-!
# The DNS gateway of `tun2socks.c`

A packet of the device to port 53 goes to the gateway instead, as if it came from the
interface itself, and a packet from the gateway goes back as if the server that was asked had
sent it. What was asked is found by the port that asked; an entry counts the queries of its
port that have no reply. The option `dnsgw` is given, memory is not short and no count overflows.
-/

namespace KiloProxy.Engine
set_option autoImplicit false
open KiloProxy.Run KiloProxy.Net KiloProxy.Store

/-- `BAddr` of the type `BADDR_TYPE_IPV4`, the only one that is stored. -/
structure Ipv4Addr where
  ip : List.Vector UInt8 4
  port : List.Vector UInt8 2
deriving DecidableEq

/-- The addresses of a query, as the device wrote it. -/
structure Query where
  localAddr : Ipv4Addr
  remoteAddr : Ipv4Addr
deriving DecidableEq

/-- An entry of the tree, whose key is the port. -/
structure Connection where
  query : Query
  count : Nat
deriving DecidableEq

/-- A query that was passed on, or a reply that was, as one to a query. -/
inductive Passage where
  | query (q : Query)
  | reply (q : Query)
deriving DecidableEq

/-- `sent` is what was written to the device. `history` tells what was passed on; it is no part of the
program. -/
structure DnsGateway where
  dnsgw : Ipv4Addr
  netifIpaddr : List.Vector UInt8 4
  initialized : Bool
  connectionsTree : Entries (List.Vector UInt8 2) Connection
  sent : List (List UInt8)
  history : List Passage

namespace DnsGateway

variable (g : DnsGateway)

def findConnection (port : List.Vector UInt8 2) : Option Connection := g.connectionsTree.get port

def removeConnection (port : List.Vector UInt8 2) (con : Connection) : DnsGateway :=
  { g with
    connectionsTree :=
      if con.count - 1 = 0 then g.connectionsTree.remove port
      else g.connectionsTree.put port { con with count := con.count - 1 } }

def insertConnection (q : Query) (port : List.Vector UInt8 2) : DnsGateway :=
  { g with
    connectionsTree :=
      match g.findConnection port with
      | some con => g.connectionsTree.put port { con with count := con.count + 1 }
      | none => g.connectionsTree.put port ⟨q, 1⟩ }

/-- The addresses of a packet. -/
def queryOf (ipv4Header : Ipv4Header) (udpHeader : UdpHeader) : Query :=
  ⟨⟨ipv4Header.sourceAddress, udpHeader.sourcePort⟩, ⟨ipv4Header.destinationAddress, udpHeader.destPort⟩⟩

/-- A packet to port 53: its headers with the addresses changed. -/
def queryHeaders (ipv4Header : Ipv4Header) (udpHeader : UdpHeader) : Ipv4Header × UdpHeader × DnsGateway :=
  let q := queryOf ipv4Header udpHeader
  let g := { g with initialized := true, history := g.history ++ [Passage.query q] }
  ({ ipv4Header with destinationAddress := g.dnsgw.ip, sourceAddress := g.netifIpaddr },
    { udpHeader with destPort := g.dnsgw.port }, g.insertConnection q udpHeader.sourcePort)

/-- A packet from the gateway: its headers with the addresses restored, if its port has an entry. -/
def replyHeaders (ipv4Header : Ipv4Header) (udpHeader : UdpHeader) : Option (Ipv4Header × UdpHeader × DnsGateway) :=
  if ¬ g.initialized then none
  else
    (g.findConnection udpHeader.destPort).map fun con =>
      let g := { g with history := g.history ++ [Passage.reply con.query] }
      ({ ipv4Header with sourceAddress := con.query.remoteAddr.ip, destinationAddress := con.query.localAddr.ip },
        { udpHeader with sourcePort := con.query.remoteAddr.port }, g.removeConnection udpHeader.destPort con)

/-- A packet of UDP over IPv4 whose checksums are right: its headers and its data. -/
def parseUdp (data : List UInt8) : Option (Ipv4Header × UdpHeader × List UInt8) :=
  if data.length < ipv4HeaderSize ∨ data[9]? ≠ some ipv4ProtocolUdp then none
  else
    (ipv4Check data).bind fun (ipv4Header, data) => (udpCheck data).bind fun (udpHeader, data) =>
      if udpHeader.checksum ≠
          udpChecksum { udpHeader with checksum := hton16 0 } data ipv4Header.sourceAddress ipv4Header.destinationAddress then
        none
      else some (ipv4Header, { udpHeader with checksum := hton16 0 }, data)

/-- The packet with new checksums. -/
def packet (ipv4Header : Ipv4Header) (udpHeader : UdpHeader) (data : List UInt8) : List UInt8 :=
  let ipv4Header := { ipv4Header with checksum := hton16 0 }
  let ipv4Header := { ipv4Header with checksum := ipv4Checksum ipv4Header [] }
  let udpHeader := { udpHeader with checksum := hton16 0 }
  let udpHeader :=
    { udpHeader with checksum := udpChecksum udpHeader data ipv4Header.sourceAddress ipv4Header.destinationAddress }
  ipv4Header.bytes ++ udpHeader.bytes ++ data

/-- Was the packet dealt with? -/
def processDeviceDnsPacket (data : List UInt8) : Bool × DnsGateway :=
  if (data.head?.getD 0).toNat / 16 ≠ 4 then (false, g)
  else
    match parseUdp data with
    | none => (false, g)
    | some (ipv4Header, udpHeader, data) =>
      let toDns := udpHeader.destPort = hton16 53
      let fromDns := udpHeader.sourcePort = g.dnsgw.port
      if ¬ toDns ∧ ¬ fromDns then (false, g)
      else
        match if toDns then some (g.queryHeaders ipv4Header udpHeader) else g.replyHeaders ipv4Header udpHeader with
        | none => (false, g)
        | some (ipv4Header, udpHeader, g) => (true, { g with sent := g.sent ++ [packet ipv4Header udpHeader data] })

def init (dnsgw : Ipv4Addr) (netifIpaddr : List.Vector UInt8 4) : DnsGateway := ⟨dnsgw, netifIpaddr, false, .empty, [], []⟩

/-- The device reads packets. -/
def system (dnsgw : Ipv4Addr) (netifIpaddr : List.Vector UInt8 4) : System DnsGateway (List UInt8) where
  init g := g = init dnsgw netifIpaddr
  step g data := some (g.processDeviceDnsPacket data).2

end DnsGateway
end KiloProxy.Engine
