import KiloProxy.Engine.PacketProto
import KiloProxy.Engine.SocksClient
import KiloProxy.Net.Fields
import KiloProxy.Run.Search
import KiloProxy.Store.Recent

/-!
# `UdpGwClient.c` and `udpgw_proto.h`

Datagrams of many flows over one stream. A flow, the pair of a local and a remote address, is
a connection with a number of sixteen bits; when all are taken, the connection used least
recently is given to the new flow. `none` is a failed assertion; memory is not short.
-/

namespace KiloProxy.Engine
set_option autoImplicit false
open KiloProxy.Run KiloProxy.Net

/-! ## The format -/

def udpgwClientFlagRebind : UInt8 := 2
def udpgwClientFlagDns : UInt8 := 4
def udpgwClientFlagIpv6 : UInt8 := 8

/-- The address behind the header. -/
def BAddr.bytes : BAddr → List UInt8
  | .ipv4 ip port => ip.toList ++ port.toList
  | .ipv6 ip port => ip.toList ++ port.toList

def BAddr.isIpv6 : BAddr → Bool
  | .ipv4 _ _ => false
  | .ipv6 _ _ => true

/-- A packet of a connection: header, address and data. -/
def udpgwPacket (flags : UInt8) (conid : Nat) (remoteAddr : BAddr) (data : List UInt8) : List UInt8 :=
  let flags := if remoteAddr.isIpv6 then flags ||| udpgwClientFlagIpv6 else flags
  flags :: htol16 conid ++ (remoteAddr.bytes ++ data)

/-- The address that a packet with these flags has. -/
def parseAddr (flags : UInt8) (s : List UInt8) : Option (BAddr × List UInt8) :=
  if flags &&& udpgwClientFlagIpv6 ≠ 0 then
    (takeVector 16 s).bind fun (ip, s) => (takeVector 2 s).map fun (port, s) => (.ipv6 ip port, s)
  else
    (takeVector 4 s).bind fun (ip, s) => (takeVector 2 s).map fun (port, s) => (.ipv4 ip port, s)

/-- A packet of the server, as far as it is in the right form. -/
structure Datagram where
  flags : UInt8
  conid : Nat
  remoteAddr : BAddr
  data : List UInt8
deriving DecidableEq

def parseDatagram : List UInt8 → Option Datagram
  | flags :: a :: b :: s => (parseAddr flags s).map fun (addr, data) => ⟨flags, ltoh16 a b, addr, data⟩
  | _ => none

/-! ## The client -/

/-- `struct UdpGwClient_conaddr`. -/
structure Conaddr where
  localAddr : BAddr
  remoteAddr : BAddr
deriving DecidableEq

/-- `struct UdpGwClient_connection`; `firstJob` are the flags and the data of the first packet, until it
is sent. -/
structure UdpGwConnection where
  conaddr : Conaddr
  conid : Nat
  firstJob : Option (UInt8 × List UInt8)
deriving DecidableEq

/-- `connections` is the list, the least recently used first; the two trees hold the same connections.
`submitted`, `sent`, `arrived` and `received` are what came from the user, went to the server, came from
the server and went to the user, `uses` the flows in the order of use; they are no part of the program. -/
structure UdpGwClient where
  udpMtu : Nat
  maxConnections : Nat
  connections : List UdpGwConnection
  numConnections : Nat
  nextConid : Nat
  submitted : List (Conaddr × Bool × List UInt8)
  sent : List (List UInt8)
  arrived : List (List UInt8)
  received : List (BAddr × BAddr × List UInt8)
  uses : List Conaddr
deriving DecidableEq

namespace UdpGwClient

def findConnectionByConaddr (o : UdpGwClient) (conaddr : Conaddr) : Option UdpGwConnection :=
  o.connections.find? fun con => con.conaddr = conaddr

def findConnectionByConid (o : UdpGwClient) (conid : Nat) : Option UdpGwConnection :=
  o.connections.find? fun con => con.conid = conid

/-- The test of the loop: is the number taken? -/
def conidTaken (o : UdpGwClient) : Bool × UdpGwClient := ((o.findConnectionByConid o.nextConid).isSome, o)

/-- On to the next number. -/
def nextConnection (o : UdpGwClient) : UdpGwClient :=
  { o with nextConid := if o.nextConid = o.maxConnections - 1 then 0 else o.nextConid + 1 }

/-- Runs for at most `fuel` tests. -/
def findUnusedConid (fuel : Nat) (o : UdpGwClient) : Option (Nat × UdpGwClient) :=
  if o.maxConnections ≤ o.numConnections then none
  else (runWhile conidTaken nextConnection fuel o).map fun o => (o.nextConid, o)

/-- The packet is dropped when the buffer of the connection is full. -/
def connectionSend (o : UdpGwClient) (con : UdpGwConnection) (flags : UInt8) (data : List UInt8) (room : Bool) :
    Option UdpGwClient :=
  if o.udpMtu < data.length then none
  else if room then some { o with sent := o.sent ++ [udpgwPacket flags con.conid con.conaddr.remoteAddr data] }
  else some o

/-- A new connection goes into the list and the trees, which have no other with its keys. -/
def connectionInit (fuel : Nat) (o : UdpGwClient) (conaddr : Conaddr) (flags : UInt8) (data : List UInt8) :
    Option UdpGwClient :=
  if o.maxConnections ≤ o.numConnections ∨ (o.findConnectionByConaddr conaddr).isSome ∨ o.udpMtu < data.length then none
  else
    (findUnusedConid fuel o).bind fun (conid, o) =>
      if (o.findConnectionByConid conid).isSome then none
      else
        some { o with
          connections := o.connections ++ [⟨conaddr, conid, some (flags, data)⟩],
          numConnections := o.numConnections + 1 }

/-- `connection_first_job_handler` of the connection with a number. -/
def connectionFirstJob (o : UdpGwClient) (conid : Nat) (room : Bool) : Option UdpGwClient :=
  (o.findConnectionByConid conid).bind fun con => con.firstJob.bind fun (flags, data) =>
    connectionSend
      { o with connections := o.connections.map fun c => if c.conid = conid then { c with firstJob := none } else c }
      con (udpgwClientFlagRebind ||| flags) data room

/-- The connection used least recently gets the new flow. -/
def reuseConnection (o : UdpGwClient) (conaddr : Conaddr) : Option (UdpGwConnection × UdpGwClient) :=
  if (o.findConnectionByConaddr conaddr).isSome ∨ o.numConnections = 0 then none
  else
    match o.connections with
    | [] => none
    | con :: rest => some ({ con with conaddr := conaddr }, { o with connections := { con with conaddr := conaddr } :: rest })

/-- The connection with a number moves to the end of the list. -/
def moveToEnd (o : UdpGwClient) (con : UdpGwConnection) : UdpGwClient :=
  { o with connections := o.connections.filter (fun c => c.conid ≠ con.conid) ++ [con] }

def used (o : UdpGwClient) (conaddr : Conaddr) : UdpGwClient := { o with uses := o.uses ++ [conaddr] }

def submitting (o : UdpGwClient) (conaddr : Conaddr) (isDns : Bool) (data : List UInt8) : UdpGwClient :=
  { o.used conaddr with submitted := o.submitted ++ [(conaddr, isDns, data)] }

def submitPacket (fuel : Nat) (o : UdpGwClient) (conaddr : Conaddr) (isDns : Bool) (data : List UInt8) (room : Bool) :
    Option UdpGwClient :=
  if o.udpMtu < data.length then none
  else
    let o := o.submitting conaddr isDns data
    let flags := if isDns then udpgwClientFlagDns else 0
    match o.findConnectionByConaddr conaddr with
    | some con => (o.moveToEnd con).connectionSend con flags data room
    | none =>
      if o.numConnections = o.maxConnections then
        (o.reuseConnection conaddr).bind fun (con, o) =>
          (o.moveToEnd con).connectionSend con (flags ||| udpgwClientFlagRebind) data room
      else o.connectionInit fuel conaddr flags data

/-- `recv_interface_handler_send`: a packet of the server. -/
def recvInterfaceHandlerSend (o : UdpGwClient) (packet : List UInt8) : UdpGwClient :=
  let o := { o with arrived := o.arrived ++ [packet] }
  match parseDatagram packet with
  | none => o
  | some d =>
    if o.udpMtu < d.data.length then o
    else
      match o.findConnectionByConid d.conid with
      | none => o
      | some con =>
        if con.conaddr.remoteAddr ≠ d.remoteAddr then o
        else
          let o := (o.used con.conaddr).moveToEnd con
          { o with received := o.received ++ [(con.conaddr.localAddr, con.conaddr.remoteAddr, d.data)] }

/-- `UdpGwClient_Init`: no more connections than numbers. -/
def init (udpMtu maxConnections : Nat) : UdpGwClient where
  udpMtu := udpMtu
  maxConnections := min maxConnections 65536
  connections := []
  numConnections := 0
  nextConid := 0
  submitted := []
  sent := []
  arrived := []
  received := []
  uses := []

inductive Call where
  | submit (conaddr : Conaddr) (isDns : Bool) (data : List UInt8) (room : Bool)
  | firstJob (conid : Nat) (room : Bool)
  | receive (packet : List UInt8)
deriving DecidableEq

/-- No first job is pending. -/
def Idle (o : UdpGwClient) : Prop := ∀ con ∈ o.connections, con.firstJob = none

/-- A job that is pending runs before the next packet is handled. The user submits no more than the MTU. -/
def Calls (o : UdpGwClient) : Call → Prop
  | .submit _ _ data _ => o.Idle ∧ data.length ≤ o.udpMtu
  | .firstJob conid _ => ∃ con ∈ o.connections, con.conid = conid ∧ con.firstJob ≠ none
  | .receive _ => o.Idle

instance (o : UdpGwClient) : Decidable o.Idle := by
  unfold Idle
  infer_instance

instance (o : UdpGwClient) (a : Call) : Decidable (o.Calls a) := by
  unfold Calls
  split <;> infer_instance

/-- The loop is given one test more than there are numbers. -/
def handle (o : UdpGwClient) : Call → Option UdpGwClient
  | .submit conaddr isDns data room => o.submitPacket (o.maxConnections + 1) conaddr isDns data room
  | .firstJob conid room => o.connectionFirstJob conid room
  | .receive packet => some (o.recvInterfaceHandlerSend packet)

def system (udpMtu maxConnections : Nat) : System UdpGwClient Call where
  init o := o = init udpMtu maxConnections
  step o a := if o.Calls a then o.handle a else none

end UdpGwClient
end KiloProxy.Engine
