import KiloProxy.Run.System
import Mathlib.Data.Option.Basic
import Mathlib.Data.Vector.Basic

/-!
# `BSocksClient.c`

The SOCKS handshake of the native engine, driven by its connection: each message is sent as
a whole, and each reply is received piece by piece into the room that is left of it. After
an error was reported the client is freed and nothing is called any more.
-/

namespace KiloProxy.Engine
set_option autoImplicit false
open KiloProxy.Run

/-- `struct BSocksClient_auth_info`. -/
inductive AuthInfo where
  | none
  | password (username password : List UInt8)
deriving DecidableEq

def AuthInfo.authType : AuthInfo → UInt8
  | .none => 0x00
  | .password _ _ => 0x02

/-- `BAddr`; addresses and ports are in network order. -/
inductive BAddr where
  | ipv4 (ip : List.Vector UInt8 4) (port : List.Vector UInt8 2)
  | ipv6 (ip : List.Vector UInt8 16) (port : List.Vector UInt8 2)
deriving DecidableEq

namespace BSocksClient

inductive State where
  | connecting
  | sendingHello
  | sentHello
  | sendingPassword
  | sentPassword
  | sendingRequest
  | sentRequest
  | receivedReplyHeader
  | up
deriving DecidableEq

inductive Event where
  | error
  | up
  | errorClosed
deriving DecidableEq

end BSocksClient

open BSocksClient in
/-- `buffer` is what was received into the reply buffer, `recvLen` of the `recvTotal` bytes asked for
last. `sending` is the message that the send interface is busy with, `receiving` the room that the
receive interface was given; both interfaces belong to the client until it is up. `sent` and
`consumed` are what went out and what came in; they are no part of the program. -/
structure BSocksClient where
  authInfo : List AuthInfo
  destAddr : BAddr
  state : State
  buffer : List UInt8
  recvLen : Nat
  recvTotal : Nat
  sending : Option (List UInt8)
  receiving : Option Nat
  events : List Event
  sent : List UInt8
  consumed : List UInt8
deriving DecidableEq

namespace BSocksClient

def reportError (c : BSocksClient) (event : Event) : BSocksClient := { c with events := c.events ++ [event] }

/-- `PacketPassInterface_Sender_Send`, which is not called while it sends. -/
def senderSend (c : BSocksClient) (data : List UInt8) : Option BSocksClient :=
  if c.sending ≠ none then none else some { c with sending := some data }

/-- `StreamRecvInterface_Receiver_Recv`, which is not called while it receives, nor for no room. -/
def doReceive (c : BSocksClient) : Option BSocksClient :=
  if c.recvTotal ≤ c.recvLen ∨ c.receiving ≠ none then none
  else some { c with receiving := some (c.recvTotal - c.recvLen) }

def startReceive (c : BSocksClient) (total : Nat) : Option BSocksClient :=
  if total = 0 then none else doReceive { c with recvLen := 0, recvTotal := total }

/-- Hello, with the methods in the order of the list. -/
def helloBytes (authInfo : List AuthInfo) : List UInt8 :=
  [0x05, UInt8.ofNat authInfo.length] ++ authInfo.map AuthInfo.authType

def passwordBytes (username password : List UInt8) : List UInt8 :=
  [1, UInt8.ofNat username.length] ++ username ++ [UInt8.ofNat password.length] ++ password

def requestBytes : BAddr → List UInt8
  | .ipv4 ip port => [0x05, 0x01, 0, 0x01] ++ ip.toList ++ port.toList
  | .ipv6 ip port => [0x05, 0x01, 0, 0x04] ++ ip.toList ++ port.toList

def connectorHandler (c : BSocksClient) (isError : Bool) : Option BSocksClient :=
  if c.state ≠ .connecting then none
  else if isError ∨ c.authInfo = [] ∨ 255 < c.authInfo.length then some (c.reportError .error)
  else (c.senderSend (helloBytes c.authInfo)).map fun c => { c with state := .sendingHello }

def connectionHandler (c : BSocksClient) (recvClosed : Bool) : Option BSocksClient :=
  if c.state = .connecting then none
  else if c.state = .up ∧ recvClosed then some (c.reportError .errorClosed)
  else some (c.reportError .error)

def authFinished (c : BSocksClient) : Option BSocksClient :=
  (c.senderSend (requestBytes c.destAddr)).map fun c => { c with state := .sendingRequest }

/-- The lengths that a length byte can hold, and none of them empty. -/
def validLengths (username password : List UInt8) : Prop :=
  ¬ (username.length = 0 ∨ 255 < username.length ∨ password.length = 0 ∨ 255 < password.length)

instance (username password : List UInt8) : Decidable (validLengths username password) :=
  inferInstanceAs (Decidable (¬ _))

/-- The address behind a reply header. -/
def addrLen (atyp : UInt8) : Option Nat :=
  if atyp = 0x01 then some 6 else if atyp = 0x04 then some 18 else none

/-- The reply asked for is complete. -/
def received (c : BSocksClient) : Option BSocksClient :=
  match c.state, c.buffer with
  | .sentHello, ver :: method :: _ =>
    if ver ≠ 0x05 then some (c.reportError .error)
    else
      match c.authInfo.find? fun ai => ai.authType = method with
      | none => some (c.reportError .error)
      | some .none => c.authFinished
      | some (.password username password) =>
        if ¬ validLengths username password then some (c.reportError .error)
        else (c.senderSend (passwordBytes username password)).map fun c => { c with state := .sendingPassword }
  | .sentPassword, version :: status :: _ =>
    if version ≠ 1 then some (c.reportError .error)
    else if status ≠ 0 then some (c.reportError .error)
    else c.authFinished
  | .sentRequest, ver :: rep :: _ :: atyp :: _ =>
    if ver ≠ 0x05 then some (c.reportError .error)
    else if rep ≠ 0x00 then some (c.reportError .error)
    else
      match addrLen atyp with
      | none => some (c.reportError .error)
      | some len => (c.startReceive len).map fun c => { c with state := .receivedReplyHeader }
  | .receivedReplyHeader, _ => some { c with state := .up, buffer := [], events := c.events ++ [.up] }
  | _, _ => none

/-- `data` came in. -/
def recvHandlerDone (c : BSocksClient) (data : List UInt8) : Option BSocksClient :=
  if c.recvTotal - c.recvLen < data.length then none
  else
    let c := { c with
      receiving := none, recvLen := c.recvLen + data.length, buffer := c.buffer ++ data, consumed := c.consumed ++ data }
    if c.recvLen < c.recvTotal then c.doReceive else c.received

/-- The message went out, and its reply is received into a new buffer. -/
def wentOut (c : BSocksClient) (data : List UInt8) : BSocksClient :=
  { c with sending := none, sent := c.sent ++ data, buffer := [] }

def sendHandlerDone (c : BSocksClient) : Option BSocksClient :=
  c.sending.bind fun data =>
    let c := c.wentOut data
    match c.state with
    | .sendingHello => (c.startReceive 2).map fun c => { c with state := .sentHello }
    | .sendingPassword => (c.startReceive 2).map fun c => { c with state := .sentPassword }
    | .sendingRequest => (c.startReceive 4).map fun c => { c with state := .sentRequest }
    | _ => none

/-- The client as it is set up. -/
def init (authInfo : List AuthInfo) (destAddr : BAddr) : BSocksClient :=
  ⟨authInfo, destAddr, .connecting, [], 0, 0, none, none, [], [], []⟩

inductive Call where
  | connector (isError : Bool)
  | connection (recvClosed : Bool)
  | sendDone
  | recvDone (data : List UInt8)
deriving DecidableEq

/-- Something else than that it is up was reported. -/
def failed (c : BSocksClient) : Prop := Event.error ∈ c.events ∨ Event.errorClosed ∈ c.events

instance (c : BSocksClient) : Decidable c.failed := inferInstanceAs (Decidable (_ ∨ _))

/-- The connector reports once, the interfaces finish what they were asked to do, and nothing is called
after an error. -/
def Calls (c : BSocksClient) : Call → Prop
  | .connector _ => ¬ c.failed ∧ c.state = .connecting
  | .connection _ => ¬ c.failed ∧ c.state ≠ .connecting
  | .sendDone => ¬ c.failed ∧ c.sending ≠ none
  | .recvDone data => ¬ c.failed ∧ data ≠ [] ∧ ∃ room ∈ c.receiving, data.length ≤ room

instance (c : BSocksClient) (a : Call) : Decidable (c.Calls a) := by
  unfold Calls
  split <;> infer_instance

def handle (c : BSocksClient) : Call → Option BSocksClient
  | .connector isError => c.connectorHandler isError
  | .connection recvClosed => c.connectionHandler recvClosed
  | .sendDone => c.sendHandlerDone
  | .recvDone data => c.recvHandlerDone data

def system (authInfo : List AuthInfo) (destAddr : BAddr) : System BSocksClient Call where
  init c := c = init authInfo destAddr
  step c a := if c.Calls a then c.handle a else none

end BSocksClient
end KiloProxy.Engine
