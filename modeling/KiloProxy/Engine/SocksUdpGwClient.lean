import KiloProxy.Engine.UdpGwClient

/-!
# `SocksUdpGwClient.c`

The UDP gateway client over a SOCKS client that is made anew whenever it fails: it is set up,
or it is up and has the gateway client connected, or a timer runs until the next try. `none`
is a failed assertion. The gateway client keeps its connections over all of this.
-/

namespace KiloProxy.Engine
set_option autoImplicit false
open KiloProxy.Run

/-- `socksClient` is there when `have_socks` is set, and `haveServer` is that of the gateway client. -/
structure SocksUdpGwClient where
  authInfo : List AuthInfo
  remoteUdpgwAddr : BAddr
  socksClient : Option BSocksClient
  socksUp : Bool
  reconnectTimer : Bool
  udpgwClient : UdpGwClient
  haveServer : Bool

namespace SocksUdpGwClient

/-- `UdpGwClient_ConnectServer`, which may fail. -/
def connectServer (o : SocksUdpGwClient) (ok : Bool) : Option SocksUdpGwClient :=
  if o.haveServer then none else some { o with haveServer := ok }

/-- `UdpGwClient_DisconnectServer`. -/
def disconnectServer (o : SocksUdpGwClient) : Option SocksUdpGwClient :=
  if ¬ o.haveServer then none else some { o with haveServer := false }

def freeSocks (o : SocksUdpGwClient) : Option SocksUdpGwClient :=
  if o.socksClient.isNone then none
  else (if o.socksUp then o.disconnectServer else some o).map fun o => { o with socksClient := none }

/-- `BReactor_SetTimer`. -/
def setReconnectTimer (o : SocksUdpGwClient) : SocksUdpGwClient := { o with reconnectTimer := true }

/-- `ok` tells whether the SOCKS client could be set up. -/
def tryConnect (o : SocksUdpGwClient) (ok : Bool) : Option SocksUdpGwClient :=
  if o.socksClient.isSome ∨ o.reconnectTimer then none
  else if ok then some { o with socksClient := some (.init o.authInfo o.remoteUdpgwAddr), socksUp := false }
  else some o.setReconnectTimer

/-- The timer does not run any more when it calls. -/
def reconnectTimerHandler (o : SocksUdpGwClient) (ok : Bool) : Option SocksUdpGwClient :=
  if o.socksClient.isSome then none else tryConnect { o with reconnectTimer := false } ok

def socksClientHandler (o : SocksUdpGwClient) (event : BSocksClient.Event) (ok : Bool) : Option SocksUdpGwClient :=
  if o.socksClient.isNone then none
  else
    match event with
    | .up =>
      if o.socksUp then none
      else
        (o.connectServer ok).bind fun o =>
          if ok then some { o with socksUp := true } else o.freeSocks.map setReconnectTimer
    | .error | .errorClosed => o.freeSocks.map setReconnectTimer

def udpgwHandlerServererror (o : SocksUdpGwClient) : Option SocksUdpGwClient :=
  if o.socksClient.isNone ∨ ¬ o.socksUp then none else o.freeSocks.map setReconnectTimer

/-- `SocksUdpGwClient_Init`, when the gateway client could be set up. -/
def init (authInfo : List AuthInfo) (remoteUdpgwAddr : BAddr) (udpMtu maxConnections : Nat) (ok : Bool) :
    Option SocksUdpGwClient :=
  tryConnect ⟨authInfo, remoteUdpgwAddr, none, false, false, .init udpMtu maxConnections, false⟩ ok

/-- `ok` tells whether what is set up by the handler could be. -/
inductive Call where
  | socks (a : BSocksClient.Call) (ok : Bool)
  | serverError
  | timer (ok : Bool)
  | udpgw (a : UdpGwClient.Call)
deriving DecidableEq

/-- The SOCKS client and the server are called while they are there, the timer while it runs; packets come from
a server only. -/
def Calls (o : SocksUdpGwClient) : Call → Prop
  | .socks a _ => ∃ c ∈ o.socksClient, c.Calls a
  | .serverError => o.haveServer
  | .timer _ => o.reconnectTimer
  | .udpgw (.receive packet) => o.haveServer ∧ o.udpgwClient.Calls (.receive packet)
  | .udpgw a => o.udpgwClient.Calls a

instance (o : SocksUdpGwClient) (a : Call) : Decidable (o.Calls a) := by
  unfold Calls
  split <;> infer_instance

/-- A call of the SOCKS client, and then the handler of what it reported, if it did. -/
def socks (o : SocksUdpGwClient) (a : BSocksClient.Call) (ok : Bool) : Option SocksUdpGwClient :=
  o.socksClient.bind fun c => (c.handle a).bind fun c' =>
    match c'.events.drop c.events.length with
    | [] => some { o with socksClient := some c' }
    | event :: _ => socksClientHandler { o with socksClient := some c' } event ok

def handle (o : SocksUdpGwClient) : Call → Option SocksUdpGwClient
  | .socks a ok => o.socks a ok
  | .serverError => o.udpgwHandlerServererror
  | .timer ok => o.reconnectTimerHandler ok
  | .udpgw a => (o.udpgwClient.handle a).map fun udpgw => { o with udpgwClient := udpgw }

def system (authInfo : List AuthInfo) (remoteUdpgwAddr : BAddr) (udpMtu maxConnections : Nat) :
    System SocksUdpGwClient Call where
  init o := ∃ ok, init authInfo remoteUdpgwAddr udpMtu maxConnections ok = some o
  step o a := if o.Calls a then o.handle a else none

end SocksUdpGwClient

end KiloProxy.Engine
