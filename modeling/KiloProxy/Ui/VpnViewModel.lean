import KiloProxy.Vpn.PublishedState

/-!
# `VpnViewModel.kt`

The app's client of the service: the state flows that `syncState` and `clearState`
write, and the binding with its rebind timer. `outstanding` records a `bindService` that
was accepted and of which nothing was heard yet; it is no part of the program. A
callback that may call `bindService` takes the outcome of that call.
-/

namespace KiloProxy.Ui
set_option autoImplicit false
open KiloProxy.Text KiloProxy.Vpn KiloProxy.Run

/-- What a call of `vpnService.state` comes back with. -/
inductive StateReply where
  | bundle (state : StateBundle)
  | failed (message : Option Str)
deriving DecidableEq, Repr

/-- The runnables `rebindRunnable` refers to. -/
inductive Rebind where
  | retry
  | watchdog
deriving DecidableEq, Repr

/-- A posted runnable with its delay. -/
structure RebindTimer where
  runnable : Rebind
  delayMs : Nat
deriving DecidableEq, Repr

/-- The state flows about the running service. -/
structure Flows where
  isRunning : Bool
  proxyVerified : Bool
  isConnected : Bool
  connectRequested : Bool
  currentIp : Option Str
  countryCode : Option Str
  country : Option Str
  region : Option Str
  city : Option Str
  isp : Option Str
  org : Option Str
  asName : Option Str
  timezone : Option Str
  receivedBytes : Int
  sentBytes : Int
  connectedSince : Int
  errorMessage : Option Str
  activeProfileName : Option Str
  lastProfileName : Option Str
deriving DecidableEq, Repr

/-- The binding. `vpnService` says whether the binder is there. -/
structure Binding where
  vpnService : Bool
  bound : Bool
  rebinding : Bool
  cleared : Bool
  rebindRunnable : Option RebindTimer
  rebindAttempts : Nat
  outstanding : Bool
deriving DecidableEq, Repr

structure VpnViewModel extends Flows, Binding
deriving DecidableEq, Repr

/-- `orEmpty().ifEmpty { null }` -/
def nonEmpty (s : Str) : Option Str := if s = [] then none else some s

/-- The delay after so many refused binds, in both clients. -/
def rebindDelay (attempts : Nat) : Nat := if attempts ≤ 3 then 200 else if attempts ≤ 10 then 1000 else 3000

namespace Flows

/-- `isConnecting` -/
def isConnecting (f : Flows) : Bool := (f.isRunning && !f.isConnected) || (f.connectRequested && !f.isRunning)

/-- The part `clearState` and a stopped service share. -/
def blank (f : Flows) : Flows :=
  { f with
    currentIp := none, countryCode := none, country := none, region := none, city := none, isp := none, org := none,
    asName := none, timezone := none, connectedSince := 0, proxyVerified := false, isConnected := false,
    activeProfileName := none }

/-- `clearState` -/
def clearState (f : Flows) : Flows := { f.blank with connectRequested := false, isRunning := false }

/-- `syncState` on a bundle. -/
def sync (f : Flows) (state : StateBundle) : Flows :=
  let f := { f with
    isRunning := state.running
    proxyVerified := state.verified
    isConnected := state.connected
    errorMessage := if state.error ≠ [] then some state.error else none
    connectRequested := if state.error ≠ [] ∨ state.running = true then false else f.connectRequested }
  if state.running then
    { f with
      currentIp := nonEmpty state.ip
      countryCode := nonEmpty state.countryCode
      country := nonEmpty state.country
      region := nonEmpty state.region
      city := nonEmpty state.city
      isp := nonEmpty state.isp
      org := nonEmpty state.org
      asName := nonEmpty state.asName
      timezone := nonEmpty state.timezone
      receivedBytes := state.received
      sentBytes := state.sent
      connectedSince := state.connectedSince
      activeProfileName := if state.profile ≠ [] then some state.profile else f.activeProfileName
      lastProfileName := if state.profile ≠ [] then some state.profile else f.lastProfileName }
  else f.blank

/-- `syncState` past its null check. -/
def syncState (f : Flows) : StateReply → Flows
  | .bundle state => f.sync state
  | .failed message => { f.clearState with errorMessage := some (message.getD "VPN service error".toList) }

end Flows

namespace Binding

/-- `rebindHandler.postDelayed`, in place of the runnable posted before. -/
def post (b : Binding) (runnable : Rebind) (delayMs : Nat) : Binding :=
  { b with rebindRunnable := some ⟨runnable, delayMs⟩ }

/-- `bindToService` -/
def bindToService (b : Binding) (accepted : Bool) : Binding := { b with outstanding := b.outstanding || accepted }

/-- `scheduleRebind` -/
def scheduleRebind (b : Binding) (accepted : Bool) : Binding :=
  if b.cleared || b.rebinding then b
  else
    let b := { b with rebinding := true }.bindToService accepted
    if !accepted then
      let b := { b with rebinding := false, rebindAttempts := b.rebindAttempts + 1 }
      b.post .retry (rebindDelay b.rebindAttempts)
    else b.post .watchdog 2000

/-- `onServiceConnected` -/
def onServiceConnected (b : Binding) : Binding :=
  { b with
    vpnService := true, bound := true, rebinding := false, rebindAttempts := 0, rebindRunnable := none,
    outstanding := false }

/-- `onServiceDisconnected` and `onBindingDied`, which have the same body. -/
def onServiceDisconnected (b : Binding) (accepted : Bool) : Binding :=
  { b with vpnService := false, bound := false, rebinding := false, outstanding := false }.scheduleRebind accepted

/-- The posted runnable runs. -/
def fire (b : Binding) (accepted : Bool) : Option Binding :=
  b.rebindRunnable.map fun timer =>
    let b := { b with rebindRunnable := none }
    match timer.runnable with
    | .retry => if !b.cleared then b.scheduleRebind accepted else b
    | .watchdog => if !b.bound && !b.cleared then { b with rebinding := false }.scheduleRebind accepted else b

/-- `onCleared` -/
def onCleared (b : Binding) : Binding :=
  { b with
    cleared := true, rebindRunnable := none, rebinding := false, bound := false, vpnService := false,
    outstanding := false }

end Binding

namespace VpnViewModel

/-- `init`: nothing is known, and the first bind has been tried. -/
def create (accepted : Bool) : VpnViewModel where
  isRunning := false
  proxyVerified := false
  isConnected := false
  connectRequested := false
  currentIp := none
  countryCode := none
  country := none
  region := none
  city := none
  isp := none
  org := none
  asName := none
  timezone := none
  receivedBytes := 0
  sentBytes := 0
  connectedSince := 0
  errorMessage := none
  activeProfileName := none
  lastProfileName := none
  vpnService := false
  bound := false
  rebinding := false
  cleared := false
  rebindRunnable := none
  rebindAttempts := 0
  outstanding := accepted

/-- `syncState` -/
def syncState (s : VpnViewModel) (reply : StateReply) : VpnViewModel :=
  if s.vpnService then { s with toFlows := s.toFlows.syncState reply } else s

/-- One turn of the loop of `startPolling`. -/
def poll (s : VpnViewModel) (reply : StateReply) : VpnViewModel :=
  if s.bound && s.vpnService then s.syncState reply else { s with toFlows := s.toFlows.clearState }

/-- `stateReceiver`, with the error text of the broadcast. -/
def onReceive (s : VpnViewModel) (reply : StateReply) (error : Str) : VpnViewModel :=
  let s := s.syncState reply
  { s with errorMessage := if error ≠ [] then some error else s.errorMessage }

inductive Event where
  | connected (reply : StateReply)
  | disconnected (accepted : Bool)
  | bindingDied (accepted : Bool)
  | poll (reply : StateReply)
  | broadcast (reply : StateReply) (error : Str)
  | timer (accepted : Bool)
  | cleared
deriving DecidableEq, Repr

def step (s : VpnViewModel) : Event → Option VpnViewModel
  | .connected reply => some ({ s with toBinding := s.toBinding.onServiceConnected }.syncState reply)
  | .disconnected accepted => some { s with toBinding := s.toBinding.onServiceDisconnected accepted }
  | .bindingDied accepted => some { s with toBinding := s.toBinding.onServiceDisconnected accepted }
  | .poll reply => some (s.poll reply)
  | .broadcast reply error => some (s.onReceive reply error)
  | .timer accepted => (s.toBinding.fire accepted).map fun b => { s with toBinding := b }
  | .cleared => some { s with toBinding := s.toBinding.onCleared }

/-- The runs from the first bind on. -/
def system (accepted : Bool) : System VpnViewModel Event where
  init s := s = create accepted
  step := step

end VpnViewModel

end KiloProxy.Ui
