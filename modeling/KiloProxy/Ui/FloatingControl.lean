import KiloProxy.Ui.VpnViewModel

/-!
# `FloatingControlService.kt`

The bubble's client of the service: its own state, which a poll moves, and the binding
with its rebind timer. The outcome of `bindService` is not looked at, so a bind that is
refused and one that is on its way look alike; `outstanding` records an accepted one of
which nothing was heard yet and is no part of the program. The service never overrides
`onBindingDied`.
-/

namespace KiloProxy.Ui
set_option autoImplicit false
open KiloProxy.Text KiloProxy.Vpn KiloProxy.Run

inductive BubbleState where
  | connecting
  | connected
  | disconnected
deriving DecidableEq, Repr

/-- `rebindRunnable` is the delay of the posted runnable, `connectTimeout` whether the
runnable of `startConnectTimeout` is posted, `polling` whether `pollRunnable` is. -/
structure FloatingControl where
  vpnService : Bool
  bound : Bool
  pendingProfile : Option Str
  state : BubbleState
  rebindAttempts : Nat
  rebindInFlight : Bool
  rebindRunnable : Option Nat
  connectTimeout : Bool
  polling : Bool
  outstanding : Bool
deriving DecidableEq, Repr

/-- What a poll meets: whether the VPN permission is there, whether a pending start goes
through, and what the binder answers. -/
structure Poll where
  prepared : Bool
  started : Bool
  reply : StateReply
deriving DecidableEq, Repr

namespace FloatingControl

/-- `onCreate`, past the overlay check. -/
def create (accepted : Bool) : FloatingControl where
  vpnService := false
  bound := false
  pendingProfile := none
  state := .disconnected
  rebindAttempts := 0
  rebindInFlight := false
  rebindRunnable := none
  connectTimeout := false
  polling := true
  outstanding := accepted

/-- `setState` -/
def setState (s : FloatingControl) (newState : BubbleState) : FloatingControl :=
  if s.state = newState then s
  else
    { s with
      state := newState
      connectTimeout := if newState = .connecting then true else if s.state = .connecting then false else s.connectTimeout }

/-- `bindToVpnService` -/
def bindToVpnService (s : FloatingControl) (accepted : Bool) : FloatingControl :=
  { s with outstanding := s.outstanding || accepted }

/-- `scheduleRebind` -/
def scheduleRebind (s : FloatingControl) : FloatingControl :=
  if s.rebindInFlight then s
  else
    { s with
      rebindInFlight := true
      rebindAttempts := s.rebindAttempts + 1
      rebindRunnable := some (rebindDelay (s.rebindAttempts + 1)) }

/-- The runnable `scheduleRebind` posts. -/
def fire (s : FloatingControl) (accepted : Bool) : Option FloatingControl :=
  s.rebindRunnable.map fun _ =>
    let s := { s with rebindRunnable := none, rebindInFlight := false }
    if !s.bound then
      let s := s.bindToVpnService accepted
      if !s.bound then s.scheduleRebind else s
    else s

/-- `onServiceConnected` -/
def onServiceConnected (s : FloatingControl) : FloatingControl :=
  { s with vpnService := true, bound := true, rebindAttempts := 0, outstanding := false }

/-- `onServiceDisconnected` -/
def onServiceDisconnected (s : FloatingControl) : FloatingControl :=
  { s with vpnService := false, bound := false, outstanding := false }.scheduleRebind

/-- `doStart` -/
def doStart (s : FloatingControl) (started : Bool) : FloatingControl :=
  let s := { s with pendingProfile := none }.setState .connecting
  if started then s else s.setState .disconnected

/-- The state a bundle asks for. -/
def follow (s : FloatingControl) (state : StateBundle) : FloatingControl :=
  if state.connected then s.setState .connected
  else if state.running then
    if s.state = .disconnected then s.setState .connecting else s
  else s.setState .disconnected

/-- The end of `pollState` when the binder throws. -/
def pollFailed (s : FloatingControl) : FloatingControl :=
  let s := { s with vpnService := false, bound := false }
  (if s.state = .connected then s.setState .disconnected else s).scheduleRebind

/-- `pollState` -/
def pollState (s : FloatingControl) (p : Poll) : FloatingControl :=
  if s.pendingProfile.isSome && p.prepared then s.doStart p.started
  else if !s.bound || !s.vpnService then
    if s.rebindAttempts = 0 then s.scheduleRebind else s
  else
    match p.reply with
    | .bundle state => s.follow state
    | .failed _ => s.pollFailed

inductive Event where
  | connected
  | disconnected
  | bindingDied
  | poll (p : Poll)
  | timer (accepted : Bool)
  | connectTimeout
deriving DecidableEq, Repr

def step (s : FloatingControl) : Event → Option FloatingControl
  | .connected => some s.onServiceConnected
  | .disconnected => some s.onServiceDisconnected
  | .bindingDied => some { s with outstanding := false }
  | .poll p => if s.polling then some (s.pollState p) else none
  | .timer accepted => s.fire accepted
  | .connectTimeout =>
    if s.connectTimeout then
      let s := { s with connectTimeout := false }
      some (if s.state = .connecting then s.setState .disconnected else s)
    else none

/-- The runs from the first bind on, accepted or refused. -/
def system : System FloatingControl Event where
  init s := ∃ accepted, s = create accepted
  step := step

end FloatingControl

end KiloProxy.Ui
