import KiloProxy.Text.Kotlin

/-!
# The start intent

`Utility.buildVpnIntent` from a profile and the global split-tunnel preferences, and
the places that send it. Two of those places first ask `isSplitIncludeEmpty`.
-/

namespace KiloProxy.Util
set_option autoImplicit false
open KiloProxy.Text

/-- What the getters of a `Profile` return. -/
structure ProfileValues where
  name : Str
  server : Str
  port : Int
  username : Str
  password : Str
  route : Str
  dns : Str
  dnsPort : Int
  isPerApp : Bool
  isBypassApp : Bool
  appList : Str
  hasIPv6 : Bool
  hasUDP : Bool
  udpgw : Str
  autoConnect : Bool
deriving DecidableEq, Repr

/-- The global split-tunnel preferences `PREF_ADV_*`. -/
structure SplitPrefs where
  perApp : Bool
  appBypass : Bool
  appList : Str
deriving DecidableEq, Repr

/-- The extras of a start intent; `none` is an absent extra. -/
structure VpnIntent where
  name : Option Str
  server : Option Str
  port : Option Int
  username : Option Str
  password : Option Str
  route : Option Str
  dns : Option Str
  dnsPort : Option Int
  perApp : Option Bool
  appBypass : Option Bool
  appList : Option (List Str)
  ipv6 : Option Bool
  udpgw : Option Str
deriving DecidableEq, Repr

/-- `split("\n").filter { it.isNotEmpty() }`. -/
def appLines (list : Str) : List Str := (split '\n' list).filter fun p => p ≠ []

def buildVpnIntent (prefs : SplitPrefs) (profile : ProfileValues) : VpnIntent :=
  let perApp := profile.isPerApp || prefs.perApp
  let (bypass, appList) :=
    if prefs.perApp then (prefs.appBypass, prefs.appList)
    else if profile.isPerApp then (profile.isBypassApp, profile.appList)
    else (false, [])
  { name := some profile.name
    server := some profile.server
    port := some profile.port
    username := some profile.username
    password := some profile.password
    route := some profile.route
    dns := some profile.dns
    dnsPort := some profile.dnsPort
    perApp := some perApp
    appBypass := if perApp then some bypass else none
    appList := if perApp then some (appLines appList) else none
    ipv6 := some profile.hasIPv6
    udpgw := if profile.hasUDP then some profile.udpgw else none }

/-- `VpnViewModel.isSplitIncludeEmpty`, and its copy in `FloatingControlService`. -/
def isSplitIncludeEmpty (prefs : SplitPrefs) : Bool :=
  if !prefs.perApp then false
  else if prefs.appBypass then false
  else ((split '\n' prefs.appList).map trim).filter (fun p => p ≠ []) == []

/-- The places that start the tunnel. -/
inductive StartPath where
  | connectButton
  | countriesTab
  | bubble
  | boot
  | systemStart
deriving DecidableEq, Repr

/-- Whether the place goes on to start the tunnel. `profiles` is the number of
registered profiles, the placeholder included. -/
def letsThrough (path : StartPath) (prefs : SplitPrefs) (profile : ProfileValues) (profiles : Nat) : Bool :=
  match path with
  | .connectButton => !isSplitIncludeEmpty prefs
  | .countriesTab => true
  | .bubble => decide (1 < profiles) && !isSplitIncludeEmpty prefs
  | .boot => profile.autoConnect
  | .systemStart => profile.server ≠ [] && profile.server ≠ "127.0.0.1".toList

end KiloProxy.Util
