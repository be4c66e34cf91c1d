import KiloProxy.Util.Routes
import KiloProxy.Util.VpnIntent

/-!
# `SocksVpnService.configure`

The calls `configure` makes on `VpnService.Builder`, in order. The device is a
parameter: which packages are installed, which strings its address parser accepts and
as what. Adding a package that is not installed throws and changes nothing; an
`addDnsServer` argument that is no numeric address throws out of `configure`.
-/

namespace KiloProxy.Service
set_option autoImplicit false
open KiloProxy.Text KiloProxy.Util KiloProxy.Util.Routes

/-- A network address. -/
inductive InetAddr where
  | v4 (n : Nat)
  | v6 (n : Nat)
deriving DecidableEq, Repr

/-- What the platform decides. `parseNumeric` is the parser behind `addDnsServer` and
`addRoute`; the app itself is always installed. -/
structure Device where
  sdk : Nat
  packageName : Str
  installed : Str → Bool
  isNumericPlatform : Str → Bool
  parseNumeric : Str → Option InetAddr
  self_installed : installed packageName = true

/-- The state of a `VpnService.Builder`. -/
structure Builder where
  mtu : Int
  session : Str
  addresses : List (Str × Int)
  dnsServers : List Str
  metered : Bool
  routes : List (Str × Int)
  allowed : List Str
  disallowed : List Str

/-- The zeros of the decimal systems outside the basic plane, up to Unicode 10. -/
def supplementaryZeros : List Nat :=
  [0x104A0, 0x11066, 0x110F0, 0x11136, 0x111D0, 0x112F0, 0x11450, 0x114D0, 0x11650, 0x116C0, 0x11730, 0x118E0,
   0x11C50, 0x11D50, 0x16A60, 0x16B50, 0x1D7CE, 0x1D7D8, 0x1D7E2, 0x1D7EC, 0x1D7F6, 0x1E950]

/-- `\d`, which reads code points where `Char.isDigit()` reads UTF-16 units. -/
def regexDigit (c : Char) : Bool :=
  isDigit c || supplementaryZeros.any fun z => z ≤ c.toNat && c.toNat < z + 10

/-- `\d{1,3}` -/
def upToThreeDigits (s : Str) : Bool := 1 ≤ s.length && s.length ≤ 3 && s.all regexDigit

/-- The branch of `isNumericAddress` for devices before Android 10. -/
def isNumericFallback (value : Str) : Bool :=
  (let p := split '.' value; p.length == 4 && p.all upToThreeDigits) ||
    (value.contains ':' && value.all fun c => isDigit c || "abcdefABCDEF:.".toList.contains c)

def isNumericAddress (d : Device) (value : Str) : Bool :=
  if value = [] then false
  else if d.sdk ≥ 29 then d.isNumericPlatform value
  else isNumericFallback value

def hevDnsDefault : Str := "8.8.8.8".toList

/-- The DNS server of the hev path: the profile's when it is numeric and on port 53. -/
def hevDnsServer (d : Device) (mDns : Option Str) (mDnsPort : Int) : Str :=
  let configured := trim (mDns.getD [])
  if configured ≠ [] ∧ mDnsPort = 53 ∧ isNumericAddress d configured = true then configured
  else hevDnsDefault

namespace Builder

def addAddress (b : Builder) (address : Str) (len : Int) : Builder :=
  { b with addresses := b.addresses ++ [(address, len)] }

/-- Throws on a string that is no numeric address. -/
def addDnsServer (d : Device) (b : Builder) (server : Str) : Except Str Builder :=
  match d.parseNumeric server with
  | some _ => .ok { b with dnsServers := b.dnsServers ++ [server] }
  | none => .error "Not a numeric address".toList

def addRoute (b : Builder) (address : Str) (len : Int) : Builder :=
  { b with routes := b.routes ++ [(address, len)] }

/-- `addDisallowedApplication` inside its `try`: an unknown package changes nothing. -/
def addDisallowed (d : Device) (b : Builder) (p : Str) : Builder :=
  if d.installed p then { b with disallowed := b.disallowed ++ [p] } else b

/-- `addAllowedApplication` inside its `try`. -/
def addAllowed (d : Device) (b : Builder) (p : Str) : Builder :=
  if d.installed p then { b with allowed := b.allowed ++ [p] } else b

end Builder

/-- The application lists of `configure`. -/
def configureApps (d : Device) (b : Builder) (perApp bypass : Bool) (apps : Option (List Str)) : Builder :=
  if !perApp then b.addDisallowed d d.packageName
  else if bypass then
    (apps.getD []).foldl (fun b p => if p = [] then b else b.addDisallowed d (trimControl p))
      (b.addDisallowed d d.packageName)
  else
    (apps.getD []).foldl
      (fun b p => if p = [] ∨ trimControl p = d.packageName then b else b.addAllowed d (trimControl p)) b

/-- The routes of `configure`. -/
def configureRoutes (b : Builder) (mHev : Bool) (dnsServer : Str) (route : Option Str) (ipv6 : Bool) : Builder :=
  let b := if ipv6 then (b.addAddress "fdfe:dcba:9876::1".toList 126).addRoute "::".toList 0 else b
  if mHev then
    (addRoutes (route.getD routeAll) (some dnsServer)).foldl (fun b r => b.addRoute r.1 r.2) b
  else
    ((addRoutes (route.getD routeAll) none).foldl (fun b r => b.addRoute r.1 r.2) b).addRoute "8.8.8.8".toList 32

/-- `configure`, up to `establish()`. -/
def configure (d : Device) (mHev : Bool) (mDns : Option Str) (mDnsPort : Int)
    (name route : Option Str) (perApp bypass : Bool) (apps : Option (List Str)) (ipv6 : Bool) :
    Except Str Builder := do
  let dnsServer := if mHev then hevDnsServer d mDns mDnsPort else hevDnsDefault
  let b : Builder :=
    { mtu := 1500, session := name.getD "KiloProxy Pro".toList, addresses := [], dnsServers := [],
      metered := true, routes := [], allowed := [], disallowed := [] }
  let b ← (b.addAddress "10.10.10.1".toList 24).addDnsServer d dnsServer
  let b := if d.sdk ≥ 29 then { b with metered := false } else b
  let b := configureRoutes b mHev dnsServer route ipv6
  return configureApps d b perApp bypass apps

/-- `configure` on the extras of an intent, as `onStartCommand` calls it. -/
def configureIntent (d : Device) (mHev : Bool) (i : VpnIntent) : Except Str Builder :=
  configure d mHev i.dns (i.dnsPort.getD 53) i.name i.route (i.perApp.getD false) (i.appBypass.getD false)
    i.appList (i.ipv6.getD false)

end KiloProxy.Service
