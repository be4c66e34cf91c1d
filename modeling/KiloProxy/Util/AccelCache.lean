import KiloProxy.Text.UrlEncode

/-!
# The accelerator caches

`accel_dns.json` holds the last resolution, `accel_ip.json` the last verified exit
address. A file is modelled by the object it holds; an unreadable one is `none`.
-/

namespace KiloProxy.Util
set_option autoImplicit false
open KiloProxy.Text

/-- `IpInfo` -/
structure IpInfo where
  ip : Str
  countryCode : Str
  country : Str
  regionName : Str
  city : Str
  isp : Str
  org : Str
  asName : Str
  timezone : Str
deriving DecidableEq, Repr

/-- The object in `accel_dns.json`. -/
structure AccelDns where
  host : Str
  ip : Str
  time : Int
deriving DecidableEq, Repr

/-- The object in `accel_ip.json`. -/
structure AccelIp where
  key : Str
  time : Int
  info : IpInfo
deriving DecidableEq, Repr

def accelDnsTtlMs : Int := 10 * 60 * 1000
def accelIpTtlMs : Int := 24 * 60 * 60 * 1000

/-- `accelKey` -/
def accelKey (server : Option Str) (port : Int) (username : Option Str) : Str :=
  urlEncode (server.getD [] ++ ':' :: (ofInt port ++ ':' :: username.getD []))

/-- `readAccelDns`; `numeric` is `isNumericAddress`. -/
def readAccelDns (numeric : Str → Bool) (now : Int) (file : Option AccelDns) (host : Str) : Option Str :=
  match file with
  | none => none
  | some o =>
    if o.host ≠ host then none
    else
      let age := long (now - o.time)
      if age < 0 ∨ accelDnsTtlMs < age then none else if numeric o.ip then some o.ip else none

/-- The file after `resolveHost` answered `ip` for `host`. -/
def writeAccelDns (numeric : Str → Bool) (now : Int) (file : Option AccelDns) (host : Str) (ip : Option Str) :
    Option AccelDns :=
  match ip with
  | some ip => if numeric ip then some ⟨host, ip, now⟩ else file
  | none => file

/-- `loadAccelIp` -/
def loadAccelIp (now : Int) (file : Option AccelIp) (key : Str) : Option IpInfo :=
  match file with
  | none => none
  | some o =>
    if o.key ≠ key then none
    else
      let age := long (now - o.time)
      if age < 0 ∨ accelIpTtlMs < age then none else if o.info.ip = [] then none else some o.info

end KiloProxy.Util
