import KiloProxy.Text.Marked
import KiloProxy.Util.Countries

/-!
# `ProxyProviders.kt`

Which provider a username belongs to, which country it names and how a username for
another country is built. The regular expressions are all of the form
`^(.+)MARK([a-zA-Z]{2})(.*)$`; the Owl one has a lazy first group.
-/

namespace KiloProxy.Util.ProxyProviders
set_option autoImplicit false
open KiloProxy.Text

inductive ProviderType where
  | custom
  | owl
  | rapid
  | clip
  | ipdeep
  | generic
deriving DecidableEq, Repr

structure GenericParts where
  base : Str
  separator : Str
  upper : Bool
  country : Str
deriving DecidableEq, Repr

def zoneMark : Str := "_custom_zone_".toList
def residentialMark : Str := "-residential-".toList
def regionMark : Str := "-region-".toList
def resCountryMark : Str := "-res-country-".toList

/-- `Regex("^(.+)MARK([a-zA-Z]{2})(.*)$").find(username)`: its three groups. -/
def findGreedy (mark username : Str) : Option (Str × Str × Str) :=
  (lineBody username).bind (lastMark mark isLetter fun _ => true)

/-- The same with a lazy first group. -/
def findLazy (mark username : Str) : Option (Str × Str × Str) :=
  (lineBody username).bind (firstMark mark isLetter fun _ => true)

/-- `Regex("^(.+)MARK[a-zA-Z]{2}(.*)$").matches(username)`. -/
def matchesMark (mark username : Str) : Bool :=
  ((wholeLine username).bind (lastMark mark isLetter fun _ => true)).isSome

def hostEndsWith (host domain : Str) : Bool :=
  let h := lowercase (trim host)
  h == domain || endsWith h ('.' :: domain)

def label : ProviderType → Str
  | .owl => "OwlProxy".toList
  | .rapid => "RapidProxy".toList
  | .clip => "ClipProxy".toList
  | .ipdeep => "IpDeep".toList
  | .generic => "Custom".toList
  | .custom => "Custom".toList

def isOwl (host username : Str) : Bool :=
  hostEndsWith host "owlproxy.com".toList || decide (zoneMark <:+: username)

def isRapid (host username : Str) : Bool :=
  hostEndsWith host "rapidproxy.io".toList || matchesMark residentialMark username

def isClip (host username : Str) : Bool :=
  hostEndsWith host "cliproxy.io".toList || matchesMark regionMark username

def isIpDeep (host username : Str) : Bool :=
  hostEndsWith host "ipdeep.com".toList || matchesMark resCountryMark username

/-- The groups of `^(.+)([-_])([A-Za-z]{2})$`. -/
def genericGroups (username : Str) : Option (Str × Char × Str) :=
  (lineBody username).bind fun body =>
    match body.reverse with
    | y :: x :: sep :: b :: bs =>
      if isLetter x && isLetter y && (sep == '-' || sep == '_') then some ((b :: bs).reverse, sep, [x, y])
      else none
    | _ => none

def genericParts (username : Str) : Option GenericParts :=
  (genericGroups username).bind fun m =>
    let cc := uppercase m.2.2
    if cc ∈ Countries.codes then some ⟨m.1, [m.2.1], m.2.2.all isUpperAscii, cc⟩ else none

def detectType (host username : Str) : ProviderType :=
  if isOwl host username then .owl
  else if isRapid host username then .rapid
  else if isClip host username then .clip
  else if isIpDeep host username then .ipdeep
  else if (genericParts username).isSome then .generic
  else .custom

def parseCountry (username : Str) : ProviderType → Option Str
  | .owl => (findLazy zoneMark username).map (·.2.1)
  | .rapid => (findGreedy residentialMark username).map (·.2.1)
  | .clip => (findGreedy regionMark username).map (·.2.1)
  | .ipdeep => (findGreedy resCountryMark username).map (·.2.1)
  | .generic => (genericParts username).map (·.country)
  | .custom => none

def extractBase (username : Str) : ProviderType → Option Str
  | .owl => (findLazy zoneMark username).map (·.1)
  | .rapid => (findGreedy residentialMark username).map (·.1)
  | .clip => (findGreedy regionMark username).map (·.1)
  | .ipdeep => (findGreedy resCountryMark username).map (·.1)
  | .generic => (genericParts username).map (·.base)
  | .custom => none

def switchIpDeepCountry (username countryCode : Str) : Option Str :=
  (findGreedy resCountryMark username).map fun m => m.1 ++ (resCountryMark ++ (lowercase countryCode ++ m.2.2))

/-- `Regex("MARK(\\d+)").find(username)`: its group; `\d` takes the digits of any script. -/
def findDigits (mark : Str) : Str → Option Str
  | [] => none
  | c :: s =>
    let ds := ((c :: s).drop mark.length).takeWhile isDigit
    if mark.isPrefixOf (c :: s) && ds != [] then some ds else findDigits mark s

def sessionMark : Str := "-session-".toList
def sessionTimeMark : Str := "-sessiontime-".toList

def isIpDeepSticky (username : Str) : Bool := (findDigits sessionMark username).isSome

def ipdeepSessionId (username : Str) : Option Str := findDigits sessionMark username

def parseIpDeepTime (username : Str) : Option Int := (findDigits sessionTimeMark username).bind toIntOrNull

/-- `buildIpDeep`; `drawn` is the session number it draws when it is given none. -/
def buildIpDeep (base countryCode mode : Str) (time : Int) (sessionId : Option Str) (drawn : Nat) : Str :=
  let zone := base ++ (resCountryMark ++ lowercase countryCode)
  if mode ≠ "sticky".toList then zone
  else
    let sid := sessionId.getD (ofNat drawn)
    zone ++ (sessionMark ++ (sid ++ (sessionTimeMark ++ ofInt time)))

/-- `buildUsername`; `sid` is the session number it draws for a sticky Owl username. -/
def buildUsername (base : Str) (type : ProviderType) (countryCode mode : Str) (time : Int) (separator : Str)
    (upper : Bool) (sid : Nat) : Option Str :=
  match type with
  | .owl =>
    let zone := zoneMark ++ lowercase countryCode
    if mode = "sticky".toList then
      some (base ++ (zone ++ ("_st__city_sid_".toList ++ (ofNat sid ++ ("_time_".toList ++ ofInt time)))))
    else some (base ++ zone)
  | .rapid => some (base ++ (residentialMark ++ uppercase countryCode))
  | .clip => some (base ++ (regionMark ++ uppercase countryCode))
  | .ipdeep => some (base ++ (resCountryMark ++ lowercase countryCode))
  | .generic => some (base ++ (separator ++ if upper then uppercase countryCode else lowercase countryCode))
  | .custom => none

/-- `buildUsername` with its default arguments. -/
def buildDefault (base : Str) (type : ProviderType) (countryCode : Str) : Option Str :=
  buildUsername base type countryCode "unique".toList 5 ['-'] true 0

end KiloProxy.Util.ProxyProviders
