import KiloProxy.Store.Entries
import KiloProxy.Util.Preferences

/-!
# `Profile.kt`

The fifteen fields of a profile under its key prefix, and the migration of the old key
layout that the constructor runs. The old layout doubled `_` and wrote a blank as `_`;
the new one URL-encodes. The migration moves every key that starts with the old prefix,
in the iteration order of the store.
-/

namespace KiloProxy.Util
set_option autoImplicit false
open KiloProxy.Text KiloProxy.Store

/-- The profile preferences. -/
abbrev ProfileStore := Entries Str PrefValue

inductive ProfileField where
  | server
  | port
  | userpw
  | username
  | password
  | route
  | dns
  | dnsPort
  | perapp
  | appbypass
  | applist
  | ipv6
  | udp
  | udpgw
  | auto
deriving DecidableEq, Repr

namespace ProfileField

def all : List ProfileField :=
  [.server, .port, .userpw, .username, .password, .route, .dns, .dnsPort, .perapp, .appbypass, .applist, .ipv6,
   .udp, .udpgw, .auto]

theorem mem_all (f : ProfileField) : f ∈ all := by cases f <;> decide

/-- The field's part of its key. -/
def suffix : ProfileField → Str
  | .server => "server".toList
  | .port => "port".toList
  | .userpw => "userpw".toList
  | .username => "username".toList
  | .password => "password".toList
  | .route => "route".toList
  | .dns => "dns".toList
  | .dnsPort => "dns_port".toList
  | .perapp => "perapp".toList
  | .appbypass => "appbypass".toList
  | .applist => "applist".toList
  | .ipv6 => "ipv6".toList
  | .udp => "udp".toList
  | .udpgw => "udpgw".toList
  | .auto => "auto".toList

/-- What the getter returns when the key is absent. -/
def default : ProfileField → PrefValue
  | .server => .string "127.0.0.1".toList
  | .port => .int 1080
  | .userpw => .bool false
  | .username => .string []
  | .password => .string []
  | .route => .string "all".toList
  | .dns => .string "8.8.8.8".toList
  | .dnsPort => .int 53
  | .perapp => .bool false
  | .appbypass => .bool false
  | .applist => .string []
  | .ipv6 => .bool false
  | .udp => .bool false
  | .udpgw => .string "127.0.0.1:7300".toList
  | .auto => .bool false

/-- The setter of the field takes such a value. -/
def accepts (f : ProfileField) (v : PrefValue) : Bool :=
  match f.default, v with
  | .string _, .string _ => true
  | .int _, .int _ => true
  | .bool _, .bool _ => true
  | _, _ => false

theorem accepts_default (f : ProfileField) : f.accepts f.default = true := by cases f <;> rfl

end ProfileField

namespace Profile

/-- `prefPrefix` -/
def prefPrefix (name : Str) : Str := urlEncode name

/-- `mName.replace("_", "__").replace(" ", "_")` -/
def legacyPrefix (name : Str) : Str :=
  (name.flatMap fun c => if c = '_' then ['_', '_'] else [c]).map fun c => if c = ' ' then '_' else c

/-- `key` -/
def key (name : Str) (f : ProfileField) : Str := prefPrefix name ++ f.suffix

/-- The getter of a field. -/
def getField (pref : ProfileStore) (name : Str) (f : ProfileField) : PrefValue :=
  (pref.get (key name f)).getD f.default

/-- The setter of a field. -/
def setField (pref : ProfileStore) (name : Str) (f : ProfileField) (v : PrefValue) : ProfileStore :=
  pref.edit [(key name f, some v)]

/-- The move of one entry of the store, if its key starts with the old prefix. -/
def legacyMove (name : Str) (e : Str × PrefValue) : Option (Move Str PrefValue) :=
  if startsWith e.1 (legacyPrefix name) then
    some ⟨e.1, prefPrefix name ++ removePrefix e.1 (legacyPrefix name), e.2⟩
  else none

/-- The constructor. `all` lists the entries in iteration order. -/
def init (pref : ProfileStore) (all : List (Str × PrefValue)) (name : Str) : ProfileStore :=
  let legacy := legacyPrefix name
  if legacy ≠ prefPrefix name then
    if pref.contains (legacy ++ "server".toList) then pref.edit (movePuts (all.filterMap (legacyMove name)))
    else pref
  else pref

/-- `delete` -/
def delete (pref : ProfileStore) (name : Str) : ProfileStore :=
  pref.edit (ProfileField.all.map fun f => (key name f, none))

/-- `copyTo` -/
def copyTo (pref : ProfileStore) (name newName : Str) : ProfileStore :=
  pref.edit (ProfileField.all.filterMap fun f => (pref.get (key name f)).map fun v => (key newName f, some v))

end Profile

end KiloProxy.Util
