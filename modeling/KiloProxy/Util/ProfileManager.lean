import KiloProxy.Run.System
import KiloProxy.Util.Profile

/-!
# `ProfileManager.kt` and `ProfileFactory.kt`

The registry of profile names over the profile preferences, and the weak cache through
which profiles are constructed: a `Profile` is built when none is cached for the name,
and a cached one may be collected at any time. `built` records the constructions; it is
no part of the program.
-/

namespace KiloProxy.Util
set_option autoImplicit false
open KiloProxy.Text KiloProxy.Store KiloProxy.Run

/-- `R.string.prof_default` -/
def profDefault : Str := "Default".toList
def prefProfile : Str := "profile".toList
def prefLastProfile : Str := "last_profile".toList

/-- `Utility.join`: every element with the separator behind it, less the last separator. -/
def join (list : List Str) (separator : Str) : Str :=
  if list = [] then []
  else
    let ret := list.flatMap fun s => s ++ separator
    ret.take (ret.length - separator.length)

/-- One run of the `Profile` constructor, with the names that were registered and alive. -/
structure Construction where
  name : Str
  registered : List Str
  alive : List Str
  before : ProfileStore
  after : ProfileStore

/-- `cached` are the names for which `ProfileFactory` holds a live profile. -/
structure ProfileManager where
  pref : ProfileStore
  mProfiles : List Str
  cached : List Str
  built : List Construction

namespace ProfileManager

/-- `mPref.getString(key, null)` -/
def getString (pref : ProfileStore) (key : Str) : Option Str :=
  match pref.get key with
  | some (.string s) => some s
  | _ => none

/-- The list `reload` builds from the preferences. -/
def storedProfiles (pref : ProfileStore) : List Str :=
  let raw := (getString pref prefProfile).getD []
  let profiles := if raw = [] then [] else (split '\n' raw).filter fun p => p ≠ []
  profDefault :: profiles.filter fun p => p ≠ profDefault

def reload (s : ProfileManager) : ProfileManager := { s with mProfiles := storedProfiles s.pref }

/-- `ProfileFactory.getProfile`. `all` lists the entries in iteration order. -/
def factoryGetProfile (s : ProfileManager) (all : List (Str × PrefValue)) (name : Str) : Option ProfileManager :=
  if name ∈ s.cached then some s
  else if all.Perm s.pref.list then
    let after := Profile.init s.pref all name
    some { s with
      pref := after
      cached := name :: s.cached
      built := s.built ++ [⟨name, s.mProfiles, s.cached, s.pref, after⟩] }
  else none

def getProfile (s : ProfileManager) (all : List (Str × PrefValue)) (name : Str) : Option ProfileManager :=
  if name ∈ s.mProfiles then s.factoryGetProfile all name else some s

/-- The name `getDefault` asks for. -/
def lastProfile (s : ProfileManager) : Str := (getString s.pref prefLastProfile).getD (s.mProfiles.headD profDefault)

/-- Throws, changing nothing, when the name is not registered. -/
def getDefault (s : ProfileManager) (all : List (Str × PrefValue)) : Option ProfileManager :=
  s.getProfile all s.lastProfile

/-- The name of the profile `getDefault` returns; an error is its throw. -/
def getDefaultResult (s : ProfileManager) : Except Unit Str :=
  if s.lastProfile ∈ s.mProfiles then .ok s.lastProfile else .error ()

def switchDefault (s : ProfileManager) (name : Str) : ProfileManager :=
  if name ∈ s.mProfiles then { s with pref := s.pref.edit [(prefLastProfile, some (.string name))] } else s

/-- What `addProfile` does before it asks for the default. -/
def register (s : ProfileManager) (name : Str) : ProfileManager :=
  let mProfiles := s.mProfiles ++ [name]
  { s with
    mProfiles := mProfiles
    pref := s.pref.edit
      [(prefProfile, some (.string (join (mProfiles.drop 1) ['\n']))), (prefLastProfile, some (.string name))] }.reload

def addProfile (s : ProfileManager) (all : List (Str × PrefValue)) (name : Str) : Option ProfileManager :=
  if name ∈ s.mProfiles then some s else (s.register name).getDefault all

/-- What `addProfile` returns: null for a name it has, else the default. -/
def addProfileResult (s : ProfileManager) (name : Str) : Except Unit (Option Str) :=
  if name ∈ s.mProfiles then .ok none else (s.register name).getDefaultResult.map some

/-- What `removeProfile` does with the profile it got. -/
def unregister (s : ProfileManager) (name : Str) : ProfileManager :=
  let mProfiles := s.mProfiles.erase name
  { s with
    mProfiles := mProfiles
    pref := (Profile.delete s.pref name).edit
      [(prefProfile, some (.string (join (mProfiles.drop 1) ['\n']))), (prefLastProfile, none)] }.reload

def removeProfile (s : ProfileManager) (all : List (Str × PrefValue)) (name : Str) : Option ProfileManager :=
  if name = s.mProfiles.headD profDefault ∨ name ∉ s.mProfiles then some s
  else (s.getProfile all name).map fun s => s.unregister name

/-- What `renameProfile` does with the old profile. -/
def rename (s : ProfileManager) (oldName newName : Str) : ProfileManager :=
  let pref := Profile.delete (Profile.copyTo s.pref oldName newName) oldName
  let mProfiles := s.mProfiles.set (s.mProfiles.idxOf oldName) newName
  let last := if getString pref prefLastProfile = some oldName then [(prefLastProfile, some (.string newName))] else []
  { s with
    mProfiles := mProfiles
    pref := pref.edit ((prefProfile, some (.string (join (mProfiles.drop 1) ['\n']))) :: last) }.reload

def renameProfile (s : ProfileManager) (all : List (Str × PrefValue)) (oldName newName : Str) :
    Option ProfileManager :=
  if oldName = newName ∨ oldName ∉ s.mProfiles ∨ oldName = s.mProfiles.headD profDefault ∨ newName ∈ s.mProfiles then
    some s
  else (s.getProfile all oldName).map fun s => s.rename oldName newName

/-- What `renameProfile` returns. -/
def renameProfileResult (s : ProfileManager) (oldName newName : Str) : Bool :=
  if oldName = newName then true
  else if oldName ∉ s.mProfiles then false
  else if oldName = s.mProfiles.headD profDefault ∨ newName ∈ s.mProfiles then false
  else true

/-- The calls on the registry and its profiles, and collections. -/
inductive Action where
  | getProfile (name : Str)
  | getDefault
  | addProfile (name : Str)
  | removeProfile (name : Str)
  | renameProfile (oldName newName : Str)
  | switchDefault (name : Str)
  | reload
  | setField (name : Str) (f : ProfileField) (v : PrefValue)
  | collect (name : Str)

/-- One call; the list is the iteration order of the store should a profile be built. -/
def step (s : ProfileManager) : Action × List (Str × PrefValue) → Option ProfileManager
  | (.getProfile name, all) => s.getProfile all name
  | (.getDefault, all) => s.getDefault all
  | (.addProfile name, all) => s.addProfile all name
  | (.removeProfile name, all) => s.removeProfile all name
  | (.renameProfile oldName newName, all) => s.renameProfile all oldName newName
  | (.switchDefault name, _) => some (s.switchDefault name)
  | (.reload, _) => some s.reload
  | (.setField name f v, _) =>
    if name ∈ s.cached ∧ f.accepts v = true then some { s with pref := Profile.setField s.pref name f v } else none
  | (.collect name, _) => some { s with cached := s.cached.filter fun n => n ≠ name }

/-- Any stored preferences, also of the old layout; nothing cached yet. -/
def system : System ProfileManager (Action × List (Str × PrefValue)) where
  init s := s.mProfiles = storedProfiles s.pref ∧ s.cached = [] ∧ s.built = []
  step := step

end ProfileManager

end KiloProxy.Util
