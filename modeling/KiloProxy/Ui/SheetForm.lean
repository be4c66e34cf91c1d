import KiloProxy.Ui.ProxySheet
import KiloProxy.Ui.ProxyString

/-!
# The form of `AddEditProxySheet`

The fields of the sheet with the local functions that write them: the load of a profile, the
text fields, the paste, the country picked on the Countries tab, the mode and the stick time.
The last three rebuild the username from the parts the sheet holds (`syncUsernameFromUi`); `drawn`
is the session number a builder draws when it is given none.
-/

namespace KiloProxy.Ui
set_option autoImplicit false
open KiloProxy.Text KiloProxy.Util KiloProxy.Util.ProxyProviders

/-- The form state of the sheet. -/
structure SheetForm extends AddEditProxySheet where
  portText : Str
  username : Str
  password : Str
  isDefault : Bool
  credsModified : Bool
deriving DecidableEq, Repr

namespace SheetForm

/-- The remembered state when the sheet is opened. -/
def opened (profileName : Option Str) (provider initialName : Str) : SheetForm where
  provider := provider
  isEdit := profileName.isSome
  nameTouched := false
  syncing := false
  name := profileName.getD initialName
  host := []
  proxyType := if provider = "owl".toList then .owl else .custom
  selectedCountry := none
  owlMode := "unique".toList
  owlTime := 5
  ipdeepMode := "unique".toList
  ipdeepTime := 5
  portText := []
  username := []
  password := []
  isDefault := false
  credsModified := false

section Edits

variable (mProfiles : List Str) (drawn : Nat) (s : SheetForm)

/-- `detectFromUsername` on the form. -/
def detect (newVal : Str) : SheetForm :=
  { s with toAddEditProxySheet := detectFromUsername mProfiles s.toAddEditProxySheet newVal }

/-- `LaunchedEffect(profileName)` -/
def load (profileName : Str) (profile : SavedProxy) (isDefault : Bool) : SheetForm :=
  let s := { s with
    name := profileName
    host := profile.server
    portText := ofInt profile.port
    username := profile.username
    password := profile.password
    isDefault := isDefault }
  s.detect mProfiles s.username

/-- A rebuilt username. -/
def rebuilt (full : Str) : SheetForm := { s with username := full, credsModified := true }

def syncUsernameFromUi : SheetForm :=
  if s.syncing then s
  else
    match s.selectedCountry with
    | none => s
    | some code =>
      match s.proxyType with
      | .custom => s
      | .generic =>
        match genericParts s.username with
        | none => s
        | some parts =>
          match buildUsername parts.base .generic code "unique".toList 5 parts.separator parts.upper drawn with
          | none => s
          | some full => s.rebuilt full
      | .ipdeep =>
        match extractBase s.username .ipdeep with
        | none => s
        | some base =>
          if base = [] then s
          else s.rebuilt (buildIpDeep base code s.ipdeepMode s.ipdeepTime (ipdeepSessionId s.username) drawn)
      | t =>
        let base := (extractBase s.username t).getD s.username
        if base = [] then s
        else
          match buildUsername base t code s.owlMode s.owlTime ['-'] true drawn with
          | none => s
          | some full => s.rebuilt full

def onUsernameEdit (newVal : Str) : SheetForm := { s with username := newVal }.detect mProfiles newVal

def setMode (m : Str) : SheetForm :=
  let s : SheetForm := if s.proxyType = .ipdeep then { s with ipdeepMode := m } else { s with owlMode := m }
  s.syncUsernameFromUi drawn

def setTime (t : Int) : SheetForm :=
  let s : SheetForm := if s.proxyType = .ipdeep then { s with ipdeepTime := t } else { s with owlTime := t }
  s.syncUsernameFromUi drawn

/-- `LaunchedEffect(pickedCountry)` -/
def pickCountry (code : Str) : SheetForm :=
  { s with selectedCountry := Countries.codes.find? fun c => c = uppercase code }.syncUsernameFromUi drawn

/-- What a paste does to a sticky IpDeep username. -/
def pastedIpDeep : SheetForm :=
  if s.proxyType = .ipdeep then
    let s := { s with ipdeepMode := "unique".toList }
    match extractBase s.username s.proxyType, s.selectedCountry with
    | some base, some cc =>
      if base = [] then s
      else { s with
        username := buildIpDeep base cc "unique".toList s.ipdeepTime (ipdeepSessionId s.username) drawn }
    | _, _ => s
  else s

/-- What a paste does to a sticky Owl username. -/
def pastedOwl : SheetForm :=
  if s.proxyType = .owl then
    let s := { s with owlMode := "unique".toList }
    match findLazy zoneMark s.username with
    | none => s
    | some m =>
      if m.1 = [] then s
      else
        match buildUsername m.1 s.proxyType m.2.1 "unique".toList s.owlTime ['-'] true drawn with
        | none => s
        | some full => { s with username := full }
  else s

/-- `applyProxyString`; `none` where it returns `false`. -/
def applyProxyString (input : Str) : Option SheetForm :=
  (parseProxyString input).map fun parsed =>
    let s := { s with
      host := parsed[0]?.getD []
      portText := parsed[1]?.getD []
      username := parsed[2]?.getD []
      password := parsed[3]?.getD []
      credsModified := true }
    ((s.detect mProfiles s.username).pastedIpDeep drawn).pastedOwl drawn

/-- The host field takes a whole connection string too. -/
def onHostChange (newValue : Str) : SheetForm :=
  (s.applyProxyString mProfiles drawn newValue).getD
    ({ s with credsModified := true, host := newValue }.detect mProfiles s.username)

def onPortChange (newValue : Str) : SheetForm := { s with credsModified := true, portText := newValue }

def onUsernameChange (newValue : Str) : SheetForm := { s with credsModified := true }.onUsernameEdit mProfiles newValue

def onPasswordChange (newValue : Str) : SheetForm := { s with credsModified := true, password := newValue }

def onNameChange (newValue : Str) : SheetForm := { s with name := newValue, nameTouched := true }

end Edits

/-! ## What an edit does -/

/-- An edit of the form. -/
inductive Edit where
  | host (newValue : Str)
  | port (newValue : Str)
  | username (newValue : Str)
  | password (newValue : Str)
  | name (newValue : Str)
  | paste (clip : Str)
  | country (code : Str)
  | mode (m : Str)
  | time (t : Int)
deriving DecidableEq, Repr

def apply (mProfiles : List Str) (drawn : Nat) (s : SheetForm) : Edit → SheetForm
  | .host newValue => s.onHostChange mProfiles drawn newValue
  | .port newValue => s.onPortChange newValue
  | .username newValue => s.onUsernameChange mProfiles newValue
  | .password newValue => s.onPasswordChange newValue
  | .name newValue => s.onNameChange newValue
  | .paste clip => (s.applyProxyString mProfiles drawn clip).getD s
  | .country code => s.pickCountry drawn code
  | .mode m => s.setMode drawn m
  | .time t => s.setTime drawn t

section Modified

variable (drawn : Nat) {s : SheetForm}

/-- A rebuild writes the username and marks the credentials, or does nothing. -/
theorem sync_cases (s : SheetForm) :
    s.syncUsernameFromUi drawn = s ∨ ∃ full, s.syncUsernameFromUi drawn = s.rebuilt full := by
  unfold syncUsernameFromUi
  split
  · exact .inl rfl
  · split
    · exact .inl rfl
    · split
      · exact .inl rfl
      · split
        · exact .inl rfl
        · split
          · exact .inl rfl
          · exact .inr ⟨_, rfl⟩
      · split
        · exact .inl rfl
        · split
          · exact .inl rfl
          · exact .inr ⟨_, rfl⟩
      · simp only
        split
        · exact .inl rfl
        · split
          · exact .inl rfl
          · exact .inr ⟨_, rfl⟩

theorem sync_modified (h : s.credsModified = true) : (s.syncUsernameFromUi drawn).credsModified = true := by
  obtain he | ⟨full, he⟩ := sync_cases drawn s
  · rw [he, h]
  · rw [he]
    rfl

/-- Pasting an IpDeep string keeps the mark of modified credentials. -/
theorem pastedIpDeep_modified (h : s.credsModified = true) : (s.pastedIpDeep drawn).credsModified = true := by
  unfold pastedIpDeep
  split
  · dsimp only
    split
    · split
      · exact h
      · exact h
    · exact h
  · exact h

/-- Pasting an Owl string keeps the mark of modified credentials. -/
theorem pastedOwl_modified (h : s.credsModified = true) : (s.pastedOwl drawn).credsModified = true := by
  unfold pastedOwl
  split
  · dsimp only
    split
    · exact h
    · split
      · exact h
      · split
        · exact h
        · exact h
  · exact h

/-- A connection string that is taken over marks the credentials. -/
theorem applyProxyString_modified {mProfiles : List Str} {input : Str} {s' : SheetForm}
    (h : s.applyProxyString mProfiles drawn input = some s') : s'.credsModified = true := by
  obtain ⟨parsed, _, rfl⟩ := Option.map_eq_some_iff.mp h
  exact pastedOwl_modified drawn (pastedIpDeep_modified drawn rfl)

/-- **The mark stays.** -/
theorem apply_modified (mProfiles : List Str) (h : s.credsModified = true) (e : Edit) :
    (s.apply mProfiles drawn e).credsModified = true := by
  cases e with
  | host newValue =>
    rw [apply, onHostChange]
    cases happly : s.applyProxyString mProfiles drawn newValue with
    | none => rfl
    | some s' => exact applyProxyString_modified drawn happly
  | port newValue => rfl
  | username newValue => rfl
  | password newValue => rfl
  | name newValue => exact h
  | paste clip =>
    rw [apply]
    cases happly : s.applyProxyString mProfiles drawn clip with
    | none => exact h
    | some s' => exact applyProxyString_modified drawn happly
  | country code => exact sync_modified drawn h
  | mode m =>
    unfold apply setMode
    apply sync_modified
    split <;> exact h
  | time t =>
    unfold apply setTime
    apply sync_modified
    split <;> exact h

end Modified
end SheetForm
end KiloProxy.Ui
