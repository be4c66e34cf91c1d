import KiloProxy.Service.Configure

/-!
# The app's own traffic and the tunnel

With at least one allowed application only the allowed ones are tunnelled, otherwise
everything not disallowed is. The app must stay outside: its engines reach the proxy
over the real network. Outside Include mode `configure` disallows the app itself;
in Include mode it relies on some other application being allowed, which the
`isSplitIncludeEmpty` guard of two of the start paths does not ensure.
-/

namespace KiloProxy.Service
set_option autoImplicit false
open KiloProxy.Text KiloProxy.Util KiloProxy.Util.Routes

/-- The app is outside the tunnel that `b` describes. -/
def OwnOutside (d : Device) (b : Builder) : Prop :=
  if b.allowed ≠ [] then d.packageName ∉ b.allowed else d.packageName ∈ b.disallowed

instance (d : Device) (b : Builder) : Decidable (OwnOutside d b) := by
  unfold OwnOutside; infer_instance

/-- The application list in force when the tunnel is in Include mode. -/
def includeList (prefs : SplitPrefs) (profile : ProfileValues) : Option Str :=
  if prefs.perApp then (if prefs.appBypass then none else some prefs.appList)
  else if profile.isPerApp then (if profile.isBypassApp then none else some profile.appList)
  else none

/-- Some listed application other than the app itself is installed. -/
def SomeOtherApp (d : Device) (list : Str) : Prop :=
  ∃ p ∈ appLines list, trimControl p ≠ d.packageName ∧ d.installed (trimControl p) = true

theorem addDisallowed_self (d : Device) (b : Builder) :
    b.addDisallowed d d.packageName = { b with disallowed := b.disallowed ++ [d.packageName] } := by
  rw [Builder.addDisallowed, if_pos d.self_installed]

/-- The Bypass loop only adds to the disallowed list. -/
theorem bypass_keeps (d : Device) (apps : List Str) (b : Builder) :
    let b' := apps.foldl (fun b p => if p = [] then b else b.addDisallowed d (trimControl p)) b
    b'.allowed = b.allowed ∧ ∀ q ∈ b.disallowed, q ∈ b'.disallowed := by
  induction apps generalizing b with
  | nil => exact ⟨rfl, fun _ h => h⟩
  | cons p rest ih =>
    simp only [List.foldl_cons]
    obtain ⟨hallowed, hkeep⟩ := ih (if p = [] then b else b.addDisallowed d (trimControl p))
    rw [hallowed]
    unfold Builder.addDisallowed at *
    constructor
    · split
      · rfl
      · split <;> rfl
    · intro q hq
      apply hkeep
      split
      · exact hq
      · split
        · exact List.mem_append_left _ hq
        · exact hq

/-- What the Include loop allows: the installed other applications of the list. -/
theorem include_allowed (d : Device) (apps : List Str) (b : Builder) :
    let b' := apps.foldl
      (fun b p => if p = [] ∨ trimControl p = d.packageName then b else b.addAllowed d (trimControl p)) b
    b'.disallowed = b.disallowed ∧ ∀ q, q ∈ b'.allowed ↔ q ∈ b.allowed ∨
      ∃ p ∈ apps, p ≠ [] ∧ trimControl p ≠ d.packageName ∧ d.installed (trimControl p) = true ∧ q = trimControl p := by
  induction apps generalizing b with
  | nil => exact ⟨rfl, fun q => by simp⟩
  | cons p rest ih =>
    simp only [List.foldl_cons]
    obtain ⟨hdis, hall⟩ := ih (if p = [] ∨ trimControl p = d.packageName then b else b.addAllowed d (trimControl p))
    constructor
    · rw [hdis]
      unfold Builder.addAllowed
      split
      · rfl
      · split <;> rfl
    · intro q
      rw [hall q]
      simp only [List.mem_cons, exists_eq_or_imp]
      unfold Builder.addAllowed
      split
      · rename_i hskip
        constructor
        · rintro (h | h)
          · exact .inl h
          · exact .inr (.inr h)
        · rintro (h | ⟨hne, hother, _⟩ | h)
          · exact .inl h
          · exact (hskip.elim hne hother).elim
          · exact .inr h
      · rename_i hkeep
        rw [not_or] at hkeep
        split
        · rename_i hinst
          simp only [List.mem_append, List.mem_singleton]
          constructor
          · rintro ((h | h) | h)
            · exact .inl h
            · exact .inr (.inl ⟨hkeep.1, hkeep.2, hinst, h⟩)
            · exact .inr (.inr h)
          · rintro (h | ⟨_, _, _, h⟩ | h)
            · exact .inl (.inl h)
            · exact .inl (.inr h)
            · exact .inr h
        · rename_i hmissing
          constructor
          · rintro (h | h)
            · exact .inl h
            · exact .inr (.inr h)
          · rintro (h | ⟨_, _, hinst, _⟩ | h)
            · exact .inl h
            · exact (hmissing hinst).elim
            · exact .inr h

/-- Without per-app mode the app is disallowed by name. -/
theorem configureApps_off (d : Device) (b : Builder) (bypass : Bool) (apps : Option (List Str))
    (hb : b.allowed = []) : OwnOutside d (configureApps d b false bypass apps) := by
  simp [OwnOutside, configureApps, addDisallowed_self, hb]

/-- So it is in Bypass mode. -/
theorem configureApps_bypass (d : Device) (b : Builder) (apps : Option (List Str)) (hb : b.allowed = []) :
    OwnOutside d (configureApps d b true true apps) := by
  have hkeep := bypass_keeps d (apps.getD []) (b.addDisallowed d d.packageName)
  rw [addDisallowed_self] at hkeep
  simp only [OwnOutside, configureApps, addDisallowed_self]
  rw [if_neg (by simpa using hkeep.1.trans hb)]
  exact hkeep.2 _ (by simp)

/-- In Include mode the app is outside exactly when some application is allowed. -/
theorem configureApps_include (d : Device) (b : Builder) (list : Str) (hb : b.allowed = [])
    (hd : b.disallowed = []) :
    OwnOutside d (configureApps d b true false (some (appLines list))) ↔ SomeOtherApp d list := by
  obtain ⟨hdis, hall⟩ := include_allowed d (appLines list) b
  have hne : ∀ p ∈ appLines list, p ≠ [] := fun p hp => by simpa using (List.mem_filter.mp hp).2
  simp only [OwnOutside, configureApps, Bool.not_true, Bool.false_eq_true, if_false, Option.getD_some]
  split
  · rename_i hsome
    constructor
    · intro _
      obtain ⟨q, hq⟩ := List.exists_mem_of_ne_nil _ hsome
      rcases (hall q).mp hq with h | ⟨p, hp, _, hother, hinst, _⟩
      · rw [hb] at h; cases h
      · exact ⟨p, hp, hother, hinst⟩
    · intro _ hown
      rcases (hall _).mp hown with h | ⟨p, _, _, hother, _, he⟩
      · rw [hb] at h; cases h
      · exact hother he.symm
  · rename_i hnone
    rw [not_not] at hnone
    constructor
    · intro h
      rw [hdis, hd] at h; cases h
    · rintro ⟨p, hp, hother, hinst⟩
      have : trimControl p ∈ ([] : List Str) := hnone ▸ (hall _).mpr (.inr ⟨p, hp, hne p hp, hother, hinst, rfl⟩)
      cases this

theorem foldl_addRoute_apps (rs : List (Str × Int)) (b : Builder) :
    (rs.foldl (fun b r => b.addRoute r.1 r.2) b).allowed = b.allowed ∧
      (rs.foldl (fun b r => b.addRoute r.1 r.2) b).disallowed = b.disallowed := by
  induction rs generalizing b with
  | nil => exact ⟨rfl, rfl⟩
  | cons r rest ih => exact ih (b.addRoute r.1 r.2)

theorem configureRoutes_apps (b : Builder) (mHev : Bool) (dnsServer : Str) (route : Option Str) (ipv6 : Bool) :
    (configureRoutes b mHev dnsServer route ipv6).allowed = b.allowed ∧
      (configureRoutes b mHev dnsServer route ipv6).disallowed = b.disallowed := by
  unfold configureRoutes
  cases mHev <;> cases ipv6 <;> exact foldl_addRoute_apps _ _

/-- The application part of `configure` starts from empty lists. -/
theorem configure_apps {d : Device} {mHev : Bool} {mDns name route : Option Str} {mDnsPort : Int}
    {perApp bypass ipv6 : Bool} {apps : Option (List Str)} {b : Builder}
    (h : configure d mHev mDns mDnsPort name route perApp bypass apps ipv6 = .ok b) :
    ∃ b₀ : Builder, b₀.allowed = [] ∧ b₀.disallowed = [] ∧ b = configureApps d b₀ perApp bypass apps := by
  simp only [configure, Builder.addDnsServer, Builder.addAddress] at h
  split at h
  · simp only [bind, Except.bind, pure, Except.pure, Except.ok.injEq] at h
    refine ⟨_, ?_, ?_, h.symm⟩
    · rw [(configureRoutes_apps _ _ _ _ _).1]; split <;> rfl
    · rw [(configureRoutes_apps _ _ _ _ _).2]; split <;> rfl
  · cases h

/-- A configured tunnel keeps the app outside exactly when it is not in Include mode, or
some other listed application is installed. -/
theorem configure_own_outside_iff {d : Device} {prefs : SplitPrefs} {profile : ProfileValues} {mHev : Bool}
    {b : Builder} (hconf : configureIntent d mHev (buildVpnIntent prefs profile) = .ok b) :
    OwnOutside d b ↔ ∀ list, includeList prefs profile = some list → SomeOtherApp d list := by
  obtain ⟨b₀, hall, hdis, rfl⟩ := configure_apps hconf
  simp only [buildVpnIntent, includeList]
  cases hg : prefs.perApp with
  | true =>
    simp only [Bool.or_true, if_true, Option.getD_some]
    cases hby : prefs.appBypass with
    | true => simpa using configureApps_bypass d b₀ _ hall
    | false => simpa using configureApps_include d b₀ prefs.appList hall hdis
  | false =>
    simp only [Bool.or_false, Bool.false_eq_true, if_false]
    cases hp : profile.isPerApp with
    | true =>
      simp only [if_true, Option.getD_some]
      cases hby : profile.isBypassApp with
      | true => simpa using configureApps_bypass d b₀ _ hall
      | false => simpa using configureApps_include d b₀ profile.appList hall hdis
    | false => simpa using configureApps_off d b₀ false none hall

/-- **Own traffic.** The tunnels a start path brings up keep the app outside exactly
when the path refuses, or the tunnel is not in Include mode, or some other listed
application is installed. -/
theorem start_keeps_own_outside_iff (d : Device) (path : StartPath) (prefs : SplitPrefs)
    (profile : ProfileValues) (profiles : Nat) (mHev : Bool) (b : Builder)
    (hconf : configureIntent d mHev (buildVpnIntent prefs profile) = .ok b) :
    (letsThrough path prefs profile profiles = true → OwnOutside d b) ↔
      letsThrough path prefs profile profiles = false ∨
        ∀ list, includeList prefs profile = some list → SomeOtherApp d list := by
  rw [configure_own_outside_iff hconf]
  cases letsThrough path prefs profile profiles <;> simp

/-- A device with two packages installed that reads only dotted quads. -/
def sampleDevice : Device :=
  { sdk := 34
    packageName := "com.kiloproxy.pro".toList
    installed := fun p => p = "com.kiloproxy.pro".toList ∨ p = "com.android.chrome".toList
    isNumericPlatform := fun s => (ipv4ToLong s).isSome
    parseNumeric := fun s => (ipv4ToLong s).map .v4
    self_installed := by decide }

def sampleProfile : ProfileValues :=
  { name := "home".toList, server := "203.0.113.7".toList, port := 1080, username := [], password := [],
    route := routeAll, dns := "8.8.8.8".toList, dnsPort := 53, isPerApp := false, isBypassApp := false,
    appList := [], hasIPv6 := false, hasUDP := false, udpgw := "127.0.0.1:7300".toList, autoConnect := false }

def configured (prefs : SplitPrefs) : Builder :=
  match configureIntent sampleDevice false (buildVpnIntent prefs sampleProfile) with
  | .ok b => b
  | .error _ => ⟨0, [], [], [], false, [], [], []⟩

/-- Include mode with the browser listed, from the Connect button. -/
theorem start_keeps_own_outside_browser :
    (letsThrough .connectButton ⟨true, false, "com.android.chrome".toList⟩ sampleProfile 2 = true →
        OwnOutside sampleDevice (configured ⟨true, false, "com.android.chrome".toList⟩)) ↔
      letsThrough .connectButton ⟨true, false, "com.android.chrome".toList⟩ sampleProfile 2 = false ∨
        ∀ list, includeList ⟨true, false, "com.android.chrome".toList⟩ sampleProfile = some list →
          SomeOtherApp sampleDevice list :=
  start_keeps_own_outside_iff sampleDevice .connectButton _ sampleProfile 2 false _ rfl

/-- Include mode with an empty list, from the Countries tab: nothing is allowed and
nothing disallowed, so the app is tunnelled with everything else. -/
theorem countriesTab_tunnels_own :
    letsThrough .countriesTab ⟨true, false, []⟩ sampleProfile 2 = true ∧
      (∃ b, configureIntent sampleDevice false (buildVpnIntent ⟨true, false, []⟩ sampleProfile) = .ok b ∧
        ¬ OwnOutside sampleDevice b) :=
  ⟨rfl, configured ⟨true, false, []⟩, rfl, by decide⟩

end KiloProxy.Service
