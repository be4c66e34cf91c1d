import KiloProxy.Vpn.UsageKept

/-!
# The keys of the usage totals

The service stores a profile's totals under its name, an underscore and the encoded name;
the profile card reads them under the same keys. An encoding is longer the more text it
encodes, so the key of one profile is never that of another, and neither the service nor the
card sees the other profile's totals.
-/

namespace KiloProxy.Ui
set_option autoImplicit false
open KiloProxy.Text KiloProxy.Util KiloProxy.Vpn

/-- `profileDisplayUsage`, once its totals are read. -/
def profileDisplayUsage (prefs : PrefMap) (profileName : Str) (isConnected : Bool) (liveUsageRx liveUsageTx : Int) :
    Int :=
  let usageRx := prefs.getLong (usageRxKey profileName) 0
  let usageTx := prefs.getLong (usageTxKey profileName) 0
  let liveTotal := long (liveUsageRx + liveUsageTx)
  if isConnected then liveTotal
  else if 0 < liveTotal then liveTotal
  else long (usageRx + usageTx)

/-- The maps differ in the totals of `name` at most. -/
def SameOutside (name : Str) (m m' : PrefMap) : Prop := ∀ k, (∀ d, k ≠ usageKey d name) → m k = m' k

/-- No total of the one profile is stored under a key of the other, or read from one. -/
structure KeysApart (name other : Str) : Prop where
  texts : name ++ '_' :: usageSuffix name ≠ other ++ '_' :: usageSuffix other
  keys : ∀ d e, usageKey d name ≠ usageKey e other
  stored : ∀ s : Svc, s.mProfileName = some name → ∀ d, s.persisted (usageKey d other) = s.prefs (usageKey d other)
  loaded : ∀ (s : Svc) (prefs : PrefMap), s.mProfileName = some other → SameOutside name prefs s.prefs →
    Svc.storedBytes { s with prefs := prefs } = s.storedBytes
  shown : ∀ m m', SameOutside name m m' → profileDisplayUsage m other = profileDisplayUsage m' other

theorem usageText_injective : Function.Injective fun name : Str => name ++ '_' :: usageSuffix name :=
  append_image_injective urlEncode_lengthens '_'

/-- Different names have different keys. -/
theorem usageKey_injective (d : Direction) : Function.Injective (usageKey d) := by
  intro name other h
  cases d with
  | rx => exact usageText_injective (List.append_cancel_left h)
  | tx => exact usageText_injective (List.append_cancel_left h)

/-- Different names have different keys, in both directions. -/
theorem usageKey_apart {name other : Str} (hne : name ≠ other) (d e : Direction) :
    usageKey d name ≠ usageKey e other := by
  by_cases hde : d = e
  · subst hde
    exact fun h => hne (usageKey_injective d h)
  · exact usageKey_ne hde name other

/-- What is stored in the totals of one profile is the same in both maps. -/
theorem SameOutside.getLong {name other : Str} (hne : name ≠ other) {m m' : PrefMap} (h : SameOutside name m m')
    (d : Direction) : m.getLong (usageKey d other) 0 = m'.getLong (usageKey d other) 0 := by
  have hkey : m (usageKey d other) = m' (usageKey d other) := h _ fun e he => usageKey_apart hne e d he.symm
  rw [PrefMap.getLong, hkey]
  rfl

/-- **Usage keys do not collide.** -/
theorem usage_keys_apart {name other : Str} (hne : name ≠ other) : KeysApart name other where
  texts := fun h => hne (usageText_injective h)
  keys := usageKey_apart hne
  stored := by
    intro s hname d
    have hrx : usageKey d other ≠ usageRxKey name := (usageKey_apart hne .rx d).symm
    have htx : usageKey d other ≠ usageTxKey name := (usageKey_apart hne .tx d).symm
    unfold Svc.persisted
    rw [hname]
    simp only
    rw [Function.update_of_ne htx, Function.update_of_ne hrx]
  loaded := by
    intro s prefs hname hsame
    have hrx := hsame.getLong hne .rx
    have htx := hsame.getLong hne .tx
    unfold Svc.storedBytes
    simp only [hname]
    exact Prod.ext hrx htx
  shown := by
    intro m m' hsame
    have hrx : m.getLong (usageRxKey other) 0 = m'.getLong (usageRxKey other) 0 := hsame.getLong hne .rx
    have htx : m.getLong (usageTxKey other) 0 = m'.getLong (usageTxKey other) 0 := hsame.getLong hne .tx
    funext isConnected liveUsageRx liveUsageTx
    unfold profileDisplayUsage
    rw [hrx, htx]

/-- A name that holds the other one and its encoding. -/
theorem usage_keys_apart_nested : KeysApart "50%".toList "50%_50%25".toList :=
  usage_keys_apart (by decide)

end KiloProxy.Ui
