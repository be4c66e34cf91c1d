import KiloProxy.Text.UrlEncode
import KiloProxy.Util.VpnIntent

/-!
# The default preferences

The keys of the shared default preferences that decide a connect or hold usage totals,
and how they are read. A getter returns its default where the key is absent; every key
is only ever written with one type, so the branch of a value of another type is not
taken.
-/

namespace KiloProxy.Util
set_option autoImplicit false
open KiloProxy.Text

/-- A stored value. -/
inductive PrefValue where
  | bool (b : Bool)
  | string (s : Str)
  | int (n : Int)
  | long (n : Int)
deriving DecidableEq, Repr

/-- A process's in-memory map of a preference file. -/
abbrev PrefMap := Str → Option PrefValue

namespace PrefMap

def getBoolean (m : PrefMap) (key : Str) (default : Bool) : Bool :=
  match m key with
  | some (.bool b) => b
  | _ => default

def getString (m : PrefMap) (key default : Str) : Str :=
  match m key with
  | some (.string s) => s
  | _ => default

def getLong (m : PrefMap) (key : Str) (default : Int) : Int :=
  match m key with
  | some (.long n) => n
  | _ => default

end PrefMap

def prefAdvPerApp : Str := "adv_per_app".toList
def prefAdvAppBypass : Str := "adv_app_bypass".toList
def prefAdvAppList : Str := "adv_app_list".toList
def prefVpnAccelerator : Str := "vpn_accelerator".toList
def prefAccelPrimary : Str := "accel_primary".toList
def prefAccelMode : Str := "accel_mode".toList
def prefAccelCacheIp : Str := "accel_cache_ip".toList
def prefAccelProbe : Str := "accel_probe".toList
def prefAccelDnsCache : Str := "accel_dns_cache".toList
def prefAccelIntervalMs : Str := "accel_interval_ms".toList
def prefHevTunnel : Str := "hev_tunnel".toList
def prefHevUdp : Str := "hev_udp".toList
def accelPrimaryTrace : Str := "trace".toList
def accelModeBoth : Str := "both".toList
def accelModeSingle : Str := "single".toList

/-- The fields `onStartCommand` sets from the preferences. -/
structure AccelPrefs where
  mAccel : Bool
  mAccelPrimary : Str
  mAccelBoth : Bool
  mAccelCacheIp : Bool
  mAccelProbe : Bool
  mAccelDns : Bool
  mAccelIntervalMs : Int
  mHev : Bool
  mHevUdp : Bool
deriving DecidableEq, Repr

/-- The preference reads of `onStartCommand`. -/
def readAccelPrefs (m : PrefMap) : AccelPrefs :=
  { mAccel := m.getBoolean prefVpnAccelerator false
    mAccelPrimary := m.getString prefAccelPrimary accelPrimaryTrace
    mAccelBoth := m.getString prefAccelMode accelModeBoth != accelModeSingle
    mAccelCacheIp := m.getBoolean prefAccelCacheIp false
    mAccelProbe := m.getBoolean prefAccelProbe true
    mAccelDns := m.getBoolean prefAccelDnsCache true
    mAccelIntervalMs := m.getLong prefAccelIntervalMs 60000
    mHev := m.getBoolean prefHevTunnel false
    mHevUdp := m.getBoolean prefHevUdp true }

/-- The preference reads of `buildVpnIntent`. -/
def readSplitPrefs (m : PrefMap) : SplitPrefs :=
  { perApp := m.getBoolean prefAdvPerApp false
    appBypass := m.getBoolean prefAdvAppBypass false
    appList := m.getString prefAdvAppList [] }

/-- The keys `onStartCommand` reads. -/
def accelKeys : List Str :=
  [prefVpnAccelerator, prefAccelPrimary, prefAccelMode, prefAccelCacheIp, prefAccelProbe, prefAccelDnsCache,
   prefAccelIntervalMs, prefHevTunnel, prefHevUdp]

/-- The keys `buildVpnIntent` reads. -/
def splitKeys : List Str := [prefAdvPerApp, prefAdvAppBypass, prefAdvAppList]

/-- Maps that agree on the keys read give the same settings. -/
theorem readAccelPrefs_congr {m m' : PrefMap} (h : ∀ k ∈ accelKeys, m k = m' k) :
    readAccelPrefs m = readAccelPrefs m' := by
  have hk : ∀ k, k ∈ accelKeys → m k = m' k := h
  simp only [readAccelPrefs, PrefMap.getBoolean, PrefMap.getString, PrefMap.getLong]
  rw [hk prefVpnAccelerator (by simp [accelKeys]), hk prefAccelPrimary (by simp [accelKeys]),
    hk prefAccelMode (by simp [accelKeys]), hk prefAccelCacheIp (by simp [accelKeys]),
    hk prefAccelProbe (by simp [accelKeys]), hk prefAccelDnsCache (by simp [accelKeys]),
    hk prefAccelIntervalMs (by simp [accelKeys]), hk prefHevTunnel (by simp [accelKeys]),
    hk prefHevUdp (by simp [accelKeys])]

theorem readSplitPrefs_congr {m m' : PrefMap} (h : ∀ k ∈ splitKeys, m k = m' k) :
    readSplitPrefs m = readSplitPrefs m' := by
  have hk : ∀ k, k ∈ splitKeys → m k = m' k := h
  simp only [readSplitPrefs, PrefMap.getBoolean, PrefMap.getString]
  rw [hk prefAdvPerApp (by simp [splitKeys]), hk prefAdvAppBypass (by simp [splitKeys]),
    hk prefAdvAppList (by simp [splitKeys])]

/-- `Utility.usageSuffix`; the encoder knows UTF-8, so its fallback is not taken. -/
def usageSuffix (name : Str) : Str := urlEncode name

/-- `"usage_rx_${name}_$suffix"` -/
def usageRxKey (name : Str) : Str := "usage_rx_".toList ++ (name ++ '_' :: usageSuffix name)

/-- `"usage_tx_${name}_$suffix"` -/
def usageTxKey (name : Str) : Str := "usage_tx_".toList ++ (name ++ '_' :: usageSuffix name)

end KiloProxy.Util
