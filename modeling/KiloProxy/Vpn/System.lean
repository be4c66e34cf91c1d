import KiloProxy.Run.System
import KiloProxy.Vpn.StartThread

/-!
# The service as a transition system

Intents are delivered in the order they were sent. The binder, receivers and the system
may stop the service at any time; posted closures, due callbacks, background threads and
the executor's jobs go on in any order, one step of theirs at a time. `stopMe` and a
main-thread closure are one step each.
-/

namespace KiloProxy.Vpn
set_option autoImplicit false
open KiloProxy.Text KiloProxy.Util KiloProxy.Service KiloProxy.Run

/-- What changes around the service. -/
inductive Change where
  | uptime (ms : Nat)
  | clock (now : Int)
  | interactive (on : Bool)
  | deviceIdle (on : Bool)
  | floatingControl (on : Bool)
  /-- The other process writes a setting. -/
  | setting (key : Str) (value : PrefValue)
  /-- A process exits by itself. -/
  | exit (pid : Nat) (code : Int)
  /-- The pdnsd launcher unlinks the pid file and makes an empty one. -/
  | openPidFile (pid : Nat)
  /-- The pdnsd launcher forks and exits. -/
  | daemonize (pid : Nat)
  /-- The pid of the daemon is written to the file its launcher made. -/
  | writePid (pid : Nat)
  /-- The worker of the native tunnel reads hev.yml. -/
  | hevRead
  | hevExit
deriving DecidableEq, Repr

/-- pdnsd, or its launcher, takes a step. -/
def Change.pdnsd : Change → Bool
  | .openPidFile _ | .daemonize _ | .writePid _ => true
  | _ => false

inductive Act where
  /-- A client, or the system, sends a start intent. -/
  | sendStart (extras : Option VpnIntent)
  /-- A client sends the ordered stop. -/
  | sendStop
  /-- The next intent is delivered. `saved` is the profile the system start falls back to. -/
  | deliver (saved : Option ProfileValues) (established : Established)
  | external (reason : StopReason)
  | screenOn
  | task (i : Nat) (usage : Option (Int × Int))
  | stats (i : Nat) (usage : Option (Int × Int))
  | ipCheck (i : Nat)
  /-- The executor takes up its next check. -/
  | probeBegin
  | probeEnd (answer : Answer)
  | thread (i : Nat) (reply : Reply)
  | dns (i : Nat) (reply : Reply)
  | monitor (i : Nat)
  | change (c : Change)
deriving DecidableEq, Repr

/-- The settings both processes know. -/
def settingKeys : List Str := accelKeys ++ splitKeys ++ [prefAutoStop]

namespace Svc

/-- `onStartCommand` for the next intent. -/
def deliver (s : Svc) (saved : Option ProfileValues) (established : Established) : Option Svc :=
  if s.destroyed then none
  else
    match s.queue with
    | [] => none
    | (place, .stop) :: queue =>
      some ({ s with queue := queue, handledStops := s.handledStops ++ [place] }.stopMe .stopAction none)
    | (place, .start extras) :: queue => some ({ s with queue := queue }.onStart place extras saved established)

/-- A stop that comes from outside the service's own threads. -/
def external (s : Svc) (reason : StopReason) : Option Svc :=
  if s.destroyed then none
  else
    match reason with
    | .binderStop | .vpnRevoked => some (s.stopMe reason none)
    | .notificationStop => if s.mNotificationReceiverRegistered then some (s.stopMe reason none) else none
    | .screenOff => if s.mScreenOffRegistered then some (s.stopMe reason none) else none
    | .onDestroy => some { s.stopMe reason none with destroyed := true }
    | _ => none

/-- `mScreenOnReceiver` -/
def screenOn (s : Svc) : Option Svc :=
  if s.mScreenOnRegistered then
    some (if s.mRunning then { s with mIpCheckFailures := 0, mIpCheckHandler := [] }.postIpCheck 0 else s)
  else none

/-- The `i`-th posted closure runs. -/
def task (s : Svc) (i : Nat) (usage : Option (Int × Int)) : Option Svc :=
  (s.mMainHandler[i]?).map fun t => { s with mMainHandler := s.mMainHandler.eraseIdx i }.runTask t usage

/-- The `i`-th pending statistics callback runs. -/
def stats (s : Svc) (i : Nat) (usage : Option (Int × Int)) : Option Svc :=
  (s.mStatsHandler[i]?).bind fun due =>
    if due ≤ s.uptime then some ({ s with mStatsHandler := s.mStatsHandler.eraseIdx i }.statsTick usage) else none

/-- The `i`-th pending ip-check callback runs. -/
def ipCheck (s : Svc) (i : Nat) : Option Svc :=
  (s.mIpCheckHandler[i]?).bind fun due =>
    if due ≤ s.uptime then some { s with mIpCheckHandler := s.mIpCheckHandler.eraseIdx i }.runIpCheck else none

/-- The executor reads the checker selection. -/
def probeBegin (s : Svc) : Option Svc :=
  match s.mIpCheckExecutor with
  | ⟨p, none⟩ :: rest =>
    let choice := if s.mAccel then (s.mAccelPrimary, s.mAccelBoth) else ("kiloip".toList, true)
    some { s with mIpCheckExecutor := ⟨p, some choice⟩ :: rest }
  | _ => none

/-- The check at the head has its answer and posts its completion. -/
def probeEnd (s : Svc) (answer : Answer) : Option Svc :=
  match s.mIpCheckExecutor with
  | ⟨p, some _⟩ :: rest =>
    some { s with mIpCheckExecutor := rest, mMainHandler := s.mMainHandler ++ [.probeDone p answer] }
  | _ => none

/-- The launcher of pdnsd puts an empty pid file of its own in the place of any other. -/
def openPidFile (s : Svc) (pid : Nat) : Option Svc :=
  (s.procs[pid]?).bind fun p =>
    if p.engine = .pdnsd ∧ p.exit = none ∧ pid ∉ s.pidOpened then
      some { s with pdnsdPid := some ⟨pid, false⟩, pidOpened := s.pidOpened ++ [pid] }
    else none

/-- The launcher exits at once; what it forked, and the daemon forked from that, have the
pid file open from now on. -/
def daemonize (s : Svc) (pid : Nat) : Option Svc :=
  (s.procs[pid]?).bind fun p =>
    if p.engine = .pdnsd ∧ p.exit = none ∧ pid ∈ s.pidOpened then
      some { s with
        procs := exitWith s.procs pid 0 ++ [⟨.pdnsdDaemon, p.session, p.command, none⟩]
        pdnsdPid := s.pdnsdPid.map fun f => if f.opener = pid then { f with opener := s.procs.length } else f }
    else none

/-- The pid is written, and lost when the file has been unlinked meanwhile. -/
def writePid (s : Svc) (pid : Nat) : Option Svc :=
  (s.procs[pid]?).bind fun p =>
    if p.engine = .pdnsdDaemon then
      some { s with pdnsdPid := s.pdnsdPid.map fun f => if f.opener = pid then { f with written := true } else f }
    else none

def change (s : Svc) : Change → Option Svc
  | .uptime ms => some { s with uptime := s.uptime + ms }
  | .clock now => some { s with clock := now }
  | .interactive on => some { s with interactive := on }
  | .deviceIdle on => some { s with deviceIdle := on }
  | .floatingControl on => some { s with floatingControl := on }
  | .setting key value =>
    if key ∈ settingKeys then some { s with prefs := Function.update s.prefs key (some value) } else none
  | .exit pid code => some { s with procs := exitWith s.procs pid code }
  | .openPidFile pid => s.openPidFile pid
  | .daemonize pid => s.daemonize pid
  | .writePid pid => s.writePid pid
  | .hevRead => some { s with hevRead := if s.hevNative.isSome then s.hevRead.or s.hevYml else s.hevRead }
  | .hevExit => some { s with hevNative := none }

def step (s : Svc) : Act → Option Svc
  | .sendStart extras => some { s with queue := s.queue ++ [(s.sent, .start extras)], sent := s.sent + 1 }
  | .sendStop => some { s with queue := s.queue ++ [(s.sent, .stop)], sent := s.sent + 1 }
  | .deliver saved established => s.deliver saved established
  | .external reason => s.external reason
  | .screenOn => s.screenOn
  | .task i usage => s.task i usage
  | .stats i usage => s.stats i usage
  | .ipCheck i => s.ipCheck i
  | .probeBegin => s.probeBegin
  | .probeEnd answer => s.probeEnd answer
  | .thread i reply => s.stepThread i reply
  | .dns i reply => s.stepDns i reply
  | .monitor i => s.stepMonitor i
  | .change c => s.change c

/-- A service that has just been created on a device with any files. -/
def created (w : World) (accelDns : Option AccelDns) : Svc :=
  { toControl := { mRunning := false, mTunnelUp := false, mSendfdCancelled := false, mConnectSeq := 0 }
    toConfig :=
      { mAccel := false, mAccelPrimary := accelPrimaryTrace, mAccelBoth := true, mAccelCacheIp := false,
        mAccelProbe := true, mAccelDns := true, mAccelIntervalMs := 60000, mHev := false, mHevUdp := true,
        mProfileName := none, mServer := none, mPort := 0, mUsername := none, mPassword := none, mDns := none,
        mDnsPort := 53, mAccelKey := none }
    toShared :=
      { mResolvedServer := none, mError := none, mHevActive := false, mTun2socksProcess := none,
        mPdnsdProcess := none, procs := [], pdnsdPid := none, pidOpened := [], pdnsdConf := none, hevYml := none,
        hevNative := none, hevRead := none, accelDns := accelDns, dnsThreads := [], monitors := [], resolutions := [] }
    toPublished :=
      { mCurrentIp := none, mCountryCode := none, mIpInfo := none, mConnectedSince := 0, mProxyVerified := false,
        mIpCheckFailures := 0, mPendingIpInfo := none }
    toCounters :=
      { mReceivedBytes := 0, mSentBytes := 0, mCumulativeRx := 0, mCumulativeTx := 0, mBaseRx := 0, mBaseTx := 0,
        mStatsTick := 0 }
    toPending :=
      { mStatsHandler := [], mIpCheckHandler := [], mMainHandler := [], mIpCheckExecutor := [],
        mProbeInFlight := false }
    toAnnounced :=
      { notification := none, mLastNotificationText := none, mLastNotificationActions := -1, broadcasts := [] }
    toReceivers :=
      { mNotificationReceiverRegistered := false, mScreenOffRegistered := false, mScreenOnRegistered := false }
    toWorld := w
    toIntents := { queue := [], sent := 0 }
    toHistory :=
      { handledStops := [], startedBy := none, tunnelUpBy := none, started := [], landed := [], stopped := [],
        lastUsage := (0, 0) }
    startThreads := [] }

end Svc

/-- The runs of one service instance. -/
def system : System Svc Act where
  init s := ∃ w accelDns, w.destroyed = false ∧ s = Svc.created w accelDns
  step := Svc.step

/-! ## A device and its runs -/

/-- A phone with empty preferences. -/
def phone : World where
  device := ⟨34, "net.typeblog.socks".toList, fun _ => true, fun _ => false, fun _ => none, rfl⟩
  libDir := "/lib".toList
  filesDir := "/files".toList
  uptime := 0
  clock := 0
  interactive := true
  deviceIdle := false
  floatingControl := false
  destroyed := false
  prefs := fun _ => none
  accelIp := none

/-- A start intent of the profile `name`. -/
def startOf (name server : Str) : VpnIntent :=
  { name := some name, server := some server, port := some 1080, username := none, password := none, route := none,
    dns := none, dnsPort := none, perApp := none, appBypass := none, appList := none, ipv6 := none, udpgw := none }

/-- The `i`-th start thread from its begin to the posted completion, on the stock engine. -/
def bringUp (i : Nat) (ip : Str) : List Act :=
  [.thread i .ok, .thread i .ok, .thread i .ok, .thread i .ok, .thread i (.resolved (some ip)), .thread i .ok,
   .thread i .ok, .thread i .ok, .thread i .ok, .thread i .ok, .thread i .ok]

theorem created_reachable {w : World} (h : w.destroyed = false) (accelDns : Option AccelDns)
    {ok : Svc → Act → Prop} : Reaches system ok (Svc.created w accelDns) :=
  .start ⟨w, accelDns, h, rfl⟩

end KiloProxy.Vpn
