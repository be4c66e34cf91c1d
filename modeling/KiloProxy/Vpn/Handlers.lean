import KiloProxy.Vpn.State

/-!
# The main-thread code of `SocksVpnService`

`stopMe`, `onStartCommand` and `start` up to the spawn of its thread, the statistics and
ip-check callbacks, the completion of an ip check, and `postStartOnMain`. Each is a
record update of the service, so that what it leaves alone is seen from its definition.
-/

namespace KiloProxy.Vpn
set_option autoImplicit false
open KiloProxy.Text KiloProxy.Util KiloProxy.Service

def ipCheckInterval : Int := 60000
def ipInfoRetry : Int := 500
def ipCheckRetry : Int := 5000
def maxIpCheckFailures : Nat := 3
def dozeCheckInterval : Int := 60000
def statsInterval : Nat := 1000
def usagePersistTicks : Nat := 5
def prefAutoStop : Str := "auto_stop".toList

/-- `R.string.notify_msg` -/
def notifyMsg (name : Str) : Str := "Connected to ".toList ++ name

def connecting : Str := "Connecting".toList

/-- The exit code of a process that was destroyed. -/
def sigterm : Int := 143

/-- A process exits, unless it has already. -/
def exitWith (procs : List Proc) (pid : Nat) (code : Int) : List Proc :=
  procs.modify pid fun p => if p.exit = none then { p with exit := some code } else p

/-- `Process.destroy` and `kill`. -/
def destroy (procs : List Proc) (pid : Nat) : List Proc := exitWith procs pid sigterm

namespace Svc

/-! ## Announcements -/

def notifyStateChanged (s : Svc) (error : Option Str) : Svc := { s with broadcasts := s.broadcasts ++ [error] }

/-- The text `updateNotification` computes. -/
def notificationText (s : Svc) : Str :=
  if s.mCurrentIp.getD [] = [] then connecting else notifyMsg (s.mProfileName.getD [])

/-- `showNotification` -/
def showNotification (s : Svc) : Svc := { s with notification := some connecting }

/-- What `updateNotification` leaves behind; the notification has no actions. -/
def announced (s : Svc) : Announced :=
  if !s.mRunning || (s.mLastNotificationText = some s.notificationText && s.mLastNotificationActions = 0) then
    s.toAnnounced
  else
    { s.toAnnounced with
      notification := some s.notificationText
      mLastNotificationText := some s.notificationText
      mLastNotificationActions := 0 }

/-- `updateNotification` -/
def updateNotification (s : Svc) : Svc := { s with toAnnounced := s.announced }

/-! ## Callbacks -/

/-- `mIpCheckHandler.postDelayed(mIpCheckRunnable, delay)` -/
def postIpCheck (s : Svc) (delay : Int) : Svc :=
  { s with mIpCheckHandler := s.mIpCheckHandler ++ [s.uptime + delay.toNat] }

/-- `healthyInterval` -/
def healthyInterval (s : Svc) : Int := if s.mAccel then s.mAccelIntervalMs else ipCheckInterval

/-- `isNetworkCheckBlocked` -/
def isNetworkCheckBlocked (s : Svc) : Bool := !s.interactive || (23 ≤ s.device.sdk && s.deviceIdle)

/-! ## Usage -/

/-- The preferences after `persistProfileBytes`. -/
def persisted (s : Svc) : PrefMap :=
  match s.mProfileName with
  | none => s.prefs
  | some name =>
    Function.update
      (Function.update s.prefs (usageRxKey name) (some (.long (long (s.mCumulativeRx + s.mReceivedBytes)))))
      (usageTxKey name) (some (.long (long (s.mCumulativeTx + s.mSentBytes))))

/-- `mReceivedBytes` and `mSentBytes` after a reading. -/
def sessionBytes (s : Svc) (usage : Option (Int × Int)) : Int × Int :=
  match usage with
  | some (rx, tx) => (max 0 (long (rx - s.mBaseRx)), max 0 (long (tx - s.mBaseTx)))
  | none => (s.mReceivedBytes, s.mSentBytes)

/-- The first part of `mStatsRunnable.run`, with the reading of `readUsageBytes`. -/
def countUsage (s : Svc) (usage : Option (Int × Int)) : Svc :=
  { s with
    mReceivedBytes := (s.sessionBytes usage).1
    mSentBytes := (s.sessionBytes usage).2
    mStatsTick := s.mStatsTick + 1
    lastUsage := usage.getD s.lastUsage }

/-- `mStatsRunnable.run` -/
def statsTick (s : Svc) (usage : Option (Int × Int)) : Svc :=
  let s := s.countUsage usage
  { s with
    prefs := if s.mRunning && s.mStatsTick % usagePersistTicks = 0 then s.persisted else s.prefs
    mStatsHandler := if s.mRunning then s.mStatsHandler ++ [s.uptime + statsInterval] else s.mStatsHandler }

/-- The totals `loadProfileBytes` finds. -/
def storedBytes (s : Svc) : Int × Int :=
  match s.mProfileName with
  | none => (s.mCumulativeRx, s.mCumulativeTx)
  | some name => (PrefMap.getLong s.prefs (usageRxKey name) 0, PrefMap.getLong s.prefs (usageTxKey name) 0)

/-! ## Stopping -/

end Svc

/-- `killPidFile` for pdnsd.pid: an empty file names no process, and stays. -/
def killPidFile (procs : List Proc) : Option PidFile → List Proc × Option PidFile
  | some ⟨pid, true⟩ => (destroy procs pid, none)
  | file => (procs, file)

/-- What `stopMe` does to the engines and to the fields the background threads share. -/
def Shared.stopped (e : Shared) (mHev : Bool) : Shared :=
  let procs := e.mTun2socksProcess.elim e.procs (destroy e.procs)
  -- nothing ever writes tun2socks.pid
  let killed := killPidFile procs e.pdnsdPid
  let procs := e.mPdnsdProcess.elim killed.1 (destroy killed.1)
  { e with
    procs := procs
    mTun2socksProcess := none
    mPdnsdProcess := none
    pdnsdPid := killed.2
    hevNative := if mHev || e.mHevActive then none else e.hevNative
    mHevActive := false
    mResolvedServer := none
    mError := none }

namespace Svc

/-- The notification after `stopForeground`. -/
def keptNotification (s : Svc) : Option Str :=
  if 24 ≤ s.device.sdk && !s.floatingControl then none else s.notification

/-- The body of `stopMe`, past the early return. -/
def teardown (s : Svc) (reason : StopReason) (origin : Option Nat) : Svc :=
  { s with
    toControl := { mRunning := false, mTunnelUp := false, mSendfdCancelled := true, mConnectSeq := s.mConnectSeq + 1 }
    toConfig :=
      { s.toConfig with
        mProfileName := none, mServer := none, mAccelKey := none, mPort := 0, mUsername := none, mPassword := none,
        mDns := none, mDnsPort := 53, mHev := false, mHevUdp := true }
    toShared := s.toShared.stopped s.mHev
    toPublished :=
      { s.toPublished with
        mCurrentIp := none, mCountryCode := none, mIpInfo := none, mConnectedSince := 0, mProxyVerified := false,
        mPendingIpInfo := none }
    toCounters := { mReceivedBytes := 0, mSentBytes := 0, mCumulativeRx := 0, mCumulativeTx := 0, mBaseRx := 0,
                    mBaseTx := 0, mStatsTick := s.mStatsTick }
    toPending := { s.toPending with mStatsHandler := [], mIpCheckHandler := [], mProbeInFlight := false }
    notification := s.keptNotification
    broadcasts := if s.mRunning then s.broadcasts ++ [s.mError] else s.broadcasts
    toReceivers := { mNotificationReceiverRegistered := false, mScreenOffRegistered := false,
                     mScreenOnRegistered := false }
    prefs := s.persisted
    stopped := s.stopped ++ [⟨reason, origin, if s.mRunning then some s.mConnectSeq else none⟩] }

/-- `stopMe`. `origin` is the session whose event calls it. -/
def stopMe (s : Svc) (reason : StopReason) (origin : Option Nat) : Svc :=
  if !s.mRunning && reason ≠ .onDestroy then s else s.teardown reason origin

/-! ## Starting -/

/-- The intent `onStartCommand` goes on with: the extras, or the saved profile. -/
def command (s : Svc) (extras : Option VpnIntent) (saved : Option ProfileValues) : Option VpnIntent :=
  match extras with
  | some i => if i.server.isSome then some i else fromSaved
  | none => fromSaved
where
  fromSaved : Option VpnIntent :=
    match saved with
    | none => none
    | some profile =>
      if profile.server = [] ∨ profile.server = "127.0.0.1".toList then none
      else some (buildVpnIntent (readSplitPrefs s.prefs) profile)

/-- `onStartCommand` up to the call of `configure`. -/
def accept (s : Svc) (place : Nat) (cmd : VpnIntent) : Svc :=
  let accel := readAccelPrefs s.prefs
  let port := cmd.port.getD 1080
  { s with
    toConfig :=
      { toAccelPrefs := accel
        mProfileName := cmd.name
        mServer := cmd.server
        mPort := port
        mUsername := cmd.username
        mPassword := cmd.password
        mDns := cmd.dns
        mDnsPort := cmd.dnsPort.getD 53
        mAccelKey := if accel.mAccel then some (accelKey cmd.server port cmd.username) else none }
    notification := s.showNotification.notification
    mRunning := true
    mConnectSeq := s.mConnectSeq + 1
    mNotificationReceiverRegistered := true
    startedBy := some place }

/-- The arguments of `start`. -/
def session (s : Svc) (place fd : Nat) (cmd : VpnIntent) : Session :=
  { connectSeq := s.mConnectSeq, intent := place, fd := fd, server := cmd.server, port := cmd.port.getD 1080,
    user := cmd.username, passwd := cmd.password, dns := cmd.dns, dnsPort := cmd.dnsPort.getD 53,
    ipv6 := cmd.ipv6.getD false, udpgw := cmd.udpgw }

/-- `start`, up to its background thread. -/
def start (s : Svc) (g : Session) : Svc :=
  { s.postIpCheck 0 with
    mError := none
    mSendfdCancelled := false
    startThreads := s.startThreads ++ [⟨g, .begin⟩]
    started := s.started ++ [g] }

/-- `onStartCommand` for a start intent. -/
def onStart (s : Svc) (place : Nat) (extras : Option VpnIntent) (saved : Option ProfileValues)
    (established : Established) : Svc :=
  if s.mRunning then s
  else
    match s.command extras saved with
    | none => s
    | some cmd =>
      let s := s.accept place cmd
      match established with
      | .threw => s.stopMe .configureFailed none
      | .null => s.stopMe .interfaceNull none
      | .fd n => s.start (s.session place n cmd)

/-! ## The ip check -/

/-- The probe `mIpCheckRunnable` launches. -/
def probe (s : Svc) : Probe :=
  { session := s.mConnectSeq
    server := match s.mResolvedServer with
      | some a => some a
      | none => s.mServer
    port := s.mPort
    username := s.mUsername
    password := s.mPassword }

/-- `mIpCheckRunnable.run` -/
def runIpCheck (s : Svc) : Svc :=
  if !s.mRunning then s
  else if s.isNetworkCheckBlocked then s.postIpCheck dozeCheckInterval
  else if s.mProbeInFlight then s
  else { s with mProbeInFlight := true, mIpCheckExecutor := s.mIpCheckExecutor ++ [⟨s.probe, none⟩] }

/-- The answer of `p` takes effect. -/
def land (s : Svc) (effect : Effect) (p : Probe) : Svc :=
  { s with landed := s.landed ++ [⟨effect, s.mConnectSeq, p⟩] }

/-- The fields `applyIpInfo` sets. -/
def published (s : Svc) (info : IpInfo) : Published :=
  { s.toPublished with
    mCurrentIp := some info.ip, mCountryCode := some info.countryCode, mIpInfo := some info,
    mProxyVerified := true, mIpCheckFailures := 0 }

/-- The file after `saveAccelIp`, when `applyIpInfo` calls it. -/
def savedAccelIp (s : Svc) (info : IpInfo) : Option AccelIp :=
  if s.mAccel && s.mAccelCacheIp then
    match s.mAccelKey with
    | some key => some ⟨key, s.clock, info⟩
    | none => s.accelIp
  else s.accelIp

/-- `applyIpInfo(info, fromCache = true)` -/
def applyCachedIpInfo (s : Svc) (info : IpInfo) : Svc :=
  ({ s with toPublished := s.published info }.updateNotification).notifyStateChanged none

/-- `applyIpInfo(info)` for the answer of `p`. -/
def applyIpInfo (s : Svc) (info : IpInfo) (p : Probe) : Svc :=
  { (s.applyCachedIpInfo info).land .applied p with accelIp := s.savedAccelIp info }

/-- The error text of a failed handshake. -/
def probeError : ProxyProbe → Str
  | .authFailed => "Connection failed: proxy authentication failed. Check your username and password.".toList
  | .notSocks5 => "Connection failed: server is not a SOCKS5 proxy.".toList
  | .connectFailed => "Connection failed: proxy refused the connection.".toList
  | _ => "Connection failed: proxy unreachable or not responding.".toList

/-- The part of a failed handshake that counts it. -/
def countFailure (s : Svc) (p : Probe) : Svc :=
  { s.land .counted p with
    accelDns := if s.mAccel then none else s.accelDns
    broadcasts := if s.mProxyVerified then s.broadcasts ++ [none] else s.broadcasts
    mProxyVerified := false
    mIpCheckFailures := s.mIpCheckFailures + 1 }

/-- The main-thread part of an ip check. -/
def probeDone (s : Svc) (p : Probe) (answer : Answer) : Svc :=
  let s := { s with mProbeInFlight := false }
  match answer with
  | .info i =>
    if !s.mTunnelUp then { s.land .buffered p with mPendingIpInfo := some (i, p) }
    else (s.applyIpInfo i p).postIpCheck s.healthyInterval
  | .handshake probe =>
    if !s.mTunnelUp then s.postIpCheck ipInfoRetry
    else if probe = .ok then
      let s := { s.land .verified p with mProxyVerified := true, mIpCheckFailures := 0 }
      ((s.updateNotification).notifyStateChanged none).postIpCheck ipInfoRetry
    else if !s.mAccel || s.mAccelProbe then
      let s := s.countFailure p
      if maxIpCheckFailures ≤ s.mIpCheckFailures then
        { s with mError := some (probeError probe) }.stopMe .proxyConnectFailed none
      else s.postIpCheck ipCheckRetry
    else { s with accelDns := none }.postIpCheck ipCheckRetry
  | .exception => s.postIpCheck (if !s.mTunnelUp then ipInfoRetry else ipCheckRetry)

/-! ## Tunnel-up -/

/-- The first part of `postStartOnMain`, up to `mTunnelUp = true`. -/
def tunnelUp (s : Svc) (g : Session) (usage : Option (Int × Int)) : Svc :=
  { s with
    mConnectedSince := s.clock
    mError := none
    mProxyVerified := false
    mIpCheckFailures := 0
    mCumulativeRx := s.storedBytes.1
    mCumulativeTx := s.storedBytes.2
    mReceivedBytes := 0
    mSentBytes := 0
    mBaseRx := (usage.getD (0, 0)).1
    mBaseTx := (usage.getD (0, 0)).2
    mStatsHandler := s.mStatsHandler ++ [s.uptime]
    mTunnelUp := true
    tunnelUpBy := some g
    lastUsage := usage.getD (0, 0) }

/-- The exit address shown at tunnel-up from the cache. -/
def cachedIp (s : Svc) : Option IpInfo :=
  if s.mAccel && s.mAccelCacheIp && !s.mProxyVerified then
    s.mAccelKey.bind fun key => loadAccelIp s.clock s.accelIp key
  else none

def showCachedIp (s : Svc) : Svc := s.cachedIp.elim s s.applyCachedIpInfo

/-- What `postStartOnMain` does with the buffered answer. -/
def surface (s : Svc) : Svc :=
  match s.mPendingIpInfo with
  | some (info, p) => ({ s with mPendingIpInfo := none }.applyIpInfo info p).postIpCheck s.healthyInterval
  | none => s.postIpCheck 0

/-- `postStartOnMain` -/
def postStartOnMain (s : Svc) (g : Session) (usage : Option (Int × Int)) : Svc :=
  if !s.mRunning then s
  else
    let s := ((s.tunnelUp g usage).showCachedIp).surface
    { s with
      mScreenOffRegistered := s.mScreenOffRegistered || PrefMap.getBoolean s.prefs prefAutoStop false
      mScreenOnRegistered := true }.notifyStateChanged none

/-- The check before the abort points of the background threads. -/
def stale (s : Svc) (g : Session) : Bool := g.connectSeq ≠ s.mConnectSeq || !s.mRunning || s.mSendfdCancelled

/-- A closure of the main handler runs. -/
def runTask (s : Svc) (task : Task) (usage : Option (Int × Int)) : Svc :=
  match task with
  | .stop g reason => s.stopMe reason (some g.connectSeq)
  | .tunnelUp g => if s.stale g then s else s.postStartOnMain g usage
  | .probeDone p answer => s.probeDone p answer

end Svc

end KiloProxy.Vpn
