import KiloProxy.Service.Configure
import KiloProxy.Util.AccelCache
import KiloProxy.Util.Preferences

/-!
# The state of `SocksVpnService`

The fields of one service instance, grouped by who writes them: stops and main-thread
tasks, or the background threads too (`Shared`). With them stand what is pending on the
handlers and the ip-check executor, the running threads and engine processes, the
queued intents and the device. `History` records what happened and is no part of the
program.
-/

namespace KiloProxy.Vpn
set_option autoImplicit false
open KiloProxy.Text KiloProxy.Util KiloProxy.Service

/-- The arguments of one `start`. `intent` is the place of the start intent among all
intents sent. -/
structure Session where
  connectSeq : Nat
  intent : Nat
  fd : Nat
  server : Option Str
  port : Int
  user : Option Str
  passwd : Option Str
  dns : Option Str
  dnsPort : Int
  ipv6 : Bool
  udpgw : Option Str
deriving DecidableEq, Repr

/-- `SocksTester.ProxyProbe` -/
inductive ProxyProbe where
  | ok
  | authFailed
  | notSocks5
  | connectFailed
  | unreachable
deriving DecidableEq, Repr

/-- The values an ip check captures; `session` is the counter when it is launched. -/
structure Probe where
  session : Nat
  server : Option Str
  port : Int
  username : Option Str
  password : Option Str
deriving DecidableEq, Repr

/-- What an ip check comes back with. The handshake is only tried after a failed lookup. -/
inductive Answer where
  | info (i : IpInfo)
  | handshake (p : ProxyProbe)
  | exception
deriving DecidableEq, Repr

/-- The reasons handed to `stopMe`. -/
inductive StopReason where
  | binderStop
  | stopAction
  | notificationStop
  | screenOff
  | vpnRevoked
  | onDestroy
  | configureFailed
  | interfaceNull
  | proxyConnectFailed
  | pdnsdStartFailed
  | tun2socksStartFailed
  | tun2socksExited (code : Int)
  | sendfdFailed
  | startFailed
  | hevNoServerIp
  | hevLibMissing
  | hevStartFailed
  | hevStartFalse
  | hevStartDied
deriving DecidableEq, Repr

/-- A closure posted to the main thread. -/
inductive Task where
  | stop (session : Session) (reason : StopReason)
  | tunnelUp (session : Session)
  | probeDone (probe : Probe) (answer : Answer)
deriving DecidableEq, Repr

/-- An ip check on the executor. `choice` is the checker selection, read when it runs. -/
structure Check where
  probe : Probe
  choice : Option (Str × Bool)
deriving DecidableEq, Repr

/-! ## Engines and background threads -/

inductive Engine where
  | tun2socks
  | pdnsd
  | pdnsdDaemon
deriving DecidableEq, Repr

/-- An engine process; its pid is its place in the table. -/
structure Proc where
  engine : Engine
  session : Nat
  command : List Str
  exit : Option Int
deriving DecidableEq, Repr

/-- The pid file of pdnsd: the process that has it open, and whether that pid stands in it. -/
structure PidFile where
  opener : Nat
  written : Bool
deriving DecidableEq, Repr

/-- The arguments of `makeHevConf`. -/
structure HevConf where
  dir : Str
  serverIp : Str
  port : Int
  user : Option Str
  passwd : Option Str
  ipv6 : Bool
  udpAssociate : Bool
deriving DecidableEq, Repr

/-- Where the resolver thread of the accelerator stands. -/
inductive DnsPc where
  | reading
  | resolving
  | storing (ip : Option Str)
  | done
deriving DecidableEq, Repr

structure DnsThread where
  session : Session
  pc : DnsPc
deriving DecidableEq, Repr

/-- The thread that waits for tun2socks to exit. -/
structure Monitor where
  session : Session
  pid : Nat
  done : Bool
deriving DecidableEq, Repr

/-- Where the background thread of `start` stands. -/
inductive StartPc where
  | begin
  | engine (dnsThread : Option Nat)
  | pdnsdStarted (dnsThread : Option Nat) (pid : Nat)
  | resolve (dnsThread : Option Nat)
  | joining (dnsThread : Option Nat) (since : Nat)
  | lookup
  | checkpoint (serverIp : Option Str)
  | pick (serverIp : Option Str)
  | spawn (serverIp : Option Str)
  | tunStarted (pid : Nat)
  | tunCheck (pid : Nat)
  | tunDiscard
  | sendfd (attempts : Nat)
  | exhausted
  | hevConf (serverIp : Option Str) (udp : Bool)
  | hevCheck
  | hevNative
  | hevClaim (started : Bool)
  | hevVerify (since : Nat)
  | hevFinal (alive : Bool)
  | done
deriving DecidableEq, Repr

structure StartThread where
  session : Session
  pc : StartPc
deriving DecidableEq, Repr

/-- A write to `mResolvedServer`. -/
structure Resolution where
  session : Session
  addr : Option Str
deriving DecidableEq, Repr

/-- What the background threads write, with the files and processes they share.
`pidOpened` lists the pdnsd launchers that have made their pid file; `hevRead` is what the
native tunnel has read from hev.yml. -/
structure Shared where
  mResolvedServer : Option Str
  mError : Option Str
  mHevActive : Bool
  mTun2socksProcess : Option Nat
  mPdnsdProcess : Option Nat
  procs : List Proc
  pdnsdPid : Option PidFile
  pidOpened : List Nat
  pdnsdConf : Option (Str × Int)
  hevYml : Option HevConf
  hevNative : Option Nat
  hevRead : Option HevConf
  accelDns : Option AccelDns
  dnsThreads : List DnsThread
  monitors : List Monitor
  resolutions : List Resolution

/-! ## The other fields -/

structure Control where
  mRunning : Bool
  mTunnelUp : Bool
  mSendfdCancelled : Bool
  mConnectSeq : Nat
deriving DecidableEq, Repr

/-- The parameters of the connect. -/
structure Config extends AccelPrefs where
  mProfileName : Option Str
  mServer : Option Str
  mPort : Int
  mUsername : Option Str
  mPassword : Option Str
  mDns : Option Str
  mDnsPort : Int
  mAccelKey : Option Str

/-- What the service reports. A buffered answer keeps the probe it came from. -/
structure Published where
  mCurrentIp : Option Str
  mCountryCode : Option Str
  mIpInfo : Option IpInfo
  mConnectedSince : Int
  mProxyVerified : Bool
  mIpCheckFailures : Nat
  mPendingIpInfo : Option (IpInfo × Probe)

structure Counters where
  mReceivedBytes : Int
  mSentBytes : Int
  mCumulativeRx : Int
  mCumulativeTx : Int
  mBaseRx : Int
  mBaseTx : Int
  mStatsTick : Nat
deriving DecidableEq, Repr

/-- Pending callbacks by the uptime at which they are due, posted closures, queued checks. -/
structure Pending where
  mStatsHandler : List Nat
  mIpCheckHandler : List Nat
  mMainHandler : List Task
  mIpCheckExecutor : List Check
  mProbeInFlight : Bool

/-- The notification the service shows and the broadcasts it sent. -/
structure Announced where
  notification : Option Str
  mLastNotificationText : Option Str
  mLastNotificationActions : Int
  broadcasts : List (Option Str)

structure Receivers where
  mNotificationReceiverRegistered : Bool
  mScreenOffRegistered : Bool
  mScreenOnRegistered : Bool
deriving DecidableEq, Repr

/-- The device and the files. -/
structure World where
  device : Device
  libDir : Str
  filesDir : Str
  uptime : Nat
  clock : Int
  interactive : Bool
  deviceIdle : Bool
  floatingControl : Bool
  destroyed : Bool
  prefs : PrefMap
  accelIp : Option AccelIp

/-- A start intent without extras is the system's. -/
inductive ServiceIntent where
  | start (extras : Option VpnIntent)
  | stop
deriving DecidableEq, Repr

/-- What `configure` ends with. -/
inductive Established where
  | threw
  | null
  | fd (n : Nat)
deriving DecidableEq, Repr

/-- Intents in the order they were sent, each with its place among all. -/
structure Intents where
  queue : List (Nat × ServiceIntent)
  sent : Nat

/-- What the answer of a probe did. -/
inductive Effect where
  | applied
  | buffered
  | verified
  | counted
deriving DecidableEq, Repr

/-- An answer that took effect, and the counter at that time. -/
structure Landing where
  effect : Effect
  session : Nat
  probe : Probe
deriving DecidableEq, Repr

/-- A `stopMe` that went through: the session whose event caused it, and the one it
found running. -/
structure Stop where
  reason : StopReason
  origin : Option Nat
  running : Option Nat
deriving DecidableEq, Repr

structure History where
  handledStops : List Nat
  startedBy : Option Nat
  tunnelUpBy : Option Session
  started : List Session
  landed : List Landing
  stopped : List Stop
  lastUsage : Int × Int

/-- One service instance with its surroundings. -/
structure Svc extends Control, Config, Shared, Published, Counters, Pending, Announced, Receivers, World, Intents,
    History where
  startThreads : List StartThread

end KiloProxy.Vpn
