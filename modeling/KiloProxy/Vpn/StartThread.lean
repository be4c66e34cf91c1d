import KiloProxy.Vpn.Handlers

/-!
# The background threads of a connect

The thread of `start` with `startHevTunnel` and `launchPdnsd`, the resolver thread of
the accelerator and the thread that waits for tun2socks, step by step. A step ends where
the thread reads or writes what others write, or waits. What a step may write is
`Shared`; it may post one closure.
-/

namespace KiloProxy.Vpn
set_option autoImplicit false
open KiloProxy.Text KiloProxy.Util KiloProxy.Service

/-- What the system answers to the step. -/
inductive Reply where
  | ok
  /-- A spawn or a call failed. -/
  | failed
  /-- The native library is missing. -/
  | missing
  /-- The code threw past its own handlers. -/
  | threw
  | resolved (ip : Option Str)
deriving DecidableEq, Repr

/-- A closure the thread posts. -/
inductive Post where
  | stop (reason : StopReason)
  | tunnelUp
deriving DecidableEq, Repr

def Post.task (g : Session) : Post → Task
  | .stop reason => .stop g reason
  | .tunnelUp => .tunnelUp g

/-- Where the thread stands after a step, and what it did. -/
structure Progress where
  pc : StartPc
  shared : Shared
  post : Option Post := none

/-- The timeout of the join on the resolver thread. -/
def joinTimeout : Nat := 15000

def hevStartVerifyMs : Nat := 400

/-- The address argument of tun2socks: IPv6 literals stand in brackets. -/
def socksAddr (serverIp : Option Str) (port : Int) : Str :=
  match serverIp with
  | some ip => if ip.contains ':' then '[' :: ip ++ "]:".toList ++ ofInt port else ip ++ ':' :: ofInt port
  | none => "null:".toList ++ ofInt port

/-- The tun2socks command line. -/
def tun2socksCommand (libDir : Str) (g : Session) (serverIp : Option Str) : List Str :=
  [libDir ++ "/libtun2socks.so".toList, "--netif-ipaddr".toList, "10.10.10.2".toList,
   "--netif-netmask".toList, "255.255.255.0".toList, "--socks-server-addr".toList, socksAddr serverIp g.port,
   "--tunfd".toList, ofNat g.fd, "--tunmtu".toList, "1500".toList, "--loglevel".toList, "3".toList] ++
  (if g.user.getD [] = [] then []
   else ["--username".toList, g.user.getD [], "--password".toList, g.passwd.getD []]) ++
  (if g.ipv6 then ["--netif-ip6addr".toList, "fdfe:dcba:9876::2".toList] else []) ++
  ["--dnsgw".toList, "10.10.10.1:8091".toList] ++
  (if g.udpgw.getD [] = [] then [] else ["--udpgw-remote-server-addr".toList, g.udpgw.getD []])

def pdnsdCommand (libDir filesDir : Str) : List Str :=
  [libDir ++ "/libpdnsd.so".toList, "-c".toList, filesDir ++ "/pdnsd.conf".toList]

namespace Shared

/-- A new process; its pid is the length of the table before. -/
def spawn (e : Shared) (engine : Engine) (session : Nat) (command : List Str) : Shared :=
  { e with procs := e.procs ++ [⟨engine, session, command, none⟩] }

/-- `mResolvedServer = addr` by a thread of `g`. -/
def setResolved (e : Shared) (g : Session) (addr : Option Str) : Shared :=
  { e with mResolvedServer := addr, resolutions := e.resolutions ++ [⟨g, addr⟩] }

/-- The resolver thread has ended. -/
def dnsDone (e : Shared) (dnsThread : Option Nat) : Bool :=
  match dnsThread with
  | none => true
  | some i => match e.dnsThreads[i]? with
    | some t => t.pc = .done
    | none => true

end Shared

namespace StartThread

/-- Ends the thread after posting a stop. -/
def quit (e : Shared) (reason : StopReason) : Option Progress := some { pc := .done, shared := e, post := some (.stop reason) }

def goto (e : Shared) (pc : StartPc) : Option Progress := some { pc := pc, shared := e }

/-- One step of the thread of `start`. -/
def advance (s : Svc) (t : StartThread) (reply : Reply) : Option Progress :=
  let g := t.session
  let e := s.toShared
  match t.pc with
  | .begin =>
    if s.mAccel && s.mAccelDns then
      goto { e with dnsThreads := e.dnsThreads ++ [⟨g, .reading⟩] } (.engine (some e.dnsThreads.length))
    else goto e (.engine none)
  | .engine dnsThread =>
    if s.mHev then goto e (.resolve dnsThread)
    else if reply = .threw then quit e .startFailed
    else
      let e := { e with pdnsdConf := some (g.dns.getD "8.8.8.8".toList, g.dnsPort) }
      if reply = .ok then
        goto (e.spawn .pdnsd g.connectSeq (pdnsdCommand s.libDir s.filesDir)) (.pdnsdStarted dnsThread e.procs.length)
      else quit e .pdnsdStartFailed
  | .pdnsdStarted dnsThread pid => goto { e with mPdnsdProcess := some pid } (.resolve dnsThread)
  | .resolve dnsThread =>
    if s.mAccel && s.mAccelDns then goto e (.joining dnsThread s.uptime) else goto e .lookup
  | .joining dnsThread since =>
    if e.dnsDone dnsThread || since + joinTimeout ≤ s.uptime then
      goto e (.checkpoint (match e.mResolvedServer with
        | some a => some a
        | none => g.server))
    else none
  | .lookup =>
    match reply with
    | .resolved ip =>
      -- a failed lookup goes on with the name itself
      let addr := match ip with
        | some a => some a
        | none => g.server
      goto (e.setResolved g addr) (.checkpoint addr)
    | _ => none
  | .checkpoint serverIp => if s.stale g then goto e .done else goto e (.pick serverIp)
  | .pick serverIp => if s.mHev then goto e (.hevConf serverIp s.mHevUdp) else goto e (.spawn serverIp)
  | .spawn serverIp =>
    if reply = .ok then
      goto (e.spawn .tun2socks g.connectSeq (tun2socksCommand s.libDir g serverIp)) (.tunStarted e.procs.length)
    else quit e .tun2socksStartFailed
  | .tunStarted pid => goto { e with mTun2socksProcess := some pid } (.tunCheck pid)
  | .tunCheck pid =>
    if s.stale g then goto { e with procs := destroy e.procs pid } .tunDiscard
    else goto { e with monitors := e.monitors ++ [⟨g, pid, false⟩] } (.sendfd 0)
  | .tunDiscard => goto { e with mTun2socksProcess := none } .done
  | .sendfd attempts =>
    if attempts < 100 && !s.stale g then
      if reply = .ok then some { pc := .done, shared := e, post := some .tunnelUp } else goto e (.sendfd (attempts + 1))
    else goto e .exhausted
  | .exhausted => if s.stale g then goto e .done else quit e .sendfdFailed
  | .hevConf serverIp udp =>
    if serverIp.getD [] = [] then
      quit { e with mError := some "Connection failed: could not resolve the proxy server.".toList } .hevNoServerIp
    else if reply = .threw then quit e .startFailed
    else
      goto { e with hevYml := some ⟨s.filesDir, serverIp.getD [], g.port, g.user, g.passwd, g.ipv6, udp⟩ } .hevCheck
  | .hevCheck => if s.stale g then goto e .done else goto e .hevNative
  | .hevNative =>
    match reply with
    | .missing =>
      quit { e with mError := some "Connection failed: fast tunnel engine is missing from this build.".toList }
        .hevLibMissing
    | .threw =>
      quit { e with mError := some "Connection failed: fast tunnel could not start.".toList } .hevStartFailed
    | .ok =>
      if e.hevNative.isSome then goto e (.hevClaim false)
      else goto { e with hevNative := some g.connectSeq, hevRead := none } (.hevClaim true)
    | _ => goto e (.hevClaim false)
  | .hevClaim started =>
    let e := { e with mHevActive := true }
    if started then goto e (.hevVerify s.uptime)
    else
      quit { e with mError := some ("Connection failed: fast tunnel is already running or would not start. " ++
        "Restart the app and try again.").toList } .hevStartFalse
  | .hevVerify since =>
    if since + hevStartVerifyMs ≤ s.uptime then goto e (.hevFinal e.hevNative.isSome) else none
  | .hevFinal alive =>
    if s.stale g then goto { e with hevNative := none, mHevActive := false } .done
    else if alive then some { pc := .done, shared := e, post := some .tunnelUp }
    else
      quit { e with
        mError := some "Connection failed: fast tunnel could not start. Check the proxy server and try again.".toList
        hevNative := none
        mHevActive := false } .hevStartDied
  | .done => none

end StartThread

/-- One step of a resolver thread: `resolveServerHost(server, true)`, then the write. -/
def DnsThread.advance (s : Svc) (t : DnsThread) (reply : Reply) : Option (DnsPc × Shared) :=
  let e := s.toShared
  let numeric := isNumericAddress s.device
  match t.pc with
  | .reading =>
    match t.session.server with
    | none => some (.storing none, e)
    | some host =>
      if host = [] then some (.storing (some host), e)
      else match readAccelDns numeric s.clock e.accelDns host with
        | some ip => some (.storing (some ip), e)
        | none => some (.resolving, e)
  | .resolving =>
    match reply with
    | .resolved ip =>
      some (.storing ip, { e with accelDns := writeAccelDns numeric s.clock e.accelDns (t.session.server.getD []) ip })
    | _ => none
  | .storing ip => some (.done, e.setResolved t.session ip)
  | .done => none

namespace Svc

/-- The `i`-th start thread takes a step. -/
def stepThread (s : Svc) (i : Nat) (reply : Reply) : Option Svc :=
  (s.startThreads[i]?).bind fun t => (t.advance s reply).map fun p =>
    { s with
      toShared := p.shared
      startThreads := s.startThreads.set i ⟨t.session, p.pc⟩
      mMainHandler := s.mMainHandler ++ (p.post.map (Post.task t.session)).toList }

/-- The `i`-th resolver thread takes a step. -/
def stepDns (s : Svc) (i : Nat) (reply : Reply) : Option Svc :=
  (s.dnsThreads[i]?).bind fun t => (t.advance s reply).map fun p =>
    { s with toShared := { p.2 with dnsThreads := p.2.dnsThreads.set i ⟨t.session, p.1⟩ } }

/-- The `i`-th monitor sees the exit of its process. -/
def stepMonitor (s : Svc) (i : Nat) : Option Svc :=
  (s.monitors[i]?).bind fun m =>
    if m.done then none
    else (s.procs[m.pid]?).bind fun p => p.exit.map fun code =>
      { s with
        monitors := s.monitors.set i { m with done := true }
        mMainHandler :=
          if code ≠ 0 ∧ s.mRunning = true then s.mMainHandler ++ [.stop m.session (.tun2socksExited code)]
          else s.mMainHandler }

end Svc

end KiloProxy.Vpn
