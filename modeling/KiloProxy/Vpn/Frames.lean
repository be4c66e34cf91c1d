import KiloProxy.Vpn.System

/-!
# What the steps leave alone

`Reports` holds between the states before and after code that only publishes: the
fields shown to clients, the notification, the next ip check, the accelerator files.
`Calm` adds that the engines are left alone, `Quiet` that no answer took effect. The
completion of an ip check is calm or stops; `postStartOnMain` is calm on top of
`tunnelUp`. An action that is `aside` leaves the sessions alone, whatever else it does.
-/

namespace KiloProxy.Vpn
set_option autoImplicit false
open KiloProxy.Text KiloProxy.Util KiloProxy.Service KiloProxy.Run

/-- Nothing changed but what the service publishes. -/
structure Reports (s s' : Svc) : Prop where
  control : s'.toControl = s.toControl
  config : s'.toConfig = s.toConfig
  counters : s'.toCounters = s.toCounters
  intents : s'.toIntents = s.toIntents
  startThreads : s'.startThreads = s.startThreads
  tasks : s'.mMainHandler = s.mMainHandler
  checks : s'.mIpCheckExecutor = s.mIpCheckExecutor
  ticks : s'.mStatsHandler = s.mStatsHandler
  prefs : s'.prefs = s.prefs
  resolved : s'.mResolvedServer = s.mResolvedServer
  resolutions : s'.resolutions = s.resolutions
  monitors : s'.monitors = s.monitors
  dnsThreads : s'.dnsThreads = s.dnsThreads
  history : { s'.toHistory with landed := s.landed } = s.toHistory

namespace Reports

theorem refl (s : Svc) : Reports s s := by constructor <;> rfl

theorem trans {s t u : Svc} (h : Reports s t) (h' : Reports t u) : Reports s u where
  control := h'.control.trans h.control
  config := h'.config.trans h.config
  counters := h'.counters.trans h.counters
  intents := h'.intents.trans h.intents
  startThreads := h'.startThreads.trans h.startThreads
  tasks := h'.tasks.trans h.tasks
  checks := h'.checks.trans h.checks
  ticks := h'.ticks.trans h.ticks
  prefs := h'.prefs.trans h.prefs
  resolved := h'.resolved.trans h.resolved
  resolutions := h'.resolutions.trans h.resolutions
  monitors := h'.monitors.trans h.monitors
  dnsThreads := h'.dnsThreads.trans h.dnsThreads
  history := by rw [← h.history, ← h'.history]

theorem handledStops {s t : Svc} (h : Reports s t) : t.handledStops = s.handledStops := by rw [← h.history]
theorem startedBy {s t : Svc} (h : Reports s t) : t.startedBy = s.startedBy := by rw [← h.history]
theorem tunnelUpBy {s t : Svc} (h : Reports s t) : t.tunnelUpBy = s.tunnelUpBy := by rw [← h.history]
theorem started {s t : Svc} (h : Reports s t) : t.started = s.started := by rw [← h.history]
theorem stopped {s t : Svc} (h : Reports s t) : t.stopped = s.stopped := by rw [← h.history]
theorem lastUsage {s t : Svc} (h : Reports s t) : t.lastUsage = s.lastUsage := by rw [← h.history]

end Reports

/-- The engines, and what the service holds of them. -/
structure Engines where
  procs : List Proc
  mTun2socksProcess : Option Nat
  mPdnsdProcess : Option Nat
  pdnsdPid : Option PidFile
  hevYml : Option HevConf
  hevNative : Option Nat
  hevRead : Option HevConf
  mHevActive : Bool

def Shared.engines (e : Shared) : Engines :=
  ⟨e.procs, e.mTun2socksProcess, e.mPdnsdProcess, e.pdnsdPid, e.hevYml, e.hevNative, e.hevRead, e.mHevActive⟩

/-- The engines are left alone as well. -/
structure Calm (s s' : Svc) : Prop extends Reports s s' where
  engines : s'.engines = s.engines

namespace Calm

theorem refl (s : Svc) : Calm s s := ⟨.refl s, rfl⟩

theorem trans {s t u : Svc} (h : Calm s t) (h' : Calm t u) : Calm s u :=
  ⟨h.toReports.trans h'.toReports, h'.engines.trans h.engines⟩

end Calm

/-- Neither did an answer take effect. -/
structure Quiet (s s' : Svc) : Prop extends Reports s s' where
  landed : s'.landed = s.landed
  pending : s'.mPendingIpInfo = s.mPendingIpInfo

theorem Quiet.refl (s : Svc) : Quiet s s := ⟨.refl s, rfl, rfl⟩

namespace Svc

theorem postIpCheck_calm (s : Svc) (delay : Int) : Calm s (s.postIpCheck delay) := ⟨by constructor <;> rfl, rfl⟩

theorem applyCachedIpInfo_calm (s : Svc) (info : IpInfo) : Calm s (s.applyCachedIpInfo info) :=
  ⟨by constructor <;> rfl, rfl⟩

theorem applyIpInfo_calm (s : Svc) (info : IpInfo) (p : Probe) : Calm s (s.applyIpInfo info p) :=
  ⟨by constructor <;> rfl, rfl⟩

theorem countFailure_calm (s : Svc) (p : Probe) : Calm s (s.countFailure p) := ⟨by constructor <;> rfl, rfl⟩

theorem showCachedIp_calm (s : Svc) : Calm s s.showCachedIp := by
  unfold showCachedIp
  cases s.cachedIp with
  | none => exact .refl s
  | some info => exact applyCachedIpInfo_calm s info

theorem surface_calm (s : Svc) : Calm s s.surface := by
  unfold surface
  split
  · exact ⟨by constructor <;> rfl, rfl⟩
  · exact postIpCheck_calm s 0

/-- What a thread knows that passes the check. -/
theorem fresh {s : Svc} {g : Session} (h : ¬ s.stale g = true) :
    g.connectSeq = s.mConnectSeq ∧ s.mRunning = true := by
  simp only [stale, Bool.or_eq_true, Bool.not_eq_true', decide_eq_true_eq, not_or, not_not, Bool.not_eq_false] at h
  exact h.1

/-- `stopMe` does not return early. -/
def goesThrough (s : Svc) (reason : StopReason) : Bool := s.mRunning || reason = .onDestroy

/-- `stopMe` tears down when it goes through, and does nothing else. -/
theorem stopMe_through (s : Svc) (reason : StopReason) (origin : Option Nat) :
    (s.mRunning = false ∧ s.stopMe reason origin = s) ∨
      s.goesThrough reason = true ∧ s.stopMe reason origin = s.teardown reason origin := by
  unfold stopMe goesThrough
  cases s.mRunning with
  | true => exact .inr ⟨rfl, rfl⟩
  | false =>
    by_cases hdestroyed : reason = .onDestroy
    · right
      rw [hdestroyed]
      exact ⟨rfl, rfl⟩
    · exact .inl ⟨rfl, if_pos (by simp [hdestroyed])⟩

theorem stopMe_cases (s : Svc) (reason : StopReason) (origin : Option Nat) :
    (s.mRunning = false ∧ s.stopMe reason origin = s) ∨ s.stopMe reason origin = s.teardown reason origin :=
  (s.stopMe_through reason origin).imp id And.right

/-- A failing handshake counts toward teardown. -/
def countsFailures (s : Svc) : Bool := !s.mAccel || s.mAccelProbe

/-- The answer is the failure at which the session is given up. -/
def givesUp (s : Svc) : Answer → Bool
  | .handshake probe =>
    s.mRunning && s.mTunnelUp && probe ≠ .ok && s.countsFailures && maxIpCheckFailures ≤ s.mIpCheckFailures + 1
  | _ => false

/-- A `stopMe` goes through in the step; a start whose `configure` fails makes one too. -/
def stops (s : Svc) : Act → Bool
  | .deliver saved established =>
    match s.queue with
    | (_, .stop) :: _ => s.mRunning
    | (_, .start extras) :: _ =>
      !s.mRunning && (s.command extras saved).isSome && decide (established ∈ [Established.threw, .null])
    | [] => false
  | .external reason => s.goesThrough reason
  | .task i _ =>
    match s.mMainHandler[i]? with
    | some (.stop _ reason) => s.goesThrough reason
    | some (.probeDone _ answer) => s.givesUp answer
    | _ => false
  | _ => false

/-- The intent with which the step starts a session. -/
def starts (s : Svc) : Act → Option VpnIntent
  | .deliver saved (.fd _) =>
    match s.queue with
    | (_, .start extras) :: _ => if s.mRunning then none else s.command extras saved
    | _ => none
  | _ => none

theorem starts_eq {s : Svc} {saved : Option ProfileValues} {place : Nat} {extras : Option VpnIntent} {cmd : VpnIntent}
    {queue : List (Nat × ServiceIntent)} (hq : s.queue = (place, .start extras) :: queue) (hidle : s.mRunning = false)
    (hcmd : cmd ∈ s.command extras saved) (n : Nat) : s.starts (.deliver saved (.fd n)) = some cmd := by
  have hcmd : s.command extras saved = some cmd := hcmd
  simp only [starts, hq, hidle, hcmd, Bool.false_eq_true, if_false]

/-- A completion is calm, or is calm and stops a tunnel that is up, as the last failure. -/
theorem probeDone_calm (s : Svc) (p : Probe) (answer : Answer) :
    Calm s (s.probeDone p answer) ∨ ∃ t, Calm s t ∧ s.mTunnelUp = true ∧ s.givesUp answer = true ∧
      s.probeDone p answer = t.teardown .proxyConnectFailed none := by
  have hflag : Calm s { s with mProbeInFlight := false } := ⟨by constructor <;> rfl, rfl⟩
  unfold probeDone
  cases answer with
  | info i =>
    left
    simp only
    split
    · exact ⟨by constructor <;> rfl, rfl⟩
    · exact hflag.trans ((applyIpInfo_calm _ i p).trans (postIpCheck_calm _ _))
  | handshake probe =>
    simp only
    split
    · exact .inl (hflag.trans (postIpCheck_calm _ _))
    · rename_i hup
      split
      · left
        exact ⟨by constructor <;> rfl, rfl⟩
      · rename_i hfailed
        split
        · rename_i hcounts
          have hcount := hflag.trans (countFailure_calm { s with mProbeInFlight := false } p)
          split
          · rename_i hlast
            have herr : Calm s { { s with mProbeInFlight := false }.countFailure p with
                mError := some (probeError probe) } := hcount.trans ⟨by constructor <;> rfl, rfl⟩
            rcases stopMe_through { { s with mProbeInFlight := false }.countFailure p with
                mError := some (probeError probe) } .proxyConnectFailed none with ⟨_, h⟩ | ⟨hruns, h⟩
            · rw [h]
              exact .inl herr
            · have htunnel : s.mTunnelUp = true := by simpa using hup
              have hrunning : s.mRunning = true := by
                rw [goesThrough, Bool.or_eq_true, decide_eq_true_eq] at hruns
                exact hruns.resolve_right StopReason.noConfusion
              refine .inr ⟨_, herr, htunnel, ?_, h⟩
              have hgives : s.countsFailures = true ∧ maxIpCheckFailures ≤ s.mIpCheckFailures + 1 := ⟨hcounts, hlast⟩
              simp [givesUp, hrunning, htunnel, hfailed, hgives]
          · exact .inl (hcount.trans (postIpCheck_calm _ _))
        · left
          exact ⟨by constructor <;> rfl, rfl⟩
  | exception => exact .inl (hflag.trans (postIpCheck_calm _ _))

theorem probeDone_cases (s : Svc) (p : Probe) (answer : Answer) :
    Reports s (s.probeDone p answer) ∨
      ∃ t, Reports s t ∧ s.mTunnelUp = true ∧ s.probeDone p answer = t.teardown .proxyConnectFailed none := by
  obtain h | ⟨t, h, hup, _, hdown⟩ := probeDone_calm s p answer
  · exact .inl h.toReports
  · exact .inr ⟨t, h.toReports, hup, hdown⟩

/-- `postStartOnMain` marks the tunnel up and reports. -/
theorem postStartOnMain_calm {s : Svc} (g : Session) (usage : Option (Int × Int)) (h : s.mRunning = true) :
    Calm (s.tunnelUp g usage) (s.postStartOnMain g usage) := by
  unfold postStartOnMain
  rw [h]
  have hsurface := (showCachedIp_calm (s.tunnelUp g usage)).trans (surface_calm _)
  exact hsurface.trans ⟨by constructor <;> rfl, rfl⟩

theorem postStartOnMain_reports {s : Svc} (g : Session) (usage : Option (Int × Int)) (h : s.mRunning = true) :
    Reports (s.tunnelUp g usage) (s.postStartOnMain g usage) := (postStartOnMain_calm g usage h).toReports

/-- An outside stop is a `stopMe`, which may be the service's last. -/
theorem external_some {s s' : Svc} {reason : StopReason} (h : s.external reason = some s') :
    ∃ d, s' = { s.stopMe reason none with destroyed := d } := by
  unfold external at h
  split at h
  · cases h
  · split at h
    · obtain rfl := Option.some.inj h
      exact ⟨_, rfl⟩
    · obtain rfl := Option.some.inj h
      exact ⟨_, rfl⟩
    · split at h
      · obtain rfl := Option.some.inj h
        exact ⟨_, rfl⟩
      · cases h
    · split at h
      · obtain rfl := Option.some.inj h
        exact ⟨_, rfl⟩
      · cases h
    · obtain rfl := Option.some.inj h
      exact ⟨true, rfl⟩
    · cases h

/-- The next intent is a stop, which is processed, or a start. -/
theorem deliver_cases {s s' : Svc} {saved : Option ProfileValues} {established : Established}
    (h : s.deliver saved established = some s') : ∃ place queue,
      (s.queue = (place, .stop) :: queue ∧
        s' = { s with queue := queue, handledStops := s.handledStops ++ [place] }.stopMe .stopAction none) ∨
      ∃ extras, s.queue = (place, .start extras) :: queue ∧
        s' = { s with queue := queue }.onStart place extras saved established := by
  unfold deliver at h
  split at h
  · cases h
  · split at h
    · cases h
    · rename_i place queue hq
      exact ⟨place, queue, .inl ⟨hq, (Option.some.inj h).symm⟩⟩
    · rename_i place extras queue hq
      exact ⟨place, queue, .inr ⟨extras, hq, (Option.some.inj h).symm⟩⟩

/-- A start intent does nothing, or is accepted and then stopped by a failed `configure`,
or starts a session. -/
theorem onStart_cases (s : Svc) (place : Nat) (extras : Option VpnIntent) (saved : Option ProfileValues)
    (established : Established) :
    s.onStart place extras saved established = s ∨
    s.mRunning = false ∧ ∃ cmd ∈ s.command extras saved,
      ((established ∈ [.threw, .null] ∧ ∃ reason,
          s.onStart place extras saved established = (s.accept place cmd).teardown reason none) ∨
        ∃ n, established = .fd n ∧
          s.onStart place extras saved established =
            (s.accept place cmd).start ((s.accept place cmd).session place n cmd)) := by
  unfold onStart
  split
  · exact .inl rfl
  · rename_i hrun
    split
    · exact .inl rfl
    · rename_i cmd hcmd
      refine .inr ⟨Bool.not_eq_true _ ▸ hrun, cmd, hcmd, ?_⟩
      -- `accept` has set `mRunning`, so `stopMe` goes through
      cases established with
      | threw => exact .inl ⟨by simp, .configureFailed, rfl⟩
      | null => exact .inl ⟨by simp, .interfaceNull, rfl⟩
      | fd n => exact .inr ⟨n, rfl, rfl⟩

/-- What a posted closure does once it is off the handler. -/
theorem task_cases {s s' : Svc} {i : Nat} {usage : Option (Int × Int)} (h : s.task i usage = some s') :
    ∃ t tasks, s.mMainHandler[i]? = some t ∧ (∀ x ∈ tasks, x ∈ s.mMainHandler) ∧
      ((∃ g reason, t = .stop g reason ∧
          s' = { s with mMainHandler := tasks }.stopMe reason (some g.connectSeq)) ∨
        (∃ g, t = .tunnelUp g ∧ s' = { s with mMainHandler := tasks }) ∨
        (∃ g, t = .tunnelUp g ∧ g.connectSeq = s.mConnectSeq ∧ s.mRunning = true ∧
          s' = { s with mMainHandler := tasks }.postStartOnMain g usage) ∨
        ∃ p answer, t = .probeDone p answer ∧ s' = { s with mMainHandler := tasks }.probeDone p answer) := by
  obtain ⟨t, ht, rfl⟩ := Option.map_eq_some_iff.mp h
  refine ⟨t, s.mMainHandler.eraseIdx i, ht, fun _ => List.mem_of_mem_eraseIdx, ?_⟩
  cases t with
  | stop g reason => exact .inl ⟨g, reason, rfl, rfl⟩
  | tunnelUp g =>
    right
    unfold runTask
    simp only
    split
    · exact .inl ⟨g, rfl, rfl⟩
    · rename_i hfresh
      obtain ⟨hseq, hrun⟩ := fresh hfresh
      exact .inr (.inl ⟨g, rfl, hseq, hrun, rfl⟩)
  | probeDone p answer => exact .inr (.inr (.inr ⟨p, answer, rfl, rfl⟩))

/-- The screen that comes on lets no answer take effect. -/
theorem screenOn_quiet {s s' : Svc} (h : s.screenOn = some s') : Quiet s s' := by
  unfold screenOn at h
  split at h
  · obtain rfl := Option.some.inj h
    split
    · exact ⟨by constructor <;> rfl, rfl, rfl⟩
    · exact .refl s
  · cases h

/-- A tick of the statistics takes its message. -/
theorem stats_some {s s' : Svc} {i : Nat} {usage : Option (Int × Int)} (h : s.stats i usage = some s') :
    ∃ l, s' = { s with mStatsHandler := l }.statsTick usage := by
  obtain ⟨due, _, h⟩ := Option.bind_eq_some_iff.mp h
  split at h
  · obtain rfl := Option.some.inj h
    exact ⟨_, rfl⟩
  · cases h

/-- A due ip check at most launches the probe of the moment. -/
theorem ipCheck_cases {s s' : Svc} {i : Nat} (h : s.ipCheck i = some s') :
    Quiet s s' ∨ (s.mRunning = true ∧ ∃ l, s' = { s with
      mIpCheckHandler := l
      mProbeInFlight := true
      mIpCheckExecutor := s.mIpCheckExecutor ++ [⟨s.probe, none⟩] }) := by
  obtain ⟨due, _, h⟩ := Option.bind_eq_some_iff.mp h
  split at h
  · obtain rfl := Option.some.inj h
    unfold runIpCheck
    split
    · exact .inl ⟨by constructor <;> rfl, rfl, rfl⟩
    · rename_i hrun
      split
      · exact .inl ⟨by constructor <;> rfl, rfl, rfl⟩
      · split
        · exact .inl ⟨by constructor <;> rfl, rfl, rfl⟩
        · exact .inr ⟨by simpa using hrun, _, rfl⟩
  · cases h

/-- The executor takes the next check. -/
theorem probeBegin_some {s s' : Svc} (h : s.probeBegin = some s') :
    ∃ p choice rest, s.mIpCheckExecutor = ⟨p, none⟩ :: rest ∧
      s' = { s with mIpCheckExecutor := ⟨p, some choice⟩ :: rest } := by
  unfold probeBegin at h
  split at h
  · rename_i p rest he
    obtain rfl := Option.some.inj h
    exact ⟨p, _, rest, he, rfl⟩
  · cases h

/-- The executor posts the answer to the check it has run. -/
theorem probeEnd_some {s s' : Svc} {answer : Answer} (h : s.probeEnd answer = some s') :
    ∃ p choice rest, s.mIpCheckExecutor = ⟨p, some choice⟩ :: rest ∧
      s' = { s with mIpCheckExecutor := rest, mMainHandler := s.mMainHandler ++ [.probeDone p answer] } := by
  unfold probeEnd at h
  split at h
  · rename_i p choice rest he
    obtain rfl := Option.some.inj h
    exact ⟨p, choice, rest, he, rfl⟩
  · cases h

/-- pdnsd touches the process table and the pid file alone. -/
theorem pdnsd_some {s s' : Svc} {c : Change} (hc : c.pdnsd = true) (h : s.change c = some s') :
    ∃ procs file opened, s' = { s with procs := procs, pdnsdPid := file, pidOpened := opened } := by
  have hinverse : ∀ {o : Option Proc} {P : Proc → Prop} [DecidablePred P] {t : Proc → Svc},
      (o.bind fun p => if P p then some (t p) else none) = some s' → ∃ p, s' = t p := by
    intro o P _ t h
    obtain ⟨p, _, h⟩ := Option.bind_eq_some_iff.mp h
    split at h
    · exact ⟨p, (Option.some.inj h).symm⟩
    · cases h
  cases c with
  | openPidFile pid =>
    obtain ⟨_, rfl⟩ := hinverse h
    exact ⟨_, _, _, rfl⟩
  | daemonize pid =>
    obtain ⟨_, rfl⟩ := hinverse h
    exact ⟨_, _, _, rfl⟩
  | writePid pid =>
    obtain ⟨_, rfl⟩ := hinverse h
    exact ⟨_, _, _, rfl⟩
  | _ => cases hc

/-- A change around the service is no change of the service, settings apart. -/
theorem change_cases {s s' : Svc} {c : Change} (h : s.change c = some s') :
    Quiet s s' ∨ ∃ key value, key ∈ settingKeys ∧ s' = { s with prefs := Function.update s.prefs key (some value) } := by
  cases c with
  | setting key value =>
    replace h : (if key ∈ settingKeys then some _ else none) = some s' := h
    split at h
    · rename_i hkey
      obtain rfl := Option.some.inj h
      exact .inr ⟨key, value, hkey, rfl⟩
    · cases h
  | openPidFile pid | daemonize pid | writePid pid =>
    obtain ⟨procs, file, opened, rfl⟩ := pdnsd_some rfl h
    exact .inl ⟨by constructor <;> rfl, rfl, rfl⟩
  | _ =>
    obtain rfl := Option.some.inj h
    exact .inl ⟨by constructor <;> rfl, rfl, rfl⟩

/-- The shape of a step of a start thread. -/
theorem stepThread_some {s s' : Svc} {i : Nat} {reply : Reply} (h : s.stepThread i reply = some s') :
    ∃ t p, s.startThreads[i]? = some t ∧ t.advance s reply = some p ∧
      s' = { s with
        toShared := p.shared
        startThreads := s.startThreads.set i ⟨t.session, p.pc⟩
        mMainHandler := s.mMainHandler ++ (p.post.map (Post.task t.session)).toList } := by
  obtain ⟨t, ht, h⟩ := Option.bind_eq_some_iff.mp h
  obtain ⟨p, hp, rfl⟩ := Option.map_eq_some_iff.mp h
  exact ⟨t, p, ht, hp, rfl⟩

theorem stepDns_some {s s' : Svc} {i : Nat} {reply : Reply} (h : s.stepDns i reply = some s') :
    ∃ t p, s.dnsThreads[i]? = some t ∧ t.advance s reply = some p ∧
      s' = { s with toShared := { p.2 with dnsThreads := p.2.dnsThreads.set i ⟨t.session, p.1⟩ } } := by
  obtain ⟨t, ht, h⟩ := Option.bind_eq_some_iff.mp h
  obtain ⟨p, hp, rfl⟩ := Option.map_eq_some_iff.mp h
  exact ⟨t, p, ht, hp, rfl⟩

/-- A monitor sees its process exit once. -/
theorem stepMonitor_some {s s' : Svc} {i : Nat} (h : s.stepMonitor i = some s') :
    ∃ m p code, s.monitors[i]? = some m ∧ s.procs[m.pid]? = some p ∧ p.exit = some code ∧
      s' = { s with
        monitors := s.monitors.set i { m with done := true }
        mMainHandler :=
          if code ≠ 0 ∧ s.mRunning = true then s.mMainHandler ++ [.stop m.session (.tun2socksExited code)]
          else s.mMainHandler } := by
  obtain ⟨m, hm, h⟩ := Option.bind_eq_some_iff.mp h
  split at h
  · cases h
  · obtain ⟨p, hp, h⟩ := Option.bind_eq_some_iff.mp h
    obtain ⟨code, hcode, rfl⟩ := Option.map_eq_some_iff.mp h
    exact ⟨m, p, code, hm, hp, hcode, rfl⟩

end Svc

/-- The sessions stay, and what is posted about them. -/
structure Aside (s s' : Svc) : Prop where
  control : s'.toControl = s.toControl
  startThreads : s'.startThreads = s.startThreads
  tasks : s'.mMainHandler = s.mMainHandler
  handledStops : s'.handledStops = s.handledStops
  stopped : s'.stopped = s.stopped

theorem Reports.aside {s s' : Svc} (h : Reports s s') : Aside s s' :=
  ⟨h.control, h.startThreads, h.tasks, h.handledStops, h.stopped⟩

/-- The action neither starts nor stops nor posts. -/
def Act.aside : Act → Bool
  | .sendStart _ | .sendStop | .screenOn | .stats _ _ | .ipCheck _ | .probeBegin | .dns _ _ | .change _ => true
  | _ => false

/-- What happens aside from the sessions leaves them alone. -/
theorem Svc.step_aside {s s' : Svc} {a : Act} (ha : a.aside = true) (hs : Svc.step s a = some s') : Aside s s' := by
  cases a with
  | sendStart extras =>
    obtain rfl := Option.some.inj hs
    exact ⟨rfl, rfl, rfl, rfl, rfl⟩
  | sendStop =>
    obtain rfl := Option.some.inj hs
    exact ⟨rfl, rfl, rfl, rfl, rfl⟩
  | screenOn => exact (screenOn_quiet hs).aside
  | stats i usage =>
    obtain ⟨l, rfl⟩ := stats_some hs
    exact ⟨rfl, rfl, rfl, rfl, rfl⟩
  | ipCheck i =>
    obtain hq | ⟨_, l, rfl⟩ := ipCheck_cases hs
    · exact hq.aside
    · exact ⟨rfl, rfl, rfl, rfl, rfl⟩
  | probeBegin =>
    obtain ⟨p, choice, rest, _, rfl⟩ := probeBegin_some hs
    exact ⟨rfl, rfl, rfl, rfl, rfl⟩
  | dns i reply =>
    obtain ⟨t, p, _, _, rfl⟩ := stepDns_some hs
    exact ⟨rfl, rfl, rfl, rfl, rfl⟩
  | change c =>
    obtain hq | ⟨key, value, _, rfl⟩ := change_cases hs
    · exact hq.aside
    · exact ⟨rfl, rfl, rfl, rfl, rfl⟩
  | _ => cases ha

/-- A resolver thread writes its cache, and the address as its last step only. -/
theorem DnsThread.advance_some {s : Svc} {t : DnsThread} {reply : Reply} {pc : DnsPc} {e : Shared}
    (h : t.advance s reply = some (pc, e)) :
    (∃ cache, e = { s.toShared with accelDns := cache }) ∨
      ∃ addr, t.pc = .storing addr ∧ e = s.toShared.setResolved t.session addr := by
  obtain ⟨g, here⟩ := t
  unfold advance at h
  cases here with
  | storing addr =>
    cases h
    exact .inr ⟨addr, rfl, rfl⟩
  | done => cases h
  | _ =>
    simp only at h
    repeat' split at h
    all_goals first | (cases h; done) | (cases h; exact .inl ⟨_, rfl⟩)

end KiloProxy.Vpn
