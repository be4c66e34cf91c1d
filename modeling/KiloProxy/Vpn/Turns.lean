import KiloProxy.Vpn.OneThread

/-!
# What a step does to sessions and engines

Seen from the sessions, the connect parameters, the resolved server and the engines, a
step leaves everything still, stops, starts a session, or is one step of a background
thread or of an engine process. `Svc.step_turn` is that case analysis, made once.
-/

namespace KiloProxy.Vpn
set_option autoImplicit false
open KiloProxy.Text KiloProxy.Util KiloProxy.Service KiloProxy.Run

/-- What sessions and engines see of the service. -/
structure Scene where
  running : Bool
  connectSeq : Nat
  server : Option Str
  hev : Bool
  threads : List StartThread
  resolved : Option Str
  resolutions : List Resolution
  engines : Engines

def Svc.scene (s : Svc) : Scene :=
  ⟨s.mRunning, s.mConnectSeq, s.mServer, s.mHev, s.startThreads, s.mResolvedServer, s.resolutions, s.engines⟩

/-- The scene stays; an ip check may be launched. -/
structure Still (s s' : Svc) : Prop where
  scene : s'.scene = s.scene
  checks : ∀ c ∈ s'.mIpCheckExecutor, (∃ b ∈ s.mIpCheckExecutor, b.probe = c.probe) ∨
    s.mRunning = true ∧ c.probe = s.probe

namespace Still

variable {s s' t : Svc}

theorem running (h : Still s s') : s'.mRunning = s.mRunning := congrArg Scene.running h.scene
theorem connectSeq (h : Still s s') : s'.mConnectSeq = s.mConnectSeq := congrArg Scene.connectSeq h.scene
theorem server (h : Still s s') : s'.mServer = s.mServer := congrArg Scene.server h.scene
theorem threads (h : Still s s') : s'.startThreads = s.startThreads := congrArg Scene.threads h.scene
theorem resolved (h : Still s s') : s'.mResolvedServer = s.mResolvedServer := congrArg Scene.resolved h.scene
theorem resolutions (h : Still s s') : s'.resolutions = s.resolutions := congrArg Scene.resolutions h.scene
theorem engines (h : Still s s') : s'.engines = s.engines := congrArg Scene.engines h.scene

/-- No check is launched. -/
theorem aside (scene : s'.scene = s.scene) (checks : ∀ c ∈ s'.mIpCheckExecutor, c ∈ s.mIpCheckExecutor) : Still s s' :=
  ⟨scene, fun c hc => .inl ⟨c, checks c hc, rfl⟩⟩

theorem refl (s : Svc) : Still s s := aside rfl fun _ => id

theorem calm (h : Still s t) (hc : Calm t s') : Still s s' := by
  constructor
  · rw [← h.scene]
    unfold Svc.scene
    rw [hc.control, hc.config, hc.startThreads, hc.resolved, hc.resolutions, hc.engines]
  · rw [hc.checks]
    exact h.checks

end Still

theorem Seats.still {s s' : Svc} (h : Seats s) (hs : Still s s') : Seats s' := h.of_eq hs.running hs.connectSeq hs.threads

theorem Seats.back {s s' : Svc} (h : Seats s') (hs : Still s s') : Seats s :=
  h.of_eq hs.running.symm hs.connectSeq.symm hs.threads.symm

/-- What the step `a` from `s` to `s'` does. -/
inductive Turn (s : Svc) : Act → Svc → Prop where
  | still {a : Act} {s' : Svc} : Still s s' → Turn s a s'
  | stop {a : Act} {t s' : Svc} (reason : StopReason) (origin : Option Nat) : s.stops a = true → Still s t →
      Still (t.teardown reason origin) s' → Turn s a s'
  | fail {a : Act} {s' : Svc} (place : Nat) (cmd : VpnIntent) (reason : StopReason) : s.stops a = true →
      s.mRunning = false → Still ((s.accept place cmd).teardown reason none) s' → Turn s a s'
  | start {saved : Option ProfileValues} {place n : Nat} {extras : Option VpnIntent} {cmd : VpnIntent}
      {queue : List (Nat × ServiceIntent)} {s' : Svc} : s.queue = (place, .start extras) :: queue →
      s.mRunning = false → cmd ∈ s.command extras saved →
      Still ((s.accept place cmd).start ((s.accept place cmd).session place n cmd)) s' →
      Turn s (.deliver saved (.fd n)) s'
  | thread {i : Nat} {reply : Reply} {t : StartThread} {p : Progress} : s.startThreads[i]? = some t →
      t.advance s reply = some p →
      Turn s (.thread i reply) { s with
        toShared := p.shared
        startThreads := s.startThreads.set i ⟨t.session, p.pc⟩
        mMainHandler := s.mMainHandler ++ (p.post.map (Post.task t.session)).toList }
  | dns {i : Nat} {reply : Reply} {t : DnsThread} {p : DnsPc × Shared} : s.dnsThreads[i]? = some t →
      t.advance s reply = some p →
      Turn s (.dns i reply) { s with
        toShared := { p.2 with dnsThreads := p.2.dnsThreads.set i ⟨t.session, p.1⟩ } }
  | exit (pid : Nat) (code : Int) : Turn s (.change (.exit pid code)) { s with procs := exitWith s.procs pid code }
  | pidFile {a : Act} (file : Option PidFile) (opened : List Nat) :
      Turn s a { s with pdnsdPid := file, pidOpened := opened }
  | daemonize {pid : Nat} {p : Proc} {file : Option PidFile} : s.procs[pid]? = some p → p.engine = .pdnsd →
      p.exit = none → Turn s (.change (.daemonize pid)) { s with
        procs := exitWith s.procs pid 0 ++ [⟨.pdnsdDaemon, p.session, p.command, none⟩]
        pdnsdPid := file }
  | hevRead : Turn s (.change .hevRead) { s with
      hevRead := if s.hevNative.isSome then s.hevRead.or s.hevYml else s.hevRead }
  | hevExit : Turn s (.change .hevExit) { s with hevNative := none }

namespace Svc

variable {s s' : Svc}

/-- A `stopMe` stops or leaves everything still. -/
theorem stopMe_turn {a : Act} {t u : Svc} (h : Still s t) (reason : StopReason) (origin : Option Nat)
    (hstops : t.goesThrough reason = true → s.stops a = true) (hu : Still (t.stopMe reason origin) u)
    (hsame : t.stopMe reason origin = t → Still s u) : Turn s a u := by
  obtain ⟨_, hidle⟩ | ⟨hgoes, hdown⟩ := t.stopMe_through reason origin
  · exact .still (hsame hidle)
  · rw [hdown] at hu
    exact .stop reason origin (hstops hgoes) h hu

theorem deliver_turn {saved : Option ProfileValues} {established : Established}
    (hs : s.deliver saved established = some s') : Turn s (.deliver saved established) s' := by
  obtain ⟨place, queue, ⟨hq, rfl⟩ | ⟨extras, hq, rfl⟩⟩ := deliver_cases hs
  · have hpopped : Still s { s with queue := queue, handledStops := s.handledStops ++ [place] } :=
      .aside rfl fun _ => id
    refine stopMe_turn hpopped .stopAction none ?_ (.refl _) ?_
    · intro hgoes
      have hrun : s.mRunning = true := by simpa [goesThrough] using hgoes
      simpa only [stops, hq] using hrun
    · intro hsame
      rw [hsame]
      exact hpopped
  · have hpopped : Still s { s with queue := queue } :=
      .aside rfl fun _ => id
    obtain he | ⟨hidle, cmd, hcmd, ⟨hfailed, reason, he⟩ | ⟨n, hn, he⟩⟩ :=
      Svc.onStart_cases { s with queue := queue } place extras saved established
    · rw [he]
      exact .still hpopped
    · rw [he]
      have hstops : s.stops (.deliver saved established) = true := by
        have hcmd : s.command extras saved = some cmd := hcmd
        have hidle : s.mRunning = false := hidle
        simp only [stops, hq, hidle, hcmd, hfailed, Bool.not_false, Option.isSome_some, decide_true, Bool.and_self]
      exact .fail place cmd reason hstops hidle (.aside rfl fun _ => id)
    · rw [he, hn]
      exact .start hq hidle hcmd (.aside rfl fun _ => id)

theorem task_turn {i : Nat} {usage : Option (Int × Int)} (hs : s.task i usage = some s') :
    Turn s (.task i usage) s' := by
  obtain ⟨t, tasks, ht, _, hcases⟩ := task_cases hs
  have hpopped : Still s { s with mMainHandler := tasks } :=
    .aside rfl fun _ => id
  obtain ⟨g, reason, rfl, rfl⟩ | ⟨g, _, rfl⟩ | ⟨g, _, _, hrun, rfl⟩ | ⟨p, answer, rfl, rfl⟩ := hcases
  · refine stopMe_turn hpopped reason (some g.connectSeq) ?_ (.refl _) ?_
    · intro hgoes
      have hgoes : s.goesThrough reason = true := hgoes
      simpa only [stops, ht] using hgoes
    · intro hsame
      rw [hsame]
      exact hpopped
  · exact .still hpopped
  · have hup : Still s (Svc.tunnelUp { s with mMainHandler := tasks } g usage) :=
      .aside rfl fun _ => id
    exact .still (hup.calm (postStartOnMain_calm (s := { s with mMainHandler := tasks }) g usage hrun))
  · obtain hc | ⟨u, hc, _, hgives, hdown⟩ := probeDone_calm { s with mMainHandler := tasks } p answer
    · exact .still (hpopped.calm hc)
    · rw [hdown]
      have hgives : s.givesUp answer = true := hgives
      have hstops : s.stops (.task i usage) = true := by simpa only [stops, ht] using hgives
      exact .stop .proxyConnectFailed none hstops (hpopped.calm hc) (.refl _)

theorem ipCheck_turn {i : Nat} (hs : s.ipCheck i = some s') : Turn s (.ipCheck i) s' := by
  obtain ⟨due, _, hs⟩ := Option.bind_eq_some_iff.mp hs
  split at hs
  · obtain rfl := Option.some.inj hs
    apply Turn.still
    unfold runIpCheck
    split
    · exact .aside rfl fun _ => id
    · rename_i hrun
      split
      · exact .aside rfl fun _ => id
      · split
        · exact .aside rfl fun _ => id
        · refine ⟨rfl, fun c hc => ?_⟩
          obtain hold | hnew := List.mem_append.mp hc
          · exact .inl ⟨c, hold, rfl⟩
          · obtain rfl := List.mem_singleton.mp hnew
            exact .inr ⟨by simpa using hrun, rfl⟩
  · cases hs

theorem change_turn {c : Change} (hs : s.change c = some s') : Turn s (.change c) s' := by
  cases c with
  | exit pid code =>
    obtain rfl := Option.some.inj hs
    exact .exit pid code
  | hevRead =>
    obtain rfl := Option.some.inj hs
    exact .hevRead
  | hevExit =>
    obtain rfl := Option.some.inj hs
    exact .hevExit
  | openPidFile pid =>
    obtain ⟨p, _, hs⟩ := Option.bind_eq_some_iff.mp hs
    split at hs
    · obtain rfl := Option.some.inj hs
      exact .pidFile _ _
    · cases hs
  | writePid pid =>
    obtain ⟨p, _, hs⟩ := Option.bind_eq_some_iff.mp hs
    split at hs
    · obtain rfl := Option.some.inj hs
      exact .pidFile _ s.pidOpened
    · cases hs
  | daemonize pid =>
    obtain ⟨p, hp, hs⟩ := Option.bind_eq_some_iff.mp hs
    split at hs
    · rename_i hlive
      obtain rfl := Option.some.inj hs
      exact .daemonize hp hlive.1 hlive.2.1
    · cases hs
  | setting key value =>
    have hs : (if key ∈ settingKeys then some { s with prefs := Function.update s.prefs key (some value) } else none) =
      some s' := hs
    split at hs
    · obtain rfl := Option.some.inj hs
      exact .still (.aside rfl fun _ => id)
    · cases hs
  | _ =>
    obtain rfl := Option.some.inj hs
    exact .still (.aside rfl fun _ => id)

/-- **What a step does**, seen from sessions and engines. -/
theorem step_turn {a : Act} (hs : Svc.step s a = some s') : Turn s a s' := by
  cases a with
  | deliver saved established => exact deliver_turn hs
  | external reason =>
    obtain ⟨d, rfl⟩ := external_some hs
    apply stopMe_turn (.refl s) reason none
    · exact id
    · exact .aside rfl fun _ => id
    · intro hsame
      rw [hsame]
      exact .aside rfl fun _ => id
  | task i usage => exact task_turn hs
  | ipCheck i => exact ipCheck_turn hs
  | change c => exact change_turn hs
  | thread i reply =>
    obtain ⟨t, p, ht, hp, rfl⟩ := stepThread_some hs
    exact .thread ht hp
  | dns i reply =>
    obtain ⟨t, p, ht, hp, rfl⟩ := stepDns_some hs
    exact .dns ht hp
  | stats i usage =>
    obtain ⟨l, rfl⟩ := stats_some hs
    exact .still (.aside rfl fun _ => id)
  | sendStart extras =>
    obtain rfl := Option.some.inj hs
    exact .still (.aside rfl fun _ => id)
  | sendStop =>
    obtain rfl := Option.some.inj hs
    exact .still (.aside rfl fun _ => id)
  | screenOn =>
    unfold Svc.step screenOn at hs
    simp only at hs
    split at hs
    · obtain rfl := Option.some.inj hs
      split
      · exact .still (.aside rfl fun _ => id)
      · exact .still (.refl s)
    · cases hs
  | probeBegin =>
    obtain ⟨p, choice, rest, he, rfl⟩ := probeBegin_some hs
    refine .still ⟨rfl, fun c hc => ?_⟩
    left
    obtain hhead | htail := List.mem_cons.mp hc
    · refine ⟨⟨p, none⟩, ?_, ?_⟩
      · rw [he]
        exact List.mem_cons_self
      · rw [hhead]
    · refine ⟨c, ?_, rfl⟩
      rw [he]
      exact List.mem_cons_of_mem _ htail
  | probeEnd answer =>
    obtain ⟨p, choice, rest, he, rfl⟩ := probeEnd_some hs
    refine .still (.aside rfl fun c hc => ?_)
    rw [he]
    exact List.mem_cons_of_mem _ hc
  | monitor i =>
    obtain ⟨m, p, code, _, _, _, rfl⟩ := stepMonitor_some hs
    exact .still (.aside rfl fun _ => id)

/-- Whether and which session runs stays, unless a stop goes through, or none runs. -/
theorem step_moves {a : Act} (hs : Svc.step s a = some s') :
    (s'.mRunning = s.mRunning ∧ s'.mConnectSeq = s.mConnectSeq) ∨ s.stops a = true ∨ s.mRunning = false := by
  cases step_turn hs with
  | still hstill => exact .inl ⟨hstill.running, hstill.connectSeq⟩
  | stop _ _ hstops _ _ => exact .inr (.inl hstops)
  | fail _ _ _ hstops _ _ => exact .inr (.inl hstops)
  | start _ hidle _ _ => exact .inr (.inr hidle)
  | _ => exact .inl ⟨rfl, rfl⟩

end Svc

/-! ## Processes -/

/-- The process at `pid` runs. -/
def Runs (procs : List Proc) (pid : Nat) (p : Proc) : Prop := procs[pid]? = some p ∧ p.exit = none

/-- An exit stops the process it is of and no other. -/
theorem Runs.of_exit {procs : List Proc} {pid i : Nat} {code : Int} {p : Proc} (h : Runs (exitWith procs i code) pid p) :
    Runs procs pid p ∧ i ≠ pid := by
  obtain ⟨hget, hlive⟩ := h
  unfold exitWith at hget
  rw [List.getElem?_modify] at hget
  by_cases hi : i = pid
  · exfalso
    simp only [if_pos hi] at hget
    obtain ⟨q, _, rfl⟩ := Option.map_eq_some_iff.mp hget
    split at hlive
    · cases hlive
    · rename_i hdead
      exact hdead hlive
  · simp only [if_neg hi] at hget
    have hq : procs[pid]? = some p := by simpa using hget
    exact ⟨⟨hq, hlive⟩, hi⟩

end KiloProxy.Vpn
