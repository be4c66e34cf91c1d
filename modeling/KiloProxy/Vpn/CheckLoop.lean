import KiloProxy.Run.Rescheduled
import KiloProxy.Vpn.FailureCount
import KiloProxy.Vpn.OneThread

/-!
# The re-check loop

The ip check is a job that reschedules itself: its callback hands a probe to the executor,
the completion of the probe posts the next callback, and an answer that comes before
tunnel-up is buffered for `postStartOnMain`. `Svc.job` reads that job off the service and
`Svc.step_job` shows that every step of the service is a step of it. The loop never dies;
that it stays one loop takes that callbacks merge, which only the screen-on receiver makes
sure of.
-/

namespace KiloProxy.Vpn
set_option autoImplicit false
open KiloProxy.Text KiloProxy.Util KiloProxy.Service KiloProxy.Run

/-- The completion of an ip check. -/
def Task.answers : Task → Bool
  | .probeDone _ _ => true
  | _ => false

namespace Svc

/-- The ip checks whose completion has not run yet. -/
def checksOut (s : Svc) : Nat := s.mIpCheckExecutor.length + s.mMainHandler.countP Task.answers

/-- The re-check loop. -/
def job (s : Svc) : Job where
  on := s.mRunning
  gate := s.mTunnelUp
  now := s.uptime
  timers := s.mIpCheckHandler
  out := s.checksOut
  busy := s.mProbeInFlight
  kept := s.mPendingIpInfo.isSome

/-! ## What a step is to the loop -/

def stopEvent (s : Svc) (reason : StopReason) : Job.Event :=
  if !s.mRunning && reason ≠ .onDestroy then .nothing else .stop

/-- The completion of an ip check, exit by exit. -/
def answerEvent (s : Svc) : Answer → Job.Event
  | .info _ => if !s.mTunnelUp then .keep else .again s.healthyInterval.toNat
  | .handshake probe =>
    if !s.mTunnelUp then .again ipInfoRetry.toNat
    else if probe = .ok then .again ipInfoRetry.toNat
    else if s.countsFailures then
      if maxIpCheckFailures ≤ s.mIpCheckFailures + 1 then .giveUp else .again ipCheckRetry.toNat
    else .again ipCheckRetry.toNat
  | .exception => .again (if !s.mTunnelUp then ipInfoRetry else ipCheckRetry).toNat

def taskEvent (s : Svc) : Task → Job.Event
  | .stop _ reason => s.stopEvent reason
  | .tunnelUp g => if s.stale g then .nothing else .opens s.healthyInterval.toNat
  | .probeDone _ answer => s.answerEvent answer

def startEvent (s : Svc) (extras : Option VpnIntent) (saved : Option ProfileValues) (established : Established) :
    Job.Event :=
  if s.mRunning then .nothing
  else
    match s.command extras saved, established with
    | none, _ => .nothing
    | some _, .fd _ => .start
    | some _, _ => .stop

def event (s : Svc) : Act → Job.Event
  | .deliver saved established =>
    match s.queue with
    | [] => .nothing
    | (_, .stop) :: _ => s.stopEvent .stopAction
    | (_, .start extras) :: _ => s.startEvent extras saved established
  | .external reason => s.stopEvent reason
  | .screenOn => if s.mRunning then .kick else .nothing
  | .task i _ => (s.mMainHandler[i]?).elim .nothing s.taskEvent
  | .ipCheck i => .fire i (if s.isNetworkCheckBlocked then some dozeCheckInterval.toNat else none)
  | .change (.uptime ms) => .wait ms
  | _ => .nothing

/-! ## Every step is a step of the loop -/

variable {s s' : Svc}

/-- The loop is read off these fields. -/
theorem job_of_eq (control : s'.toControl = s.toControl) (uptime : s'.uptime = s.uptime)
    (timers : s'.mIpCheckHandler = s.mIpCheckHandler) (out : s'.checksOut = s.checksOut)
    (busy : s'.mProbeInFlight = s.mProbeInFlight) (kept : s'.mPendingIpInfo = s.mPendingIpInfo) : s'.job = s.job := by
  unfold job
  rw [control, uptime, timers, out, busy, kept]

/-- A stop switches the loop off, unless it returns early. -/
theorem stopMe_job (s : Svc) (reason : StopReason) (origin : Option Nat) :
    (s.stopMe reason origin).job = s.job.next (s.stopEvent reason) := by
  unfold stopMe stopEvent
  split
  · rfl
  · rfl

theorem stopEvent_fits (s : Svc) (reason : StopReason) : s.job.Fits (s.stopEvent reason) := by
  unfold stopEvent
  split <;> trivial

/-- The start of a session begins the loop. -/
theorem onStart_job (s : Svc) (place : Nat) (extras : Option VpnIntent) (saved : Option ProfileValues)
    (established : Established) : s.job.Fits (s.startEvent extras saved established) ∧
      (s.onStart place extras saved established).job = s.job.next (s.startEvent extras saved established) := by
  unfold onStart startEvent
  split
  · exact ⟨trivial, rfl⟩
  · rename_i hidle
    cases s.command extras saved with
    | none => exact ⟨trivial, rfl⟩
    | some cmd =>
      cases established with
      | threw => exact ⟨trivial, rfl⟩
      | null => exact ⟨trivial, rfl⟩
      | fd n => exact ⟨(Bool.not_eq_true _).mp hidle, rfl⟩

theorem deliver_job {saved : Option ProfileValues} {established : Established}
    (hs : s.deliver saved established = some s') : s.job.Fits (s.event (.deliver saved established)) ∧
      s'.job = s.job.next (s.event (.deliver saved established)) := by
  obtain ⟨place, queue, ⟨hq, rfl⟩ | ⟨extras, hq, rfl⟩⟩ := deliver_cases hs
  · simp only [event, hq]
    exact ⟨s.stopEvent_fits _, stopMe_job { s with queue := queue, handledStops := _ } _ _⟩
  · simp only [event, hq]
    exact onStart_job { s with queue := queue } place extras saved established

/-- The completion of an ip check that was still out, exit by exit. -/
theorem probeDone_job {t : Svc} {j : Job} (p : Probe) (answer : Answer) (hpopped : t.cleared.job = j.answered)
    (hout : 0 < j.out) (hgate : j.gate = t.mTunnelUp) :
    j.Fits (t.answerEvent answer) ∧ (t.probeDone p answer).job = j.next (t.answerEvent answer) := by
  -- an exit that posts the callback again
  have hagain : ∀ {u : Svc} (delay : Int), u.job = t.cleared.job →
      (u.postIpCheck delay).job = j.next (.again delay.toNat) := by
    intro u delay hu
    show u.job.post delay.toNat = _
    rw [hu, hpopped]
    rfl
  have hexit := t.probeDone_exit p answer
  generalize t.probeDone p answer = r at hexit
  cases hexit with
  | buffered hup =>
    simp only [answerEvent, hup, Bool.not_false, if_true]
    refine ⟨⟨hout, hgate.trans hup⟩, ?_⟩
    show ({ t.cleared.job with kept := true } : Job) = _
    rw [hpopped]
    rfl
  | applied hup =>
    simp only [answerEvent, hup, Bool.not_true, Bool.false_eq_true, if_false]
    exact ⟨hout, hagain _ rfl⟩
  | early hup =>
    simp only [answerEvent, hup, Bool.not_false, if_true]
    exact ⟨hout, hagain _ rfl⟩
  | verified hup =>
    simp only [answerEvent, hup, Bool.not_true, Bool.false_eq_true, if_false, if_true]
    exact ⟨hout, hagain _ rfl⟩
  | counted hup hok hcounts hmore =>
    simp only [answerEvent, hup, Bool.not_true, Bool.false_eq_true, if_false, if_neg hok, hcounts, if_true,
      if_neg (Nat.not_le.mpr hmore)]
    exact ⟨hout, hagain _ rfl⟩
  | last hup hok hcounts hlast =>
    simp only [answerEvent, hup, Bool.not_true, Bool.false_eq_true, if_false, if_neg hok, hcounts, if_true,
      if_pos hlast]
    refine ⟨hout, ?_⟩
    rw [stopMe_job]
    show t.cleared.job.next (t.stopEvent .proxyConnectFailed) = _
    rw [hpopped]
    have hon : j.on = t.mRunning := (congrArg Job.on hpopped).symm
    unfold stopEvent Job.next
    cases hrun : t.mRunning with
    | false =>
      rw [hrun] at hon
      simp [hon]
    | true =>
      rw [hrun] at hon
      simp [hon]
  | uncounted hup hok hcounts =>
    simp only [answerEvent, hup, Bool.not_true, Bool.false_eq_true, if_false, if_neg hok, hcounts]
    exact ⟨hout, hagain _ rfl⟩
  | exception => exact ⟨hout, hagain _ rfl⟩

/-- Tunnel-up opens the gate. -/
theorem postStartOnMain_job (s : Svc) (g : Session) (usage : Option (Int × Int)) (hrun : s.mRunning = true) :
    (s.postStartOnMain g usage).job = s.job.next (.opens s.healthyInterval.toNat) := by
  have hshown : (s.tunnelUp g usage).showCachedIp.job = { s.job with gate := true } := by
    unfold showCachedIp
    cases (s.tunnelUp g usage).cachedIp <;> rfl
  have hpending : (s.tunnelUp g usage).showCachedIp.mPendingIpInfo = s.mPendingIpInfo := by
    unfold showCachedIp
    cases (s.tunnelUp g usage).cachedIp <;> rfl
  have hinterval : (s.tunnelUp g usage).showCachedIp.healthyInterval = s.healthyInterval := by
    unfold showCachedIp
    cases (s.tunnelUp g usage).cachedIp <;> rfl
  unfold postStartOnMain
  rw [hrun]
  show (s.tunnelUp g usage).showCachedIp.surface.job = _
  unfold surface
  rw [hpending]
  have hkept : s.job.kept = s.mPendingIpInfo.isSome := rfl
  cases hp : s.mPendingIpInfo with
  | none =>
    rw [hp] at hkept
    show ((s.tunnelUp g usage).showCachedIp.job).post 0 = _
    rw [hshown]
    simp [Job.next, Job.post, hkept]
  | some x =>
    rw [hp] at hkept
    show (({ (s.tunnelUp g usage).showCachedIp.job with kept := false } : Job)).post
      ((s.tunnelUp g usage).showCachedIp.healthyInterval).toNat = _
    rw [hshown, hinterval]
    simp [Job.next, Job.post, hkept]

/-- Among the posted tasks the answers to a check and the stop change the job. -/
theorem task_job {i : Nat} {usage : Option (Int × Int)} (hs : s.task i usage = some s') :
    s.job.Fits (s.event (.task i usage)) ∧ s'.job = s.job.next (s.event (.task i usage)) := by
  obtain ⟨t, ht, rfl⟩ := Option.map_eq_some_iff.mp hs
  have hcount := countP_eraseIdx ht Task.answers
  have hout : s.checksOut = s.mIpCheckExecutor.length + s.mMainHandler.countP Task.answers := rfl
  have hevent : s.event (.task i usage) = s.taskEvent t := by simp only [event, ht, Option.elim_some]
  rw [hevent]
  -- the service with the closure off its handler
  generalize hpopped : ({ s with mMainHandler := s.mMainHandler.eraseIdx i } : Svc) = u
  have hu : u.checksOut = s.mIpCheckExecutor.length + (s.mMainHandler.eraseIdx i).countP Task.answers := by
    rw [← hpopped]
    rfl
  cases t with
  | stop g reason =>
    have hjob : u.job = s.job := by
      rw [← hpopped]
      exact job_of_eq rfl rfl rfl (by rw [hpopped, hu, hout, hcount]; rfl) rfl rfl
    refine ⟨s.stopEvent_fits reason, ?_⟩
    show (u.stopMe reason (some g.connectSeq)).job = _
    rw [stopMe_job, hjob, ← hpopped]
    rfl
  | tunnelUp g =>
    have hjob : u.job = s.job := by
      rw [← hpopped]
      exact job_of_eq rfl rfl rfl (by rw [hpopped, hu, hout, hcount]; rfl) rfl rfl
    have hstale : u.stale g = s.stale g := by
      rw [← hpopped]
      rfl
    unfold runTask taskEvent
    simp only [hstale]
    split
    · exact ⟨trivial, hjob⟩
    · rename_i hfresh
      have hrun := (fresh hfresh).2
      refine ⟨hrun, ?_⟩
      rw [postStartOnMain_job u g usage (by rw [← hpopped]; exact hrun), hjob, ← hpopped]
      rfl
  | probeDone p answer =>
    have hone : s.checksOut = u.checksOut + 1 := by
      rw [hu, hout, hcount]
      rfl
    have hanswer : u.answerEvent answer = s.answerEvent answer := by
      rw [← hpopped]
      cases answer <;> rfl
    show s.job.Fits (s.answerEvent answer) ∧ (u.probeDone p answer).job = s.job.next (s.answerEvent answer)
    rw [← hanswer]
    apply probeDone_job p answer
    · have hless : u.checksOut = s.checksOut - 1 := by omega
      show ({ u.job with busy := false } : Job) = { s.job with busy := false, out := s.checksOut - 1 }
      rw [← hless, ← hpopped]
      rfl
    · show 0 < s.checksOut
      omega
    · rw [← hpopped]
      rfl

/-- The callback is a run of the loop. -/
theorem runIpCheck_job (s : Svc) :
    s.runIpCheck.job = s.job.run (if s.isNetworkCheckBlocked then some dozeCheckInterval.toNat else none) := by
  have hon : s.job.on = s.mRunning := rfl
  have hbusy : s.job.busy = s.mProbeInFlight := rfl
  unfold runIpCheck Job.run
  cases hrun : s.mRunning with
  | false =>
    rw [hrun] at hon
    cases s.isNetworkCheckBlocked <;> simp [hon]
  | true =>
    rw [hrun] at hon
    cases s.isNetworkCheckBlocked with
    | true =>
      simp only [hon, if_true, Bool.not_true, Bool.false_eq_true, if_false]
      rfl
    | false =>
      cases hflight : s.mProbeInFlight with
      | true =>
        rw [hflight] at hbusy
        simp [hon, hbusy]
      | false =>
        rw [hflight] at hbusy
        have hlaunch : ({ s with
            mProbeInFlight := true
            mIpCheckExecutor := s.mIpCheckExecutor ++ [⟨s.probe, none⟩] } : Svc).job =
            { s.job with busy := true, out := s.job.out + 1 } := by
          have hone : (s.mIpCheckExecutor ++ [(⟨s.probe, none⟩ : Check)]).length +
              s.mMainHandler.countP Task.answers = s.checksOut + 1 := by
            rw [List.length_append, List.length_singleton, checksOut]
            omega
          show ({ s.job with busy := true, out := _ } : Job) = { s.job with busy := true, out := s.checksOut + 1 }
          rw [← hone]
          rfl
        simp only [Bool.not_true, Bool.false_eq_true, if_false]
        rw [hlaunch, if_pos (by rw [hon, hbusy]; rfl)]

theorem ipCheck_job {i : Nat} (hs : s.ipCheck i = some s') :
    s.job.Fits (s.event (.ipCheck i)) ∧ s'.job = s.job.next (s.event (.ipCheck i)) := by
  obtain ⟨due, hdue, hs⟩ := Option.bind_eq_some_iff.mp hs
  split at hs
  · rename_i hnow
    obtain rfl := Option.some.inj hs
    exact ⟨⟨due, hdue, hnow⟩, runIpCheck_job { s with mIpCheckHandler := s.mIpCheckHandler.eraseIdx i }⟩
  · cases hs

theorem screenOn_job (hs : s.screenOn = some s') :
    s.job.Fits (s.event .screenOn) ∧ s'.job = s.job.next (s.event .screenOn) := by
  unfold screenOn at hs
  split at hs
  · obtain rfl := Option.some.inj hs
    unfold event
    cases hrun : s.mRunning with
    | false => exact ⟨trivial, rfl⟩
    | true => exact ⟨hrun, rfl⟩
  · cases hs

theorem external_job {reason : StopReason} (hs : s.external reason = some s') :
    s.job.Fits (s.event (.external reason)) ∧ s'.job = s.job.next (s.event (.external reason)) := by
  obtain ⟨d, rfl⟩ := external_some hs
  exact ⟨s.stopEvent_fits reason, stopMe_job s reason none⟩

/-- Only the passing of time is an event of the loop. -/
theorem change_job {c : Change} (hs : s.change c = some s') :
    s.job.Fits (s.event (.change c)) ∧ s'.job = s.job.next (s.event (.change c)) := by
  cases c with
  | uptime ms =>
    obtain rfl := Option.some.inj hs
    exact ⟨trivial, rfl⟩
  | setting key value =>
    have hs : (if key ∈ settingKeys then some { s with prefs := Function.update s.prefs key (some value) } else none) =
      some s' := hs
    split at hs
    · obtain rfl := Option.some.inj hs
      exact ⟨trivial, rfl⟩
    · cases hs
  | openPidFile pid | daemonize pid | writePid pid =>
    obtain ⟨procs, file, opened, rfl⟩ := Svc.pdnsd_some rfl hs
    exact ⟨trivial, rfl⟩
  | _ =>
    obtain rfl := Option.some.inj hs
    exact ⟨trivial, rfl⟩

/-- The executor moves a check on; it is still out. -/
theorem probe_job {checks : List Check} {tasks : List Task}
    (hout : checks.length + tasks.countP Task.answers = s.checksOut) :
    ({ s with mIpCheckExecutor := checks, mMainHandler := tasks } : Svc).job = s.job :=
  job_of_eq rfl rfl rfl hout rfl rfl

/-- **Every step of the service is a step of the loop.** -/
theorem step_job {a : Act} (hs : Svc.step s a = some s') :
    s.job.Fits (s.event a) ∧ s'.job = s.job.next (s.event a) := by
  cases a with
  | deliver saved established => exact deliver_job hs
  | external reason => exact external_job hs
  | screenOn => exact screenOn_job hs
  | task i usage => exact task_job hs
  | ipCheck i => exact ipCheck_job hs
  | change c => exact change_job hs
  | stats i usage =>
    obtain ⟨l, rfl⟩ := stats_some hs
    exact ⟨trivial, rfl⟩
  | probeBegin =>
    obtain ⟨p, choice, rest, he, rfl⟩ := probeBegin_some hs
    refine ⟨trivial, probe_job ?_⟩
    rw [checksOut, he, List.length_cons, List.length_cons]
  | probeEnd answer =>
    obtain ⟨p, choice, rest, he, rfl⟩ := probeEnd_some hs
    refine ⟨trivial, probe_job ?_⟩
    have hone : [Task.probeDone p answer].countP Task.answers = 1 := rfl
    rw [checksOut, he, List.countP_append, List.length_cons, hone]
    omega
  | thread i reply =>
    obtain ⟨t, p, _, _, rfl⟩ := stepThread_some hs
    have hnone : (p.post.map (Post.task t.session)).toList.countP Task.answers = 0 := by
      cases p.post with
      | none => rfl
      | some post => cases post <;> rfl
    refine ⟨trivial, job_of_eq rfl rfl rfl ?_ rfl rfl⟩
    show s.mIpCheckExecutor.length + List.countP Task.answers (s.mMainHandler ++ _) = s.checksOut
    rw [List.countP_append, hnone]
    rfl
  | dns i reply =>
    obtain ⟨t, p, _, _, rfl⟩ := stepDns_some hs
    exact ⟨trivial, rfl⟩
  | monitor i =>
    obtain ⟨m, p, code, _, _, _, rfl⟩ := stepMonitor_some hs
    refine ⟨trivial, job_of_eq rfl rfl rfl ?_ rfl rfl⟩
    show s.mIpCheckExecutor.length + List.countP Task.answers (if _ then _ else _) = s.checksOut
    split
    · rw [List.countP_append]
      rfl
    · rfl
  | _ =>
    obtain rfl := Option.some.inj hs
    exact ⟨trivial, rfl⟩

end Svc

/-! ## The loop never dies -/

/-- In every reachable state the loop of a session that runs is alive. -/
theorem alive_reachable {s : Svc} (h : Reachable system s) : s.job.Alive := by
  apply Reaches.invariant (P := fun s => s.job.Alive) _ _ h
  · rintro _ ⟨w, accelDns, _, rfl⟩
    exact ⟨nofun, nofun⟩
  · intro s a s' hs _ hstep
    obtain ⟨hfits, hjob⟩ := Svc.step_job hstep
    rw [hjob]
    exact hs.next hfits

/-- **The re-check loop never dies**: while the service runs, a callback is pending, a check
or its completion is out, or the first answer waits for tunnel-up. -/
theorem loop_never_dies {s : Svc} (h : Reachable system s) (hrun : s.mRunning = true) :
    s.mIpCheckHandler ≠ [] ∨ (s.mIpCheckExecutor ≠ [] ∨ ∃ p answer, Task.probeDone p answer ∈ s.mMainHandler) ∨
      (s.mTunnelUp = false ∧ s.mPendingIpInfo.isSome = true) := by
  obtain htimer | hout | hkept := (alive_reachable h).goes hrun
  · exact .inl htimer
  · have hsum : 0 < s.mIpCheckExecutor.length + s.mMainHandler.countP Task.answers := hout
    right
    left
    by_cases hexec : s.mIpCheckExecutor = []
    · right
      rw [hexec, List.length_nil, Nat.zero_add] at hsum
      obtain ⟨t, ht, hanswers⟩ := List.countP_pos_iff.mp hsum
      cases t with
      | probeDone p answer => exact ⟨p, answer, ht⟩
      | _ => cases hanswers
    · exact .inl hexec
  · exact .inr (.inr hkept)

/-- A start whose first check is taken up by the executor. -/
def firstCheck : List Act :=
  [.sendStart (some (startOf "Work".toList "10.0.0.2".toList)), .deliver none (.fd 3), .ipCheck 0, .probeBegin]

/-- The first answer comes before tunnel-up and waits for it. -/
theorem loop_never_dies_early : ∃ s : Svc, s.mIpCheckHandler = [] ∧ s.mIpCheckExecutor = [] ∧
    (s.mIpCheckHandler ≠ [] ∨ (s.mIpCheckExecutor ≠ [] ∨ ∃ p answer, Task.probeDone p answer ∈ s.mMainHandler) ∨
      (s.mTunnelUp = false ∧ s.mPendingIpInfo.isSome = true)) := by
  have hrun : (exec system (Svc.created phone none) (firstCheck ++
      [.probeEnd (.info ⟨"1.2.3.4".toList, "DE".toList, [], [], [], [], [], [], []⟩), .task 0 none])).map
      (fun s => (s.mRunning, s.mIpCheckHandler, s.mIpCheckExecutor)) = some (true, [], []) := by decide +kernel
  obtain ⟨s, hs, hresult⟩ := Option.map_eq_some_iff.mp hrun
  obtain ⟨hrunning, hresult⟩ := Prod.mk.inj hresult
  obtain ⟨htimers, hchecks⟩ := Prod.mk.inj hresult
  exact ⟨s, htimers, hchecks, loop_never_dies (exec_reaches _ (created_reachable rfl none) hs) hrunning⟩

/-! ## The loop is one chain -/

namespace Svc

/-- The completion sets the next callback. -/
def setsNext (s : Svc) : Task → Bool
  | .probeDone _ answer => match s.answerEvent answer with
    | .again _ => true
    | _ => false
  | _ => false

/-- The checks in flight that will set the next callback. What those on the executor will
find is open. -/
def rescheduling (s : Svc) : Nat := s.mIpCheckExecutor.length + s.mMainHandler.countP s.setsNext

/-- Every callback due at the current time has run. -/
def Settled (s : Svc) : Prop := ∀ due ∈ s.mIpCheckHandler, s.uptime < due

/-- The step begins no second chain: a start finds no check out and only due callbacks;
tunnel-up finds only due callbacks, or none and no check when it surfaces a buffered
answer; a blocked run is the only callback, with no check out; an answer that sets the
next callback finds none that is due. -/
def OneChain (s : Svc) (a : Act) : Prop := s.job.Merges (s.event a)

instance (s : Svc) (a : Act) : Decidable (s.OneChain a) := inferInstanceAs (Decidable (s.job.Merges (s.event a)))

/-- The step counts a failed handshake. -/
def CountsOne (s : Svc) (a : Act) : Prop :=
  s.mTunnelUp = true ∧ s.countsFailures = true ∧ s.outcome a = some .failed

/-- The session goes on, in one chain and with no check at screen-on. -/
def GoesOn (s : Svc) (a : Act) : Prop := s.OneChain a ∧ s.event a ≠ .kick ∧ s.event a ≠ .start

instance (s : Svc) (a : Act) : Decidable (s.CountsOne a) :=
  inferInstanceAs (Decidable (s.mTunnelUp = true ∧ s.countsFailures = true ∧ s.outcome a = some .failed))

instance (s : Svc) (a : Act) : Decidable (s.GoesOn a) :=
  inferInstanceAs (Decidable (s.OneChain a ∧ s.event a ≠ .kick ∧ s.event a ≠ .start))

/-- Every answer that reschedules is of a check that is out. -/
theorem rescheduling_le (s : Svc) : s.rescheduling ≤ s.checksOut := by
  apply Nat.add_le_add_left
  apply List.countP_mono_left
  intro t _ hnext
  cases t with
  | probeDone p answer => rfl
  | _ => cases hnext

end Svc

/-- In every run under the condition the loop that runs is a single one. -/
theorem single_reaches {s : Svc} (h : Reaches system Svc.OneChain s) : s.job.on = true → s.job.Single := by
  apply Reaches.invariant (P := fun s => s.job.on = true → s.job.Single) _ _ h
  · rintro _ ⟨w, accelDns, _, rfl⟩
    exact nofun
  · intro s a s' hs hok hstep
    obtain ⟨hfits, hjob⟩ := Svc.step_job hstep
    rw [hjob]
    exact Job.Single.next hs hfits hok

namespace Svc

variable {s s' : Svc}

/-- A step that counts is the completion of a check, which sets the next callback or gives
the session up, and adds one to the failures. -/
theorem CountsOne.cases {a : Act} (h : s.CountsOne a) (hs : Svc.step s a = some s') :
    (s.event a = .again ipCheckRetry.toNat ∨ s.event a = .giveUp) ∧ s'.mIpCheckFailures = s.mIpCheckFailures + 1 := by
  obtain ⟨hup, hcounts, houtcome⟩ := h
  cases a with
  | task i usage =>
    obtain ⟨t, ht, rfl⟩ := Option.map_eq_some_iff.mp hs
    simp only [outcome, ht, Option.bind_some] at houtcome
    cases t with
    | stop g reason => cases houtcome
    | tunnelUp g =>
      simp only [taskOutcome] at houtcome
      split at houtcome <;> cases houtcome
    | probeDone p answer =>
      have hevent : s.event (.task i usage) = s.answerEvent answer := by
        simp only [event, ht, Option.elim_some, taskEvent]
      rw [hevent]
      show _ ∧ ({ s with mMainHandler := s.mMainHandler.eraseIdx i }.probeDone p answer).mIpCheckFailures = _
      have hexit := probeDone_exit { s with mMainHandler := s.mMainHandler.eraseIdx i } p answer
      generalize probeDone _ p answer = r at hexit ⊢
      cases hexit with
      | buffered _ => cases houtcome
      | applied _ => cases houtcome
      | verified _ => cases houtcome
      | exception => cases houtcome
      | early hdown => cases hdown.symm.trans hup
      | uncounted _ _ hnot => cases hnot.symm.trans hcounts
      | counted _ hok _ hmore =>
        refine ⟨.inl ?_, rfl⟩
        simp only [answerEvent, hup, Bool.not_true, Bool.false_eq_true, if_false, if_neg hok, hcounts, if_true]
        exact if_neg (Nat.not_le.mpr hmore)
      | last _ hok _ hlast =>
        constructor
        · right
          simp only [answerEvent, hup, Bool.not_true, Bool.false_eq_true, if_false, if_neg hok, hcounts, if_true]
          exact if_pos hlast
        · obtain ⟨_, he⟩ | he := stopMe_cases _ _ _
          · rw [he]
            rfl
          · rw [he]
            rfl
  | screenOn =>
    simp only [outcome] at houtcome
    split at houtcome <;> cases houtcome
  | _ => cases houtcome

end Svc

/-- A failure that is counted puts the loop to rest for the retry interval, or ends it. -/
theorem Svc.CountsOne.rests {s s' : Svc} {a : Act} (h : s.CountsOne a) (hone : s.job.Single) (hrun : s.mRunning = true)
    (hok : s.OneChain a) (hs : Svc.step s a = some s') : s'.job.Rests (s'.uptime + ipCheckRetry.toNat) := by
  obtain ⟨hfits, hjob⟩ := Svc.step_job hs
  have hok : s.job.Merges (s.event a) := hok
  obtain ⟨hagain | hgives, _⟩ := h.cases hs
  · rw [hagain] at hfits hjob hok
    have huptime : s'.uptime = s.uptime := congrArg Job.now hjob
    rw [hjob, huptime]
    exact hone.again_rests hfits hrun hok
  · intro hon
    have hoff : (s.job.next .giveUp).on = false := congrArg Job.on (if_pos hrun)
    rw [hjob, hgives, hoff] at hon
    cases hon

/-- The loop rests on while the session goes on. -/
theorem rests_lead {s t : Svc} {due : Nat} (hs : s.job.Rests due) (h : Leads system Svc.GoesOn s t) :
    t.job.Rests due := by
  apply h.invariant (P := fun s => s.job.Rests due) hs
  intro u a u' hu hok hstep
  obtain ⟨hfits, hjob⟩ := Svc.step_job hstep
  rw [hjob]
  exact hu.next hfits hok.1 hok.2.1 hok.2.2

/-- **One re-check chain** in the runs whose steps begin no second one, so that a session
counts at most one failure in each retry interval, unless the screen comes on, which
begins the count anew. -/
theorem one_chain {s : Svc} (h : Reaches system Svc.OneChain s) (hrun : s.mRunning = true) :
    (s.Settled → s.mIpCheckHandler.length + s.rescheduling ≤ 1) ∧
    (∀ a s', s.OneChain a → s.CountsOne a → Svc.step s a = some s' → s'.mIpCheckFailures = s.mIpCheckFailures + 1 ∧
      ∀ t b t', Leads system Svc.GoesOn s' t → t.mRunning = true → t.CountsOne b → Svc.step t b = some t' →
        s'.uptime + ipCheckRetry.toNat ≤ t.uptime) ∧
    ∀ s', Svc.step s .screenOn = some s' → s'.mIpCheckFailures = 0 := by
  have hsingle := single_reaches h hrun
  refine ⟨fun hs => ?_, fun a s' hok hcounts hs => ⟨(hcounts.cases hs).2, ?_⟩, fun s' hs => ?_⟩
  · have hone : s.mIpCheckHandler.length + s.checksOut ≤ 1 := hsingle.settled hs
    have hle := s.rescheduling_le
    omega
  · intro t b t' hleads hrunning hcounts' hs'
    have hrests := rests_lead (hcounts.rests hsingle hrun hok hs) hleads
    obtain ⟨hfits, _⟩ := Svc.step_job hs'
    apply hrests.wakes hrunning
    obtain ⟨hagain | hgives, _⟩ := hcounts'.cases hs'
    · rw [hagain] at hfits
      exact hfits
    · rw [hgives] at hfits
      exact hfits
  · have hs : s.screenOn = some s' := hs
    unfold Svc.screenOn at hs
    split at hs
    · obtain rfl := Option.some.inj hs
      rfl
    · cases hs

/-- Tunnel-up finds the first check out; its failure is counted and sets the one callback.
The next failure is counted an interval later. -/
theorem one_chain_counted :
    (∃ s : Svc, s.mIpCheckFailures = 1 ∧ s.mIpCheckHandler = [5000] ∧
      s.mIpCheckHandler.length + s.rescheduling ≤ 1) ∧
    ∃ s t t' : Svc, s.mIpCheckFailures = 1 ∧ t'.mIpCheckFailures = 2 ∧ s.uptime + ipCheckRetry.toNat ≤ t.uptime := by
  constructor
  · have hrun : (execWhere system Svc.OneChain (Svc.created phone none) (firstCheck ++ bringUp 0 "10.0.0.2".toList ++
        [.task 0 none, .ipCheck 0, .probeEnd (.handshake .unreachable), .task 0 none])).map
        (fun s => (s.mRunning, s.uptime, s.mIpCheckFailures, s.mIpCheckHandler)) = some (true, 0, 1, [5000]) := by
      decide +kernel
    obtain ⟨s, hs, hresult⟩ := Option.map_eq_some_iff.mp hrun
    obtain ⟨hrunning, hresult⟩ := Prod.mk.inj hresult
    obtain ⟨huptime, hresult⟩ := Prod.mk.inj hresult
    obtain ⟨hfailures, htimers⟩ := Prod.mk.inj hresult
    have hsettled : s.Settled := by
      intro due hdue
      rw [htimers, List.mem_singleton] at hdue
      omega
    have hchain := one_chain (execWhere_reaches _ (created_reachable rfl none) hs) hrunning
    exact ⟨s, hfailures, htimers, hchain.1 hsettled⟩
  · -- the first failure waits for its step, which counts it
    have hrun : (execWhere system Svc.OneChain (Svc.created phone none) (firstCheck ++ bringUp 0 "10.0.0.2".toList ++
        [.task 0 none, .ipCheck 0, .probeEnd (.handshake .unreachable)])).map
        (fun s => decide (s.mRunning = true ∧ s.OneChain (.task 0 none) ∧ s.CountsOne (.task 0 none) ∧
          s.mIpCheckFailures = 0 ∧ ((Svc.step s (.task 0 none)).bind fun s' =>
            (execWhere system Svc.GoesOn s' [.change (.uptime 5000), .ipCheck 0, .probeBegin,
              .probeEnd (.handshake .unreachable)]).map fun t => decide (t.mRunning = true ∧ t.CountsOne (.task 0 none) ∧
                (Svc.step t (.task 0 none)).map (fun t' => t'.mIpCheckFailures) = some 2)) = some true)) =
        some true := by decide +kernel
    obtain ⟨s, hs, hstate⟩ := Option.map_eq_some_iff.mp hrun
    obtain ⟨hrunning, hok, hcounts, hzero, hrest⟩ := of_decide_eq_true hstate
    obtain ⟨s', hstep, hrest⟩ := Option.bind_eq_some_iff.mp hrest
    obtain ⟨t, ht, hrest⟩ := Option.map_eq_some_iff.mp hrest
    obtain ⟨hruns, hcounts', hnext⟩ := of_decide_eq_true hrest
    obtain ⟨t', hstep', htwo⟩ := Option.map_eq_some_iff.mp hnext
    have hchain := one_chain (execWhere_reaches _ (created_reachable rfl none) hs) hrunning
    obtain ⟨hone, hapart⟩ := hchain.2.1 _ s' hok hcounts hstep
    refine ⟨s', t, t', ?_, htwo, hapart t _ t' (execWhere_leads _ .here ht) hruns hcounts' hstep'⟩
    rw [hone, hzero]

/-- A check that fails before tunnel-up sets a callback, and tunnel-up sets another one:
two chains, each counting its failures. -/
theorem two_chains : ¬ ∀ s, Reachable system s → s.mRunning = true → s.Settled →
    s.mIpCheckHandler.length + s.rescheduling ≤ 1 := by
  intro h
  have hrun : (exec system (Svc.created phone none) (firstCheck ++
      [.probeEnd (.handshake .unreachable), .task 0 none] ++ bringUp 0 "10.0.0.2".toList ++
      [.task 0 none, .ipCheck 1, .probeBegin, .probeEnd (.handshake .unreachable), .task 0 none])).map
      (fun s => (s.mRunning, s.uptime, s.mIpCheckHandler)) = some (true, 0, [500, 5000]) := by decide +kernel
  obtain ⟨s, hs, hresult⟩ := Option.map_eq_some_iff.mp hrun
  obtain ⟨hrunning, hresult⟩ := Prod.mk.inj hresult
  obtain ⟨huptime, htimers⟩ := Prod.mk.inj hresult
  have hsettled : s.Settled := by
    intro due hdue
    rw [htimers, List.mem_cons, List.mem_singleton] at hdue
    omega
  have hone := h s (exec_reaches _ (created_reachable rfl none) hs) hrunning hsettled
  rw [htimers] at hone
  simp only [List.length_cons, List.length_nil] at hone
  omega

end KiloProxy.Vpn
