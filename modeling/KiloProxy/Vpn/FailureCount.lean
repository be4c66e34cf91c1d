import KiloProxy.Vpn.Exits
import KiloProxy.Vpn.PublishedState

/-!
# Teardown on failed handshakes

What the main thread is told about the proxy is a list of outcomes. `failuresSince` counts
the failed handshakes in it since the last outcome that resets the count, and a running
service calls `stopMe("proxy_connect_failed")` where that number reaches
`maxIpCheckFailures`, and nowhere else.
-/

namespace KiloProxy.Vpn
set_option autoImplicit false
open KiloProxy.Text KiloProxy.Util KiloProxy.Service KiloProxy.Run

/-- What the main thread is told about the proxy. -/
inductive Outcome where
  | tunnelUp
  | lookup
  | probeOk
  | failed
  | exception
  | screenOn
deriving DecidableEq, Repr

/-- The count of failures begins anew. -/
def Outcome.resets : Outcome → Bool
  | .tunnelUp | .lookup | .probeOk | .screenOn => true
  | .failed | .exception => false

/-- The failed handshakes since the last outcome that resets their count. -/
def failuresSince (os : List Outcome) : Nat :=
  (os.reverse.takeWhile fun o => !o.resets).countP fun o => o = .failed

/-- The next outcome resets the number or adds to it. -/
theorem failuresSince_snoc (os : List Outcome) (o : Outcome) :
    failuresSince (os ++ [o]) = if o.resets then 0 else failuresSince os + if o = .failed then 1 else 0 := by
  unfold failuresSince
  rw [List.reverse_append, List.reverse_singleton, List.singleton_append, List.takeWhile_cons]
  cases hresets : o.resets with
  | true => rfl
  | false =>
    rw [Bool.not_false, if_pos rfl, List.countP_cons]
    simp only [decide_eq_true_eq, Bool.false_eq_true, if_false]

def Answer.outcome : Answer → Outcome
  | .info _ => .lookup
  | .handshake probe => if probe = .ok then .probeOk else .failed
  | .exception => .exception

namespace Svc

def taskOutcome (s : Svc) : Task → Option Outcome
  | .stop _ _ => none
  | .tunnelUp g => if s.stale g then none else some .tunnelUp
  | .probeDone _ answer => some answer.outcome

/-- What the step tells the main thread. -/
def outcome (s : Svc) : Act → Option Outcome
  | .task i _ => (s.mMainHandler[i]?).bind s.taskOutcome
  | .screenOn => if s.mRunning then some .screenOn else none
  | _ => none

/-- `mIpCheckFailures` after an outcome. -/
def countOf (s : Svc) : Option Outcome → Nat
  | some .tunnelUp | some .screenOn => 0
  | some .lookup | some .probeOk => if s.mTunnelUp then 0 else s.mIpCheckFailures
  | some .failed => if s.mTunnelUp && s.countsFailures then s.mIpCheckFailures + 1 else s.mIpCheckFailures
  | some .exception | none => s.mIpCheckFailures

/-- The outcome is the last failure the service stands. -/
structure Exhausts (s : Svc) (o : Option Outcome) : Prop where
  failed : o = some .failed
  up : s.mTunnelUp = true
  counts : s.countsFailures = true
  last : maxIpCheckFailures ≤ s.mIpCheckFailures + 1

/-- No thread has posted the stop of a dead proxy. -/
def NonePosted (s : Svc) : Prop := ∀ g, Task.stop g .proxyConnectFailed ∉ s.mMainHandler

end Svc

/-- What the step from `s` to `s'` with the outcome `o` does to session and count. -/
inductive Course (s : Svc) (o : Option Outcome) (s' : Svc) : Prop where
  | on (connectSeq : s'.mConnectSeq = s.mConnectSeq) (running : s'.mRunning = s.mRunning)
      (tunnelUp : s'.mTunnelUp = (s.mTunnelUp || o = some .tunnelUp)) (counts : s'.countsFailures = s.countsFailures)
      (failures : s'.mIpCheckFailures = s.countOf o) (stopped : s'.stopped = s.stopped) (stays : ¬ s.Exhausts o)
  | start (idle : s.mRunning = false) (tunnelUp : s'.mTunnelUp = s.mTunnelUp)
      (connectSeq : s'.mConnectSeq ≠ s.mConnectSeq) (stopped : s'.stopped = s.stopped) (outcome : o = none)
  | down (stop : Stop) (tunnelUp : s'.mTunnelUp = false) (connectSeq : s'.mConnectSeq ≠ s.mConnectSeq)
      (stopped : s'.stopped = s.stopped ++ [stop])
      (reason : (stop.reason ≠ .proxyConnectFailed ∧ o = none) ∨ (stop.reason = .proxyConnectFailed ∧ s.Exhausts o))

namespace Course

variable {s s' : Svc}

/-- A step that has nothing to do with it. -/
theorem same (control : s'.toControl = s.toControl) (config : s'.toConfig = s.toConfig)
    (failures : s'.mIpCheckFailures = s.mIpCheckFailures) (stopped : s'.stopped = s.stopped) : Course s none s' := by
  refine .on ?_ ?_ ?_ ?_ failures stopped (fun h => by cases h.failed)
  · rw [control]
  · rw [control]
  · rw [control]
    exact (Bool.or_false _).symm
  · unfold Svc.countsFailures
    rw [config]

/-- A stop for any other reason. -/
theorem stopMe (s : Svc) (reason : StopReason) (origin : Option Nat) (other : reason ≠ .proxyConnectFailed) :
    Course s none (s.stopMe reason origin) := by
  cases s.stopMe_cases reason origin with
  | inl hidle =>
    rw [hidle.2]
    exact same rfl rfl rfl rfl
  | inr hdown =>
    rw [hdown]
    refine .down ⟨reason, origin, _⟩ rfl ?_ rfl (.inl ⟨other, rfl⟩)
    exact (Nat.lt_succ_self s.mConnectSeq).ne'

/-- A start is no outcome; an accepted one begins a session. -/
theorem onStart (s : Svc) (place : Nat) (extras : Option VpnIntent) (saved : Option ProfileValues)
    (established : Established) : Course s none (s.onStart place extras saved established) := by
  unfold Svc.onStart
  split
  · exact same rfl rfl rfl rfl
  · rename_i hrun
    have hidle : s.mRunning = false := (Bool.not_eq_true _).mp hrun
    cases s.command extras saved with
    | none => exact same rfl rfl rfl rfl
    | some cmd =>
      have hstop : ∀ reason : StopReason, reason ≠ .proxyConnectFailed →
          Course s none ((s.accept place cmd).teardown reason none) := fun reason hother =>
        .down ⟨reason, none, _⟩ rfl (by show s.mConnectSeq + 1 + 1 ≠ s.mConnectSeq; omega) rfl (.inl ⟨hother, rfl⟩)
      cases established with
      | threw => exact hstop .configureFailed nofun
      | null => exact hstop .interfaceNull nofun
      | fd n => exact .start hidle rfl (by show s.mConnectSeq + 1 ≠ s.mConnectSeq; omega) rfl rfl

/-- Two services that agree on session and count take the same course. -/
theorem rebase {t : Svc} {o : Option Outcome} (h : Course t o s') (control : t.toControl = s.toControl)
    (config : t.toConfig = s.toConfig) (failures : t.mIpCheckFailures = s.mIpCheckFailures)
    (stopped : t.stopped = s.stopped) : Course s o s' := by
  have hcounts : t.countsFailures = s.countsFailures := by
    unfold Svc.countsFailures
    rw [config]
  have hup : t.mTunnelUp = s.mTunnelUp := by rw [control]
  have hcount : t.countOf o = s.countOf o := by
    unfold Svc.countOf
    rw [hup, hcounts, failures]
  have hexhausts : t.Exhausts o ↔ s.Exhausts o := by
    constructor
    · rintro ⟨hfailed, hu, hc, hlast⟩
      exact ⟨hfailed, hup ▸ hu, hcounts ▸ hc, failures ▸ hlast⟩
    · rintro ⟨hfailed, hu, hc, hlast⟩
      exact ⟨hfailed, hup ▸ hu, hcounts ▸ hc, failures ▸ hlast⟩
  cases h with
  | on hseq hrun htunnel hcf hf hstop hstays =>
    rw [hexhausts] at hstays
    rw [control] at hseq hrun htunnel
    exact .on hseq hrun htunnel (hcf.trans hcounts) (hf.trans hcount) (hstop.trans stopped) hstays
  | start hidle htunnel hseq hstop ho =>
    rw [control] at hidle htunnel hseq
    exact .start hidle htunnel hseq (hstop.trans stopped) ho
  | down stop htunnel hseq hstop hreason =>
    rw [hexhausts] at hreason
    rw [control] at hseq
    rw [stopped] at hstop
    exact .down stop htunnel hseq hstop hreason

theorem deliver {saved : Option ProfileValues} {established : Established}
    (hs : s.deliver saved established = some s') : Course s none s' := by
  obtain ⟨place, queue, ⟨_, rfl⟩ | ⟨extras, _, rfl⟩⟩ := Svc.deliver_cases hs
  · exact (stopMe { s with queue := queue, handledStops := s.handledStops ++ [place] } .stopAction none nofun).rebase
      rfl rfl rfl rfl
  · exact (onStart { s with queue := queue } place extras saved established).rebase rfl rfl rfl rfl

/-- An outcome that leaves the session on. -/
theorem stay {o : Outcome} (other : o ≠ .tunnelUp) (stays : ¬ s.Exhausts (some o)) (control : s'.toControl = s.toControl)
    (config : s'.toConfig = s.toConfig) (failures : s'.mIpCheckFailures = s.countOf (some o))
    (stopped : s'.stopped = s.stopped) : Course s (some o) s' := by
  refine .on ?_ ?_ ?_ ?_ failures stopped stays
  · rw [control]
  · rw [control]
  · rw [control]
    simp [other]
  · unfold Svc.countsFailures
    rw [config]

/-- Each exit of the completion does to the count what its outcome says. -/
theorem probeDone (s : Svc) (hrun : s.mTunnelUp = true → s.mRunning = true) (p : Probe) (answer : Answer) :
    Course s (some answer.outcome) (s.probeDone p answer) := by
  have hexit := s.probeDone_exit p answer
  generalize s.probeDone p answer = r at hexit
  cases hexit with
  | buffered hup =>
    refine stay nofun (fun h => by cases h.failed) rfl rfl ?_ rfl
    simp only [Answer.outcome, Svc.countOf, hup, Bool.false_eq_true, if_false]
    rfl
  | applied hup =>
    refine stay nofun (fun h => by cases h.failed) rfl rfl ?_ rfl
    simp only [Answer.outcome, Svc.countOf, hup, if_true]
    rfl
  | @early probe hup =>
    have hstays : ∀ o, ¬ s.Exhausts o := fun o h => Bool.false_ne_true (hup.symm.trans h.up)
    by_cases hok : probe = .ok
    · simp only [Answer.outcome, if_pos hok]
      refine stay nofun (hstays _) rfl rfl ?_ rfl
      simp only [Svc.countOf, hup, Bool.false_eq_true, if_false]
      rfl
    · simp only [Answer.outcome, if_neg hok]
      refine stay nofun (hstays _) rfl rfl ?_ rfl
      simp only [Svc.countOf, hup, Bool.false_and, Bool.false_eq_true, if_false]
      rfl
  | verified hup =>
    refine stay nofun (fun h => by cases h.failed) rfl rfl ?_ rfl
    simp only [Answer.outcome, Svc.countOf, hup, if_true]
    rfl
  | counted hup hok hcounts hmore =>
    simp only [Answer.outcome, if_neg hok]
    refine stay nofun (fun h => ?_) rfl rfl ?_ rfl
    · have hlast := h.last
      omega
    · simp only [Svc.countOf, hup, hcounts, Bool.and_self, if_true]
      rfl
  | @last probe hup hok hcounts hlast =>
    simp only [Answer.outcome, if_neg hok]
    obtain ⟨hidle, _⟩ | hdown := Svc.stopMe_cases
      { s.cleared.countFailure p with mError := some (Svc.probeError probe) } .proxyConnectFailed none
    · cases (hrun hup).symm.trans hidle
    · rw [hdown]
      refine .down ⟨.proxyConnectFailed, none, _⟩ rfl ?_ rfl (.inr ⟨rfl, rfl, hup, hcounts, hlast⟩)
      exact (Nat.lt_succ_self s.mConnectSeq).ne'
  | uncounted hup hok hcounts =>
    simp only [Answer.outcome, if_neg hok]
    refine stay nofun (fun h => Bool.false_ne_true (hcounts.symm.trans h.counts)) rfl rfl ?_ rfl
    simp only [Svc.countOf, hcounts, Bool.and_false, Bool.false_eq_true, if_false]
    rfl
  | exception => exact stay nofun (fun h => by cases h.failed) rfl rfl rfl rfl

/-- Tunnel-up begins the count. -/
theorem postStartOnMain (s : Svc) (g : Session) (usage : Option (Int × Int)) (hrun : s.mRunning = true) :
    Course s (some .tunnelUp) (s.postStartOnMain g usage) := by
  have hr := Svc.postStartOnMain_reports g usage hrun
  have hshown : (s.tunnelUp g usage).showCachedIp.mIpCheckFailures = 0 := by
    unfold Svc.showCachedIp
    cases (s.tunnelUp g usage).cachedIp <;> rfl
  have hzero : (s.postStartOnMain g usage).mIpCheckFailures = 0 := by
    unfold Svc.postStartOnMain
    rw [hrun]
    show (s.tunnelUp g usage).showCachedIp.surface.mIpCheckFailures = 0
    unfold Svc.surface
    split
    · rfl
    · exact hshown
  refine .on ?_ ?_ ?_ ?_ hzero ?_ (fun h => by cases h.failed)
  · rw [hr.control]
    rfl
  · rw [hr.control]
    rfl
  · rw [hr.control]
    simp [Svc.tunnelUp]
  · unfold Svc.countsFailures
    rw [hr.config]
    rfl
  · rw [hr.stopped]
    rfl

theorem task (hrun : s.mTunnelUp = true → s.mRunning = true) (hposted : s.NonePosted) {i : Nat}
    {usage : Option (Int × Int)} (hs : s.task i usage = some s') : Course s (s.outcome (.task i usage)) s' := by
  obtain ⟨t, ht, rfl⟩ := Option.map_eq_some_iff.mp hs
  have ho : s.outcome (.task i usage) = s.taskOutcome t := by simp only [Svc.outcome, ht, Option.bind_some]
  rw [ho]
  cases t with
  | stop g reason =>
    have hother : reason ≠ .proxyConnectFailed := by
      rintro rfl
      exact hposted g (List.mem_of_getElem? ht)
    exact (stopMe { s with mMainHandler := s.mMainHandler.eraseIdx i } reason _ hother).rebase rfl rfl rfl rfl
  | tunnelUp g =>
    unfold Svc.runTask Svc.taskOutcome
    have hstale : Svc.stale { s with mMainHandler := s.mMainHandler.eraseIdx i } g = s.stale g := rfl
    simp only [hstale]
    split
    · exact same rfl rfl rfl rfl
    · rename_i hfresh
      exact (postStartOnMain { s with mMainHandler := s.mMainHandler.eraseIdx i } g usage (Svc.fresh hfresh).2).rebase
        rfl rfl rfl rfl
  | probeDone p answer =>
    exact (probeDone { s with mMainHandler := s.mMainHandler.eraseIdx i } hrun p answer).rebase rfl rfl rfl rfl

/-- The screen that comes on resets the count. -/
theorem screenOn (hs : s.screenOn = some s') : Course s (s.outcome .screenOn) s' := by
  unfold Svc.screenOn at hs
  split at hs
  · obtain rfl := Option.some.inj hs
    unfold Svc.outcome
    simp only
    split
    · exact stay nofun (fun h => by cases h.failed) rfl rfl rfl rfl
    · exact same rfl rfl rfl rfl
  · cases hs

theorem ipCheck {i : Nat} (hs : s.ipCheck i = some s') : Course s none s' := by
  obtain ⟨due, _, hs⟩ := Option.bind_eq_some_iff.mp hs
  split at hs
  · obtain rfl := Option.some.inj hs
    unfold Svc.runIpCheck
    split
    · exact same rfl rfl rfl rfl
    · split
      · exact same rfl rfl rfl rfl
      · split
        · exact same rfl rfl rfl rfl
        · exact same rfl rfl rfl rfl
  · cases hs

/-- What other threads do is no outcome. -/
theorem change {c : Change} (hs : s.change c = some s') : Course s none s' := by
  cases c with
  | setting key value =>
    have hs : (if key ∈ settingKeys then some { s with prefs := Function.update s.prefs key (some value) } else none) =
      some s' := hs
    split at hs
    · obtain rfl := Option.some.inj hs
      exact same rfl rfl rfl rfl
    · cases hs
  | openPidFile pid | daemonize pid | writePid pid =>
    obtain ⟨procs, file, opened, rfl⟩ := Svc.pdnsd_some rfl hs
    exact same rfl rfl rfl rfl
  | _ =>
    obtain rfl := Option.some.inj hs
    exact same rfl rfl rfl rfl

/-- The outside has its own reasons to stop. -/
theorem external {reason : StopReason} (hs : s.external reason = some s') : Course s none s' := by
  have hother : reason ≠ .proxyConnectFailed := by
    rintro rfl
    unfold Svc.external at hs
    split at hs <;> cases hs
  obtain ⟨d, rfl⟩ := Svc.external_some hs
  cases stopMe s reason none hother with
  | on hseq hrun htunnel hcf hf hstop hstays => exact .on hseq hrun htunnel hcf hf hstop hstays
  | start hidle htunnel hseq hstop ho => exact .start hidle htunnel hseq hstop ho
  | down stop htunnel hseq hstop hreason => exact .down stop htunnel hseq hstop hreason

/-- **What a step does** to session and count. -/
theorem step (hrun : s.mTunnelUp = true → s.mRunning = true) (hposted : s.NonePosted) {a : Act}
    (hs : Svc.step s a = some s') : Course s (s.outcome a) s' := by
  cases a with
  | deliver saved established => exact deliver hs
  | external reason => exact external hs
  | screenOn => exact screenOn hs
  | task i usage => exact task hrun hposted hs
  | ipCheck i => exact ipCheck hs
  | change c => exact change hs
  | stats i usage =>
    obtain ⟨l, rfl⟩ := Svc.stats_some hs
    exact same rfl rfl rfl rfl
  | probeBegin =>
    obtain ⟨p, choice, rest, _, rfl⟩ := Svc.probeBegin_some hs
    exact same rfl rfl rfl rfl
  | probeEnd answer =>
    obtain ⟨p, choice, rest, _, rfl⟩ := Svc.probeEnd_some hs
    exact same rfl rfl rfl rfl
  | thread i reply =>
    obtain ⟨t, p, _, _, rfl⟩ := Svc.stepThread_some hs
    exact same rfl rfl rfl rfl
  | dns i reply =>
    obtain ⟨t, p, _, _, rfl⟩ := Svc.stepDns_some hs
    exact same rfl rfl rfl rfl
  | monitor i =>
    obtain ⟨m, p, code, _, _, _, rfl⟩ := Svc.stepMonitor_some hs
    exact same rfl rfl rfl rfl
  | _ =>
    obtain rfl := Option.some.inj hs
    exact same rfl rfl rfl rfl

end Course

/-! ## Nobody posts the stop of a dead proxy -/

/-- A start thread has reasons of its own to stop. -/
theorem StartThread.advance_reason {s : Svc} {t : StartThread} {reply : Reply} {p : Progress}
    (h : t.advance s reply = some p) : p.post ≠ some (.stop .proxyConnectFailed) := by
  intro hpost
  obtain ⟨g, pc⟩ := t
  unfold advance at h
  cases pc with
  | done => cases h
  | _ =>
    simp only at h
    repeat' split at h
    all_goals first | (cases h; done) | (cases h; cases hpost)

namespace Svc.NonePosted

variable {s s' : Svc}

theorem of_mem (h : s.NonePosted) (tasks : ∀ t ∈ s'.mMainHandler, t ∈ s.mMainHandler) : s'.NonePosted :=
  fun g hg => h g (tasks _ hg)

theorem post (h : s.NonePosted) {new : List Task} (hnew : ∀ g, Task.stop g .proxyConnectFailed ∉ new)
    (tasks : s'.mMainHandler = s.mMainHandler ++ new) : s'.NonePosted := by
  intro g hg
  rw [tasks] at hg
  obtain hold | hlate := List.mem_append.mp hg
  · exact h g hold
  · exact hnew g hlate

theorem stopMe (h : s.NonePosted) (reason : StopReason) (origin : Option Nat) : (s.stopMe reason origin).NonePosted := by
  obtain ⟨_, he⟩ | he := s.stopMe_cases reason origin
  · rw [he]
    exact h
  · rw [he]
    exact h

theorem task (h : s.NonePosted) {i : Nat} {usage : Option (Int × Int)} (hs : s.task i usage = some s') :
    s'.NonePosted := by
  obtain ⟨t, tasks, _, hsub, hcases⟩ := Svc.task_cases hs
  have hpopped : ({ s with mMainHandler := tasks } : Svc).NonePosted := h.of_mem hsub
  obtain ⟨g, reason, _, rfl⟩ | ⟨g, _, rfl⟩ | ⟨g, _, _, hrun, rfl⟩ | ⟨p, answer, _, rfl⟩ := hcases
  · exact hpopped.stopMe reason _
  · exact hpopped
  · have hr := Svc.postStartOnMain_reports (s := { s with mMainHandler := tasks }) g usage hrun
    exact hpopped.of_mem fun t ht => by rw [hr.tasks] at ht; exact ht
  · obtain hr | ⟨u, hr, _, he⟩ := Svc.probeDone_cases { s with mMainHandler := tasks } p answer
    · exact hpopped.of_mem fun t ht => by rw [hr.tasks] at ht; exact ht
    · rw [he]
      exact hpopped.of_mem fun t (ht : t ∈ u.mMainHandler) => by rw [hr.tasks] at ht; exact ht

theorem step (h : s.NonePosted) {a : Act} (hs : Svc.step s a = some s') : s'.NonePosted := by
  by_cases ha : a.aside = true
  · have hside := Svc.step_aside ha hs
    exact h.of_mem fun t ht => by rw [hside.tasks] at ht; exact ht
  cases a with
  | deliver saved established =>
    obtain ⟨place, queue, ⟨_, rfl⟩ | ⟨extras, _, rfl⟩⟩ := Svc.deliver_cases hs
    · exact stopMe (s := { s with queue := queue, handledStops := s.handledStops ++ [place] }) h _ _
    · obtain he | ⟨_, cmd, _, ⟨_, reason, he⟩ | ⟨n, _, he⟩⟩ :=
        Svc.onStart_cases { s with queue := queue } place extras saved established
      · rw [he]
        exact h
      · rw [he]
        exact h
      · rw [he]
        exact h
  | external reason =>
    obtain ⟨d, rfl⟩ := Svc.external_some hs
    exact h.stopMe reason none
  | task i usage => exact h.task hs
  | probeEnd answer =>
    obtain ⟨p, choice, rest, _, rfl⟩ := Svc.probeEnd_some hs
    exact h.post (fun g hg => by cases List.mem_singleton.mp hg) rfl
  | thread i reply =>
    obtain ⟨t, p, _, hp, rfl⟩ := Svc.stepThread_some hs
    refine h.post (fun g hg => ?_) rfl
    obtain ⟨post, hpost, htask⟩ := Option.map_eq_some_iff.mp (Option.mem_toList.mp hg)
    cases post with
    | tunnelUp => cases htask
    | stop reason =>
      cases htask
      exact StartThread.advance_reason hp hpost
  | monitor i =>
    obtain ⟨m, p, code, _, _, _, rfl⟩ := Svc.stepMonitor_some hs
    intro g hg
    replace hg : Task.stop g .proxyConnectFailed ∈ if _ then _ else _ := hg
    split at hg
    · obtain hold | hlate := List.mem_append.mp hg
      · exact h g hold
      · cases List.mem_singleton.mp hlate
    · exact h g hg
  | _ => exact absurd rfl ha

/-- A stop for failed checks is made at once and never posted. -/
theorem reachable (h : Reachable system s) : s.NonePosted := by
  apply Reaches.invariant (P := Svc.NonePosted) _ _ h
  · rintro _ ⟨w, accelDns, _, rfl⟩
    exact fun _ => nofun
  · exact fun _ _ _ hs _ hstep => hs.step hstep

end Svc.NonePosted

/-- What a step of a reachable service does to session and count. -/
theorem Course.of_reachable {s s' : Svc} {a : Act} (h : Reachable system s) (hs : Svc.step s a = some s') :
    Course s (s.outcome a) s' :=
  Course.step (Blank.reachable h).running_of_up (Svc.NonePosted.reachable h) hs

/-! ## The count of a session -/

/-- A session's tunnel is up, and these outcomes were delivered since. -/
inductive Delivered : Svc → List Outcome → Prop where
  | up {s s' : Svc} {a : Act} : Reachable system s → Svc.step s a = some s' → s.outcome a = some .tunnelUp →
      Delivered s' []
  | next {s s' : Svc} {a : Act} {os : List Outcome} : Delivered s os → Svc.step s a = some s' →
      s'.mConnectSeq = s.mConnectSeq → Delivered s' (os ++ (s.outcome a).toList)

/-- The service's count is the number of failures since, and it stands more of them. -/
structure Tallied (s : Svc) (os : List Outcome) : Prop where
  reachable : Reachable system s
  up : s.mTunnelUp = true
  count : s.countsFailures = true → s.mIpCheckFailures = failuresSince os
  below : s.countsFailures = true → failuresSince os < maxIpCheckFailures

namespace Tallied

variable {s s' : Svc} {os : List Outcome}

/-- A step within the session counts what it delivers. -/
theorem next (h : Tallied s os) {a : Act} (hs : Svc.step s a = some s') (same : s'.mConnectSeq = s.mConnectSeq) :
    Tallied s' (os ++ (s.outcome a).toList) := by
  cases Course.of_reachable h.reachable hs with
  | start _ _ hseq _ _ => exact absurd same hseq
  | down _ _ hseq _ _ => exact absurd same hseq
  | on _ _ htunnel hcounts hfailures _ hstays =>
    refine ⟨h.reachable.next trivial hs, by rw [htunnel, h.up, Bool.true_or], fun hc => ?_, fun hc => ?_⟩
    · rw [hcounts] at hc
      have hcount := h.count hc
      rw [hfailures]
      cases s.outcome a with
      | none =>
        rw [Option.toList_none, List.append_nil]
        exact hcount
      | some o =>
        rw [Option.toList_some, failuresSince_snoc]
        cases o <;> simp [Svc.countOf, Outcome.resets, h.up, hc, hcount]
    · rw [hcounts] at hc
      have hcount := h.count hc
      have hbelow := h.below hc
      have hmax : maxIpCheckFailures = 3 := rfl
      cases ho : s.outcome a with
      | none =>
        rw [Option.toList_none, List.append_nil]
        exact hbelow
      | some o =>
        rw [Option.toList_some, failuresSince_snoc]
        cases o with
        | failed =>
          have hmore : ¬ maxIpCheckFailures ≤ s.mIpCheckFailures + 1 := fun hlast => hstays ⟨ho, h.up, hc, hlast⟩
          simp only [Outcome.resets, Bool.false_eq_true, if_false, if_true]
          omega
        | exception =>
          simp only [Outcome.resets, Bool.false_eq_true, if_false, reduceCtorEq]
          omega
        | _ =>
          simp only [Outcome.resets, if_true]
          omega

end Tallied

/-- The count of every session is right at every point. -/
theorem Delivered.tallied {s : Svc} {os : List Outcome} (h : Delivered s os) : Tallied s os := by
  induction h with
  | @up s s' a hs hstep ho =>
    cases Course.of_reachable hs hstep with
    | start _ _ _ _ hnone => rw [hnone] at ho; cases ho
    | down _ _ _ _ hreason =>
      obtain ⟨_, hnone⟩ | ⟨_, hex⟩ := hreason
      · rw [hnone] at ho
        cases ho
      · have hfailed := hex.failed
        rw [ho] at hfailed
        cases hfailed
    | on _ _ htunnel _ hfailures _ _ =>
      rw [ho] at htunnel hfailures
      refine ⟨hs.next trivial hstep, by rw [htunnel]; simp, fun _ => hfailures, fun _ => ?_⟩
      exact Nat.succ_pos 2
  | next _ hstep hsame ih => exact ih.next hstep hsame

/-- Whenever a tunnel is up, outcomes were delivered since it came up. -/
theorem delivered_of_up {s : Svc} (h : Reachable system s) : s.mTunnelUp = true → ∃ os, Delivered s os := by
  induction h with
  | start hi =>
    obtain ⟨w, accelDns, _, rfl⟩ := hi
    exact nofun
  | @next s s' a hs _ hstep ih =>
    intro hup
    cases Course.of_reachable hs hstep with
    | start hidle htunnel _ _ _ =>
      rw [htunnel, ((Blank.reachable hs).idle hidle).2] at hup
      cases hup
    | down _ htunnel _ _ _ =>
      rw [htunnel] at hup
      cases hup
    | on hseq _ htunnel _ _ _ _ =>
      by_cases ho : s.outcome a = some .tunnelUp
      · exact ⟨[], .up hs hstep ho⟩
      · rw [htunnel, decide_eq_false ho, Bool.or_false] at hup
        obtain ⟨os, hos⟩ := ih hup
        exact ⟨_, hos.next hstep hseq⟩

/-- The step calls `stopMe("proxy_connect_failed")`. -/
def GivesUp (s s' : Svc) : Prop := ∃ stop : Stop, stop.reason = .proxyConnectFailed ∧ s'.stopped = s.stopped ++ [stop]

/-- The last failure the service stands is where it gives up. -/
theorem Course.givesUp_iff {s s' : Svc} {o : Option Outcome} (h : Course s o s') : GivesUp s s' ↔ s.Exhausts o := by
  have hlonger : ∀ stop : Stop, s.stopped ≠ s.stopped ++ [stop] := fun stop he => by
    have hlength := congrArg List.length he
    rw [List.length_append, List.length_singleton] at hlength
    omega
  cases h with
  | on _ _ _ _ _ hstopped hstays =>
    refine ⟨fun ⟨stop, _, he⟩ => ?_, fun hex => absurd hex hstays⟩
    exact absurd (hstopped.symm.trans he) (hlonger stop)
  | start _ _ _ hstopped hnone =>
    refine ⟨fun ⟨stop, _, he⟩ => ?_, fun hex => ?_⟩
    · exact absurd (hstopped.symm.trans he) (hlonger stop)
    · have hfailed := hex.failed
      rw [hnone] at hfailed
      cases hfailed
  | down stop _ _ hstopped hreason =>
    obtain ⟨hother, hnone⟩ | ⟨hgives, hex⟩ := hreason
    · refine ⟨fun ⟨last, hlast, he⟩ => ?_, fun hex => ?_⟩
      · rw [hstopped] at he
        obtain rfl := List.singleton_inj.mp (List.append_cancel_left he)
        exact absurd hlast hother
      · have hfailed := hex.failed
        rw [hnone] at hfailed
        cases hfailed
    · exact ⟨fun _ => hex, fun _ => ⟨stop, hgives, hstopped⟩⟩

/-- **Teardown only on consecutive failures**: a reachable service gives up with the tunnel
up and failures counted, and then exactly at the failed handshake that is the third since
the last tunnel-up, lookup, good handshake or screen-on; it has stood fewer before. -/
theorem gives_up_iff {s s' : Svc} {a : Act} (h : Reachable system s) (hs : Svc.step s a = some s') :
    (s.mTunnelUp = false ∨ s.countsFailures = false → ¬ GivesUp s s') ∧
      ∀ os, Delivered s os →
        (s.countsFailures = true → failuresSince os < maxIpCheckFailures) ∧
        (GivesUp s s' ↔ s.countsFailures = true ∧ s.outcome a = some .failed ∧
          failuresSince (os ++ [.failed]) = maxIpCheckFailures) := by
  have hgives := (Course.of_reachable h hs).givesUp_iff
  constructor
  · intro hnot hgive
    have hex := hgives.mp hgive
    obtain hdown | hoff := hnot
    · exact Bool.false_ne_true (hdown.symm.trans hex.up)
    · exact Bool.false_ne_true (hoff.symm.trans hex.counts)
  · intro os hos
    have htally := hos.tallied
    refine ⟨htally.below, hgives.trans ?_⟩
    have hsnoc : failuresSince (os ++ [.failed]) = failuresSince os + 1 := failuresSince_snoc os .failed
    constructor
    · intro hex
      have hcount := htally.count hex.counts
      have hbelow := htally.below hex.counts
      have hlast := hex.last
      exact ⟨hex.counts, hex.failed, by omega⟩
    · rintro ⟨hcounts, hfailed, hthird⟩
      have hcount := htally.count hcounts
      exact ⟨hfailed, htally.up, hcounts, by omega⟩

/-- An ip check whose handshake fails, up to its completion. -/
def deadCheck : List Act := [.ipCheck 0, .probeBegin, .probeEnd (.handshake .authFailed)]

/-- The third failure in a row. -/
theorem gives_up_third : ∃ s s' os, Delivered s os ∧ GivesUp s s' ∧
    failuresSince (os ++ [.failed]) = maxIpCheckFailures := by
  have hrun : (((exec system (Svc.created phone none)
      ([.sendStart (some (startOf "Work".toList "10.0.0.2".toList)), .deliver none (.fd 3)] ++
        bringUp 0 "10.0.0.2".toList ++ [.task 0 none] ++ deadCheck ++ [.task 0 none] ++ deadCheck ++
        [.task 0 none, .change (.uptime 5000)] ++ deadCheck))).bind fun s =>
      (Svc.step s (.task 0 none)).map fun s' => (s.mTunnelUp, s.stopped, s'.stopped)) =
      some (true, [], [⟨.proxyConnectFailed, none, some 1⟩]) := by decide +kernel
  obtain ⟨s, hs, hrest⟩ := Option.bind_eq_some_iff.mp hrun
  obtain ⟨s', hstep, hresult⟩ := Option.map_eq_some_iff.mp hrest
  obtain ⟨hup, hresult⟩ := Prod.mk.inj hresult
  obtain ⟨hbefore, hafter⟩ := Prod.mk.inj hresult
  have hreach : Reachable system s := exec_reaches _ (created_reachable rfl none) hs
  have hgives : GivesUp s s' := ⟨_, rfl, by rw [hbefore, hafter]; rfl⟩
  obtain ⟨os, hos⟩ := delivered_of_up hreach hup
  exact ⟨s, s', os, hos, hgives, (((gives_up_iff hreach hstep).2 os hos).2.mp hgives).2.2⟩

end KiloProxy.Vpn
