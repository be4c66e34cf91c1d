import KiloProxy.Vpn.Frames

/-!
# Stops of earlier sessions

A background thread that fails posts a stop of whatever runs when the closure gets its
turn. Two orders of steps let it hit a later session: the closure is still pending when
the next start is accepted, or an earlier session's thread fails, or its monitor sees
the engine exit, while a later session runs. Without these two every posted stop hits
its own session.
-/

namespace KiloProxy.Vpn
set_option autoImplicit false
open KiloProxy.Text KiloProxy.Util KiloProxy.Service KiloProxy.Run

def Task.isStop : Task → Bool
  | .stop _ _ => true
  | _ => false

/-- The next step of the thread posts a stop without looking at the connect counter. -/
def StartThread.fails (t : StartThread) (s : Svc) (reply : Reply) : Bool :=
  match t.pc with
  | .engine _ => !s.mHev && reply ≠ .ok
  | .spawn _ => reply ≠ .ok
  | .hevConf serverIp _ => serverIp.getD [] = [] || reply = .threw
  | .hevNative => reply = .missing || reply = .threw
  | .hevClaim started => !started
  | _ => false

/-- A step that only moves on posts nothing. -/
theorem StartThread.goto_post {e : Shared} {pc : StartPc} {p : Progress} (h : goto e pc = some p) : p.post = none := by
  cases h
  rfl

/-- A stop is posted on a failure, or by the session that holds the counter. -/
theorem StartThread.advance_stop {s : Svc} {t : StartThread} {reply : Reply} {p : Progress} {reason : StopReason}
    (h : t.advance s reply = some p) (hpost : p.post = some (.stop reason)) :
    t.fails s reply = true ∨ t.session.connectSeq = s.mConnectSeq := by
  have hgoto : ∀ {e pc}, goto e pc = some p → False := fun hg => by
    rw [goto_post hg] at hpost
    cases hpost
  obtain ⟨g, pc⟩ := t
  unfold advance at h
  unfold fails
  cases pc with
  | exhausted =>
    simp only at h
    split at h
    · exact (hgoto h).elim
    · rename_i hfresh
      exact .inr (Svc.fresh hfresh).1
  | hevFinal alive =>
    simp only at h
    split at h
    · exact (hgoto h).elim
    · rename_i hfresh
      exact .inr (Svc.fresh hfresh).1
  | engine dnsThread =>
    simp only at h ⊢
    split at h
    · exact (hgoto h).elim
    · split at h
      · simp_all
      · split at h
        · exact (hgoto h).elim
        · simp_all
  | spawn serverIp =>
    simp only at h ⊢
    split at h
    · exact (hgoto h).elim
    · simp_all
  | hevConf serverIp udp =>
    simp only at h ⊢
    split at h
    · simp_all
    · split at h
      · simp_all
      · exact (hgoto h).elim
  | hevNative =>
    simp only at h ⊢
    split at h
    · simp
    · simp
    · split at h
      · exact (hgoto h).elim
      · exact (hgoto h).elim
    · exact (hgoto h).elim
  | hevClaim started =>
    simp only at h ⊢
    split at h
    · exact (hgoto h).elim
    · simp_all
  | sendfd attempts =>
    simp only at h
    split at h
    · split at h
      · cases h
        cases hpost
      · exact (hgoto h).elim
    · exact (hgoto h).elim
  | _ =>
    simp only at h
    repeat' split at h
    all_goals first | exact (hgoto h).elim | cases h

namespace Svc

/-- The next intent starts a session. -/
def startsNext (s : Svc) : Bool :=
  match s.queue with
  | (_, .start _) :: _ => !s.mRunning
  | _ => false

/-- A later session than that of `g` runs. -/
def outrun (s : Svc) (g : Session) : Bool := s.mRunning && g.connectSeq ≠ s.mConnectSeq

/-- No start is accepted over a pending stop, and no thread or monitor of an earlier
session fails while a later one runs. -/
def Orderly (s : Svc) : Act → Prop
  | .deliver _ _ => s.startsNext = true → ∀ t ∈ s.mMainHandler, t.isStop = false
  | .thread i reply => ∀ t ∈ s.startThreads[i]?, s.outrun t.session = true → t.fails s reply = false
  | .monitor i => ∀ m ∈ s.monitors[i]?, s.outrun m.session = true → ∀ p ∈ s.procs[m.pid]?, p.exit ∈ [none, some 0]
  | _ => True

instance (s : Svc) (a : Act) : Decidable (s.Orderly a) :=
  match a with
  | .deliver _ _ => inferInstanceAs (Decidable (s.startsNext = true → ∀ t ∈ s.mMainHandler, t.isStop = false))
  | .thread i reply =>
    inferInstanceAs (Decidable (∀ t ∈ s.startThreads[i]?, s.outrun t.session = true → t.fails s reply = false))
  | .monitor i =>
    inferInstanceAs (Decidable (∀ m ∈ s.monitors[i]?, s.outrun m.session = true →
      ∀ p ∈ s.procs[m.pid]?, p.exit ∈ [none, some 0]))
  | .sendStart _ | .sendStop | .external _ | .screenOn | .task _ _ | .stats _ _ | .ipCheck _ | .probeBegin
  | .probeEnd _ | .dns _ _ | .change _ => inferInstanceAs (Decidable True)

end Svc

/-- Pending stops are the running session's, and so were those that went through. -/
structure StopsOwn (s : Svc) : Prop where
  pending : s.mRunning = true → ∀ g reason, Task.stop g reason ∈ s.mMainHandler → g.connectSeq = s.mConnectSeq
  went : ∀ e ∈ s.stopped, ∀ g g', e.origin = some g → e.running = some g' → g = g'

namespace StopsOwn

variable {s s' : Svc}

/-- A step that posts no stop keeps the invariant. -/
theorem quiet (h : StopsOwn s) (control : s'.toControl = s.toControl) (stopped : s'.stopped = s.stopped)
    (tasks : ∀ g reason, Task.stop g reason ∈ s'.mMainHandler → Task.stop g reason ∈ s.mMainHandler) : StopsOwn s' where
  pending hrun g reason hmem := by
    rw [control] at hrun ⊢
    exact h.pending hrun g reason (tasks g reason hmem)
  went := by
    rw [stopped]
    exact h.went

theorem reports (h : StopsOwn s) (hr : Reports s s') : StopsOwn s' := by
  apply h.quiet hr.control hr.stopped
  intro g reason hmem
  rwa [hr.tasks] at hmem

/-- A stop by the running session, or by nobody's event. -/
theorem teardown (h : StopsOwn s) (reason : StopReason) {origin : Option Nat}
    (ho : ∀ g ∈ origin, s.mRunning = true → g = s.mConnectSeq) : StopsOwn (s.teardown reason origin) where
  pending hrun := (Bool.false_ne_true hrun).elim
  went e he g g' hg hg' := by
    rcases List.mem_append.mp he with he | he
    · exact h.went e he g g' hg hg'
    · rw [List.mem_singleton] at he
      subst he
      replace hg' : (if s.mRunning then some s.mConnectSeq else none) = some g' := hg'
      split at hg'
      · rename_i hrun
        rw [← Option.some.inj hg']
        exact ho g hg hrun
      · cases hg'

theorem stopMe (h : StopsOwn s) (reason : StopReason) {origin : Option Nat}
    (ho : ∀ g ∈ origin, s.mRunning = true → g = s.mConnectSeq) : StopsOwn (s.stopMe reason origin) := by
  rcases s.stopMe_cases reason origin with ⟨_, hsame⟩ | hdown
  · rw [hsame]
    exact h
  · rw [hdown]
    exact h.teardown reason ho

/-- A start is accepted with no stop pending. -/
theorem onStart (h : StopsOwn s) (hnone : s.mRunning = false → ∀ t ∈ s.mMainHandler, t.isStop = false) (place : Nat)
    (extras : Option VpnIntent) (saved : Option ProfileValues) (established : Established) :
    StopsOwn (s.onStart place extras saved established) := by
  have haccept : s.mRunning = false → ∀ cmd, StopsOwn (s.accept place cmd) := by
    intro hidle cmd
    refine ⟨fun _ g reason hmem => ?_, h.went⟩
    have hstop := hnone hidle _ hmem
    cases hstop
  rcases s.onStart_cases place extras saved established with he | ⟨hidle, cmd, _, ⟨_, reason, he⟩ | ⟨n, _, he⟩⟩
  · rw [he]
    exact h
  · rw [he]
    exact (haccept hidle cmd).teardown reason fun g hg => by cases hg
  · rw [he]
    exact ⟨(haccept hidle cmd).pending, h.went⟩

theorem deliver (h : StopsOwn s) {saved : Option ProfileValues} {established : Established}
    (hok : s.Orderly (.deliver saved established)) (hs : s.deliver saved established = some s') : StopsOwn s' := by
  obtain ⟨place, queue, ⟨_, rfl⟩ | ⟨extras, hq, rfl⟩⟩ := Svc.deliver_cases hs
  · have hpopped : StopsOwn { s with queue := queue, handledStops := s.handledStops ++ [place] } :=
      h.quiet rfl rfl fun _ _ hmem => hmem
    exact hpopped.stopMe _ fun g hg => by cases hg
  · have hpopped : StopsOwn { s with queue := queue } := h.quiet rfl rfl fun _ _ hmem => hmem
    apply hpopped.onStart
    intro hidle
    apply hok
    unfold Svc.startsNext
    rw [hq]
    simp only [show s.mRunning = false from hidle, Bool.not_false]

theorem task (h : StopsOwn s) {i : Nat} {usage : Option (Int × Int)} (hs : s.task i usage = some s') :
    StopsOwn s' := by
  obtain ⟨t, tasks, ht, hsub, hcases⟩ := Svc.task_cases hs
  have hpopped : StopsOwn { s with mMainHandler := tasks } := h.quiet rfl rfl fun _ _ hmem => hsub _ hmem
  rcases hcases with ⟨g, reason, rfl, rfl⟩ | ⟨g, _, rfl⟩ | ⟨g, _, _, hrun, rfl⟩ | ⟨p, answer, _, rfl⟩
  · apply hpopped.stopMe reason
    intro g' hg' hrun
    obtain rfl := Option.some.inj hg'
    exact h.pending hrun g reason (List.mem_of_getElem? ht)
  · exact hpopped
  · have hup : StopsOwn (Svc.tunnelUp { s with mMainHandler := tasks } g usage) := ⟨hpopped.pending, hpopped.went⟩
    exact hup.reports (Svc.postStartOnMain_reports g usage hrun)
  · rcases Svc.probeDone_cases { s with mMainHandler := tasks } p answer with hr | ⟨t, hr, _, hdown⟩
    · exact hpopped.reports hr
    · rw [hdown]
      exact (hpopped.reports hr).teardown _ fun g hg => by cases hg

/-- What a start thread posts is its own session's, or nothing later runs. -/
theorem thread (h : StopsOwn s) {i : Nat} {reply : Reply} (hok : s.Orderly (.thread i reply))
    (hs : s.stepThread i reply = some s') : StopsOwn s' := by
  obtain ⟨t, p, ht, hp, rfl⟩ := Svc.stepThread_some hs
  refine ⟨fun hrun g reason hmem => ?_, h.went⟩
  rcases List.mem_append.mp hmem with hold | hnew
  · exact h.pending hrun g reason hold
  · obtain ⟨post, hpost, htask⟩ := Option.map_eq_some_iff.mp (Option.mem_toList.mp hnew)
    cases post with
    | tunnelUp => cases htask
    | stop reason' =>
      cases htask
      rcases StartThread.advance_stop hp hpost with hfails | hown
      · by_contra hne
        have hout : s.outrun t.session = true := by
          unfold Svc.outrun
          simp only [show s.mRunning = true from hrun, Bool.true_and, decide_eq_true_eq]
          exact hne
        rw [hok t ht hout] at hfails
        cases hfails
      · exact hown

theorem monitor (h : StopsOwn s) {i : Nat} (hok : s.Orderly (.monitor i)) (hs : s.stepMonitor i = some s') :
    StopsOwn s' := by
  obtain ⟨m, p, code, hm, hp, hcode, rfl⟩ := Svc.stepMonitor_some hs
  refine ⟨fun hrun g reason hmem => ?_, h.went⟩
  replace hmem : Task.stop g reason ∈ if _ then _ else _ := hmem
  split at hmem
  · rename_i hexit
    rcases List.mem_append.mp hmem with hold | hnew
    · exact h.pending hrun g reason hold
    · cases List.mem_singleton.mp hnew
      by_contra hne
      have hout : s.outrun m.session = true := by
        unfold Svc.outrun
        simp only [show s.mRunning = true from hrun, Bool.true_and, decide_eq_true_eq]
        exact hne
      have hzero := hok m hm hout p hp
      rw [hcode] at hzero
      simp only [List.mem_cons, reduceCtorEq, Option.some.injEq, List.not_mem_nil, or_false, false_or] at hzero
      exact hexit.1 hzero
  · exact h.pending hrun g reason hmem

/-- One orderly step keeps the invariant. -/
theorem step (h : StopsOwn s) {a : Act} (hok : s.Orderly a) (hs : Svc.step s a = some s') : StopsOwn s' := by
  cases a with
  | deliver saved established => exact h.deliver hok hs
  | external reason =>
    obtain ⟨d, rfl⟩ := Svc.external_some hs
    have hstop : StopsOwn (s.stopMe reason none) := h.stopMe reason fun g hg => by cases hg
    exact hstop.quiet rfl rfl fun _ _ hmem => hmem
  | task i usage => exact h.task hs
  | probeEnd answer =>
    obtain ⟨p, choice, rest, _, rfl⟩ := Svc.probeEnd_some hs
    refine h.quiet rfl rfl fun g reason hmem => ?_
    rcases List.mem_append.mp hmem with hold | hnew
    · exact hold
    · cases List.mem_singleton.mp hnew
  | thread i reply => exact h.thread hok hs
  | monitor i => exact h.monitor hok hs
  | _ =>
    have haside : Aside s s' := Svc.step_aside rfl hs
    apply h.quiet haside.control haside.stopped
    rw [haside.tasks]
    exact fun _ _ hmem => hmem

end StopsOwn

/-- **In orderly runs an event of a session stops no later one.** -/
theorem stale_never_stops {s : Svc} (h : Reaches system Svc.Orderly s) :
    ∀ e ∈ s.stopped, ∀ g g', e.origin = some g → e.running = some g' → ¬ g < g' := by
  have hown : StopsOwn s := by
    apply Reaches.invariant (P := StopsOwn) _ _ h
    · rintro _ ⟨w, accelDns, _, rfl⟩
      exact ⟨fun hrun => (Bool.false_ne_true hrun).elim, fun e he => by cases he⟩
    · intro s a s' hs hok hstep
      exact hs.step hok hstep
  intro e he g g' hg hg'
  rw [hown.went e he g g' hg hg']
  exact lt_irrefl g'

/-- A start, its tunnel-up, and the exit of its engine. -/
def upThenExit (code : Int) : List Act :=
  [.sendStart (some (startOf "Work".toList "10.0.0.2".toList)), .deliver none (.fd 3)] ++ bringUp 0 "10.0.0.2".toList ++
  [.task 0 none, .change (.exit 1 code), .monitor 0, .task 0 none]

/-- The engine exits with code 1 and its own session is stopped. -/
theorem stale_never_stops_exit : ∃ s : Svc, s.stopped = [⟨.tun2socksExited 1, some 1, some 1⟩] ∧
    ∀ e ∈ s.stopped, ∀ g g', e.origin = some g → e.running = some g' → ¬ g < g' := by
  have hrun : (execWhere system Svc.Orderly (Svc.created phone none) (upThenExit 1)).map (fun s => s.stopped) =
      some [⟨.tun2socksExited 1, some 1, some 1⟩] := by decide +kernel
  obtain ⟨s, hs, hstopped⟩ := Option.map_eq_some_iff.mp hrun
  exact ⟨s, hstopped, stale_never_stops (execWhere_reaches _ (created_reachable rfl none) hs)⟩

/-- The monitor of the first session sees the exit that the stop caused, and stops the second. -/
theorem stale_stops_successor : ¬ ∀ s, Reachable system s →
    ∀ e ∈ s.stopped, ∀ g g', e.origin = some g → e.running = some g' → ¬ g < g' := by
  intro h
  have hrun : (exec system (Svc.created phone none)
      ([.sendStart (some (startOf "Work".toList "10.0.0.2".toList)), .deliver none (.fd 3)] ++
       bringUp 0 "10.0.0.2".toList ++
       [.task 0 none, .external .binderStop, .sendStart (some (startOf "Work".toList "10.0.0.2".toList)),
        .deliver none (.fd 4), .monitor 0, .task 0 none])).map (fun s => s.stopped) =
      some [⟨.binderStop, none, some 1⟩, ⟨.tun2socksExited 143, some 1, some 3⟩] := by decide +kernel
  obtain ⟨s, hs, hstopped⟩ := Option.map_eq_some_iff.mp hrun
  apply h s (exec_reaches _ (created_reachable rfl none) hs) ⟨.tun2socksExited 143, some 1, some 3⟩ _ 1 3 rfl rfl
  · decide
  · rw [hstopped]
    decide

end KiloProxy.Vpn
