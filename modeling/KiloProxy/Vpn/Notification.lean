import KiloProxy.Vpn.Exits

/-!
# The text of the notification

`updateNotification` skips what it takes to be shown already: it compares its text with
`mLastNotificationText`, the text it posted last. `showNotification` posts "Connecting" past
that cache. `Svc.updates` lists the calls of `updateNotification` that a step makes, and
`Svc.step_announce` shows that those calls, a start and a stop are all that touches the
notification.
-/

namespace KiloProxy.Vpn
set_option autoImplicit false
open KiloProxy.Text KiloProxy.Util KiloProxy.Service KiloProxy.Run

/-- The notification with what its text depends on. -/
structure Display where
  running : Bool
  profile : Option Str
  notification : Option Str
  last : Option Str
  actions : Int
deriving DecidableEq, Repr

namespace Svc

def display (s : Svc) : Display :=
  ⟨s.mRunning, s.mProfileName, s.notification, s.mLastNotificationText, s.mLastNotificationActions⟩

/-! ## The calls of `updateNotification` -/

/-- `applyIpInfo` up to its call. -/
def answeredWith (s : Svc) (info : IpInfo) : Svc := { s with toPublished := s.published info }

/-- The calls of a completion, each with the service in which it is made. -/
def probeUpdates (s : Svc) (p : Probe) : Answer → List Svc
  | .info i => if !s.mTunnelUp then [] else [s.cleared.answeredWith i]
  | .handshake probe => if s.mTunnelUp && probe = .ok then [s.cleared.verified p] else []
  | .exception => []

/-- The call for the buffered answer. -/
def surfaceUpdates (s : Svc) : List Svc :=
  match s.mPendingIpInfo with
  | some (info, _) => [{ s with mPendingIpInfo := none }.answeredWith info]
  | none => []

/-- The calls of `postStartOnMain`. -/
def tunnelUpdates (s : Svc) (g : Session) (usage : Option (Int × Int)) : List Svc :=
  let s := s.tunnelUp g usage
  (s.cachedIp.map s.answeredWith).toList ++ s.showCachedIp.surfaceUpdates

def taskUpdates (s : Svc) (usage : Option (Int × Int)) : Task → List Svc
  | .stop _ _ => []
  | .tunnelUp g => if s.stale g then [] else s.tunnelUpdates g usage
  | .probeDone p answer => s.probeUpdates p answer

/-- The calls that a step makes, in order. -/
def updates (s : Svc) : Act → List Svc
  | .task i usage =>
    (s.mMainHandler[i]?).elim [] ({ s with mMainHandler := s.mMainHandler.eraseIdx i }.taskUpdates usage)
  | _ => []

end Svc

/-- The calls `ts` and nothing else lead from the notification of `s` to that of `s'`, or the
service has stopped. -/
inductive Announce : Svc → List Svc → Svc → Prop where
  | silent {s s' : Svc} : s'.display = s.display → Announce s [] s'
  | down {s s' : Svc} : s'.mRunning = false → s'.mLastNotificationText = s.mLastNotificationText →
      s'.mLastNotificationActions = s.mLastNotificationActions → Announce s [] s'
  | call {s t s' : Svc} {ts : List Svc} : t.display = s.display → Announce t.updateNotification ts s' →
      Announce s (t :: ts) s'

namespace Announce

variable {s t s' : Svc}

theorem of_display {ts : List Svc} (h : Announce t ts s') (same : t.display = s.display) : Announce s ts s' := by
  cases h with
  | silent he => exact .silent (he.trans same)
  | down hstop hlast hactions =>
    exact .down hstop (hlast.trans (congrArg Display.last same)) (hactions.trans (congrArg Display.actions same))
  | call he hrest => exact .call (he.trans same) hrest

theorem to_display {ts : List Svc} (h : Announce s ts t) (same : s'.display = t.display) : Announce s ts s' := by
  induction h with
  | silent he => exact .silent (same.trans he)
  | down hstop hlast hactions =>
    have hrunning := congrArg Display.running same
    exact .down (hrunning.trans hstop) ((congrArg Display.last same).trans hlast)
      ((congrArg Display.actions same).trans hactions)
  | call he _ ih => exact .call he (ih same)

/-- One call. -/
theorem one (he : t.display = s.display) (hs : s'.display = t.updateNotification.display) : Announce s [t] s' :=
  .call he (.silent hs)

theorem stopMe (s : Svc) (reason : StopReason) (origin : Option Nat) : Announce s [] (s.stopMe reason origin) := by
  obtain ⟨_, he⟩ | he := s.stopMe_cases reason origin
  · rw [he]
    exact .silent rfl
  · rw [he]
    exact .down rfl rfl rfl

theorem append {ts us : List Svc} (h : Announce s ts t) (hrun : t.mRunning = true) (h' : Announce t us s') :
    Announce s (ts ++ us) s' := by
  induction h with
  | silent he => exact h'.of_display he
  | down hstop _ _ =>
    rw [hstop] at hrun
    cases hrun
  | call he _ ih => exact .call he (ih hrun h')

/-- The completion calls where `Svc.probeUpdates` says. -/
theorem probeDone (s : Svc) (p : Probe) (answer : Answer) :
    Announce s (s.probeUpdates p answer) (s.probeDone p answer) := by
  have hexit := s.probeDone_exit p answer
  generalize s.probeDone p answer = r at hexit
  unfold Svc.probeUpdates
  cases hexit with
  | buffered hup =>
    simp only [hup, Bool.not_false, if_true]
    exact .silent rfl
  | applied hup =>
    simp only [hup, Bool.not_true, Bool.false_eq_true, if_false]
    exact .one rfl rfl
  | early hup =>
    simp only [hup, Bool.false_and, Bool.false_eq_true, if_false]
    exact .silent rfl
  | verified hup =>
    simp only [hup, Bool.true_and, decide_true, if_true]
    exact .one rfl rfl
  | counted hup hok hcounts hmore =>
    simp only [hup, hok, decide_false, Bool.and_false, Bool.false_eq_true, if_false]
    exact .silent rfl
  | last hup hok hcounts hlast =>
    simp only [hup, hok, decide_false, Bool.and_false, Bool.false_eq_true, if_false]
    exact (stopMe _ .proxyConnectFailed none).of_display rfl
  | uncounted hup hok hcounts =>
    simp only [hup, hok, decide_false, Bool.and_false, Bool.false_eq_true, if_false]
    exact .silent rfl
  | exception => exact .silent rfl

theorem showCachedIp (s : Svc) : Announce s (s.cachedIp.map s.answeredWith).toList s.showCachedIp := by
  unfold Svc.showCachedIp
  cases s.cachedIp with
  | none => exact .silent rfl
  | some info => exact .one rfl rfl

theorem surface (s : Svc) : Announce s s.surfaceUpdates s.surface := by
  unfold Svc.surfaceUpdates Svc.surface
  cases s.mPendingIpInfo with
  | none => exact .silent rfl
  | some buffered => exact .one rfl rfl

/-- What is shown when the tunnel comes up. -/
theorem postStartOnMain (s : Svc) (g : Session) (usage : Option (Int × Int)) (hrun : s.mRunning = true) :
    Announce s (s.tunnelUpdates g usage) (s.postStartOnMain g usage) := by
  have hrunning : (s.tunnelUp g usage).showCachedIp.mRunning = true := by
    rw [(Svc.showCachedIp_calm (s.tunnelUp g usage)).control]
    exact hrun
  have hboth := (showCachedIp (s.tunnelUp g usage)).append hrunning (surface _)
  have hshown : (s.postStartOnMain g usage).display = (s.tunnelUp g usage).showCachedIp.surface.display := by
    unfold Svc.postStartOnMain
    rw [hrun]
    rfl
  exact (hboth.to_display hshown).of_display rfl

/-- What a posted task shows. -/
theorem task {i : Nat} {usage : Option (Int × Int)} (hs : s.task i usage = some s') :
    Announce s (s.updates (.task i usage)) s' := by
  obtain ⟨t, ht, rfl⟩ := Option.map_eq_some_iff.mp hs
  have hu : s.updates (.task i usage) =
      ({ s with mMainHandler := s.mMainHandler.eraseIdx i } : Svc).taskUpdates usage t := by
    simp only [Svc.updates, ht, Option.elim_some]
  rw [hu]
  cases t with
  | stop g reason =>
    exact (stopMe { s with mMainHandler := s.mMainHandler.eraseIdx i } reason _).of_display rfl
  | tunnelUp g =>
    unfold Svc.runTask Svc.taskUpdates
    simp only
    split
    · exact .silent rfl
    · rename_i hfresh
      have hrun : ({ s with mMainHandler := s.mMainHandler.eraseIdx i } : Svc).mRunning = true := (Svc.fresh hfresh).2
      exact (postStartOnMain _ g usage hrun).of_display rfl
  | probeDone p answer =>
    exact (probeDone { s with mMainHandler := s.mMainHandler.eraseIdx i } p answer).of_display rfl

theorem ipCheck {i : Nat} (hs : s.ipCheck i = some s') : Announce s [] s' := by
  obtain ⟨due, _, hs⟩ := Option.bind_eq_some_iff.mp hs
  split at hs
  · obtain rfl := Option.some.inj hs
    unfold Svc.runIpCheck
    split
    · exact .silent rfl
    · split
      · exact .silent rfl
      · split
        · exact .silent rfl
        · exact .silent rfl
  · cases hs

theorem change {c : Change} (hs : s.change c = some s') : Announce s [] s' := by
  cases c with
  | setting key value =>
    have hs : (if key ∈ settingKeys then some { s with prefs := Function.update s.prefs key (some value) } else none) =
      some s' := hs
    split at hs
    · obtain rfl := Option.some.inj hs
      exact .silent rfl
    · cases hs
  | openPidFile pid | daemonize pid | writePid pid =>
    obtain ⟨procs, file, opened, rfl⟩ := Svc.pdnsd_some rfl hs
    exact .silent rfl
  | _ =>
    obtain rfl := Option.some.inj hs
    exact .silent rfl

theorem screenOn (hs : s.screenOn = some s') : Announce s [] s' := by
  unfold Svc.screenOn at hs
  split at hs
  · obtain rfl := Option.some.inj hs
    split
    · exact .silent rfl
    · exact .silent rfl
  · cases hs

end Announce

namespace Svc

variable {s s' : Svc}

/-- A start shows "Connecting" and leaves the cache. -/
theorem deliver_announce {saved : Option ProfileValues} {established : Established}
    (hs : s.deliver saved established = some s') : Announce s [] s' ∨
      ∃ cmd ∈ s.starts (.deliver saved established),
        s'.display = ⟨true, cmd.name, some connecting, s.mLastNotificationText, s.mLastNotificationActions⟩ := by
  obtain ⟨place, queue, ⟨_, rfl⟩ | ⟨extras, hq, rfl⟩⟩ := deliver_cases hs
  · left
    exact (Announce.stopMe { s with queue := queue, handledStops := s.handledStops ++ [place] } _ _).of_display rfl
  · unfold onStart
    split
    · exact .inl (.silent rfl)
    · rename_i hrun
      have hcommand : Svc.command { s with queue := queue } extras saved = s.command extras saved := rfl
      rw [hcommand]
      cases hcmd : s.command extras saved with
      | none => exact .inl (.silent rfl)
      | some cmd =>
        cases established with
        | threw => exact .inl (.down rfl rfl rfl)
        | null => exact .inl (.down rfl rfl rfl)
        | fd n =>
          refine .inr ⟨cmd, ?_, rfl⟩
          simp only [starts, hq, Option.mem_def]
          rw [if_neg hrun, hcmd]

/-- **What a step shows**: the texts of its calls, or "Connecting" when it starts a session. -/
theorem step_announce {a : Act} (hs : Svc.step s a = some s') : Announce s (s.updates a) s' ∨
    s.updates a = [] ∧ ∃ cmd ∈ s.starts a,
      s'.display = ⟨true, cmd.name, some connecting, s.mLastNotificationText, s.mLastNotificationActions⟩ := by
  cases a with
  | deliver saved established =>
    obtain h | h := deliver_announce hs
    · exact .inl h
    · exact .inr ⟨rfl, h⟩
  | external reason =>
    obtain ⟨d, rfl⟩ := external_some hs
    exact .inl ((Announce.stopMe s reason none).to_display rfl)
  | screenOn => exact .inl (Announce.screenOn hs)
  | task i usage => exact .inl (Announce.task hs)
  | ipCheck i => exact .inl (Announce.ipCheck hs)
  | change c => exact .inl (Announce.change hs)
  | stats i usage =>
    obtain ⟨l, rfl⟩ := stats_some hs
    exact .inl (.silent rfl)
  | probeBegin =>
    obtain ⟨p, choice, rest, _, rfl⟩ := probeBegin_some hs
    exact .inl (.silent rfl)
  | probeEnd answer =>
    obtain ⟨p, choice, rest, _, rfl⟩ := probeEnd_some hs
    exact .inl (.silent rfl)
  | thread i reply =>
    obtain ⟨t, p, _, _, rfl⟩ := stepThread_some hs
    exact .inl (.silent rfl)
  | dns i reply =>
    obtain ⟨t, p, _, _, rfl⟩ := stepDns_some hs
    exact .inl (.silent rfl)
  | monitor i =>
    obtain ⟨m, p, code, _, _, _, rfl⟩ := stepMonitor_some hs
    exact .inl (.silent rfl)
  | _ =>
    obtain rfl := Option.some.inj hs
    exact .inl (.silent rfl)

end Svc

/-! ## The cache and the notification -/

/-- The notification is the text posted last, or the "Connecting" of a start whose
"Connected" is not cached. -/
structure Faithful (d : Display) : Prop where
  actions : d.last ≠ none → d.actions = 0
  text : d.running = true →
    (d.notification = some connecting ∧ d.last ≠ some (notifyMsg (d.profile.getD []))) ∨
      (d.last ≠ none ∧ d.notification = d.last)

/-- After the call the notification shows the text it computes. -/
def Matches (t : Svc) : Prop := t.mRunning = true → t.updateNotification.notification = some t.notificationText

/-- The text is one of two. -/
theorem Svc.notificationText_cases (t : Svc) :
    t.notificationText = connecting ∨ t.notificationText = notifyMsg (t.mProfileName.getD []) := by
  unfold notificationText
  split
  · exact .inl rfl
  · exact .inr rfl

/-- A call posts its text and caches it, or finds it cached. -/
theorem Svc.updateNotification_cases {t : Svc} (hrun : t.mRunning = true) :
    (t.mLastNotificationText = some t.notificationText ∧ t.updateNotification = t) ∨
      t.updateNotification.display =
        ⟨true, t.mProfileName, some t.notificationText, some t.notificationText, 0⟩ := by
  by_cases hskip : t.mLastNotificationText = some t.notificationText ∧ t.mLastNotificationActions = 0
  · left
    refine ⟨hskip.1, ?_⟩
    unfold updateNotification announced
    rw [if_pos (by simp [hskip])]
  · right
    have hpost : t.announced = { t.toAnnounced with
        notification := some t.notificationText
        mLastNotificationText := some t.notificationText
        mLastNotificationActions := 0 } := by
      unfold announced
      rw [if_neg (by simpa [hrun] using hskip)]
    unfold updateNotification display
    rw [hpost, ← hrun]

namespace Faithful

variable {t : Svc}

/-- A call that is skipped finds its text shown. -/
theorem matches_call (h : Faithful t.display) : Matches t := by
  intro hrun
  obtain ⟨hcached, he⟩ | he := Svc.updateNotification_cases hrun
  · rw [he]
    obtain ⟨hconnecting, hother⟩ | ⟨_, hsame⟩ := h.text hrun
    · obtain htext | htext := t.notificationText_cases
      · rw [htext]
        exact hconnecting
      · rw [htext] at hcached
        exact absurd hcached hother
    · exact hsame.trans hcached
  · exact congrArg Display.notification he

/-- An update shows the text of the state it finds. -/
theorem update (h : Faithful t.display) : Faithful t.updateNotification.display := by
  cases hrun : t.mRunning with
  | false =>
    have hidle : t.updateNotification = t := by
      unfold Svc.updateNotification Svc.announced
      rw [if_pos (by simp [hrun])]
    rw [hidle]
    exact h
  | true =>
    obtain ⟨_, he⟩ | he := Svc.updateNotification_cases hrun
    · rw [he]
      exact h
    · rw [he]
      exact ⟨fun _ => rfl, fun _ => .inr ⟨Option.some_ne_none _, rfl⟩⟩

/-- Through all calls of a step. -/
theorem announce {s s' : Svc} {ts : List Svc} (h : Announce s ts s') :
    Faithful s.display → Faithful s'.display ∧ ∀ t ∈ ts, Matches t := by
  induction h with
  | silent he =>
    intro hs
    rw [he]
    exact ⟨hs, fun _ ht => by cases ht⟩
  | @down s s' hstop hlast hactions =>
    intro hs
    refine ⟨⟨?_, fun hrun => ?_⟩, fun _ ht => by cases ht⟩
    · show s'.mLastNotificationText ≠ none → s'.mLastNotificationActions = 0
      rw [hlast, hactions]
      exact hs.actions
    · cases hstop.symm.trans hrun
  | @call s t s' ts he _ ih =>
    intro hs
    rw [← he] at hs
    obtain ⟨hlater, hrest⟩ := ih hs.update
    refine ⟨hlater, fun u hu => ?_⟩
    obtain rfl | htail := List.mem_cons.mp hu
    · exact hs.matches_call
    · exact hrest u htail

end Faithful

namespace Svc

/-- A session is started of a profile whose "Connected" is not the text cached last. -/
def Renews (s : Svc) (a : Act) : Prop :=
  ∀ cmd ∈ s.starts a, s.mLastNotificationText ≠ some (notifyMsg (cmd.name.getD []))

instance (s : Svc) (a : Act) : Decidable (s.Renews a) := by
  unfold Renews
  infer_instance

end Svc

/-- In every run under the condition what is shown is the text of the state. -/
theorem faithful_reaches {s : Svc} (h : Reaches system Svc.Renews s) : Faithful s.display := by
  apply Reaches.invariant (P := fun s => Faithful s.display) _ _ h
  · rintro _ ⟨w, accelDns, _, rfl⟩
    exact ⟨fun hne => absurd rfl hne, nofun⟩
  · intro s a s' hs hok hstep
    obtain hcalls | ⟨_, cmd, hcmd, hstart⟩ := Svc.step_announce hstep
    · exact (Faithful.announce hcalls hs).1
    · rw [hstart]
      exact ⟨hs.actions, fun _ => .inl ⟨rfl, hok cmd hcmd⟩⟩

/-- **The notification matches the state** after every call of `updateNotification` in the
runs that never start the profile whose "Connected" was posted last. -/
theorem notification_matches {s s' : Svc} {a : Act} (h : Reaches system Svc.Renews s)
    (hs : Svc.step s a = some s') : ∀ t ∈ s.updates a, Matches t := by
  obtain hcalls | ⟨hnone, _⟩ := Svc.step_announce hs
  · exact (Faithful.announce hcalls (faithful_reaches h)).2
  · rw [hnone]
    exact fun _ ht => by cases ht

/-- A session of `name` and the answer that names its exit address; the thread is the
`i`-th of the run. -/
def shownSession (name : Str) (i : Nat) : List Act :=
  [.sendStart (some (startOf name "10.0.0.2".toList)), .deliver none (.fd 3)] ++
    bringUp i "10.0.0.2".toList ++ [.task 0 none, .ipCheck 0, .probeBegin,
      .probeEnd (.info ⟨"1.2.3.4".toList, "DE".toList, [], [], [], [], [], [], []⟩)]

/-- "Work" is connected and stopped, then "Home" is connected: the answer of its session. -/
theorem notification_matches_second : ∃ t : Svc, t.notificationText = notifyMsg "Home".toList ∧
    t.updateNotification.notification = some t.notificationText := by
  have hrun : ((execWhere system Svc.Renews (Svc.created phone none) (shownSession "Work".toList 0 ++
      [.task 0 none, .external .binderStop] ++ shownSession "Home".toList 1)).bind fun s =>
      (Svc.step s (.task 0 none)).bind fun _ => (s.updates (.task 0 none)).head?.map fun t =>
        (t.mRunning, t.notificationText)) = some (true, notifyMsg "Home".toList) := by decide +kernel
  obtain ⟨s, hs, hrest⟩ := Option.bind_eq_some_iff.mp hrun
  obtain ⟨s', hstep, hrest⟩ := Option.bind_eq_some_iff.mp hrest
  obtain ⟨t, ht, hresult⟩ := Option.map_eq_some_iff.mp hrest
  obtain ⟨hrunning, htext⟩ := Prod.mk.inj hresult
  have hreach := execWhere_reaches _ (created_reachable rfl none) hs
  exact ⟨t, htext, notification_matches hreach hstep t (List.mem_of_mem_head? ht) hrunning⟩

/-- "Work" is connected, stopped and connected again: the notification stays at the
"Connecting" of the second start. -/
theorem notification_stays_connecting : ¬ ∀ s s' a, Reachable system s → Svc.step s a = some s' →
    ∀ t ∈ s.updates a, Matches t := by
  intro h
  have hrun : ((exec system (Svc.created phone none)
      (shownSession "Work".toList 0 ++ [.task 0 none, .external .binderStop] ++ shownSession "Work".toList 1)).bind fun s =>
      (Svc.step s (.task 0 none)).bind fun s' => (s.updates (.task 0 none)).head?.map fun t =>
        (t.mRunning, t.notificationText, t.updateNotification.notification, s'.notification)) =
      some (true, notifyMsg "Work".toList, some connecting, some connecting) := by decide +kernel
  obtain ⟨s, hs, hrest⟩ := Option.bind_eq_some_iff.mp hrun
  obtain ⟨s', hstep, hrest⟩ := Option.bind_eq_some_iff.mp hrest
  obtain ⟨t, ht, hresult⟩ := Option.map_eq_some_iff.mp hrest
  obtain ⟨hrunning, hresult⟩ := Prod.mk.inj hresult
  obtain ⟨htext, hshown⟩ := Prod.mk.inj hresult
  have hmatch := h s s' _ (exec_reaches _ (created_reachable rfl none) hs) hstep t (List.mem_of_mem_head? ht) hrunning
  rw [(Prod.mk.inj hshown).1, htext] at hmatch
  exact absurd hmatch (by decide +kernel)

end KiloProxy.Vpn
