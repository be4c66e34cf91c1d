import KiloProxy.Run.TwoRuns
import KiloProxy.Vpn.Options
import KiloProxy.Vpn.PublishedState

/-!
# The accelerator switched off

Two runs with the switch off that differ in the options and the cache files stay the
same service with other options put in place. Other processes may write the options and
the files at any time, in either run.
-/

namespace KiloProxy.Vpn
set_option autoImplicit false
open KiloProxy.Text KiloProxy.Util KiloProxy.Service KiloProxy.Run

/-! ## The switch stays off -/

/-- Another process switches the accelerator on. -/
def Act.switchesOn : Act → Bool
  | .change (.setting key value) => key = prefVpnAccelerator && value = .bool true
  | _ => false

namespace Off

variable {s s' : Svc}

theorem of_eq (h : Off s) (read : s'.mAccel = s.mAccel)
    (prefs : s'.prefs prefVpnAccelerator = s.prefs prefVpnAccelerator) (threads : s'.dnsThreads = s.dnsThreads) :
    Off s' := by
  refine ⟨read.trans h.read, ?_, threads.trans h.threads⟩
  have hstored := h.stored
  unfold PrefMap.getBoolean at hstored ⊢
  rw [prefs]
  exact hstored

theorem reports (h : Off s) (hr : Reports s s') : Off s' :=
  h.of_eq (congrArg (fun c : Config => c.mAccel) hr.config) (congrFun hr.prefs _) hr.dnsThreads

theorem persisted (s : Svc) : s.persisted prefVpnAccelerator = s.prefs prefVpnAccelerator := by
  have hu : prefVpnAccelerator.head? ≠ some 'u' := by decide
  unfold Svc.persisted
  cases s.mProfileName with
  | none => rfl
  | some name =>
    have hrx : prefVpnAccelerator ≠ usageRxKey name := fun he => hu (congrArg List.head? he)
    have htx : prefVpnAccelerator ≠ usageTxKey name := fun he => hu (congrArg List.head? he)
    simp only [Function.update_of_ne htx, Function.update_of_ne hrx]

theorem teardown (h : Off s) (reason : StopReason) (origin : Option Nat) : Off (s.teardown reason origin) :=
  h.of_eq rfl (persisted s) rfl

theorem stopMe (h : Off s) (reason : StopReason) (origin : Option Nat) : Off (s.stopMe reason origin) := by
  obtain ⟨_, he⟩ | he := Svc.stopMe_cases s reason origin
  · rw [he]
    exact h
  · rw [he]
    exact h.teardown reason origin

/-- A connect reads the switch. -/
theorem accept (h : Off s) (place : Nat) (cmd : VpnIntent) : Off (s.accept place cmd) := ⟨h.stored, h.stored, h.threads⟩

theorem onStart (h : Off s) (place : Nat) (extras : Option VpnIntent) (saved : Option ProfileValues)
    (established : Established) : Off (s.onStart place extras saved established) := by
  obtain he | ⟨_, cmd, _, ⟨_, reason, he⟩ | ⟨n, _, he⟩⟩ := Svc.onStart_cases s place extras saved established
  · rw [he]
    exact h
  · rw [he]
    exact (h.accept place cmd).teardown reason none
  · rw [he]
    exact (h.accept place cmd).of_eq rfl rfl rfl

theorem probeDone (h : Off s) (p : Probe) (answer : Answer) : Off (s.probeDone p answer) := by
  obtain hr | ⟨t, hr, _, he⟩ := Svc.probeDone_cases s p answer
  · exact h.reports hr
  · rw [he]
    exact (h.reports hr).teardown .proxyConnectFailed none

/-- No resolver thread is started. -/
theorem advance (h : Off s) {t : StartThread} {reply : Reply} {p : Progress} (hp : t.advance s reply = some p) :
    p.shared.dnsThreads = s.dnsThreads := by
  obtain ⟨g, pc⟩ := t
  unfold StartThread.advance at hp
  cases pc with
  | begin =>
    simp only [h.read, Bool.false_and, Bool.false_eq_true, if_false] at hp
    cases hp
    rfl
  | _ =>
    simp only at hp
    repeat' split at hp
    all_goals first | cases hp; rfl | cases hp

theorem task (h : Off s) {i : Nat} {usage : Option (Int × Int)} (hs : s.task i usage = some s') : Off s' := by
  obtain ⟨_, tasks, _, _, hcases⟩ := Svc.task_cases hs
  have hpopped : Off { s with mMainHandler := tasks } := h.of_eq rfl rfl rfl
  obtain ⟨g, reason, _, rfl⟩ | ⟨g, _, rfl⟩ | ⟨g, _, _, hrun, rfl⟩ | ⟨p, answer, _, rfl⟩ := hcases
  · exact hpopped.stopMe reason (some g.connectSeq)
  · exact hpopped
  · have hup : Off (Svc.tunnelUp { s with mMainHandler := tasks } g usage) := h.of_eq rfl rfl rfl
    exact hup.reports (Svc.postStartOnMain_reports (s := { s with mMainHandler := tasks }) g usage hrun)
  · exact hpopped.probeDone p answer

/-- Every other write to the switch leaves it off. -/
theorem setting (h : Off s) {key : Str} {value : PrefValue} (hon : ¬ (key = prefVpnAccelerator ∧ value = .bool true)) :
    Off { s with prefs := Function.update s.prefs key (some value) } := by
  refine ⟨h.read, ?_, h.threads⟩
  change PrefMap.getBoolean (Function.update s.prefs key (some value)) prefVpnAccelerator false = false
  by_cases hkey : key = prefVpnAccelerator
  · subst hkey
    unfold PrefMap.getBoolean
    rw [Function.update_self]
    rcases value with (_ | _) | _ | _ | _
    · rfl
    · exact absurd ⟨rfl, rfl⟩ hon
    · rfl
    · rfl
    · rfl
  · have hstored := h.stored
    unfold PrefMap.getBoolean at hstored ⊢
    rw [Function.update_of_ne (Ne.symm hkey)]
    exact hstored

/-- No step turns the accelerator on in a session that read it off, unless the preference is switched on. -/
theorem step (h : Off s) {a : Act} (hon : a.switchesOn = false) (hs : Svc.step s a = some s') : Off s' := by
  cases a with
  | sendStart extras =>
    cases hs
    exact h.of_eq rfl rfl rfl
  | sendStop =>
    cases hs
    exact h.of_eq rfl rfl rfl
  | deliver saved established =>
    obtain ⟨place, queue, ⟨_, rfl⟩ | ⟨extras, _, rfl⟩⟩ := Svc.deliver_cases hs
    · have hpopped : Off { s with queue := queue, handledStops := s.handledStops ++ [place] } := h.of_eq rfl rfl rfl
      exact hpopped.stopMe .stopAction none
    · have hpopped : Off { s with queue := queue } := h.of_eq rfl rfl rfl
      exact hpopped.onStart place extras saved established
  | external reason =>
    obtain ⟨d, rfl⟩ := Svc.external_some hs
    exact (h.stopMe reason none).of_eq rfl rfl rfl
  | screenOn => exact h.reports (Svc.screenOn_quiet hs).toReports
  | task i usage => exact h.task hs
  | stats i usage =>
    obtain ⟨l, rfl⟩ := Svc.stats_some hs
    refine h.of_eq rfl ?_ rfl
    unfold Svc.statsTick
    simp only
    split
    · exact persisted (Svc.countUsage { s with mStatsHandler := l } usage)
    · rfl
  | ipCheck i =>
    obtain hq | ⟨_, l, rfl⟩ := Svc.ipCheck_cases hs
    · exact h.reports hq.toReports
    · exact h.of_eq rfl rfl rfl
  | probeBegin =>
    obtain ⟨p, choice, rest, _, rfl⟩ := Svc.probeBegin_some hs
    exact h.of_eq rfl rfl rfl
  | probeEnd answer =>
    obtain ⟨p, choice, rest, _, rfl⟩ := Svc.probeEnd_some hs
    exact h.of_eq rfl rfl rfl
  | thread i reply =>
    obtain ⟨t, p, _, hp, rfl⟩ := Svc.stepThread_some hs
    exact h.of_eq rfl rfl (h.advance hp)
  | dns i reply =>
    have hnone : s.stepDns i reply = none := Svc.stepDns_off h.threads i reply
    rw [Svc.step, hnone] at hs
    cases hs
  | monitor i =>
    obtain ⟨m, p, code, _, _, _, rfl⟩ := Svc.stepMonitor_some hs
    exact h.of_eq rfl rfl rfl
  | change c =>
    replace hs : s.change c = some s' := hs
    cases c with
    | setting key value =>
      replace hs : (if key ∈ settingKeys then some _ else none) = some s' := hs
      split at hs
      · cases hs
        exact h.setting fun hswitch => by simp [Act.switchesOn, hswitch] at hon
      · cases hs
    | openPidFile pid | daemonize pid | writePid pid =>
      obtain ⟨procs, file, opened, rfl⟩ := Svc.pdnsd_some rfl hs
      exact h.of_eq rfl rfl rfl
    | _ =>
      cases hs
      exact h.of_eq rfl rfl rfl

end Off

/-! ## Runs among other processes -/

/-- An action of the system, or another process writes an option or the cache files. -/
inductive Event where
  | act (a : Act)
  | option (o : AccelOption) (value : PrefValue)
  | files (accelDns : Option AccelDns) (accelIp : Option AccelIp)

def Event.act? : Event → Option Act
  | .act a => some a
  | _ => none

def Svc.happen (s : Svc) : Event → Option Svc
  | .act a => s.step a
  | .option o value => some { s with prefs := Function.update s.prefs o.key (some value) }
  | .files accelDns accelIp => some { s with accelDns := accelDns, accelIp := accelIp }

/-- The service among other processes. -/
def surrounded : System Svc Event where
  init := system.init
  step := Svc.happen

/-- The actions of a run. -/
def actions (events : List Event) : List Act := events.filterMap Event.act?

/-- The files as other processes leave them. -/
def lastFiles (files : Option AccelDns × Option AccelIp) (events : List Event) : Option AccelDns × Option AccelIp :=
  events.foldl (fun files e => match e with
    | .files accelDns accelIp => (accelDns, accelIp)
    | _ => files) files

/-- What the service has done, will do and shows. -/
structure Observed where
  engines : List Proc
  hevYml : Option HevConf
  hevNative : Option Nat
  hevRead : Option HevConf
  checks : List Check
  delays : List Nat
  tasks : List Task
  stopped : List Stop
  state : StateBundle
  notification : Option Str
  broadcasts : List (Option Str)

namespace Svc

def observed (s : Svc) : Observed where
  engines := s.procs
  hevYml := s.hevYml
  hevNative := s.hevNative
  hevRead := s.hevRead
  checks := s.mIpCheckExecutor
  delays := s.mIpCheckHandler
  tasks := s.mMainHandler
  stopped := s.stopped
  state := s.getState
  notification := s.notification
  broadcasts := s.broadcasts

def files (s : Svc) : Option AccelDns × Option AccelIp := (s.accelDns, s.accelIp)

end Svc

/-- The same device but for the options and the exit address file. -/
structure SameBut (w w' : World) : Prop where
  world : ∃ prefs accelIp, w' = { w with prefs := prefs, accelIp := accelIp }
  prefs : ∀ k, k ∉ optionKeys → w'.prefs k = w.prefs k

/-- The two services are one with other options. -/
structure Twins (s t : Svc) : Prop where
  off : Off s
  same : ∃ o, t = s.withOptions o

namespace Twins

variable {s t : Svc}

theorem observed (h : Twins s t) : s.observed = t.observed := by
  obtain ⟨o, rfl⟩ := h.same
  rfl

theorem off_right (h : Twins s t) : Off t := by
  obtain ⟨o, rfl⟩ := h.same
  have hkey : prefVpnAccelerator ∉ optionKeys := by decide
  exact h.off.of_eq rfl (Svc.prefs_with o s hkey) rfl

/-- An action that both take. -/
theorem both (h : Twins s t) {a : Act} (hon : a.switchesOn = false) : Option.Rel Twins (s.step a) (t.step a) := by
  obtain ⟨o, rfl⟩ := h.same
  obtain ⟨o', _, hstep⟩ := Svc.step_with o h.off a
  rw [hstep]
  cases hs : s.step a with
  | none => exact .none
  | some s' => exact .some ⟨h.off.step hon hs, o', rfl⟩

/-- Another process writes in the first run. -/
theorem left (h : Twins s t) {e : Event} (he : e.act? = none) : ∃ s', s.happen e = some s' ∧ Twins s' t := by
  obtain ⟨o, rfl⟩ := h.same
  cases e with
  | act a => cases he
  | option p value =>
    have hoff : Off { s with prefs := Function.update s.prefs p.key (some value) } :=
      h.off.setting fun hswitch => p.key_ne hswitch.1
    refine ⟨_, rfl, hoff, o, ?_⟩
    unfold Svc.withOptions
    rw [overlay_hides p.key_mem]
  | files accelDns accelIp => exact ⟨_, rfl, h.off.of_eq rfl rfl rfl, o, rfl⟩

/-- Or in the second. -/
theorem right (h : Twins s t) {e : Event} (he : e.act? = none) : ∃ t', t.happen e = some t' ∧ Twins s t' := by
  obtain ⟨o, rfl⟩ := h.same
  cases e with
  | act a => cases he
  | option p value =>
    refine ⟨_, rfl, h.off, { o with stored := Function.update o.stored p.key (some value) }, ?_⟩
    change { s.withOptions o with prefs := Function.update (overlay o.stored s.prefs) p.key (some value) } = _
    rw [overlay_shows p.key_mem]
    rfl
  | files accelDns accelIp => exact ⟨_, rfl, h.off, { o with accelDns := accelDns, accelIp := accelIp }, rfl⟩

/-- Two runs of the same actions from services that differ in the files alone go on in step. -/
theorem runs (h : Twins s t) {events events' : List Event} (hsame : actions events = actions events')
    (hon : ∀ a ∈ actions events, a.switchesOn = false) :
    Option.Rel Twins (exec surrounded s events) (exec surrounded t events') := by
  have hboth : ∀ s t a b c, Twins s t → Event.act? a = some c → Event.act? b = some c → c.switchesOn = false →
      Option.Rel Twins (surrounded.step s a) (surrounded.step t b) := by
    intro s t a b c htwins ha hb hc
    cases a <;> cases ha
    cases b <;> cases hb
    exact htwins.both hc
  exact exec_related hboth (fun _ _ _ htwins ha => htwins.left ha) (fun _ _ _ htwins hb => htwins.right hb) hsame hon h

end Twins

/-! ## The files -/

theorem lastFiles_cons (files : Option AccelDns × Option AccelIp) (e : Event) (events : List Event) :
    lastFiles files (e :: events) = lastFiles (lastFiles files [e]) events := rfl

/-- A step leaves the files alone. -/
theorem Off.files {s s' : Svc} (h : Off s) {a : Act} (hs : s.step a = some s') : s'.files = s.files := by
  obtain ⟨o', ⟨hdns, hip⟩, hstep⟩ := Svc.step_with s.options h a
  rw [Svc.withOptions_self, hs] at hstep
  rw [Option.some.inj hstep]
  exact Prod.ext hdns hip

theorem Off.happen {s s' : Svc} (h : Off s) {e : Event} (hon : ∀ a ∈ e.act?, a.switchesOn = false)
    (hs : s.happen e = some s') :
    Off s' ∧ s'.files = lastFiles s.files [e] := by
  cases e with
  | act a => exact ⟨h.step (hon a rfl) hs, h.files hs⟩
  | option p value =>
    cases hs
    exact ⟨h.setting fun hswitch => p.key_ne hswitch.1, rfl⟩
  | files accelDns accelIp =>
    cases hs
    exact ⟨h.of_eq rfl rfl rfl, rfl⟩

/-- Meanwhile the files hold what was last put there from outside. -/
theorem exec_files {s s' : Svc} (h : Off s) {events : List Event} (hon : ∀ a ∈ actions events, a.switchesOn = false)
    (hs : exec surrounded s events = some s') : s'.files = lastFiles s.files events := by
  induction events generalizing s with
  | nil =>
    cases hs
    rfl
  | cons e events ih =>
    obtain ⟨u, hu, hrest⟩ := Option.bind_eq_some_iff.mp hs
    have hhead : ∀ a ∈ e.act?, a.switchesOn = false := fun a ha => hon a (by
      unfold actions
      rw [List.filterMap_cons_some ha]
      exact List.mem_cons_self)
    have htail : ∀ a ∈ actions events, a.switchesOn = false := fun a ha => hon a (by
      obtain ⟨b, hb, hba⟩ := List.mem_filterMap.mp ha
      exact List.mem_filterMap.mpr ⟨b, List.mem_cons_of_mem e hb, hba⟩)
    obtain ⟨hoff, hfiles⟩ := h.happen hhead hu
    rw [ih hoff htail hrest, lastFiles_cons, hfiles]

/-! ## Both runs -/

theorem created_off {w : World} (hoff : PrefMap.getBoolean w.prefs prefVpnAccelerator false = false)
    (accelDns : Option AccelDns) : Off (Svc.created w accelDns) := ⟨rfl, hoff, rfl⟩

/-- Devices that differ in the tuned options alone start services that differ in nothing else. -/
theorem created_twins {w w' : World} (hw : SameBut w w')
    (hoff : PrefMap.getBoolean w.prefs prefVpnAccelerator false = false) (accelDns accelDns' : Option AccelDns) :
    Twins (Svc.created w accelDns) (Svc.created w' accelDns') := by
  refine ⟨created_off hoff accelDns, (Svc.created w' accelDns').options, ?_⟩
  have hprefs : overlay w'.prefs w.prefs = w'.prefs := by
    funext k
    by_cases hk : k ∈ optionKeys
    · exact overlay_in hk _ _
    · rw [overlay_out hk, hw.prefs k hk]
  obtain ⟨prefs, accelIp, rfl⟩ := hw.world
  change _ = { Svc.created w accelDns with
    prefs := overlay prefs w.prefs, accelDns := accelDns', accelIp := accelIp }
  rw [hprefs]
  rfl

/-- **With the accelerator off the options do not matter.** Two runs with the same actions
from devices that differ in the options and the files, which other processes may write
in between, do and show the same at every point, and neither writes the files. -/
theorem accelerator_off {w w' : World} (hw : SameBut w w')
    (hoff : PrefMap.getBoolean w.prefs prefVpnAccelerator false = false) (accelDns accelDns' : Option AccelDns)
    {events events' : List Event} (hsame : actions events = actions events')
    (hon : ∀ a ∈ actions events, a.switchesOn = false) :
    (exec surrounded (Svc.created w accelDns) events).map Svc.observed =
        (exec surrounded (Svc.created w' accelDns') events').map Svc.observed ∧
      (∀ s, exec surrounded (Svc.created w accelDns) events = some s → s.files = lastFiles (accelDns, w.accelIp) events) ∧
      ∀ s, exec surrounded (Svc.created w' accelDns') events' = some s →
        s.files = lastFiles (accelDns', w'.accelIp) events' := by
  have htwins := created_twins hw hoff accelDns accelDns'
  refine ⟨?_, fun s hs => exec_files htwins.off hon hs, fun s hs => exec_files htwins.off_right (hsame ▸ hon) hs⟩
  exact rel_map (htwins.runs hsame hon) fun s t h => h.observed

def tunedOptions : PrefMap := fun k =>
  if k = prefAccelPrimary then some (.string "kiloip".toList)
  else if k = prefAccelMode then some (.string accelModeSingle)
  else if k = prefAccelIntervalMs then some (.long 5000)
  else some (.bool (k = prefAccelCacheIp))

/-- The phone with every option changed and a cached exit address of the profile. -/
def tunedPhone : World :=
  { phone with
    prefs := overlay tunedOptions phone.prefs
    accelIp := some ⟨accelKey (some "10.0.0.2".toList) 1080 none, 0,
      ⟨"1.2.3.4".toList, "DE".toList, [], [], [], [], [], [], []⟩⟩ }

/-- A connect whose first check fails once the tunnel is up. -/
def failedCheck : List Act :=
  [.sendStart (some (startOf "Work".toList "10.0.0.2".toList)), .deliver none (.fd 3)] ++ bringUp 0 "10.0.0.2".toList ++
    [.task 0 none, .ipCheck 0, .probeBegin, .probeEnd (.handshake .unreachable), .task 0 none]

theorem accelerator_off_tuned :
    (exec surrounded (Svc.created phone none) (failedCheck.map .act)).isSome = true ∧
      (exec surrounded (Svc.created phone none) (failedCheck.map .act)).map Svc.observed =
        (exec surrounded (Svc.created tunedPhone (some ⟨"10.0.0.2".toList, "10.0.0.9".toList, 0⟩))
          (.option .probe (.bool true) :: .files none none :: failedCheck.map .act)).map Svc.observed := by
  have hw : SameBut phone tunedPhone := ⟨⟨_, _, rfl⟩, fun k hk => overlay_out hk tunedOptions phone.prefs⟩
  have hrun : (exec surrounded (Svc.created phone none) (failedCheck.map .act)).isSome = true := by decide +kernel
  have hsame : actions (failedCheck.map .act) =
      actions (.option .probe (.bool true) :: .files none none :: failedCheck.map .act) := rfl
  have hon : ∀ a ∈ actions (failedCheck.map .act), a.switchesOn = false := by decide
  have hoff : PrefMap.getBoolean phone.prefs prefVpnAccelerator false = false := rfl
  exact ⟨hrun, (accelerator_off hw hoff none (some ⟨"10.0.0.2".toList, "10.0.0.9".toList, 0⟩) hsame hon).1⟩

end KiloProxy.Vpn
