import KiloProxy.Vpn.System

/-!
# The options of the accelerator

Six options stand under the master switch of the accelerator, and two cache files. With
the switch off a handler does the same with any options and files in place of its own
(`withOptions`) and leaves them as they are; only a connect reads the options anew. With
its own options put in place a service is itself, so that it keeps its own files.
-/

namespace KiloProxy.Vpn
set_option autoImplicit false
open KiloProxy.Text KiloProxy.Util KiloProxy.Service

/-- The options besides the master switch. -/
inductive AccelOption where
  | primary
  | mode
  | cacheIp
  | probe
  | dnsCache
  | intervalMs
deriving DecidableEq, Repr

def AccelOption.key : AccelOption → Str
  | primary => prefAccelPrimary
  | mode => prefAccelMode
  | cacheIp => prefAccelCacheIp
  | probe => prefAccelProbe
  | dnsCache => prefAccelDnsCache
  | intervalMs => prefAccelIntervalMs

/-- The keys of the options. -/
def optionKeys : List Str :=
  [prefAccelPrimary, prefAccelMode, prefAccelCacheIp, prefAccelProbe, prefAccelDnsCache, prefAccelIntervalMs]

theorem AccelOption.key_mem (o : AccelOption) : o.key ∈ optionKeys := by
  cases o <;> simp [AccelOption.key, optionKeys]

theorem AccelOption.key_ne (o : AccelOption) : o.key ≠ prefVpnAccelerator := fun he => by
  have hkey : prefVpnAccelerator ∉ optionKeys := by decide
  exact hkey (he ▸ o.key_mem)

/-- `m` with the options of `stored`. -/
def overlay (stored m : PrefMap) : PrefMap := fun k => if k ∈ optionKeys then stored k else m k

/-- What may differ: the options as the last connect read them, as they are stored, and
the files. -/
structure Options where
  mAccelPrimary : Str
  mAccelBoth : Bool
  mAccelCacheIp : Bool
  mAccelProbe : Bool
  mAccelDns : Bool
  mAccelIntervalMs : Int
  stored : PrefMap
  accelDns : Option AccelDns
  accelIp : Option AccelIp

/-- The options a connect reads. -/
def Options.connected (o : Options) : Options :=
  { o with
    mAccelPrimary := (readAccelPrefs o.stored).mAccelPrimary
    mAccelBoth := (readAccelPrefs o.stored).mAccelBoth
    mAccelCacheIp := (readAccelPrefs o.stored).mAccelCacheIp
    mAccelProbe := (readAccelPrefs o.stored).mAccelProbe
    mAccelDns := (readAccelPrefs o.stored).mAccelDns
    mAccelIntervalMs := (readAccelPrefs o.stored).mAccelIntervalMs }

/-- The same files. -/
def Options.Kept (o o' : Options) : Prop := o'.accelDns = o.accelDns ∧ o'.accelIp = o.accelIp

theorem Options.kept (o : Options) : o.Kept o := ⟨rfl, rfl⟩

/-- The service with these options and files in place of its own. -/
def Svc.withOptions (o : Options) (s : Svc) : Svc :=
  { s with
    mAccelPrimary := o.mAccelPrimary
    mAccelBoth := o.mAccelBoth
    mAccelCacheIp := o.mAccelCacheIp
    mAccelProbe := o.mAccelProbe
    mAccelDns := o.mAccelDns
    mAccelIntervalMs := o.mAccelIntervalMs
    prefs := overlay o.stored s.prefs
    accelDns := o.accelDns
    accelIp := o.accelIp }

/-- Its own. -/
def Svc.options (s : Svc) : Options where
  mAccelPrimary := s.mAccelPrimary
  mAccelBoth := s.mAccelBoth
  mAccelCacheIp := s.mAccelCacheIp
  mAccelProbe := s.mAccelProbe
  mAccelDns := s.mAccelDns
  mAccelIntervalMs := s.mAccelIntervalMs
  stored := s.prefs
  accelDns := s.accelDns
  accelIp := s.accelIp

/-- The master switch is off. -/
structure Off (s : Svc) : Prop where
  read : s.mAccel = false
  stored : PrefMap.getBoolean s.prefs prefVpnAccelerator false = false
  threads : s.dnsThreads = []

/-! ## Preferences -/

theorem overlay_self (m : PrefMap) : overlay m m = m := by
  funext k
  exact ite_self _

theorem overlay_out {k : Str} (h : k ∉ optionKeys) (stored m : PrefMap) : overlay stored m k = m k := if_neg h

theorem overlay_in {k : Str} (h : k ∈ optionKeys) (stored m : PrefMap) : overlay stored m k = stored k := if_pos h

theorem overlay_update {k : Str} (h : k ∉ optionKeys) (stored m : PrefMap) (v : Option PrefValue) :
    Function.update (overlay stored m) k v = overlay stored (Function.update m k v) := by
  funext j
  by_cases hj : j = k
  · subst hj
    rw [Function.update_self, overlay_out h, Function.update_self]
  · rw [Function.update_of_ne hj, overlay, overlay, Function.update_of_ne hj]

/-- A write to both. -/
theorem overlay_write (k : Str) (stored m : PrefMap) (v : Option PrefValue) :
    Function.update (overlay stored m) k v = overlay (Function.update stored k v) (Function.update m k v) := by
  funext j
  by_cases hj : j = k
  · subst hj
    unfold overlay
    rw [Function.update_self, Function.update_self, Function.update_self, ite_self]
  · unfold overlay
    rw [Function.update_of_ne hj, Function.update_of_ne hj, Function.update_of_ne hj]

/-- A write below or above. -/
theorem overlay_hides {k : Str} (h : k ∈ optionKeys) (stored m : PrefMap) (v : Option PrefValue) :
    overlay stored (Function.update m k v) = overlay stored m := by
  funext j
  by_cases hj : j = k
  · subst hj
    rw [overlay_in h, overlay_in h]
  · unfold overlay
    rw [Function.update_of_ne hj]

theorem overlay_shows {k : Str} (h : k ∈ optionKeys) (stored m : PrefMap) (v : Option PrefValue) :
    Function.update (overlay stored m) k v = overlay (Function.update stored k v) m := by
  rw [overlay_write, overlay_hides h]

/-- No usage total is stored under an option. -/
theorem usageKey_out (name : Str) : usageRxKey name ∉ optionKeys ∧ usageTxKey name ∉ optionKeys := by
  have hu : ∀ k ∈ optionKeys, k.head? ≠ some 'u' := by decide
  exact ⟨fun h => hu _ h rfl, fun h => hu _ h rfl⟩

namespace Svc

variable (o : Options) (s : Svc)

theorem withOptions_self : s.withOptions s.options = s := by
  have h : overlay s.prefs s.prefs = s.prefs := overlay_self s.prefs
  unfold withOptions options
  rw [h]

theorem prefs_with {k : Str} (h : k ∉ optionKeys) : (s.withOptions o).prefs k = s.prefs k :=
  overlay_out h o.stored s.prefs

/-- What a service has persisted shows the options only through their own keys. -/
theorem persisted_with : (s.withOptions o).persisted = overlay o.stored s.persisted := by
  have hname : (s.withOptions o).mProfileName = s.mProfileName := rfl
  unfold persisted
  rw [hname]
  cases s.mProfileName with
  | none => rfl
  | some name =>
    obtain ⟨hrx, htx⟩ := usageKey_out name
    change Function.update (Function.update (overlay o.stored s.prefs) _ _) _ _ = _
    rw [overlay_update hrx, overlay_update htx]
    rfl

theorem teardown_with (reason : StopReason) (origin : Option Nat) :
    (s.withOptions o).teardown reason origin = (s.teardown reason origin).withOptions o := by
  unfold teardown
  rw [persisted_with]
  rfl

theorem stopMe_with (reason : StopReason) (origin : Option Nat) :
    (s.withOptions o).stopMe reason origin = (s.stopMe reason origin).withOptions o := by
  unfold stopMe
  rw [apply_ite (withOptions o), teardown_with]
  rfl

/-! ## Starting -/

/-- The command of a start does not read them. -/
theorem command_with (extras : Option VpnIntent) (saved : Option ProfileValues) :
    (s.withOptions o).command extras saved = s.command extras saved := by
  have hdisjoint : ∀ k ∈ splitKeys, k ∉ optionKeys := by decide +kernel
  have hsplit : readSplitPrefs (s.withOptions o).prefs = readSplitPrefs s.prefs :=
    readSplitPrefs_congr fun k hk => prefs_with o s (hdisjoint k hk)
  have hsaved : command.fromSaved (s.withOptions o) saved = command.fromSaved s saved := by
    unfold command.fromSaved
    rw [hsplit]
  unfold command
  rw [hsaved]

/-- A connect reads the options anew. -/
theorem accept_with (place : Nat) (cmd : VpnIntent) :
    (s.withOptions o).accept place cmd = (s.accept place cmd).withOptions o.connected := by
  have hread : readAccelPrefs (s.withOptions o).prefs =
      { readAccelPrefs o.stored with
        mAccel := (readAccelPrefs s.prefs).mAccel
        mHev := (readAccelPrefs s.prefs).mHev
        mHevUdp := (readAccelPrefs s.prefs).mHevUdp } := by
    have hin : ∀ k ∈ optionKeys, (s.withOptions o).prefs k = o.stored k := fun k hk => overlay_in hk _ _
    have hout : ∀ k, k ∉ optionKeys → (s.withOptions o).prefs k = s.prefs k := fun k hk => prefs_with o s hk
    simp only [readAccelPrefs, PrefMap.getBoolean, PrefMap.getString, PrefMap.getLong]
    rw [hin prefAccelPrimary (by decide), hin prefAccelMode (by decide), hin prefAccelCacheIp (by decide),
      hin prefAccelProbe (by decide), hin prefAccelDnsCache (by decide), hin prefAccelIntervalMs (by decide),
      hout prefVpnAccelerator (by decide), hout prefHevTunnel (by decide), hout prefHevUdp (by decide)]
  simp only [accept]
  rw [hread]
  rfl

/-- A start does the same with other options, but for keeping its own. -/
theorem onStart_with (place : Nat) (extras : Option VpnIntent) (saved : Option ProfileValues)
    (established : Established) : ∃ o', o.Kept o' ∧
    (s.withOptions o).onStart place extras saved established =
      (s.onStart place extras saved established).withOptions o' := by
  have hrunning : (s.withOptions o).mRunning = s.mRunning := rfl
  unfold onStart
  rw [hrunning, command_with]
  cases s.mRunning with
  | true => exact ⟨o, o.kept, rfl⟩
  | false =>
    cases s.command extras saved with
    | none => exact ⟨o, o.kept, rfl⟩
    | some cmd =>
      refine ⟨o.connected, ⟨rfl, rfl⟩, ?_⟩
      simp only [Bool.false_eq_true, if_false, accept_with]
      cases established with
      | threw => exact stopMe_with o.connected (s.accept place cmd) .configureFailed none
      | null => exact stopMe_with o.connected (s.accept place cmd) .interfaceNull none
      | fd n => rfl

/-! ## The ip check -/

theorem runIpCheck_with : (s.withOptions o).runIpCheck = s.runIpCheck.withOptions o := by
  unfold runIpCheck
  rw [apply_ite (withOptions o), apply_ite (withOptions o), apply_ite (withOptions o)]
  rfl

theorem applyCachedIpInfo_with (info : IpInfo) :
    (s.withOptions o).applyCachedIpInfo info = (s.applyCachedIpInfo info).withOptions o := rfl

variable {s}

theorem applyIpInfo_with (hoff : s.mAccel = false) (info : IpInfo) (p : Probe) :
    (s.withOptions o).applyIpInfo info p = (s.applyIpInfo info p).withOptions o := by
  have hfile : (s.withOptions o).savedAccelIp info = o.accelIp := by
    have hread : (s.withOptions o).mAccel = false := hoff
    unfold savedAccelIp
    rw [hread]
    rfl
  unfold applyIpInfo
  rw [hfile, applyCachedIpInfo_with]
  rfl

theorem healthyInterval_off (hoff : s.mAccel = false) : s.healthyInterval = ipCheckInterval := by
  unfold healthyInterval
  rw [hoff]
  rfl

theorem countFailure_with (hoff : s.mAccel = false) (p : Probe) :
    (s.withOptions o).countFailure p = (s.countFailure p).withOptions o := by
  have hread : (s.withOptions o).mAccel = false := hoff
  unfold countFailure
  rw [hread, hoff]
  rfl

/-- A failed handshake counts whatever the probe option says. -/
theorem counts_off (hoff : s.mAccel = false) : (!s.mAccel || s.mAccelProbe) = true := by
  rw [hoff]
  rfl

/-- An answer has the same effect with other options, while the accelerator is off. -/
theorem probeDone_with (hoff : s.mAccel = false) (p : Probe) (answer : Answer) :
    (s.withOptions o).probeDone p answer = (s.probeDone p answer).withOptions o := by
  have hread : (s.withOptions o).mAccel = false := hoff
  -- the probe is no longer in flight
  obtain ⟨t, ht⟩ : ∃ t, t = { s with mProbeInFlight := false } := ⟨_, rfl⟩
  have htoff : t.mAccel = false := by rw [ht]; exact hoff
  have htwith : (t.withOptions o).mAccel = false := htoff
  have hwith : { s.withOptions o with mProbeInFlight := false } = t.withOptions o := by rw [ht]; rfl
  simp only [probeDone, hwith, ← ht]
  cases answer with
  | info i =>
    simp only
    rw [apply_ite (withOptions o), applyIpInfo_with o htoff, healthyInterval_off htoff, healthyInterval_off htwith]
    rfl
  | handshake probe =>
    simp only
    rw [if_pos (counts_off hoff), if_pos (counts_off hread), countFailure_with o htoff, apply_ite (withOptions o),
      apply_ite (withOptions o), apply_ite (withOptions o), ← stopMe_with]
    rfl
  | exception => rfl

theorem showCachedIp_off (hoff : s.mAccel = false) : s.showCachedIp = s := by
  have hnone : s.cachedIp = none := by
    unfold cachedIp
    rw [hoff]
    rfl
  unfold showCachedIp
  rw [hnone]
  rfl

theorem storedBytes_with : (s.withOptions o).storedBytes = s.storedBytes := by
  have hname : (s.withOptions o).mProfileName = s.mProfileName := rfl
  unfold storedBytes
  rw [hname]
  cases s.mProfileName with
  | none => rfl
  | some name =>
    obtain ⟨hrx, htx⟩ := usageKey_out name
    simp only [PrefMap.getLong, prefs_with o s hrx, prefs_with o s htx]

theorem tunnelUp_with (g : Session) (usage : Option (Int × Int)) :
    (s.withOptions o).tunnelUp g usage = (s.tunnelUp g usage).withOptions o := by
  unfold tunnelUp
  rw [storedBytes_with]
  rfl

theorem surface_with (hoff : s.mAccel = false) : (s.withOptions o).surface = s.surface.withOptions o := by
  have hpending : (s.withOptions o).mPendingIpInfo = s.mPendingIpInfo := rfl
  have hread : (s.withOptions o).mAccel = false := hoff
  unfold surface
  rw [hpending]
  cases s.mPendingIpInfo with
  | none => rfl
  | some answer =>
    obtain ⟨info, p⟩ := answer
    have happly := applyIpInfo_with o (s := { s with mPendingIpInfo := none }) hoff info p
    simp only [healthyInterval_off hoff, healthyInterval_off hread]
    exact congrArg (fun t : Svc => t.postIpCheck ipCheckInterval) happly

theorem postStartOnMain_with (hoff : s.mAccel = false) (g : Session) (usage : Option (Int × Int)) :
    (s.withOptions o).postStartOnMain g usage = (s.postStartOnMain g usage).withOptions o := by
  have hup : (s.tunnelUp g usage).mAccel = false := hoff
  have hupwith : ((s.tunnelUp g usage).withOptions o).mAccel = false := hoff
  have hrunning : (s.withOptions o).mRunning = s.mRunning := rfl
  unfold postStartOnMain
  simp only [tunnelUp_with, showCachedIp_off hup, showCachedIp_off hupwith, surface_with o hup, hrunning]
  cases s.mRunning with
  | false => rfl
  | true =>
    generalize (s.tunnelUp g usage).surface = t
    have hauto : PrefMap.getBoolean (t.withOptions o).prefs prefAutoStop false =
        PrefMap.getBoolean t.prefs prefAutoStop false := by
      unfold PrefMap.getBoolean
      rw [prefs_with o t (by decide)]
    rw [hauto]
    rfl

theorem runTask_with (hoff : s.mAccel = false) (task : Task) (usage : Option (Int × Int)) :
    (s.withOptions o).runTask task usage = (s.runTask task usage).withOptions o := by
  cases task with
  | stop g reason => exact stopMe_with o s reason (some g.connectSeq)
  | tunnelUp g =>
    have hstale : (s.withOptions o).stale g = s.stale g := rfl
    unfold runTask
    simp only [hstale, postStartOnMain_with o hoff, apply_ite (withOptions o)]
  | probeDone p answer => exact probeDone_with o hoff p answer

theorem statsTick_with (usage : Option (Int × Int)) :
    (s.withOptions o).statsTick usage = (s.statsTick usage).withOptions o := by
  have hcount : (s.withOptions o).countUsage usage = (s.countUsage usage).withOptions o := rfl
  unfold statsTick
  simp only [hcount, persisted_with]
  generalize s.countUsage usage = t
  have hprefs : (if (t.withOptions o).mRunning && (t.withOptions o).mStatsTick % usagePersistTicks = 0 then
        overlay o.stored t.persisted else (t.withOptions o).prefs) =
      overlay o.stored (if t.mRunning && t.mStatsTick % usagePersistTicks = 0 then t.persisted else t.prefs) :=
    (apply_ite (overlay o.stored) _ _ _).symm
  rw [hprefs]
  rfl

end Svc

/-! ## The threads -/

/-- A step of the thread, with the file in place of its own. -/
def Progress.withFile (accelDns : Option AccelDns) (p : Progress) : Progress :=
  { p with shared := { p.shared with accelDns := accelDns } }

/-- A step of a start thread is the same with other options, but for the file it leaves. -/
theorem advance_with (o : Options) {s : Svc} (hoff : s.mAccel = false) (t : StartThread) (reply : Reply) :
    t.advance (s.withOptions o) reply = (t.advance s reply).map (Progress.withFile o.accelDns) := by
  have hread : (s.withOptions o).mAccel = false := hoff
  have hstale : ∀ g, (s.withOptions o).stale g = s.stale g := fun _ => rfl
  have hhev : (s.withOptions o).mHev = s.mHev := rfl
  have huptime : (s.withOptions o).uptime = s.uptime := rfl
  have hnative : (s.withOptions o).hevNative = s.hevNative := rfl
  have hdone : ∀ i, (s.withOptions o).toShared.dnsDone i = s.toShared.dnsDone i := fun _ => rfl
  obtain ⟨g, pc⟩ := t
  cases pc <;> simp only [StartThread.advance, hread, hoff, hstale, hhev, huptime, hdone, hnative, Bool.false_and,
    Bool.false_eq_true, if_false]
  case lookup => cases reply <;> rfl
  case hevNative => cases reply <;> first | rfl | (split_ifs <;> rfl)
  -- the other places of the thread: conditions that do not see the options
  all_goals first | rfl | (split_ifs <;> rfl)

namespace Svc

variable (o : Options) {s : Svc}

theorem stepThread_with (hoff : s.mAccel = false) (i : Nat) (reply : Reply) :
    (s.withOptions o).stepThread i reply = (s.stepThread i reply).map (withOptions o) := by
  have hthreads : (s.withOptions o).startThreads = s.startThreads := rfl
  unfold stepThread
  rw [hthreads]
  cases s.startThreads[i]? with
  | none => rfl
  | some t =>
    simp only [Option.bind_some, advance_with o hoff]
    cases t.advance s reply <;> rfl

/-- A monitor does the same with other options. -/
theorem stepMonitor_with (i : Nat) : (s.withOptions o).stepMonitor i = (s.stepMonitor i).map (withOptions o) := by
  have hmonitors : (s.withOptions o).monitors = s.monitors := rfl
  have hprocs : (s.withOptions o).procs = s.procs := rfl
  unfold stepMonitor
  rw [hmonitors]
  cases s.monitors[i]? with
  | none => rfl
  | some m =>
    simp only [Option.bind_some, hprocs]
    cases m.done with
    | true => rfl
    | false =>
      cases s.procs[m.pid]? with
      | none => rfl
      | some p =>
        simp only [Bool.false_eq_true, if_false, Option.bind_some]
        cases p.exit <;> rfl

/-! ## The system -/

/-- A delivered intent has the same effect with other options, but for keeping its own. -/
theorem deliver_with (saved : Option ProfileValues) (established : Established) :
    ∃ o', o.Kept o' ∧
      (s.withOptions o).deliver saved established = (s.deliver saved established).map (withOptions o') := by
  have hdestroyed : (s.withOptions o).destroyed = s.destroyed := rfl
  have hqueue : (s.withOptions o).queue = s.queue := rfl
  unfold deliver
  rw [hdestroyed, hqueue]
  cases s.destroyed with
  | true => exact ⟨o, o.kept, rfl⟩
  | false =>
    cases s.queue with
    | nil => exact ⟨o, o.kept, rfl⟩
    | cons head queue =>
      obtain ⟨place, intent⟩ := head
      cases intent with
      | stop =>
        refine ⟨o, o.kept, ?_⟩
        exact congrArg some
          (stopMe_with o { s with queue := queue, handledStops := s.handledStops ++ [place] } .stopAction none)
      | start extras =>
        obtain ⟨o', hkept, hstart⟩ := onStart_with o { s with queue := queue } place extras saved established
        exact ⟨o', hkept, congrArg some hstart⟩

theorem external_with (reason : StopReason) :
    (s.withOptions o).external reason = (s.external reason).map (withOptions o) := by
  have hdestroyed : (s.withOptions o).destroyed = s.destroyed := rfl
  have hnotification : (s.withOptions o).mNotificationReceiverRegistered = s.mNotificationReceiverRegistered := rfl
  have hscreen : (s.withOptions o).mScreenOffRegistered = s.mScreenOffRegistered := rfl
  unfold external
  rw [hdestroyed, hnotification, hscreen]
  simp only [stopMe_with]
  cases reason <;> (split_ifs <;> rfl)

theorem screenOn_with : (s.withOptions o).screenOn = s.screenOn.map (withOptions o) := by
  have hscreen : (s.withOptions o).mScreenOnRegistered = s.mScreenOnRegistered := rfl
  have hrunning : (s.withOptions o).mRunning = s.mRunning := rfl
  unfold screenOn
  rw [hscreen, hrunning]
  split_ifs <;> rfl

theorem task_with (hoff : s.mAccel = false) (i : Nat) (usage : Option (Int × Int)) :
    (s.withOptions o).task i usage = (s.task i usage).map (withOptions o) := by
  have htasks : (s.withOptions o).mMainHandler = s.mMainHandler := rfl
  unfold task
  rw [htasks]
  cases s.mMainHandler[i]? with
  | none => rfl
  | some t =>
    have hrun := runTask_with o (s := { s with mMainHandler := s.mMainHandler.eraseIdx i }) hoff t usage
    exact congrArg some hrun

/-- A callback that is run when it is due. -/
theorem due_with (pending : Option Nat) (uptime : Nat) (t : Svc) :
    (pending.bind fun due => if due ≤ uptime then some (t.withOptions o) else none) =
      (pending.bind fun due => if due ≤ uptime then some t else none).map (withOptions o) := by
  cases pending with
  | none => rfl
  | some due => exact (apply_ite (Option.map (withOptions o)) (due ≤ uptime) (some t) none).symm

theorem stats_with (i : Nat) (usage : Option (Int × Int)) :
    (s.withOptions o).stats i usage = (s.stats i usage).map (withOptions o) := by
  have hdue := due_with o s.mStatsHandler[i]? s.uptime
    ({ s with mStatsHandler := s.mStatsHandler.eraseIdx i }.statsTick usage)
  rw [← statsTick_with] at hdue
  exact hdue

theorem ipCheck_with (i : Nat) : (s.withOptions o).ipCheck i = (s.ipCheck i).map (withOptions o) := by
  have hdue := due_with o s.mIpCheckHandler[i]? s.uptime
    { s with mIpCheckHandler := s.mIpCheckHandler.eraseIdx i }.runIpCheck
  rw [← runIpCheck_with] at hdue
  exact hdue

/-- The stock selection. -/
theorem probeBegin_with (hoff : s.mAccel = false) : (s.withOptions o).probeBegin = s.probeBegin.map (withOptions o) := by
  have hchecks : (s.withOptions o).mIpCheckExecutor = s.mIpCheckExecutor := rfl
  have hread : (s.withOptions o).mAccel = false := hoff
  unfold probeBegin
  rw [hchecks, hread, hoff]
  rcases s.mIpCheckExecutor with _ | ⟨⟨p, _ | choice⟩, rest⟩
  · rfl
  · rfl
  · rfl

theorem probeEnd_with (answer : Answer) : (s.withOptions o).probeEnd answer = (s.probeEnd answer).map (withOptions o) := by
  have hchecks : (s.withOptions o).mIpCheckExecutor = s.mIpCheckExecutor := rfl
  unfold probeEnd
  rw [hchecks]
  rcases s.mIpCheckExecutor with _ | ⟨⟨p, _ | choice⟩, rest⟩
  · rfl
  · rfl
  · rfl

theorem stepDns_off (hthreads : s.dnsThreads = []) (i : Nat) (reply : Reply) : s.stepDns i reply = none := by
  unfold stepDns
  rw [hthreads]
  rfl

/-- What other threads do is the same with other options, but for what is stored in them. -/
theorem change_with (c : Change) :
    ∃ o', o.Kept o' ∧ (s.withOptions o).change c = (s.change c).map (withOptions o') := by
  cases c with
  | setting key value =>
    refine ⟨{ o with stored := Function.update o.stored key (some value) }, ⟨rfl, rfl⟩, ?_⟩
    change (if key ∈ settingKeys then some { s.withOptions o with
      prefs := Function.update (overlay o.stored s.prefs) key (some value) } else none) = _
    rw [overlay_write]
    change _ = (if key ∈ settingKeys then some { s with prefs := Function.update s.prefs key (some value) } else none).map _
    by_cases hkey : key ∈ settingKeys
    · rw [if_pos hkey, if_pos hkey]
      rfl
    · rw [if_neg hkey, if_neg hkey]
      rfl
  | openPidFile pid | daemonize pid | writePid pid =>
    refine ⟨o, o.kept, ?_⟩
    -- the options are no part of the process table and the pid file
    have hprocs : (s.withOptions o).procs = s.procs := rfl
    have hopened : (s.withOptions o).pidOpened = s.pidOpened := rfl
    simp only [change, openPidFile, daemonize, writePid, hprocs, hopened]
    cases s.procs[pid]? with
    | none => rfl
    | some p =>
      simp only [Option.bind_some]
      split_ifs <;> rfl
  | _ => exact ⟨o, o.kept, rfl⟩

/-- **One step with other options** is the step with them put in afterwards; the files
are kept. -/
theorem step_with (h : Off s) (a : Act) :
    ∃ o', o.Kept o' ∧ (s.withOptions o).step a = (s.step a).map (withOptions o') := by
  cases a with
  | deliver saved established => exact deliver_with o saved established
  | change c => exact change_with o c
  | sendStart extras => exact ⟨o, o.kept, rfl⟩
  | sendStop => exact ⟨o, o.kept, rfl⟩
  | external reason => exact ⟨o, o.kept, external_with o reason⟩
  | screenOn => exact ⟨o, o.kept, screenOn_with o⟩
  | task i usage => exact ⟨o, o.kept, task_with o h.read i usage⟩
  | stats i usage => exact ⟨o, o.kept, stats_with o i usage⟩
  | ipCheck i => exact ⟨o, o.kept, ipCheck_with o i⟩
  | probeBegin => exact ⟨o, o.kept, probeBegin_with o h.read⟩
  | probeEnd answer => exact ⟨o, o.kept, probeEnd_with o answer⟩
  | thread i reply => exact ⟨o, o.kept, stepThread_with o h.read i reply⟩
  | dns i reply =>
    have hnone : (s.withOptions o).stepDns i reply = none := stepDns_off (s := s.withOptions o) h.threads i reply
    refine ⟨o, o.kept, ?_⟩
    change (s.withOptions o).stepDns i reply = (s.stepDns i reply).map (withOptions o)
    rw [hnone, stepDns_off h.threads]
    rfl
  | monitor i => exact ⟨o, o.kept, stepMonitor_with o i⟩

end Svc

end KiloProxy.Vpn
