import KiloProxy.Vpn.Frames

/-!
# What clients see

`getState` puts the published fields into one bundle. Only tunnel-up and the answers that
arrive after it set them, and every stop resets them, so whatever they show belongs to a
tunnel that is up; an idle service shows nothing but an error text.
-/

namespace KiloProxy.Vpn
set_option autoImplicit false
open KiloProxy.Text KiloProxy.Util KiloProxy.Service KiloProxy.Run

/-- The bundle of `getState`, by the keys `VPN_STATE_*`. -/
structure StateBundle where
  running : Bool
  tunnelUp : Bool
  verified : Bool
  connected : Bool
  connectedSince : Int
  ip : Str
  countryCode : Str
  country : Str
  region : Str
  city : Str
  isp : Str
  org : Str
  asName : Str
  timezone : Str
  error : Str
  received : Int
  sent : Int
  profile : Str
deriving DecidableEq, Repr

namespace Svc

/-- A field of `mIpInfo`, or nothing. -/
def geo (s : Svc) (field : IpInfo → Str) : Str := (s.mIpInfo.map field).getD []

def getReceivedBytes (s : Svc) : Int := long (s.mCumulativeRx + s.mReceivedBytes)

def getSentBytes (s : Svc) : Int := long (s.mCumulativeTx + s.mSentBytes)

def getState (s : Svc) : StateBundle where
  running := s.mRunning
  tunnelUp := s.mTunnelUp
  verified := s.mProxyVerified
  connected := s.mRunning && s.mTunnelUp && s.mProxyVerified
  connectedSince := s.mConnectedSince
  ip := s.mCurrentIp.getD []
  countryCode := s.mCountryCode.getD []
  country := s.geo IpInfo.country
  region := s.geo IpInfo.regionName
  city := s.geo IpInfo.city
  isp := s.geo IpInfo.isp
  org := s.geo IpInfo.org
  asName := s.geo IpInfo.asName
  timezone := s.geo IpInfo.timezone
  error := s.mError.getD []
  received := s.getReceivedBytes
  sent := s.getSentBytes
  profile := s.mProfileName.getD []

end Svc

/-- The bundle of a service that is not running. -/
def StateBundle.idle (error : Str) : StateBundle :=
  { running := false, tunnelUp := false, verified := false, connected := false, connectedSince := 0, ip := [],
    countryCode := [], country := [], region := [], city := [], isp := [], org := [], asName := [], timezone := [],
    error := error, received := 0, sent := 0, profile := [] }

/-- What is published is about a tunnel that is up. -/
structure Honest (s : Svc) : Prop where
  shown : s.mCurrentIp.getD [] ≠ [] ∨ s.mCountryCode.getD [] ≠ [] ∨ s.mProxyVerified = true ∨ s.mConnectedSince ≠ 0 →
    s.mRunning = true ∧ s.mTunnelUp = true
  up : s.mTunnelUp = true → s.mRunning = true
  idle : s.mRunning = false → s.getState = .idle (s.mError.getD [])

/-! ## The invariant -/

/-- The fields that a stop resets and tunnel-up allows. -/
structure Face where
  currentIp : Option Str
  countryCode : Option Str
  ipInfo : Option IpInfo
  connectedSince : Int
  proxyVerified : Bool

def Svc.face (s : Svc) : Face := ⟨s.mCurrentIp, s.mCountryCode, s.mIpInfo, s.mConnectedSince, s.mProxyVerified⟩

def Face.blank : Face := ⟨none, none, none, 0, false⟩

/-- The session's counters. -/
def Svc.moved (s : Svc) : Int × Int × Int × Int := (s.mCumulativeRx, s.mReceivedBytes, s.mCumulativeTx, s.mSentBytes)

/-- While no tunnel is up the face is blank and no tick is due. -/
structure Blank (s : Svc) : Prop where
  idle : s.mRunning = false → s.mProfileName = none ∧ s.mTunnelUp = false
  down : s.mTunnelUp = false → s.face = .blank ∧ s.moved = (0, 0, 0, 0) ∧ s.mStatsHandler = []

namespace Blank

variable {s s' : Svc}

theorem honest (h : Blank s) : Honest s := by
  have hup : s.mTunnelUp = true → s.mRunning = true := by
    intro hup
    by_contra hidle
    rw [(h.idle (Bool.not_eq_true _ ▸ hidle)).2] at hup
    cases hup
  constructor
  · intro hshown
    cases htunnel : s.mTunnelUp with
    | true => exact ⟨hup htunnel, rfl⟩
    | false =>
      have hface := (h.down htunnel).1
      have hip : s.mCurrentIp = none := congrArg Face.currentIp hface
      have hcountry : s.mCountryCode = none := congrArg Face.countryCode hface
      have hsince : s.mConnectedSince = 0 := congrArg Face.connectedSince hface
      have hverified : s.mProxyVerified = false := congrArg Face.proxyVerified hface
      rw [hip, hcountry, hsince, hverified] at hshown
      obtain h | h | h | h := hshown
      · exact absurd rfl h
      · exact absurd rfl h
      · cases h
      · exact absurd rfl h
  · exact hup
  · intro hidle
    obtain ⟨hname, htunnel⟩ := h.idle hidle
    obtain ⟨hface, hmoved, _⟩ := h.down htunnel
    have hip : s.mCurrentIp = none := congrArg Face.currentIp hface
    have hcountry : s.mCountryCode = none := congrArg Face.countryCode hface
    have hinfo : s.mIpInfo = none := congrArg Face.ipInfo hface
    have hsince : s.mConnectedSince = 0 := congrArg Face.connectedSince hface
    have hverified : s.mProxyVerified = false := congrArg Face.proxyVerified hface
    obtain ⟨hcumRx, hrest⟩ := Prod.mk.inj hmoved
    obtain ⟨hrx, hrest⟩ := Prod.mk.inj hrest
    obtain ⟨hcumTx, htx⟩ := Prod.mk.inj hrest
    simp only [Svc.getState, Svc.geo, Svc.getReceivedBytes, Svc.getSentBytes, hidle, hname, htunnel, hip, hcountry,
      hinfo, hsince, hverified, hcumRx, hrx, hcumTx, htx]
    rfl

/-- A step away from these fields. -/
theorem quiet (h : Blank s) (control : s'.toControl = s.toControl) (profile : s'.mProfileName = s.mProfileName)
    (face : s'.face = s.face) (moved : s'.moved = s.moved) (ticks : s'.mStatsHandler = s.mStatsHandler) : Blank s' := by
  constructor
  · rw [control, profile]
    exact h.idle
  · rw [control, face, moved, ticks]
    exact h.down

/-- While the tunnel is up anything may be published. -/
theorem while_up (hup : s.mTunnelUp = true) (hrun : s.mRunning = true) : Blank s := by
  constructor
  · intro hidle
    rw [hrun] at hidle
    cases hidle
  · intro hdown
    rw [hup] at hdown
    cases hdown

theorem running_of_up (h : Blank s) (hup : s.mTunnelUp = true) : s.mRunning = true := h.honest.up hup

theorem teardown (s : Svc) (reason : StopReason) (origin : Option Nat) : Blank (s.teardown reason origin) :=
  ⟨fun _ => ⟨rfl, rfl⟩, fun _ => ⟨rfl, rfl, rfl⟩⟩

theorem stopMe (h : Blank s) (reason : StopReason) (origin : Option Nat) : Blank (s.stopMe reason origin) := by
  cases s.stopMe_cases reason origin with
  | inl hsame =>
    rw [hsame.2]
    exact h
  | inr hdown =>
    rw [hdown]
    exact teardown s reason origin

/-- What only reports leaves a tunnel up. -/
theorem reports_up (h : Blank s) (hup : s.mTunnelUp = true) (hr : Reports s s') : Blank s' := by
  apply while_up
  · rw [hr.control]
    exact hup
  · rw [hr.control]
    exact h.running_of_up hup

/-! ## Steps -/

theorem onStart (h : Blank s) (place : Nat) (extras : Option VpnIntent) (saved : Option ProfileValues)
    (established : Established) : Blank (s.onStart place extras saved established) := by
  obtain he | ⟨hidle, cmd, _, ⟨_, reason, he⟩ | ⟨n, _, he⟩⟩ := s.onStart_cases place extras saved established
  · rw [he]
    exact h
  · rw [he]
    exact teardown _ reason none
  · rw [he]
    have hdown := (h.idle hidle).2
    constructor
    · exact fun hi => Bool.noConfusion hi
    · exact fun _ => h.down hdown

theorem deliver (h : Blank s) {saved : Option ProfileValues} {established : Established}
    (hs : s.deliver saved established = some s') : Blank s' := by
  obtain ⟨place, queue, ⟨_, rfl⟩ | ⟨extras, _, rfl⟩⟩ := Svc.deliver_cases hs
  · have hpopped : Blank { s with queue := queue, handledStops := s.handledStops ++ [place] } := h.quiet rfl rfl rfl rfl rfl
    exact hpopped.stopMe _ _
  · have hpopped : Blank { s with queue := queue } := h.quiet rfl rfl rfl rfl rfl
    exact hpopped.onStart place extras saved established

/-- An answer that comes while no tunnel is up is buffered, or asks again. -/
theorem probeDone_down (hdown : s.mTunnelUp = false) (p : Probe) (answer : Answer) :
    (s.probeDone p answer).toControl = s.toControl ∧ (s.probeDone p answer).mProfileName = s.mProfileName ∧
      (s.probeDone p answer).face = s.face ∧ (s.probeDone p answer).moved = s.moved ∧
      (s.probeDone p answer).mStatsHandler = s.mStatsHandler := by
  have hno : (!s.mTunnelUp) = true := by rw [hdown, Bool.not_false]
  unfold Svc.probeDone
  cases answer with
  | info i =>
    simp only [hno, if_true]
    exact ⟨rfl, rfl, rfl, rfl, rfl⟩
  | handshake probe =>
    simp only [hno, if_true]
    exact ⟨rfl, rfl, rfl, rfl, rfl⟩
  | exception => exact ⟨rfl, rfl, rfl, rfl, rfl⟩

theorem probeDone (h : Blank s) (p : Probe) (answer : Answer) : Blank (s.probeDone p answer) := by
  cases hup : s.mTunnelUp with
  | false =>
    obtain ⟨control, profile, face, moved, ticks⟩ := probeDone_down hup p answer
    exact h.quiet control profile face moved ticks
  | true =>
    obtain hr | ⟨t, _, _, he⟩ := Svc.probeDone_cases s p answer
    · exact h.reports_up hup hr
    · rw [he]
      exact teardown t _ _

theorem task (h : Blank s) {i : Nat} {usage : Option (Int × Int)} (hs : s.task i usage = some s') : Blank s' := by
  obtain ⟨t, tasks, _, _, hcases⟩ := Svc.task_cases hs
  have hpopped : Blank { s with mMainHandler := tasks } := h.quiet rfl rfl rfl rfl rfl
  obtain ⟨g, reason, _, rfl⟩ | ⟨g, _, rfl⟩ | ⟨g, _, _, hrun, rfl⟩ | ⟨p, answer, _, rfl⟩ := hcases
  · exact hpopped.stopMe reason _
  · exact hpopped
  · have hr := Svc.postStartOnMain_reports (s := { s with mMainHandler := tasks }) g usage hrun
    apply while_up
    · rw [hr.control]
      rfl
    · rw [hr.control]
      exact hrun
  · exact hpopped.probeDone p answer

/-- A tick is due only while the tunnel is up. -/
theorem stats (h : Blank s) {i : Nat} {usage : Option (Int × Int)} (hs : s.stats i usage = some s') : Blank s' := by
  have hup : s.mTunnelUp = true := by
    obtain ⟨due, hdue, _⟩ := Option.bind_eq_some_iff.mp hs
    by_contra hdown
    rw [(h.down (Bool.not_eq_true _ ▸ hdown)).2.2] at hdue
    cases hdue
  obtain ⟨l, rfl⟩ := Svc.stats_some hs
  exact while_up hup (h.running_of_up hup)

theorem screenOn (h : Blank s) (hs : s.screenOn = some s') : Blank s' := by
  unfold Svc.screenOn at hs
  split at hs
  · obtain rfl := Option.some.inj hs
    split
    · exact h.quiet rfl rfl rfl rfl rfl
    · exact h
  · cases hs

theorem ipCheck (h : Blank s) {i : Nat} (hs : s.ipCheck i = some s') : Blank s' := by
  obtain ⟨due, _, hs⟩ := Option.bind_eq_some_iff.mp hs
  split at hs
  · obtain rfl := Option.some.inj hs
    unfold Svc.runIpCheck
    split
    · exact h.quiet rfl rfl rfl rfl rfl
    · split
      · exact h.quiet rfl rfl rfl rfl rfl
      · split
        · exact h.quiet rfl rfl rfl rfl rfl
        · exact h.quiet rfl rfl rfl rfl rfl
  · cases hs

theorem change (h : Blank s) {c : Change} (hs : s.change c = some s') : Blank s' := by
  cases c with
  | setting key value =>
    have hs : (if key ∈ settingKeys then some { s with prefs := Function.update s.prefs key (some value) } else none) =
      some s' := hs
    split at hs
    · obtain rfl := Option.some.inj hs
      exact h.quiet rfl rfl rfl rfl rfl
    · cases hs
  | openPidFile pid | daemonize pid | writePid pid =>
    obtain ⟨procs, file, opened, rfl⟩ := Svc.pdnsd_some rfl hs
    exact h.quiet rfl rfl rfl rfl rfl
  | _ =>
    obtain rfl := Option.some.inj hs
    exact h.quiet rfl rfl rfl rfl rfl

theorem step (h : Blank s) {a : Act} (hs : Svc.step s a = some s') : Blank s' := by
  cases a with
  | deliver saved established => exact h.deliver hs
  | external reason =>
    obtain ⟨d, rfl⟩ := Svc.external_some hs
    exact (h.stopMe reason none).quiet rfl rfl rfl rfl rfl
  | task i usage => exact h.task hs
  | stats i usage => exact h.stats hs
  | screenOn => exact h.screenOn hs
  | ipCheck i => exact h.ipCheck hs
  | change c => exact h.change hs
  | sendStart extras =>
    obtain rfl := Option.some.inj hs
    exact h.quiet rfl rfl rfl rfl rfl
  | sendStop =>
    obtain rfl := Option.some.inj hs
    exact h.quiet rfl rfl rfl rfl rfl
  | probeBegin =>
    obtain ⟨p, choice, rest, _, rfl⟩ := Svc.probeBegin_some hs
    exact h.quiet rfl rfl rfl rfl rfl
  | probeEnd answer =>
    obtain ⟨p, choice, rest, _, rfl⟩ := Svc.probeEnd_some hs
    exact h.quiet rfl rfl rfl rfl rfl
  | thread i reply =>
    obtain ⟨t, p, _, _, rfl⟩ := Svc.stepThread_some hs
    exact h.quiet rfl rfl rfl rfl rfl
  | dns i reply =>
    obtain ⟨t, p, _, _, rfl⟩ := Svc.stepDns_some hs
    exact h.quiet rfl rfl rfl rfl rfl
  | monitor i =>
    obtain ⟨m, p, code, _, _, _, rfl⟩ := Svc.stepMonitor_some hs
    exact h.quiet rfl rfl rfl rfl rfl

theorem reachable (h : Reachable system s) : Blank s := by
  apply Reaches.invariant (P := Blank) _ _ h
  · intro s hs
    obtain ⟨w, accelDns, _, rfl⟩ := hs
    exact ⟨fun _ => ⟨rfl, rfl⟩, fun _ => ⟨rfl, rfl, rfl⟩⟩
  · exact fun _ _ _ hs _ hstep => hs.step hstep

end Blank

/-- **What is published is about a tunnel that is up**, in every reachable state. -/
theorem published_honest {s : Svc} (h : Reachable system s) : Honest s := (Blank.reachable h).honest

/-- A tunnel comes up, shows an exit address, and is stopped. -/
theorem published_honest_stopped : ∃ s s' : Svc, s.mCurrentIp = some "1.2.3.4".toList ∧ s'.mRunning = false ∧
    Honest s ∧ Honest s' := by
  have hrun : ((exec system (Svc.created phone none)
      ([.sendStart (some (startOf "Work".toList "10.0.0.2".toList)), .deliver none (.fd 3)] ++
        bringUp 0 "10.0.0.2".toList ++
        [.task 0 none, .ipCheck 0, .probeBegin,
         .probeEnd (.info ⟨"1.2.3.4".toList, "DE".toList, [], [], [], [], [], [], []⟩), .task 0 none])).bind fun s =>
      (exec system s [.external .binderStop]).map fun s' => (s.mCurrentIp, s'.mRunning)) =
      some (some "1.2.3.4".toList, false) := by
    decide +kernel
  obtain ⟨s, hs, hrest⟩ := Option.bind_eq_some_iff.mp hrun
  obtain ⟨s', hs', hpair⟩ := Option.map_eq_some_iff.mp hrest
  obtain ⟨hip, hstopped⟩ := Prod.mk.inj hpair
  have hreach : Reachable system s := exec_reaches _ (created_reachable rfl none) hs
  exact ⟨s, s', hip, hstopped, published_honest hreach, published_honest (exec_reaches _ hreach hs')⟩

end KiloProxy.Vpn
