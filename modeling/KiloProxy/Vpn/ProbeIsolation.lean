import KiloProxy.Vpn.Turns

/-!
# Answers of ip checks and the sessions they are credited to

An ip check outlives the session that launched it, and its completion does not look at
the connect counter: its answer lands in whatever session runs by then, or is buffered
for the next. A resolver that finishes late likewise leaves its address to a later
session. When no stop goes through while a check is out, and no lookup ends after its
session, every landed answer was obtained by the session it is credited to, with that
session's own proxy and credentials.
-/

namespace KiloProxy.Vpn
set_option autoImplicit false
open KiloProxy.Text KiloProxy.Util KiloProxy.Service KiloProxy.Run

/-- The completion of a check that has something to tell; an exception has not. -/
def Task.tells : Task → Bool
  | .probeDone _ .exception => false
  | .probeDone _ _ => true
  | _ => false

namespace Svc

/-- The service runs, and no stop has gone through since the connect counter was `seq`. -/
def unmoved (s : Svc) (seq : Nat) : Bool := s.mRunning && seq = s.mConnectSeq

/-- The answer changes what is reported, buffered or counted. -/
def takesEffect (s : Svc) : Answer → Bool
  | .info _ => true
  | .handshake probe => s.mTunnelUp && (probe = .ok || !s.mAccel || s.mAccelProbe)
  | .exception => false

/-- The closures that stay posted while the step runs. -/
def waiting (s : Svc) : Act → List Task
  | .task i _ => s.mMainHandler.eraseIdx i
  | _ => s.mMainHandler

/-- No check is on the executor, and none waits to tell its answer. -/
def NoCheckOut (s : Svc) (a : Act) : Prop := s.mIpCheckExecutor = [] ∧ ∀ t ∈ s.waiting a, t.tells = false

/-- An address is stored while its session runs. -/
def ResolvesOwn (s : Svc) : Act → Prop
  | .thread i _ => ∀ t ∈ s.startThreads[i]?, t.pc = .lookup → s.unmoved t.session.connectSeq = true
  | .dns i _ => ∀ t ∈ s.dnsThreads[i]?, t.pc ∉ [.reading, .resolving, .storing none, .done] →
      s.unmoved t.session.connectSeq = true
  | _ => True

/-- No stop goes through while a check is out, and no lookup ends after its session. -/
def Timely (s : Svc) (a : Act) : Prop := (s.stops a = true → s.NoCheckOut a) ∧ s.ResolvesOwn a

instance (s : Svc) (a : Act) : Decidable (s.NoCheckOut a) :=
  inferInstanceAs (Decidable (s.mIpCheckExecutor = [] ∧ ∀ t ∈ s.waiting a, t.tells = false))

instance (s : Svc) (a : Act) : Decidable (s.ResolvesOwn a) :=
  match a with
  | .thread i _ => inferInstanceAs (Decidable (∀ t ∈ s.startThreads[i]?,
      t.pc = .lookup → s.unmoved t.session.connectSeq = true))
  | .dns i _ => inferInstanceAs (Decidable (∀ t ∈ s.dnsThreads[i]?,
      t.pc ∉ [.reading, .resolving, .storing none, .done] → s.unmoved t.session.connectSeq = true))
  | .deliver _ _ | .sendStart _ | .sendStop | .external _ | .screenOn | .task _ _ | .stats _ _ | .ipCheck _
  | .probeBegin | .probeEnd _ | .monitor _ | .change _ => inferInstanceAs (Decidable True)

instance (s : Svc) (a : Act) : Decidable (s.Timely a) :=
  inferInstanceAs (Decidable ((s.stops a = true → s.NoCheckOut a) ∧ s.ResolvesOwn a))

/-- The probe was launched in a session with that session's own values: its server, or
an address that a resolver of the session stored. -/
def LaunchedBy (s : Svc) (p : Probe) (g : Session) : Prop :=
  g ∈ s.started ∧ g.connectSeq = p.session ∧ p.port = g.port ∧ p.username = g.user ∧ p.password = g.passwd ∧
    (p.server = g.server ∨ ⟨g, p.server⟩ ∈ s.resolutions)

end Svc

/-- What is out, or waits to be told, is the running session's. -/
structure InTime (s : Svc) : Prop where
  checks : ∀ c ∈ s.mIpCheckExecutor, s.unmoved c.probe.session = true
  answers : ∀ p answer, Task.probeDone p answer ∈ s.mMainHandler → (Task.probeDone p answer).tells = true →
    s.unmoved p.session = true

/-- Every thread's session was started, counters tell sessions apart, and every probe
around or landed goes back to one of them. -/
structure Provenance (s : Svc) : Prop where
  owned : ∀ t ∈ s.startThreads, t.session ∈ s.started
  dns : ∀ t ∈ s.dnsThreads, t.session ∈ s.started
  bound : ∀ g ∈ s.started, g.connectSeq ≤ s.mConnectSeq
  unique : ∀ g ∈ s.started, ∀ g' ∈ s.started, g.connectSeq = g'.connectSeq → g = g'
  checks : ∀ c ∈ s.mIpCheckExecutor, ∃ g, s.LaunchedBy c.probe g
  tasks : ∀ p answer, Task.probeDone p answer ∈ s.mMainHandler → ∃ g, s.LaunchedBy p g
  landed : ∀ l ∈ s.landed, l.session = l.probe.session ∧ ∃ g, s.LaunchedBy l.probe g

/-- Over that, what a running session has resolved and buffered is its own. -/
structure Isolated (s : Svc) : Prop extends Provenance s where
  resolved : ∀ a ∈ s.mResolvedServer, s.mRunning = true ∧
    ∃ g ∈ s.started, g.connectSeq = s.mConnectSeq ∧ ⟨g, some a⟩ ∈ s.resolutions
  buffered : ∀ x ∈ s.mPendingIpInfo, s.mRunning = true ∧ x.2.session = s.mConnectSeq ∧ ∃ g, s.LaunchedBy x.2 g
  current : s.mRunning = true → ∃ g ∈ s.started, g.connectSeq = s.mConnectSeq ∧ s.mServer = g.server ∧
    s.mPort = g.port ∧ s.mUsername = g.user ∧ s.mPassword = g.passwd

namespace Svc

variable {s s' : Svc}

/-- More sessions and more resolutions keep a launch. -/
theorem LaunchedBy.grow {p : Probe} {g : Session} (h : s.LaunchedBy p g) (started : ∀ g ∈ s.started, g ∈ s'.started)
    (resolutions : ∀ r ∈ s.resolutions, r ∈ s'.resolutions) : s'.LaunchedBy p g := by
  obtain ⟨hg, hseq, hport, huser, hpass, hserver⟩ := h
  exact ⟨started g hg, hseq, hport, huser, hpass, hserver.imp id (resolutions _)⟩

end Svc

/-! ## The checks that are out -/

namespace Svc

variable {s s' : Svc}

/-- A closure that runs leaves the others, and the checks. -/
theorem runTask_keeps (s : Svc) (t : Task) (usage : Option (Int × Int)) :
    (s.runTask t usage).mIpCheckExecutor = s.mIpCheckExecutor ∧ (s.runTask t usage).mMainHandler = s.mMainHandler := by
  cases t with
  | stop g reason =>
    show (s.stopMe reason _).mIpCheckExecutor = _ ∧ (s.stopMe reason _).mMainHandler = _
    obtain ⟨_, hsame⟩ | hdown := s.stopMe_cases reason (some g.connectSeq)
    · rw [hsame]
      exact ⟨rfl, rfl⟩
    · rw [hdown]
      exact ⟨rfl, rfl⟩
  | tunnelUp g =>
    unfold runTask
    simp only
    split
    · exact ⟨rfl, rfl⟩
    · rename_i hfresh
      have hup := postStartOnMain_reports g usage (fresh hfresh).2
      exact ⟨hup.checks, hup.tasks⟩
  | probeDone p answer =>
    show (s.probeDone p answer).mIpCheckExecutor = _ ∧ (s.probeDone p answer).mMainHandler = _
    obtain hr | ⟨t, hr, _, hdown⟩ := s.probeDone_cases p answer
    · exact ⟨hr.checks, hr.tasks⟩
    · rw [hdown]
      exact ⟨hr.checks, hr.tasks⟩

/-- A stop from outside leaves the posted closures and the checks. -/
theorem stopMe_keeps (s : Svc) (reason : StopReason) (origin : Option Nat) :
    (s.stopMe reason origin).mIpCheckExecutor = s.mIpCheckExecutor ∧
      (s.stopMe reason origin).mMainHandler = s.mMainHandler := by
  obtain ⟨_, hsame⟩ | hdown := s.stopMe_cases reason origin
  · rw [hsame]
    exact ⟨rfl, rfl⟩
  · rw [hdown]
    exact ⟨rfl, rfl⟩

end Svc

/-- Checks and answers over the step `a`: a check is launched by a callback only, and an
answer is told by a check that was out. -/
structure Passed (s : Svc) (a : Act) (s' : Svc) : Prop where
  checks : ∀ c ∈ s'.mIpCheckExecutor, (∃ b ∈ s.mIpCheckExecutor, b.probe = c.probe) ∨
    s.stops a = false ∧ s.unmoved c.probe.session = true
  answers : ∀ p answer, Task.probeDone p answer ∈ s'.mMainHandler →
    Task.probeDone p answer ∈ s.waiting a ∨ ∃ b ∈ s.mIpCheckExecutor, b.probe = p

namespace Passed

variable {s s' : Svc} {a : Act}

/-- Nothing is launched and nothing answered. -/
theorem keep (checks : s'.mIpCheckExecutor = s.mIpCheckExecutor) (tasks : s'.mMainHandler = s.waiting a) :
    Passed s a s' := by
  constructor
  · rw [checks]
    exact fun c hc => .inl ⟨c, hc, rfl⟩
  · rw [tasks]
    exact fun _ _ => .inl

/-- What is posted is no answer. -/
theorem post (checks : s'.mIpCheckExecutor = s.mIpCheckExecutor)
    (tasks : ∀ p answer, Task.probeDone p answer ∈ s'.mMainHandler → Task.probeDone p answer ∈ s.waiting a) :
    Passed s a s' := by
  constructor
  · rw [checks]
    exact fun c hc => .inl ⟨c, hc, rfl⟩
  · exact fun p answer hp => .inl (tasks p answer hp)

/-- When no check was out, none is told under another session. -/
theorem silent (h : Passed s a s') (hnone : s.NoCheckOut a) (hmoves : s.stops a = true ∨ s.mRunning = false) :
    InTime s' := by
  constructor
  · intro c hc
    obtain ⟨b, hb, _⟩ | ⟨hstays, hrun⟩ := h.checks c hc
    · rw [hnone.1] at hb
      cases hb
    · unfold Svc.unmoved at hrun
      obtain hstops | hidle := hmoves
      · rw [hstops] at hstays
        cases hstays
      · rw [hidle] at hrun
        cases hrun
  · intro p answer hp htells
    obtain hwaits | ⟨b, hb, _⟩ := h.answers p answer hp
    · rw [hnone.2 _ hwaits] at htells
      cases htells
    · rw [hnone.1] at hb
      cases hb

end Passed

namespace Svc

variable {s s' : Svc} {a : Act}

theorem mem_of_waiting {t : Task} (h : t ∈ s.waiting a) : t ∈ s.mMainHandler := by
  cases a with
  | task i usage => exact List.mem_of_mem_eraseIdx h
  | _ => exact h

theorem deliver_passed {saved : Option ProfileValues} {established : Established}
    (hs : s.deliver saved established = some s') : Passed s (.deliver saved established) s' := by
  obtain ⟨place, queue, ⟨_, rfl⟩ | ⟨extras, _, rfl⟩⟩ := deliver_cases hs
  · obtain ⟨hchecks, htasks⟩ :=
      stopMe_keeps { s with queue := queue, handledStops := s.handledStops ++ [place] } .stopAction none
    exact .keep hchecks htasks
  · obtain he | ⟨_, cmd, _, ⟨_, reason, he⟩ | ⟨n, _, he⟩⟩ :=
      Svc.onStart_cases { s with queue := queue } place extras saved established
    · rw [he]
      exact .keep rfl rfl
    · rw [he]
      exact .keep rfl rfl
    · rw [he]
      exact .keep rfl rfl

/-- The step of every action passes checks and answers on. -/
theorem step_passed (hs : Svc.step s a = some s') : Passed s a s' := by
  cases a with
  | sendStart extras =>
    obtain rfl := Option.some.inj hs
    exact .keep rfl rfl
  | sendStop =>
    obtain rfl := Option.some.inj hs
    exact .keep rfl rfl
  | deliver saved established => exact deliver_passed hs
  | external reason =>
    obtain ⟨d, rfl⟩ := external_some hs
    obtain ⟨hchecks, htasks⟩ := s.stopMe_keeps reason none
    exact .keep hchecks htasks
  | screenOn => exact .keep (screenOn_quiet hs).checks (screenOn_quiet hs).tasks
  | task i usage =>
    obtain ⟨t, _, rfl⟩ := Option.map_eq_some_iff.mp hs
    obtain ⟨hchecks, htasks⟩ := runTask_keeps { s with mMainHandler := s.mMainHandler.eraseIdx i } t usage
    exact .keep hchecks htasks
  | stats i usage =>
    obtain ⟨l, rfl⟩ := stats_some hs
    exact .keep rfl rfl
  | ipCheck i =>
    obtain hquiet | ⟨hrun, l, rfl⟩ := ipCheck_cases hs
    · exact .keep hquiet.checks hquiet.tasks
    · refine ⟨fun c hc => ?_, fun _ _ => .inl⟩
      obtain hold | hnew := List.mem_append.mp hc
      · exact .inl ⟨c, hold, rfl⟩
      · obtain rfl := List.mem_singleton.mp hnew
        refine .inr ⟨rfl, ?_⟩
        rw [unmoved, hrun, Bool.true_and]
        exact decide_eq_true rfl
  | probeBegin =>
    obtain ⟨p, choice, rest, he, rfl⟩ := probeBegin_some hs
    refine ⟨fun c hc => .inl ?_, fun _ _ => .inl⟩
    rw [he]
    obtain rfl | hrest := List.mem_cons.mp hc
    · exact ⟨⟨p, none⟩, List.mem_cons_self, rfl⟩
    · exact ⟨c, List.mem_cons_of_mem _ hrest, rfl⟩
  | probeEnd told =>
    obtain ⟨p, choice, rest, he, rfl⟩ := probeEnd_some hs
    constructor
    · rw [he]
      exact fun c hc => .inl ⟨c, List.mem_cons_of_mem _ hc, rfl⟩
    · intro q answer hq
      obtain hold | hnew := List.mem_append.mp hq
      · exact .inl hold
      · cases List.mem_singleton.mp hnew
        rw [he]
        exact .inr ⟨_, List.mem_cons_self, rfl⟩
  | thread i reply =>
    obtain ⟨t, p, _, _, rfl⟩ := stepThread_some hs
    refine .post rfl fun q answer hq => ?_
    obtain hold | hnew := List.mem_append.mp hq
    · exact hold
    · obtain ⟨post, _, hpost⟩ := Option.map_eq_some_iff.mp (Option.mem_toList.mp hnew)
      cases post <;> cases hpost
  | dns i reply =>
    obtain ⟨t, p, _, _, rfl⟩ := stepDns_some hs
    exact .keep rfl rfl
  | monitor i =>
    obtain ⟨m, p, code, _, _, _, rfl⟩ := stepMonitor_some hs
    refine .post rfl fun q answer hq => ?_
    replace hq : Task.probeDone q answer ∈ if _ then _ else _ := hq
    split at hq
    · obtain hold | hnew := List.mem_append.mp hq
      · exact hold
      · cases List.mem_singleton.mp hnew
    · exact hq
  | change c =>
    obtain hquiet | ⟨key, value, _, rfl⟩ := change_cases hs
    · exact .keep hquiet.checks hquiet.tasks
    · exact .keep rfl rfl

end Svc

namespace InTime

variable {s s' : Svc}

/-- While no session runs no check is out. -/
theorem idle (h : InTime s) (hidle : s.mRunning = false) (a : Act) : s.NoCheckOut a := by
  have hnot : ∀ seq, s.unmoved seq ≠ true := by
    intro seq
    rw [Svc.unmoved, hidle]
    exact Bool.false_ne_true
  constructor
  · exact List.eq_nil_iff_forall_not_mem.mpr fun c hc => hnot _ (h.checks c hc)
  · intro t ht
    cases t with
    | probeDone p answer =>
      by_contra htells
      exact hnot _ (h.answers p answer (Svc.mem_of_waiting ht) (Bool.not_eq_false _ ▸ htells))
    | _ => rfl

/-- **A timely step** leaves no check out for another session. -/
theorem step (h : InTime s) {a : Act} (hok : s.Timely a) (hs : Svc.step s a = some s') : InTime s' := by
  have hpassed := Svc.step_passed hs
  obtain ⟨hrunning, hseq⟩ | hstops | hidle := Svc.step_moves hs
  · have hsame : ∀ seq, s'.unmoved seq = s.unmoved seq := by
      intro seq
      unfold Svc.unmoved
      rw [hrunning, hseq]
    constructor
    · intro c hc
      rw [hsame]
      obtain ⟨b, hb, hprobe⟩ | ⟨_, hown⟩ := hpassed.checks c hc
      · rw [← hprobe]
        exact h.checks b hb
      · exact hown
    · intro p answer hp htells
      rw [hsame]
      obtain hwaits | ⟨b, hb, rfl⟩ := hpassed.answers p answer hp
      · exact h.answers p answer (Svc.mem_of_waiting hwaits) htells
      · exact h.checks b hb
  · exact hpassed.silent (hok.1 hstops) (.inl hstops)
  · exact hpassed.silent (h.idle hidle a) (.inr hidle)

end InTime

/-! ## The sessions the answers come from -/

namespace Provenance

variable {s s' : Svc}

/-- A step that starts nothing, launches nothing and lands only own answers. -/
theorem step (h : Provenance s) (seq : s.mConnectSeq ≤ s'.mConnectSeq) (started : s'.started = s.started)
    (resolutions : ∀ r ∈ s.resolutions, r ∈ s'.resolutions)
    (threads : ∀ t ∈ s'.startThreads, t.session ∈ s.started) (dns : ∀ t ∈ s'.dnsThreads, t.session ∈ s.started)
    (checks : ∀ c ∈ s'.mIpCheckExecutor, ∃ g, s.LaunchedBy c.probe g)
    (tasks : ∀ p answer, Task.probeDone p answer ∈ s'.mMainHandler → ∃ g, s.LaunchedBy p g)
    (landed : ∀ l ∈ s'.landed, l.session = l.probe.session ∧ ∃ g, s.LaunchedBy l.probe g) : Provenance s' := by
  have hgrow : ∀ {p}, (∃ g, s.LaunchedBy p g) → ∃ g, s'.LaunchedBy p g := fun ⟨g, hg⟩ =>
    ⟨g, hg.grow (by rw [started]; exact fun _ => id) resolutions⟩
  constructor
  · rw [started]
    exact threads
  · rw [started]
    exact dns
  · rw [started]
    exact fun g hg => (h.bound g hg).trans seq
  · rw [started]
    exact h.unique
  · exact fun c hc => hgrow (checks c hc)
  · exact fun p answer hp => hgrow (tasks p answer hp)
  · exact fun l hl => ⟨(landed l hl).1, hgrow (landed l hl).2⟩

/-- After a stop nothing is resolved or buffered. -/
theorem teardown (h : Provenance s) (reason : StopReason) (origin : Option Nat) :
    Isolated (s.teardown reason origin) where
  toProvenance := h.step (Nat.le_succ _) rfl (fun _ => id) h.owned h.dns h.checks h.tasks h.landed
  resolved a ha := by cases ha
  buffered x hx := by cases hx
  current hrun := (Bool.false_ne_true hrun).elim

end Provenance

namespace Svc

variable {s : Svc}

/-- An answer that takes effect lands in the session of the counter. -/
theorem probeDone_lands (p : Probe) {answer : Answer} (h : s.takesEffect answer = true) :
    ∃ e, (s.probeDone p answer).landed = s.landed ++ [⟨e, s.mConnectSeq, p⟩] := by
  unfold probeDone
  cases answer with
  | info i =>
    simp only
    split
    · exact ⟨.buffered, rfl⟩
    · exact ⟨.applied, rfl⟩
  | handshake probe =>
    unfold takesEffect at h
    rw [Bool.and_eq_true] at h
    simp only
    split
    · simp_all
    · split
      · exact ⟨.verified, rfl⟩
      · split
        · refine ⟨.counted, ?_⟩
          split
          · rcases stopMe_cases { { s with mProbeInFlight := false }.countFailure p with
              mError := some (probeError probe) } .proxyConnectFailed none with ⟨_, hsame⟩ | hdown
            · rw [hsame]
              rfl
            · rw [hdown]
              rfl
          · rfl
        · simp_all
  | exception => cases h

/-- Any other answer changes nothing that is published, buffered, saved or counted. -/
theorem probeDone_idle (p : Probe) {answer : Answer} (h : s.takesEffect answer = false) :
    (s.probeDone p answer).landed = s.landed ∧ (s.probeDone p answer).toPublished = s.toPublished ∧
      (s.probeDone p answer).accelIp = s.accelIp := by
  unfold probeDone
  cases answer with
  | info i => cases h
  | handshake probe =>
    unfold takesEffect at h
    simp only
    split
    · exact ⟨rfl, rfl, rfl⟩
    · split
      · simp_all
      · split
        · simp_all
        · exact ⟨rfl, rfl, rfl⟩
  | exception => exact ⟨rfl, rfl, rfl⟩

/-- What a completion buffers. -/
theorem probeDone_pending (p : Probe) (answer : Answer) :
    ∀ x ∈ (s.probeDone p answer).mPendingIpInfo, x ∈ s.mPendingIpInfo ∨ s.takesEffect answer = true ∧ x.2 = p := by
  unfold probeDone
  intro x hx
  cases answer with
  | info i =>
    simp only at hx
    split at hx
    · obtain rfl := Option.some.inj hx
      exact .inr ⟨rfl, rfl⟩
    · exact .inl hx
  | handshake probe =>
    left
    simp only at hx
    split at hx
    · exact hx
    · split at hx
      · exact hx
      · split at hx
        · split at hx
          · rcases stopMe_cases { { s with mProbeInFlight := false }.countFailure p with
              mError := some (probeError probe) } .proxyConnectFailed none with ⟨_, hsame⟩ | hdown
            · rw [hsame] at hx
              exact hx
            · rw [hdown] at hx
              cases hx
          · exact hx
        · exact hx
  | exception => exact .inl hx

theorem showCachedIp_keeps : s.showCachedIp.landed = s.landed ∧ s.showCachedIp.mPendingIpInfo = s.mPendingIpInfo := by
  unfold showCachedIp
  cases s.cachedIp with
  | none => exact ⟨rfl, rfl⟩
  | some info => exact ⟨rfl, rfl⟩

/-- What was buffered lands, and nothing stays buffered. -/
theorem surface_lands : s.surface.mPendingIpInfo = none ∧
    ∀ l ∈ s.surface.landed, l ∈ s.landed ∨ ∃ x ∈ s.mPendingIpInfo, l.session = s.mConnectSeq ∧ l.probe = x.2 := by
  unfold surface
  split
  · rename_i info p hp
    refine ⟨rfl, fun l hl => ?_⟩
    rcases List.mem_append.mp hl with hl | hl
    · exact .inl hl
    · rw [List.mem_singleton] at hl
      subst hl
      exact .inr ⟨(info, p), hp, rfl, rfl⟩
  · rename_i hnone
    exact ⟨hnone, fun l hl => .inl hl⟩

/-- `postStartOnMain` lands what was buffered. -/
theorem postStartOnMain_lands (g : Session) (usage : Option (Int × Int)) (hrun : s.mRunning = true) :
    (s.postStartOnMain g usage).mPendingIpInfo = none ∧ ∀ l ∈ (s.postStartOnMain g usage).landed, l ∈ s.landed ∨
      ∃ x ∈ s.mPendingIpInfo, l.session = s.mConnectSeq ∧ l.probe = x.2 := by
  obtain ⟨hnone, hlands⟩ := surface_lands (s := (s.tunnelUp g usage).showCachedIp)
  obtain ⟨hlanded, hpending⟩ := showCachedIp_keeps (s := s.tunnelUp g usage)
  have hseq := congrArg Control.mConnectSeq (showCachedIp_calm (s.tunnelUp g usage)).control
  rw [hlanded, hpending, hseq] at hlands
  unfold postStartOnMain
  rw [hrun]
  exact ⟨hnone, hlands⟩

end Svc

/-- Resolver state: the address, the record of writes, the resolver threads. -/
def Shared.resolver (e : Shared) : Option Str × List Resolution × List DnsThread :=
  (e.mResolvedServer, e.resolutions, e.dnsThreads)

/-- A step of a start thread stores an address only when it returns from the lookup, and
spawns a resolver thread of its own session only. -/
theorem StartThread.advance_resolver {s : Svc} {t : StartThread} {reply : Reply} {p : Progress}
    (h : t.advance s reply = some p) :
    p.shared.resolver = s.toShared.resolver ∨
    p.shared.resolver = (s.mResolvedServer, s.resolutions, s.dnsThreads ++ [⟨t.session, .reading⟩]) ∨
    t.pc = .lookup ∧ ∃ addr, p.shared.resolver = (addr, s.resolutions ++ [⟨t.session, addr⟩], s.dnsThreads) := by
  obtain ⟨g, pc⟩ := t
  unfold advance at h
  cases pc with
  | begin =>
    simp only at h
    split at h
    · cases h
      exact .inr (.inl rfl)
    · cases h
      exact .inl rfl
  | lookup =>
    simp only at h
    split at h
    · cases h
      exact .inr (.inr ⟨rfl, _, rfl⟩)
    · cases h
  | _ =>
    left
    simp only at h
    repeat' split at h
    all_goals first | cases h; rfl | cases h

/-- A step that only reports lands answers of probes that were launched. -/
theorem Provenance.reports {s s' : Svc} (h : Provenance s) (hr : Reports s s')
    (landed : ∀ l ∈ s'.landed, l.session = l.probe.session ∧ ∃ g, s.LaunchedBy l.probe g) : Provenance s' := by
  apply h.step _ hr.started _ _ _ _ _ landed
  · rw [hr.control]
  · rw [hr.resolutions]
    exact fun _ => id
  · rw [hr.startThreads]
    exact h.owned
  · rw [hr.dnsThreads]
    exact h.dns
  · rw [hr.checks]
    exact h.checks
  · rw [hr.tasks]
    exact h.tasks

namespace Isolated

variable {s s' : Svc}

/-- A step that only reports, and lands and buffers only own answers. -/
theorem reports (h : Isolated s) (hr : Reports s s')
    (landed : ∀ l ∈ s'.landed, l.session = l.probe.session ∧ ∃ g, s.LaunchedBy l.probe g)
    (buffered : ∀ x ∈ s'.mPendingIpInfo, s.mRunning = true ∧ x.2.session = s.mConnectSeq ∧
      ∃ g, s.LaunchedBy x.2 g) : Isolated s' := by
  refine ⟨h.toProvenance.reports hr landed, ?_, ?_, ?_⟩
  · rw [hr.resolved, hr.control, hr.started, hr.resolutions]
    exact h.resolved
  · intro x hx
    obtain ⟨hrun, hseq, g, hg⟩ := buffered x hx
    rw [hr.control]
    exact ⟨hrun, hseq, g, hg.grow (by rw [hr.started]; exact fun _ => id) (by rw [hr.resolutions]; exact fun _ => id)⟩
  · rw [hr.control, hr.config, hr.started]
    exact h.current

theorem quiet (h : Isolated s) (hq : Quiet s s') : Isolated s' := by
  apply h.reports hq.toReports
  · rw [hq.landed]
    exact h.landed
  · rw [hq.pending]
    exact h.buffered

theorem stopMe (h : Isolated s) (reason : StopReason) (origin : Option Nat) :
    Isolated (s.stopMe reason origin) := by
  rcases s.stopMe_cases reason origin with ⟨_, hsame⟩ | hdown
  · rw [hsame]
    exact h
  · rw [hdown]
    exact h.toProvenance.teardown reason origin

theorem accept (h : Isolated s) (place : Nat) (cmd : VpnIntent) : Provenance (s.accept place cmd) :=
  h.toProvenance.step (Nat.le_succ _) rfl (fun _ => id) h.owned h.dns h.checks h.tasks h.landed

/-- A session starts with nothing resolved and nothing buffered. -/
theorem start (h : Isolated s) (hidle : s.mRunning = false) (place n : Nat) (cmd : VpnIntent) :
    Isolated ((s.accept place cmd).start ((s.accept place cmd).session place n cmd)) := by
  have haccept := h.accept place cmd
  have hnew : ∀ g ∈ s.started, g.connectSeq < s.mConnectSeq + 1 := fun g hg => Nat.lt_succ_of_le (h.bound g hg)
  have hgrow : ∀ {p g}, (s.accept place cmd).LaunchedBy p g →
      ((s.accept place cmd).start ((s.accept place cmd).session place n cmd)).LaunchedBy p g := fun hg =>
    hg.grow (fun _ hmem => List.mem_append_left _ hmem) (fun _ => id)
  refine ⟨⟨?_, ?_, ?_, ?_, ?_, ?_, ?_⟩, ?_, ?_, ?_⟩
  · intro t ht
    rcases List.mem_append.mp ht with ht | ht
    · exact List.mem_append_left _ (h.owned t ht)
    · rw [List.mem_singleton] at ht
      subst ht
      exact List.mem_append_right _ (List.mem_singleton_self _)
  · intro t ht
    exact List.mem_append_left _ (h.dns t ht)
  · intro g hg
    rcases List.mem_append.mp hg with hg | hg
    · exact (hnew g hg).le
    · rw [List.mem_singleton] at hg
      subst hg
      exact le_rfl
  · intro g hg g' hg' hseq
    rcases List.mem_append.mp hg with hg | hg <;> rcases List.mem_append.mp hg' with hg' | hg'
    · exact h.unique g hg g' hg' hseq
    · rw [List.mem_singleton] at hg'
      subst hg'
      exact absurd hseq (hnew g hg).ne
    · rw [List.mem_singleton] at hg
      subst hg
      exact absurd hseq.symm (hnew g' hg').ne
    · rw [List.mem_singleton] at hg hg'
      rw [hg, hg']
  · intro c hc
    obtain ⟨g, hg⟩ := haccept.checks c hc
    exact ⟨g, hgrow hg⟩
  · intro p answer hp
    obtain ⟨g, hg⟩ := haccept.tasks p answer hp
    exact ⟨g, hgrow hg⟩
  · intro l hl
    obtain ⟨hseq, g, hg⟩ := haccept.landed l hl
    exact ⟨hseq, g, hgrow hg⟩
  · intro a ha
    have hrun := (h.resolved a ha).1
    rw [hidle] at hrun
    cases hrun
  · intro x hx
    have hrun := (h.buffered x hx).1
    rw [hidle] at hrun
    cases hrun
  · intro _
    exact ⟨_, List.mem_append_right _ (List.mem_singleton_self _), rfl, rfl, rfl, rfl, rfl⟩

theorem onStart (h : Isolated s) (place : Nat) (extras : Option VpnIntent) (saved : Option ProfileValues)
    (established : Established) : Isolated (s.onStart place extras saved established) := by
  rcases s.onStart_cases place extras saved established with he | ⟨hidle, cmd, _, ⟨_, reason, he⟩ | ⟨n, _, he⟩⟩
  · rw [he]
    exact h
  · rw [he]
    exact (h.accept place cmd).teardown reason none
  · rw [he]
    exact h.start hidle place n cmd

theorem deliver (h : Isolated s) {saved : Option ProfileValues} {established : Established}
    (hs : s.deliver saved established = some s') : Isolated s' := by
  obtain ⟨place, queue, ⟨_, rfl⟩ | ⟨extras, _, rfl⟩⟩ := Svc.deliver_cases hs
  · have hpopped : Isolated { s with queue := queue, handledStops := s.handledStops ++ [place] } :=
      ⟨⟨h.owned, h.dns, h.bound, h.unique, h.checks, h.tasks, h.landed⟩, h.resolved, h.buffered, h.current⟩
    exact hpopped.stopMe _ _
  · have hpopped : Isolated { s with queue := queue } :=
      ⟨⟨h.owned, h.dns, h.bound, h.unique, h.checks, h.tasks, h.landed⟩, h.resolved, h.buffered, h.current⟩
    exact hpopped.onStart _ _ _ _

/-- A completion whose answer takes effect in its own session only. -/
theorem probeDone (h : Isolated s) {p : Probe} {answer : Answer} (hp : ∃ g, s.LaunchedBy p g)
    (hok : s.takesEffect answer = true → s.unmoved p.session = true) : Isolated (s.probeDone p answer) := by
  have hown : s.takesEffect answer = true → s.mRunning = true ∧ p.session = s.mConnectSeq := fun he => by
    have hstill := hok he
    unfold Svc.unmoved at hstill
    simpa using hstill
  have hlanded : ∀ l ∈ (s.probeDone p answer).landed, l.session = l.probe.session ∧ ∃ g, s.LaunchedBy l.probe g := by
    intro l hl
    cases he : s.takesEffect answer with
    | false =>
      rw [(Svc.probeDone_idle p he).1] at hl
      exact h.landed l hl
    | true =>
      obtain ⟨e, hnew⟩ := Svc.probeDone_lands p he
      rw [hnew, List.mem_append, List.mem_singleton] at hl
      rcases hl with hl | rfl
      · exact h.landed l hl
      · exact ⟨(hown he).2.symm, hp⟩
  rcases Svc.probeDone_cases s p answer with hr | ⟨t, hr, _, hdown⟩
  · apply h.reports hr hlanded
    intro x hx
    rcases Svc.probeDone_pending p answer x hx with hold | ⟨he, rfl⟩
    · exact h.buffered x hold
    · exact ⟨(hown he).1, (hown he).2, hp⟩
  · rw [hdown] at hlanded ⊢
    exact (h.toProvenance.reports hr hlanded).teardown _ _

/-- What was buffered is the session's own, so it may land. -/
theorem postStartOnMain (h : Isolated s) (g : Session) (usage : Option (Int × Int)) (hrun : s.mRunning = true) :
    Isolated (s.postStartOnMain g usage) := by
  obtain ⟨hnone, hlands⟩ := Svc.postStartOnMain_lands (s := s) g usage hrun
  have hup : Isolated (s.tunnelUp g usage) :=
    ⟨⟨h.owned, h.dns, h.bound, h.unique, h.checks, h.tasks, h.landed⟩, h.resolved, h.buffered, h.current⟩
  apply hup.reports (Svc.postStartOnMain_reports g usage hrun)
  · intro l hl
    rcases hlands l hl with hold | ⟨x, hx, hseq, hprobe⟩
    · exact h.landed l hold
    · obtain ⟨_, hown, hg⟩ := h.buffered x hx
      rw [hseq, hprobe]
      exact ⟨hown.symm, hg⟩
  · intro x hx
    rw [hnone] at hx
    cases hx

theorem task (h : Isolated s) (hin : InTime s) {i : Nat} {usage : Option (Int × Int)}
    (hs : s.task i usage = some s') : Isolated s' := by
  obtain ⟨t, tasks, ht, hsub, hcases⟩ := Svc.task_cases hs
  have hpopped : Isolated { s with mMainHandler := tasks } :=
    ⟨⟨h.owned, h.dns, h.bound, h.unique, h.checks, fun p a hp => h.tasks p a (hsub _ hp), h.landed⟩, h.resolved,
      h.buffered, h.current⟩
  rcases hcases with ⟨g, reason, _, rfl⟩ | ⟨g, _, rfl⟩ | ⟨g, _, _, hrun, rfl⟩ | ⟨p, answer, rfl, rfl⟩
  · exact hpopped.stopMe reason _
  · exact hpopped
  · exact hpopped.postStartOnMain g usage hrun
  · refine hpopped.probeDone (h.tasks p answer (List.mem_of_getElem? ht)) fun heffect => ?_
    have htells : (Task.probeDone p answer).tells = true := by
      cases answer with
      | exception => cases heffect
      | _ => rfl
    exact hin.answers p answer (List.mem_of_getElem? ht) htells

/-- A launched probe takes the values of the running session. -/
theorem ipCheck (h : Isolated s) {i : Nat} (hs : s.ipCheck i = some s') : Isolated s' := by
  rcases Svc.ipCheck_cases hs with hq | ⟨hrun, l, rfl⟩
  · exact h.quiet hq
  · refine ⟨⟨h.owned, h.dns, h.bound, h.unique, fun c hc => ?_, h.tasks, h.landed⟩, h.resolved, h.buffered, h.current⟩
    rcases List.mem_append.mp hc with hc | hc
    · exact h.checks c hc
    · rw [List.mem_singleton] at hc
      subst hc
      obtain ⟨g, hg, hseq, hserver, hport, huser, hpass⟩ := h.current hrun
      refine ⟨g, hg, hseq, hport, huser, hpass, ?_⟩
      have hserved : ∀ a, s.mResolvedServer = some a → s.probe.server = some a := fun a ha => by rw [Svc.probe, ha]
      have hplain : s.mResolvedServer = none → s.probe.server = s.mServer := fun ha => by rw [Svc.probe, ha]
      cases hres : s.mResolvedServer with
      | none =>
        rw [hplain hres]
        exact .inl hserver
      | some a =>
        rw [hserved a hres]
        obtain ⟨_, g', hg', hseq', hmem⟩ := h.resolved a hres
        obtain rfl : g' = g := h.unique g' hg' g hg (hseq'.trans hseq.symm)
        exact .inr hmem

/-- A background step: the threads stay with their sessions, and an address is stored by
the running session only. -/
theorem background (h : Isolated s) (control : s'.toControl = s.toControl) (config : s'.toConfig = s.toConfig)
    (started : s'.started = s.started) (checks : s'.mIpCheckExecutor = s.mIpCheckExecutor)
    (landed : s'.landed = s.landed) (pending : s'.mPendingIpInfo = s.mPendingIpInfo)
    (threads : ∀ t ∈ s'.startThreads, t.session ∈ s.started) (dns : ∀ t ∈ s'.dnsThreads, t.session ∈ s.started)
    (tasks : ∀ p answer, Task.probeDone p answer ∈ s'.mMainHandler → Task.probeDone p answer ∈ s.mMainHandler)
    (stored : (s'.mResolvedServer = s.mResolvedServer ∧ s'.resolutions = s.resolutions) ∨
      ∃ g ∈ s.started, (s'.mResolvedServer ≠ none → s.unmoved g.connectSeq = true) ∧
        s'.resolutions = s.resolutions ++ [⟨g, s'.mResolvedServer⟩]) : Isolated s' := by
  have hgrow : ∀ r ∈ s.resolutions, r ∈ s'.resolutions := by
    intro r hr
    rcases stored with ⟨_, hsame⟩ | ⟨g, _, _, hnew⟩
    · rwa [hsame]
    · rw [hnew]
      exact List.mem_append_left _ hr
  have hprov : Provenance s' := by
    apply h.toProvenance.step _ started hgrow threads dns
    · rw [checks]
      exact h.checks
    · exact fun p answer hp => h.tasks p answer (tasks p answer hp)
    · rw [landed]
      exact h.landed
    · rw [control]
  refine ⟨hprov, fun a ha => ?_, fun x hx => ?_, ?_⟩
  · rw [control, started]
    rcases stored with ⟨hsame, _⟩ | ⟨g, hg, hstill, hnew⟩
    · rw [hsame] at ha
      obtain ⟨hrun, g, hg, hseq, hmem⟩ := h.resolved a ha
      exact ⟨hrun, g, hg, hseq, hgrow _ hmem⟩
    · have hr := hstill (by rw [ha]; exact Option.some_ne_none a)
      unfold Svc.unmoved at hr
      rw [Bool.and_eq_true, decide_eq_true_eq] at hr
      refine ⟨hr.1, g, hg, hr.2, ?_⟩
      rw [hnew, show s'.mResolvedServer = some a from ha]
      exact List.mem_append_right _ (List.mem_singleton_self _)
  · rw [pending] at hx
    obtain ⟨hrun, hseq, g, hg⟩ := h.buffered x hx
    rw [control]
    exact ⟨hrun, hseq, g, hg.grow (by rw [started]; exact fun _ => id) hgrow⟩
  · rw [control, config, started]
    exact h.current

theorem thread (h : Isolated s) {i : Nat} {reply : Reply} (hok : s.ResolvesOwn (.thread i reply))
    (hs : s.stepThread i reply = some s') : Isolated s' := by
  obtain ⟨t, p, ht, hp, rfl⟩ := Svc.stepThread_some hs
  have hown : t.session ∈ s.started := h.owned t (List.mem_of_getElem? ht)
  have hres := StartThread.advance_resolver hp
  refine h.background rfl rfl rfl rfl rfl rfl (fun t' ht' => ?_) (fun t' ht' => ?_) (fun q answer hq => ?_) ?_
  · rcases List.mem_or_eq_of_mem_set ht' with hold | rfl
    · exact h.owned t' hold
    · exact hown
  · replace ht' : t' ∈ p.shared.resolver.2.2 := ht'
    rcases hres with he | he | ⟨_, addr, he⟩
    · rw [he] at ht'
      exact h.dns t' ht'
    · rw [he] at ht'
      rcases List.mem_append.mp ht' with hold | hnew
      · exact h.dns t' hold
      · rw [List.mem_singleton] at hnew
        subst hnew
        exact hown
    · rw [he] at ht'
      exact h.dns t' ht'
  · rcases List.mem_append.mp hq with hold | hnew
    · exact hold
    · obtain ⟨post, _, hpost⟩ := Option.map_eq_some_iff.mp (Option.mem_toList.mp hnew)
      cases post with
      | stop reason => cases hpost
      | tunnelUp => cases hpost
  · rcases hres with he | he | ⟨hpc, addr, he⟩
    · exact .inl ⟨congrArg Prod.fst he, congrArg (fun r => r.2.1) he⟩
    · exact .inl ⟨congrArg Prod.fst he, congrArg (fun r => r.2.1) he⟩
    · refine .inr ⟨t.session, hown, fun _ => hok t ht hpc, ?_⟩
      have hfst : p.shared.mResolvedServer = addr := congrArg Prod.fst he
      have hsnd : p.shared.resolutions = s.resolutions ++ [⟨t.session, addr⟩] := congrArg (fun r => r.2.1) he
      show p.shared.resolutions = s.resolutions ++ [⟨t.session, p.shared.mResolvedServer⟩]
      rw [hsnd, hfst]

theorem dnsThread (h : Isolated s) {i : Nat} {reply : Reply} (hok : s.ResolvesOwn (.dns i reply))
    (hs : s.stepDns i reply = some s') : Isolated s' := by
  obtain ⟨t, ⟨pc, e⟩, ht, hp, rfl⟩ := Svc.stepDns_some hs
  have hown : t.session ∈ s.started := h.dns t (List.mem_of_getElem? ht)
  have hdns : ∀ t' ∈ s.dnsThreads.set i ⟨t.session, pc⟩, t'.session ∈ s.started := by
    intro t' ht'
    rcases List.mem_or_eq_of_mem_set ht' with hold | rfl
    · exact h.dns t' hold
    · exact hown
  obtain ⟨cache, rfl⟩ | ⟨addr, hpc, rfl⟩ := DnsThread.advance_some hp
  · exact h.background rfl rfl rfl rfl rfl rfl h.owned hdns (fun _ _ hq => hq) (.inl ⟨rfl, rfl⟩)
  · refine h.background rfl rfl rfl rfl rfl rfl h.owned hdns (fun _ _ hq => hq) (.inr ⟨t.session, hown, ?_, rfl⟩)
    intro hsome
    replace hsome : addr ≠ none := hsome
    apply hok t ht
    rw [hpc]
    simp only [List.mem_cons, reduceCtorEq, DnsPc.storing.injEq, List.not_mem_nil, or_false, false_or]
    exact hsome

theorem monitor (h : Isolated s) {i : Nat} (hs : s.stepMonitor i = some s') : Isolated s' := by
  obtain ⟨m, p, code, _, _, _, rfl⟩ := Svc.stepMonitor_some hs
  refine h.background rfl rfl rfl rfl rfl rfl h.owned h.dns (fun q answer hq => ?_) (.inl ⟨rfl, rfl⟩)
  replace hq : Task.probeDone q answer ∈ if _ then _ else _ := hq
  split at hq
  · rcases List.mem_append.mp hq with hold | hnew
    · exact hold
    · cases List.mem_singleton.mp hnew
  · exact hq

/-- The check at the head goes on, or becomes a completion. -/
theorem probe (h : Isolated s) {checks : List Check} {tasks : List Task}
    (hchecks : ∀ c ∈ checks, ∃ c' ∈ s.mIpCheckExecutor, c.probe = c'.probe)
    (htasks : ∀ p answer, Task.probeDone p answer ∈ tasks →
      Task.probeDone p answer ∈ s.mMainHandler ∨ ∃ c ∈ s.mIpCheckExecutor, c.probe = p) :
    Isolated { s with mIpCheckExecutor := checks, mMainHandler := tasks } := by
  refine ⟨⟨h.owned, h.dns, h.bound, h.unique, fun c hc => ?_, fun p answer hp => ?_, h.landed⟩, h.resolved,
    h.buffered, h.current⟩
  · obtain ⟨c', hc', he⟩ := hchecks c hc
    rw [he]
    exact h.checks c' hc'
  · rcases htasks p answer hp with hold | ⟨c, hc, rfl⟩
    · exact h.tasks p answer hold
    · exact h.checks c hc

/-- One timely step keeps the invariant. -/
theorem step (h : Isolated s) (hin : InTime s) {a : Act} (hok : s.Timely a) (hs : Svc.step s a = some s') :
    Isolated s' := by
  cases a with
  | deliver saved established => exact h.deliver hs
  | external reason =>
    obtain ⟨d, rfl⟩ := Svc.external_some hs
    have hstop := h.stopMe reason none
    exact ⟨⟨hstop.owned, hstop.dns, hstop.bound, hstop.unique, hstop.checks, hstop.tasks, hstop.landed⟩,
      hstop.resolved, hstop.buffered, hstop.current⟩
  | screenOn => exact h.quiet (Svc.screenOn_quiet hs)
  | task i usage => exact h.task hin hs
  | stats i usage =>
    obtain ⟨l, rfl⟩ := Svc.stats_some hs
    exact h.background rfl rfl rfl rfl rfl rfl h.owned h.dns (fun _ _ hq => hq) (.inl ⟨rfl, rfl⟩)
  | ipCheck i => exact h.ipCheck hs
  | probeBegin =>
    obtain ⟨p, choice, rest, he, rfl⟩ := Svc.probeBegin_some hs
    have hkept : ∀ q a, Task.probeDone q a ∈ s.mMainHandler →
        Task.probeDone q a ∈ s.mMainHandler ∨ ∃ c ∈ s.mIpCheckExecutor, c.probe = q := fun _ _ hq => .inl hq
    refine h.probe (fun c hc => ?_) hkept
    rcases List.mem_cons.mp hc with rfl | hc
    · exact ⟨⟨p, none⟩, by rw [he]; exact List.mem_cons_self, rfl⟩
    · exact ⟨c, by rw [he]; exact List.mem_cons_of_mem _ hc, rfl⟩
  | probeEnd answer =>
    obtain ⟨p, choice, rest, he, rfl⟩ := Svc.probeEnd_some hs
    refine h.probe (fun c hc => ⟨c, by rw [he]; exact List.mem_cons_of_mem _ hc, rfl⟩) fun q a hq => ?_
    rcases List.mem_append.mp hq with hold | hnew
    · exact .inl hold
    · cases List.mem_singleton.mp hnew
      exact .inr ⟨_, by rw [he]; exact List.mem_cons_self, rfl⟩
  | thread i reply => exact h.thread hok.2 hs
  | dns i reply => exact h.dnsThread hok.2 hs
  | monitor i => exact h.monitor hs
  | change c =>
    rcases Svc.change_cases hs with hq | ⟨key, value, _, rfl⟩
    · exact h.quiet hq
    · exact h.background rfl rfl rfl rfl rfl rfl h.owned h.dns (fun _ _ hq => hq) (.inl ⟨rfl, rfl⟩)
  | _ =>
    obtain rfl := Option.some.inj hs
    exact h.background rfl rfl rfl rfl rfl rfl h.owned h.dns (fun _ _ hq => hq) (.inl ⟨rfl, rfl⟩)

end Isolated

/-- **Probe isolation** in timely runs: an answer that takes effect in a session was
asked for in that session, with its server, port and credentials. -/
theorem probes_isolated {s : Svc} (h : Reaches system Svc.Timely s) :
    ∀ l ∈ s.landed, l.probe.session = l.session ∧ ∃ g, s.LaunchedBy l.probe g := by
  have hiso : InTime s ∧ Isolated s := by
    apply Reaches.invariant (P := fun s => InTime s ∧ Isolated s) _ _ h
    · rintro _ ⟨w, accelDns, _, rfl⟩
      refine ⟨⟨?_, ?_⟩, ⟨?_, ?_, ?_, ?_, ?_, ?_, ?_⟩, ?_, ?_, ?_⟩
      · exact fun _ hc => by cases hc
      · exact fun _ _ hp => by cases hp
      · exact fun _ ht => by cases ht
      · exact fun _ ht => by cases ht
      · exact fun _ hg => by cases hg
      · exact fun _ hg => by cases hg
      · exact fun _ hc => by cases hc
      · exact fun _ _ hp => by cases hp
      · exact fun _ hl => by cases hl
      · exact fun _ ha => by cases ha
      · exact fun _ hx => by cases hx
      · exact fun hrun => (Bool.false_ne_true hrun).elim
    · intro s a s' hs hok hstep
      exact ⟨hs.1.step hok hstep, hs.2.step hs.1 hok hstep⟩
  intro l hl
  exact ⟨(hiso.2.landed l hl).1.symm, (hiso.2.landed l hl).2⟩

/-- An answer that names an exit address. -/
def exitInfo : IpInfo := ⟨"203.0.113.7".toList, "DE".toList, [], [], [], [], [], [], []⟩

/-- A start and its first ip check, taken up by the executor. -/
def startAndProbe : List Act :=
  [.sendStart (some (startOf "Work".toList "10.0.0.2".toList)), .deliver none (.fd 3), .ipCheck 0, .probeBegin]

/-- The first check of a session comes back after its tunnel-up, that of the session after
before, where it is buffered. -/
theorem probes_isolated_first : ∃ s : Svc,
    s.landed.map (fun l => (l.effect, l.session)) = [(.applied, 1), (.buffered, 3), (.applied, 3)] ∧
    ∀ l ∈ s.landed, l.probe.session = l.session ∧ ∃ g, s.LaunchedBy l.probe g := by
  have hrun : (execWhere system Svc.Timely (Svc.created phone none)
      (startAndProbe ++ bringUp 0 "10.0.0.2".toList ++ [.task 0 none, .probeEnd (.info exitInfo), .task 0 none,
        .external .binderStop, .sendStart (some (startOf "Home".toList "10.0.0.9".toList)), .deliver none (.fd 4),
        .ipCheck 0, .probeBegin, .probeEnd (.info exitInfo), .task 0 none] ++ bringUp 1 "10.0.0.9".toList ++
        [.task 0 none])).map (fun s => s.landed.map fun l => (l.effect, l.session)) =
      some [(.applied, 1), (.buffered, 3), (.applied, 3)] := by decide +kernel
  obtain ⟨s, hs, hlanded⟩ := Option.map_eq_some_iff.mp hrun
  exact ⟨s, hlanded, probes_isolated (execWhere_reaches _ (created_reachable rfl none) hs)⟩

/-- The check of a stopped session makes the next one report its address. -/
theorem probe_crosses : ¬ ∀ s, Reachable system s →
    ∀ l ∈ s.landed, l.probe.session = l.session ∧ ∃ g, s.LaunchedBy l.probe g := by
  intro h
  have hrun : (exec system (Svc.created phone none)
      (startAndProbe ++ [.external .binderStop, .sendStart (some (startOf "Home".toList "10.0.0.9".toList)),
        .deliver none (.fd 4)] ++ bringUp 1 "10.0.0.9".toList ++
        [.task 0 none, .probeEnd (.info exitInfo), .task 0 none])).map
      (fun s => (s.mProxyVerified, s.mServer, s.landed)) =
      some (true, some "10.0.0.9".toList, [⟨.applied, 3, ⟨1, some "10.0.0.2".toList, 1080, none, none⟩⟩]) := by
    decide +kernel
  obtain ⟨s, hs, hresult⟩ := Option.map_eq_some_iff.mp hrun
  have hlanded : s.landed = _ := congrArg (fun r => r.2.2) hresult
  have hown := (h s (exec_reaches _ (created_reachable rfl none) hs) _ (by rw [hlanded]; exact List.mem_singleton_self _)).1
  exact absurd hown (by decide)

end KiloProxy.Vpn
