import KiloProxy.Vpn.EngineStages

/-!
# No engine outlives its session

A stop destroys what the handles and the pid file name. pdnsd is launched with no look at
the connect counter, and its daemon is known by the pid file only, which is written after
the launcher has exited; tun2socks and the native tunnel are looked after by the thread
that started them, which may do so late. When a thread launches pdnsd for a running
session only, a stop finds it stored and the pid of its daemon written, and a start finds
no thread between its checkpoint and the end of its tun2socks, nothing is left running
once the service is idle and its threads are done.
-/

namespace KiloProxy.Vpn
set_option autoImplicit false
open KiloProxy.Text KiloProxy.Util KiloProxy.Service KiloProxy.Run

/-- Nothing that a session started runs. -/
structure NoEngines (s : Svc) : Prop where
  procs : ∀ p ∈ s.procs, p.exit ≠ none
  hev : s.hevNative = none

/-- The handles are as before; a session on hev keeps its native tunnel and the flag. -/
structure HandlesKept (s s' : Svc) : Prop where
  tun2socks : s'.mTun2socksProcess = s.mTun2socksProcess
  pdnsd : s'.mPdnsdProcess = s.mPdnsdProcess
  active : s.mHev = true → s.mHevActive = true → s'.mHevActive = true
  native : s.mHev = true → s.hevNative = some s.mConnectSeq → s'.hevNative = s.hevNative

/-! ## The condition -/

namespace Svc

/-- The session `g` runs. -/
def Own (s : Svc) (g : Session) : Prop := s.mRunning = true ∧ g.connectSeq = s.mConnectSeq

instance (s : Svc) (g : Session) : Decidable (s.Own g) := by unfold Own; infer_instance

end Svc

namespace StartPc

/-- Its next step launches pdnsd, on the stock engine. -/
def launchesPdnsd : StartPc → Bool
  | .engine _ => true
  | _ => false

/-- It has launched pdnsd and not yet stored the handle. -/
def storesPdnsd : StartPc → Bool
  | .pdnsdStarted _ _ => true
  | _ => false

/-- It is past its checkpoint, and not yet past the check on its tun2socks. -/
def handlesTun : StartPc → Bool
  | .pick _ | .spawn _ | .tunStarted _ | .tunCheck _ | .tunDiscard => true
  | _ => false

/-- It is past the check before the native start, and not yet past the last one. -/
def handlesHev : StartPc → Bool
  | .hevNative | .hevClaim _ | .hevVerify _ | .hevFinal _ => true
  | _ => false

end StartPc

namespace Svc

/-- A stop finds pdnsd: no handle is yet to be stored, and a daemon that runs has its pid
in the pid file. -/
def PdnsdKnown (s : Svc) : Prop :=
  (∀ t ∈ s.startThreads, t.pc.storesPdnsd = false) ∧
  ∀ pid < s.procs.length, ∀ p ∈ s.procs[pid]?, p.engine = .pdnsdDaemon → p.exit = none →
    s.pdnsdPid = some ⟨pid, true⟩

/-- No thread is about to write the handles that a session started now uses. -/
def HandlesFree (s : Svc) : Prop :=
  ∀ t ∈ s.startThreads, t.pc.handlesTun = false ∧ ((readAccelPrefs s.prefs).mHev = true → t.pc.handlesHev = false)

/-- pdnsd is launched by a thread of the running session. -/
def LaunchesOwn (s : Svc) : Act → Prop
  | .thread i reply =>
    ∀ t ∈ s.startThreads[i]?, t.pc.launchesPdnsd = true → s.mHev = false → reply = .ok → s.Own t.session
  | _ => True

/-- What each stop, start and launch of pdnsd finds. -/
def Contained (s : Svc) (a : Act) : Prop :=
  (s.stops a = true → s.PdnsdKnown) ∧ ((s.starts a).isSome = true → s.HandlesFree) ∧ s.LaunchesOwn a

instance (s : Svc) : Decidable s.PdnsdKnown :=
  inferInstanceAs (Decidable ((∀ t ∈ s.startThreads, t.pc.storesPdnsd = false) ∧
    ∀ pid < s.procs.length, ∀ p ∈ s.procs[pid]?, p.engine = .pdnsdDaemon → p.exit = none →
      s.pdnsdPid = some ⟨pid, true⟩))

instance (s : Svc) : Decidable s.HandlesFree :=
  inferInstanceAs (Decidable (∀ t ∈ s.startThreads, t.pc.handlesTun = false ∧
    ((readAccelPrefs s.prefs).mHev = true → t.pc.handlesHev = false)))

instance (s : Svc) (a : Act) : Decidable (s.LaunchesOwn a) :=
  match a with
  | .thread i reply => inferInstanceAs (Decidable (∀ t ∈ s.startThreads[i]?,
      t.pc.launchesPdnsd = true → s.mHev = false → reply = .ok → s.Own t.session))
  | .deliver _ _ | .dns _ _ | .sendStart _ | .sendStop | .external _ | .screenOn | .task _ _ | .stats _ _ | .ipCheck _
  | .probeBegin | .probeEnd _ | .monitor _ | .change _ => inferInstanceAs (Decidable True)

instance (s : Svc) (a : Act) : Decidable (s.Contained a) :=
  inferInstanceAs (Decidable ((s.stops a = true → s.PdnsdKnown) ∧ ((s.starts a).isSome = true → s.HandlesFree) ∧
    s.LaunchesOwn a))

end Svc

/-! ## pdnsd and its daemon -/

/-- At most one pdnsd runs, launcher or daemon, of a session that runs. -/
structure Alone (s : Svc) : Prop where
  own : ∀ pid p, Runs s.procs pid p → p.engine ≠ .tun2socks → s.mRunning = true ∧
    ∀ t ∈ s.startThreads, t.session.connectSeq = s.mConnectSeq → t.pc.pdnsdStage ≠ .before
  one : ∀ pid p pid' p', Runs s.procs pid p → p.engine ≠ .tun2socks → Runs s.procs pid' p' → p'.engine ≠ .tun2socks →
    pid = pid'

/-- Nothing runs, so nothing has to be held. -/
theorem Alone.of_none {s : Svc} (h : ∀ pid p, Runs s.procs pid p → p.engine = .tun2socks) : Alone s :=
  ⟨fun pid p hp hkind => absurd (h pid p hp) hkind, fun pid p _ _ hp hkind _ _ => absurd (h pid p hp) hkind⟩

namespace Alone

variable {s s' : Svc}

/-- A step away from the threads that starts no pdnsd. -/
theorem keep (h : Alone s) (running : s'.mRunning = s.mRunning) (seq : s'.mConnectSeq = s.mConnectSeq)
    (threads : s'.startThreads = s.startThreads)
    (live : ∀ pid p, Runs s'.procs pid p → p.engine ≠ .tun2socks → Runs s.procs pid p) : Alone s' := by
  constructor
  · intro pid p hp hkind
    rw [running, threads, seq]
    exact h.own pid p (live pid p hp hkind) hkind
  · intro pid p pid' p' hp hkind hp' hkind'
    exact h.one pid p pid' p' (live pid p hp hkind) hkind (live pid' p' hp' hkind') hkind'

/-- A thread moves on; it spawns pdnsd for its own session only. -/
theorem thread (h : Alone s) {i : Nat} {t : StartThread} {pc : StartPc} {handle handle' : Option Nat}
    (ht : s.startThreads[i]? = some t) (running : s'.mRunning = s.mRunning) (seq : s'.mConnectSeq = s.mConnectSeq)
    (threads : s'.startThreads = s.startThreads.set i ⟨t.session, pc⟩) (hseats : Seats s)
    (hmove : Move (· ≠ .tun2socks) s.procs s'.procs handle handle' t.pc.pdnsdStage pc.pdnsdStage)
    (hspawns : t.pc.pdnsdStage = .before → ∀ pid, pc.pdnsdStage = .started pid → s.Own t.session) : Alone s' := by
  have hmem : t ∈ s.startThreads := List.mem_of_getElem? ht
  by_cases hspawned : t.pc.pdnsdStage = .before ∧ ∃ pid, pc.pdnsdStage = .started pid
  · obtain ⟨hbefore, pid₀, hstarted⟩ := hspawned
    obtain ⟨hrun, hmine⟩ := hspawns hbefore pid₀ hstarted
    -- the session had none so far
    have hnone : ∀ pid p, Runs s.procs pid p → p.engine = .tun2socks := by
      intro pid p hp
      by_contra hkind
      exact (h.own pid p hp hkind).2 t hmem hmine hbefore
    have hlast : ∀ pid p, Runs s'.procs pid p → p.engine ≠ .tun2socks → pid = s.procs.length := by
      intro pid p hp hkind
      rw [hbefore, hstarted] at hmove
      cases hmove with
      | still hstage _ _ =>
        obtain hsame | ⟨_, hafter⟩ := hstage
        · cases hsame
        · cases hafter
      | spawn _ hlive =>
        obtain hold | hnew := hlive pid p hp hkind
        · exact absurd (hnone pid p hold) hkind
        · exact hnew
    constructor
    · intro pid p hp hkind
      refine ⟨running.trans hrun, ?_⟩
      intro u hu hown
      rw [threads] at hu
      rw [seq] at hown
      obtain rfl | ⟨_, hother⟩ := hseats.other ht hu
      · show pc.pdnsdStage ≠ .before
        rw [hstarted]
        exact Stage.noConfusion
      · exact absurd (hown.trans hmine.symm) hother
    · intro pid p pid' p' hp hkind hp' hkind'
      rw [hlast pid p hp hkind, hlast pid' p' hp' hkind']
  · have hold : ∀ pid p, Runs s'.procs pid p → p.engine ≠ .tun2socks → Runs s.procs pid p := by
      intro pid p hp hkind
      obtain hold | hstarted := hmove.live hp hkind
      · exact hold
      · have hto := hmove
        rw [hstarted] at hto
        obtain hbefore | hlive := hto.to_started
        · exact absurd ⟨hbefore, pid, hstarted⟩ hspawned
        · exact hlive pid p hp hkind
    constructor
    · intro pid p hp hkind
      obtain ⟨hrun, hpast⟩ := h.own pid p (hold pid p hp hkind) hkind
      refine ⟨running.trans hrun, ?_⟩
      intro u hu hown
      rw [threads] at hu
      rw [seq] at hown
      obtain hother | hthis := List.mem_or_eq_of_mem_set hu
      · exact hpast u hother hown
      · subst hthis
        exact hmove.left_before (hpast t hmem hown)
    · intro pid p pid' p' hp hkind hp' hkind'
      exact h.one pid p pid' p' (hold pid p hp hkind) hkind (hold pid' p' hp' hkind') hkind'

/-- The daemon takes the place of its launcher. -/
theorem daemonize (h : Alone s) {pid : Nat} {p : Proc} (hp : Runs s.procs pid p) (hpdnsd : p.engine = .pdnsd)
    (running : s'.mRunning = s.mRunning) (seq : s'.mConnectSeq = s.mConnectSeq)
    (threads : s'.startThreads = s.startThreads) (code : Int)
    (procs : s'.procs = exitWith s.procs pid code ++ [⟨.pdnsdDaemon, p.session, p.command, none⟩]) : Alone s' := by
  have hlauncher : p.engine ≠ .tun2socks := by
    rw [hpdnsd]
    exact Engine.noConfusion
  obtain ⟨hrun, hpast⟩ := h.own pid p hp hlauncher
  have hlast : ∀ q r, Runs s'.procs q r → r.engine ≠ .tun2socks → q = s.procs.length := by
    intro q r hr hkind
    rw [procs] at hr
    obtain hold | ⟨hlast, _⟩ := hr.of_append
    · obtain ⟨hold, hother⟩ := hold.of_exit
      exact absurd (h.one pid p q r hp hlauncher hold hkind) hother
    · rw [hlast]
      exact List.length_modify _ _ _
  constructor
  · intro q r hr hkind
    rw [running, threads, seq]
    exact ⟨hrun, hpast⟩
  · intro q r q' r' hr hkind hr' hkind'
    rw [hlast q r hr hkind, hlast q' r' hr' hkind']

end Alone

/-! ## The native tunnel -/

namespace StartPc

/-- The native tunnel was started, and the flag is not yet set. -/
def claiming : StartPc → Bool
  | .hevClaim started => started
  | _ => false

/-- The thread waits to see the native tunnel alive. -/
def verifying : StartPc → Bool
  | .hevVerify _ | .hevFinal _ => true
  | _ => false

end StartPc

/-- A native tunnel that runs is at the thread that started it, or the flag is set and a
stop or a thread is to come. -/
def Svc.NativeHeld (s : Svc) : Prop :=
  s.hevNative ≠ none → (∃ t ∈ s.startThreads, t.pc.claiming = true) ∨
    (s.mHevActive = true ∧ (s.mRunning = true ∨ ∃ t ∈ s.startThreads, t.pc.verifying = true))

/-- What a step does about the native tunnel. -/
inductive HevMove (s : Svc) (e : Shared) (a b : StartPc) : Prop where
  | still : e.hevNative = s.hevNative → (s.mHevActive = true → e.mHevActive = true) → a.claiming = false →
      a.verifying = false → HevMove s e a b
  | start : s.hevNative = none → e.mHevActive = s.mHevActive → b.claiming = true → HevMove s e a b
  | wait : e.hevNative = s.hevNative → e.mHevActive = true ∨ e.mHevActive = s.mHevActive ∧ a.claiming = false →
      b.verifying = true → HevMove s e a b
  | stop : e.hevNative = none → (∃ alive, a = .hevFinal alive) → HevMove s e a b
  | up : e.hevNative = s.hevNative → e.mHevActive = s.mHevActive → a.claiming = false → s.mRunning = true →
      HevMove s e a b

/-- What each step of a start thread does to the native engine. -/
theorem StartThread.advance_hev {s : Svc} {t : StartThread} {reply : Reply} {p : Progress}
    (h : t.advance s reply = some p) : HevMove s p.shared t.pc p.pc := by
  obtain ⟨g, pc⟩ := t
  unfold advance at h
  cases pc with
  | hevNative =>
    simp only at h
    split at h
    · cases h
      exact .still rfl id rfl rfl
    · cases h
      exact .still rfl id rfl rfl
    · split at h
      · cases h
        exact .still rfl id rfl rfl
      · rename_i hnone
        cases h
        exact .start (by simpa using hnone) rfl rfl
    · cases h
      exact .still rfl id rfl rfl
  | hevClaim started =>
    simp only at h
    split at h
    · cases h
      exact .wait rfl (.inl rfl) rfl
    · rename_i hfailed
      cases h
      exact .still rfl (fun _ => rfl) (Bool.not_eq_true _ ▸ hfailed) rfl
  | hevVerify since =>
    simp only at h
    split at h
    · cases h
      exact .wait rfl (.inr ⟨rfl, rfl⟩) rfl
    · cases h
  | hevFinal alive =>
    simp only at h
    split at h
    · cases h
      exact .stop rfl ⟨alive, rfl⟩
    · rename_i hfresh
      split at h
      · cases h
        exact .up rfl rfl rfl (Svc.fresh hfresh).2
      · cases h
        exact .stop rfl ⟨alive, rfl⟩
  | done => cases h
  | _ =>
    simp only at h
    repeat' split at h
    all_goals first | (cases h; done) | (cases h; exact .still rfl id rfl rfl)

namespace Svc

variable {s s' : Svc}

/-- A step away from the native tunnel and the threads. -/
theorem NativeHeld.keep (h : s.NativeHeld) (native : s'.hevNative = s.hevNative ∨ s'.hevNative = none)
    (active : s'.mHevActive = s.mHevActive) (running : s.mRunning = true → s'.mRunning = true)
    (threads : ∀ t ∈ s.startThreads, t ∈ s'.startThreads) : s'.NativeHeld := by
  intro hnative
  have hsame : s'.hevNative = s.hevNative := by
    obtain hsame | hnone := native
    · exact hsame
    · exact absurd hnone hnative
  rw [hsame] at hnative
  obtain ⟨t, ht, hclaim⟩ | ⟨hactive, hends⟩ := h hnative
  · exact .inl ⟨t, threads t ht, hclaim⟩
  · refine .inr ⟨active.trans hactive, ?_⟩
    obtain hrun | ⟨t, ht, hverify⟩ := hends
    · exact .inl (running hrun)
    · exact .inr ⟨t, threads t ht, hverify⟩

/-- A stop ends the native tunnel that the flag stands for. -/
theorem NativeHeld.down (h : s.NativeHeld) (threads : s'.startThreads = s.startThreads)
    (native : s'.hevNative ≠ none → s'.hevNative = s.hevNative ∧ s.mHevActive = false) : s'.NativeHeld := by
  intro hnative
  obtain ⟨hsame, hflag⟩ := native hnative
  rw [hsame] at hnative
  rw [threads]
  obtain hclaim | ⟨hactive, _⟩ := h hnative
  · exact .inl hclaim
  · rw [hflag] at hactive
    cases hactive

/-- A step of a start thread keeps the native engine in somebody's hands. -/
theorem NativeHeld.thread (h : s.NativeHeld) {i : Nat} {t : StartThread} {pc : StartPc}
    (ht : s.startThreads[i]? = some t) (running : s'.mRunning = s.mRunning)
    (threads : s'.startThreads = s.startThreads.set i ⟨t.session, pc⟩) (hmove : HevMove s s'.toShared t.pc pc) :
    s'.NativeHeld := by
  obtain ⟨hlt, _⟩ := List.getElem?_eq_some_iff.mp ht
  have hnew : (⟨t.session, pc⟩ : StartThread) ∈ s'.startThreads := by
    rw [threads]
    exact List.mem_set hlt _
  -- what the thread is not about, the others still are
  have hstays : ∀ f : StartPc → Bool, f t.pc = false → (∃ u ∈ s.startThreads, f u.pc = true) →
      ∃ u ∈ s'.startThreads, f u.pc = true := by
    rintro f hnot ⟨u, hu, hf⟩
    obtain hu | rfl := mem_set_or ht hu
    · exact ⟨u, threads ▸ hu, hf⟩
    · rw [hnot] at hf
      cases hf
  intro hnative
  cases hmove with
  | still hsame hactive hclaim hverify =>
    rw [hsame] at hnative
    obtain hclaims | ⟨hflag, hends⟩ := h hnative
    · exact .inl (hstays _ hclaim hclaims)
    · refine .inr ⟨hactive hflag, ?_⟩
      obtain hrun | hverifies := hends
      · exact .inl (running.trans hrun)
      · exact .inr (hstays _ hverify hverifies)
  | start _ _ hclaims => exact .inl ⟨_, hnew, hclaims⟩
  | wait hsame hactive hverifies =>
    obtain hflag | ⟨hflag, hclaim⟩ := hactive
    · exact .inr ⟨hflag, .inr ⟨_, hnew, hverifies⟩⟩
    · rw [hsame] at hnative
      obtain hclaims | ⟨hset, _⟩ := h hnative
      · exact .inl (hstays _ hclaim hclaims)
      · exact .inr ⟨hflag.trans hset, .inr ⟨_, hnew, hverifies⟩⟩
  | stop hnone _ => exact absurd hnone hnative
  | up hsame hactive hclaim hrun =>
    rw [hsame] at hnative
    obtain hclaims | ⟨hset, _⟩ := h hnative
    · exact .inl (hstays _ hclaim hclaims)
    · exact .inr ⟨hactive.trans hset, .inl (running.trans hrun)⟩

end Svc

/-! ## The invariant -/

/-- A thread that is about to write a handle which the running session uses is that
session's own. -/
structure OwnHandles (s : Svc) : Prop where
  pdnsd : ∀ t ∈ s.startThreads, t.pc.storesPdnsd = true → s.Own t.session
  tun : s.mRunning = true → ∀ t ∈ s.startThreads, t.pc.handlesTun = true → t.session.connectSeq = s.mConnectSeq
  hev : s.mRunning = true → s.mHev = true → ∀ t ∈ s.startThreads, t.pc.handlesHev = true →
    t.session.connectSeq = s.mConnectSeq

structure Tracked (s : Svc) : Prop where
  own : OwnHandles s
  tun : Held (· = .tun2socks) (fun s => s.mTun2socksProcess) StartPc.tunStage s
  pdnsd : Held (· = .pdnsd) (fun s => s.mPdnsdProcess) StartPc.pdnsdStage s
  family : Alone s
  native : s.NativeHeld

/-- What runs after `killPidFile` ran before it, and its pid was not in the file. -/
theorem Runs.of_killPidFile {procs : List Proc} {file : Option PidFile} {pid : Nat} {p : Proc}
    (h : Runs (killPidFile procs file).1 pid p) : Runs procs pid p ∧ file ≠ some ⟨pid, true⟩ := by
  cases file with
  | none => exact ⟨h, nofun⟩
  | some f =>
    obtain ⟨q, written⟩ := f
    cases written with
    | false => exact ⟨h, nofun⟩
    | true =>
      obtain ⟨hold, hother⟩ := h.of_exit
      refine ⟨hold, ?_⟩
      rintro ⟨⟩
      exact hother rfl

/-- What runs after a stop ran before it and was not held. -/
theorem Runs.of_stopped {e : Shared} {mHev : Bool} {pid : Nat} {p : Proc} (h : Runs (e.stopped mHev).procs pid p) :
    Runs e.procs pid p ∧ e.mTun2socksProcess ≠ some pid ∧ e.pdnsdPid ≠ some ⟨pid, true⟩ ∧
      e.mPdnsdProcess ≠ some pid := by
  have helim : ∀ {handle : Option Nat} {procs : List Proc}, Runs (handle.elim procs (destroy procs)) pid p →
      Runs procs pid p ∧ handle ≠ some pid := by
    intro handle procs hp
    cases handle with
    | none => exact ⟨hp, (Option.some_ne_none pid).symm⟩
    | some q =>
      obtain ⟨hold, hother⟩ := hp.of_exit
      exact ⟨hold, fun heq => hother (Option.some.inj heq)⟩
  obtain ⟨h, hpdnsd⟩ := helim h
  obtain ⟨h, hdaemon⟩ := h.of_killPidFile
  obtain ⟨h, htun⟩ := helim h
  exact ⟨h, htun, hdaemon, hpdnsd⟩

namespace StartPc

theorem storesPdnsd_of_stage {pc : StartPc} {pid : Nat} (h : pc.pdnsdStage = .started pid) : pc.storesPdnsd = true := by
  cases pc with
  | pdnsdStarted dnsThread q => rfl
  | _ => cases h

/-- The field of pdnsd is not looked at again. -/
theorem pdnsdStage_stored (pc : StartPc) (pid : Nat) : pc.pdnsdStage ≠ .stored pid ∧ pc.pdnsdStage ≠ .dropping := by
  cases pc <;> exact ⟨Stage.noConfusion, Stage.noConfusion⟩

/-- The thread writes the tun2socks handle where it has spawned or destroyed its process. -/
theorem handlesTun_of_stage {pc : StartPc} (h : (∃ pid, pc.tunStage = .started pid) ∨ pc.tunStage = .dropping) :
    pc.handlesTun = true := by
  cases pc with
  | tunStarted pid => rfl
  | tunDiscard => rfl
  | _ =>
    obtain ⟨_, h⟩ | h := h
    · cases h
    · cases h

end StartPc

namespace StartThread

variable {s : Svc} {t : StartThread} {reply : Reply} {p : Progress}

/-- A thread comes to store pdnsd by launching it, on the stock engine. -/
theorem advance_storesPdnsd (h : t.advance s reply = some p) (hstores : p.pc.storesPdnsd = true) :
    t.pc.launchesPdnsd = true ∧ s.mHev = false ∧ reply = .ok := by
  obtain ⟨g, pc⟩ := t
  unfold advance at h
  cases pc with
  | engine dnsThread =>
    simp only at h
    split at h
    · cases h
      cases hstores
    · rename_i hstock
      split at h
      · cases h
        cases hstores
      · split at h
        · rename_i hreply
          exact ⟨rfl, Bool.not_eq_true _ ▸ hstock, hreply⟩
        · cases h
          cases hstores
  | done => cases h
  | _ =>
    simp only at h
    repeat' split at h
    all_goals first | (cases h; done) | (cases h; cases hstores)

/-- A thread comes to handle tun2socks through its checkpoint. -/
theorem advance_handlesTun (h : t.advance s reply = some p) (hhandles : p.pc.handlesTun = true) :
    t.pc.handlesTun = true ∨ s.Own t.session := by
  obtain ⟨g, pc⟩ := t
  unfold advance at h
  cases pc with
  | checkpoint serverIp =>
    simp only at h
    split at h
    · cases h
      cases hhandles
    · rename_i hfresh
      exact .inr ⟨(Svc.fresh hfresh).2, (Svc.fresh hfresh).1⟩
  | pick _ | spawn _ | tunStarted _ | tunCheck _ | tunDiscard => exact .inl rfl
  | done => cases h
  | _ =>
    simp only at h
    repeat' split at h
    all_goals first | (cases h; done) | (cases h; cases hhandles)

/-- A thread comes to the native start through the check before it. -/
theorem advance_handlesHev (h : t.advance s reply = some p) (hhandles : p.pc.handlesHev = true) :
    t.pc.handlesHev = true ∨ s.Own t.session := by
  obtain ⟨g, pc⟩ := t
  unfold advance at h
  cases pc with
  | hevCheck =>
    simp only at h
    split at h
    · cases h
      cases hhandles
    · rename_i hfresh
      exact .inr ⟨(Svc.fresh hfresh).2, (Svc.fresh hfresh).1⟩
  | hevNative | hevClaim _ | hevVerify _ | hevFinal _ => exact .inl rfl
  | done => cases h
  | _ =>
    simp only at h
    repeat' split at h
    all_goals first | (cases h; done) | (cases h; cases hhandles)

/-- The tun2socks handle is stored at once after the spawn. -/
theorem advance_stores (h : t.advance s reply = some p) {pid : Nat} (hstarted : t.pc.tunStage = .started pid) :
    p.pc = .tunCheck pid := by
  obtain ⟨g, pc⟩ := t
  cases pc with
  | tunStarted q =>
    cases hstarted
    cases h
    rfl
  | _ => cases hstarted

end StartThread

/-- A resolver thread leaves the engines alone. -/
theorem DnsThread.advance_engines {s : Svc} {t : DnsThread} {reply : Reply} {p : DnsPc × Shared}
    (h : t.advance s reply = some p) : p.2.engines = s.engines := by
  obtain ⟨pc, e⟩ := p
  obtain ⟨cache, rfl⟩ | ⟨addr, _, rfl⟩ := DnsThread.advance_some h
  · rfl
  · rfl

namespace OwnHandles

variable {s s' : Svc}

theorem same (h : OwnHandles s) (running : s'.mRunning = s.mRunning) (seq : s'.mConnectSeq = s.mConnectSeq)
    (hev : s'.mHev = s.mHev) (threads : s'.startThreads = s.startThreads) : OwnHandles s' := by
  constructor
  · unfold Svc.Own
    rw [threads, running, seq]
    exact h.pdnsd
  · rw [threads, running, seq]
    exact h.tun
  · rw [threads, running, seq, hev]
    exact h.hev

/-- While nothing runs only pdnsd may be on a thread's hands, and a stop has ruled that out. -/
theorem idle (hidle : s.mRunning = false) (hknown : ∀ t ∈ s.startThreads, t.pc.storesPdnsd = false) :
    OwnHandles s := by
  have hnot : s.mRunning ≠ true := by
    rw [hidle]
    exact Bool.false_ne_true
  constructor
  · intro t ht hstores
    rw [hknown t ht] at hstores
    cases hstores
  · exact fun hrun => absurd hrun hnot
  · exact fun hrun => absurd hrun hnot

/-- A session starts with a thread at its begin, and free handles. -/
theorem start (h : OwnHandles s) (hidle : s.mRunning = false) (hfree : s.HandlesFree) (place n : Nat)
    (cmd : VpnIntent) : OwnHandles ((s.accept place cmd).start ((s.accept place cmd).session place n cmd)) := by
  constructor
  · intro t ht hstores
    obtain hold | hnew := List.mem_append.mp ht
    · have hrun := (h.pdnsd t hold hstores).1
      rw [hidle] at hrun
      cases hrun
    · obtain rfl := List.mem_singleton.mp hnew
      cases hstores
  · intro _ t ht hhandles
    obtain hold | hnew := List.mem_append.mp ht
    · rw [(hfree t hold).1] at hhandles
      cases hhandles
    · obtain rfl := List.mem_singleton.mp hnew
      rfl
  · intro _ hhev t ht hhandles
    obtain hold | hnew := List.mem_append.mp ht
    · rw [(hfree t hold).2 hhev] at hhandles
      cases hhandles
    · obtain rfl := List.mem_singleton.mp hnew
      rfl

/-- A thread comes to write a handle through a check of the counter, or by a launch of its
running session. -/
theorem thread (h : OwnHandles s) {i : Nat} {reply : Reply} {t : StartThread} {p : Progress}
    (ht : s.startThreads[i]? = some t) (hp : t.advance s reply = some p) (hok : s.LaunchesOwn (.thread i reply))
    (running : s'.mRunning = s.mRunning) (seq : s'.mConnectSeq = s.mConnectSeq) (hev : s'.mHev = s.mHev)
    (threads : s'.startThreads = s.startThreads.set i ⟨t.session, p.pc⟩) : OwnHandles s' := by
  have hmem : t ∈ s.startThreads := List.mem_of_getElem? ht
  constructor
  · unfold Svc.Own
    rw [threads, running, seq]
    intro u hu hstores
    obtain hold | rfl := List.mem_or_eq_of_mem_set hu
    · exact h.pdnsd u hold hstores
    · obtain ⟨hlaunches, hstock, hreply⟩ := StartThread.advance_storesPdnsd hp hstores
      exact hok t ht hlaunches hstock hreply
  · rw [threads, running, seq]
    intro hrun u hu hhandles
    obtain hold | rfl := List.mem_or_eq_of_mem_set hu
    · exact h.tun hrun u hold hhandles
    · obtain hbefore | hown := StartThread.advance_handlesTun hp hhandles
      · exact h.tun hrun t hmem hbefore
      · exact hown.2
  · rw [threads, running, seq, hev]
    intro hrun hengine u hu hhandles
    obtain hold | rfl := List.mem_or_eq_of_mem_set hu
    · exact h.hev hrun hengine u hold hhandles
    · obtain hbefore | hown := StartThread.advance_handlesHev hp hhandles
      · exact h.hev hrun hengine t hmem hbefore
      · exact hown.2

end OwnHandles

namespace Tracked

variable {s s' : Svc}

/-- A step away from sessions and engines. -/
theorem same (h : Tracked s) (running : s'.mRunning = s.mRunning) (seq : s'.mConnectSeq = s.mConnectSeq)
    (hev : s'.mHev = s.mHev) (threads : s'.startThreads = s.startThreads) (engines : s'.engines = s.engines) :
    Tracked s' := by
  have hprocs : s'.procs = s.procs := congrArg Engines.procs engines
  have hruns : ∀ pid p, Runs s'.procs pid p → Runs s.procs pid p := by
    rw [hprocs]
    exact fun _ _ => id
  constructor
  · exact h.own.same running seq hev threads
  · exact h.tun.keep running seq threads (congrArg Engines.mTun2socksProcess engines) fun pid p hp _ => hruns pid p hp
  · exact h.pdnsd.keep running seq threads (congrArg Engines.mPdnsdProcess engines) fun pid p hp _ => hruns pid p hp
  · exact h.family.keep running seq threads fun pid p hp _ => hruns pid p hp
  · apply h.native.keep (.inl (congrArg Engines.hevNative engines)) (congrArg Engines.mHevActive engines)
    · rw [running]
      exact id
    · rw [threads]
      exact fun _ => id

/-- A stop ends all that is held. -/
theorem down (h : Tracked s) (hseats : Seats s) (hknown : s.PdnsdKnown) (idle : s'.mRunning = false)
    (seq : s.mConnectSeq < s'.mConnectSeq) (threads : s'.startThreads = s.startThreads) (mHev : Bool)
    (shared : s'.toShared = s.toShared.stopped mHev) : Tracked s' := by
  have hruns : ∀ pid p, Runs s'.procs pid p → Runs s.procs pid p ∧ s.mTun2socksProcess ≠ some pid ∧
      s.pdnsdPid ≠ some ⟨pid, true⟩ ∧ s.mPdnsdProcess ≠ some pid := by
    intro pid p hp
    rw [shared] at hp
    exact hp.of_stopped
  constructor
  · apply OwnHandles.idle idle
    rw [threads]
    exact hknown.1
  · apply h.tun.down hseats seq threads
    intro pid p hp _
    obtain ⟨hold, htun, _⟩ := hruns pid p hp
    exact ⟨hold, htun⟩
  · apply h.pdnsd.down hseats seq threads
    intro pid p hp _
    obtain ⟨hold, _, _, hpdnsd⟩ := hruns pid p hp
    exact ⟨hold, hpdnsd⟩
  · apply Alone.of_none
    intro pid p hp
    obtain ⟨hold, _, hdaemon, hpdnsd⟩ := hruns pid p hp
    cases hengine : p.engine with
    | tun2socks => rfl
    | pdnsdDaemon =>
      obtain ⟨hlt, _⟩ := List.getElem?_eq_some_iff.mp hold.1
      exact absurd (hknown.2 pid hlt p hold.1 hengine hold.2) hdaemon
    | pdnsd =>
      -- its launcher is not on a thread's hands, so the handle has it
      obtain ⟨t, ht, hstarted | hstored⟩ | ⟨_, hheld, _⟩ := h.pdnsd.live pid p hold hengine
      · have hstores := StartPc.storesPdnsd_of_stage hstarted
        rw [hknown.1 t ht] at hstores
        cases hstores
      · exact absurd hstored (t.pc.pdnsdStage_stored pid).1
      · exact absurd hheld hpdnsd
  · apply h.native.down threads
    intro hnative
    have hends : s'.hevNative = if mHev || s.mHevActive then none else s.hevNative := by
      rw [shared]
      rfl
    cases hflag : s.mHevActive with
    | true =>
      rw [hends, hflag, Bool.or_true, if_pos rfl] at hnative
      exact absurd rfl hnative
    | false =>
      refine ⟨?_, rfl⟩
      cases mHev with
      | true =>
        rw [hends, Bool.true_or, if_pos rfl] at hnative
        exact absurd rfl hnative
      | false =>
        rw [hends, hflag]
        rfl

theorem start (h : Tracked s) (hseats : Seats s) (hidle : s.mRunning = false) (hfree : s.HandlesFree) (place n : Nat)
    (cmd : VpnIntent) : Tracked ((s.accept place cmd).start ((s.accept place cmd).session place n cmd)) := by
  constructor
  · exact h.own.start hidle hfree place n cmd
  · exact h.tun.start hseats hidle rfl rfl rfl rfl
  · exact h.pdnsd.start hseats hidle rfl rfl rfl rfl
  · apply Alone.of_none
    intro pid p hp
    by_contra hkind
    have hrun := (h.family.own pid p hp hkind).1
    rw [hidle] at hrun
    cases hrun
  · exact h.native.keep (.inl rfl) rfl (fun _ => rfl) fun t ht => List.mem_append_left _ ht

/-- **A thread keeps track**, when it launches pdnsd for its running session. -/
theorem thread (h : Tracked s) (hseats : Seats s) {i : Nat} {reply : Reply} {t : StartThread} {p : Progress}
    (ht : s.startThreads[i]? = some t) (hp : t.advance s reply = some p) (hok : s.LaunchesOwn (.thread i reply))
    (running : s'.mRunning = s.mRunning) (seq : s'.mConnectSeq = s.mConnectSeq) (hev : s'.mHev = s.mHev)
    (threads : s'.startThreads = s.startThreads.set i ⟨t.session, p.pc⟩) (shared : s'.toShared = p.shared) :
    Tracked s' := by
  have hmem : t ∈ s.startThreads := List.mem_of_getElem? ht
  have hstarted : ∀ pid, t.pc.pdnsdStage = .started pid → s.Own t.session := fun pid hstage =>
    h.own.pdnsd t hmem (StartPc.storesPdnsd_of_stage hstage)
  have htun := StartThread.advance_tun hp
  have hpdnsd := StartThread.advance_pdnsd hp
  have hhev := StartThread.advance_hev hp
  rw [← shared] at htun hpdnsd hhev
  constructor
  · exact h.own.thread ht hp hok running seq hev threads
  · refine h.tun.thread hseats ht running seq threads htun ?_ ?_
    · exact fun hstage hrun => h.own.tun hrun t hmem (StartPc.handlesTun_of_stage hstage)
    · intro pid hstage hafter
      obtain hstage | hstage := hstage
      · rw [StartThread.advance_stores hp hstage] at hafter
        cases hafter
      · exact StartThread.advance_passes hp hstage hafter
  · have hlauncher : ∀ e : Engine, e = .pdnsd → e ≠ .tun2socks := by
      rintro _ rfl
      exact Engine.noConfusion
    refine h.pdnsd.thread hseats ht running seq threads (hpdnsd.mono hlauncher) ?_ ?_
    · intro hstage _
      obtain ⟨pid, hstage⟩ | hstage := hstage
      · exact (hstarted pid hstage).2
      · exact absurd hstage (t.pc.pdnsdStage_stored 0).2
    · intro pid hstage _
      obtain hstage | hstage := hstage
      · exact hstarted pid hstage
      · exact absurd hstage (t.pc.pdnsdStage_stored pid).1
  · refine h.family.thread ht running seq threads hseats hpdnsd ?_
    intro _ pid hspawned
    obtain ⟨hlaunches, hstock, hreply⟩ :=
      StartThread.advance_storesPdnsd hp (StartPc.storesPdnsd_of_stage hspawned)
    exact hok t ht hlaunches hstock hreply
  · exact h.native.thread ht running threads hhev

/-- A process exits by itself. -/
theorem exit (h : Tracked s) (pid : Nat) (code : Int) : Tracked { s with procs := exitWith s.procs pid code } := by
  have hruns : ∀ q p, Runs (exitWith s.procs pid code) q p → Runs s.procs q p := fun q p hp => hp.of_exit.1
  constructor
  · exact h.own.same rfl rfl rfl rfl
  · exact h.tun.keep rfl rfl rfl rfl fun q p hp _ => hruns q p hp
  · exact h.pdnsd.keep rfl rfl rfl rfl fun q p hp _ => hruns q p hp
  · exact h.family.keep rfl rfl rfl fun q p hp _ => hruns q p hp
  · exact h.native

/-- The files are no handles. -/
theorem files (h : Tracked s) (file : Option PidFile) (opened : List Nat) (read : Option HevConf) :
    Tracked { s with pdnsdPid := file, pidOpened := opened, hevRead := read } := by
  constructor
  · exact h.own.same rfl rfl rfl rfl
  · exact h.tun.keep rfl rfl rfl rfl fun _ _ hp _ => hp
  · exact h.pdnsd.keep rfl rfl rfl rfl fun _ _ hp _ => hp
  · exact h.family.keep rfl rfl rfl fun _ _ hp _ => hp
  · exact h.native

/-- The pdnsd launcher leaves its daemon behind. -/
theorem daemonize (h : Tracked s) {pid : Nat} {p : Proc} (hp : s.procs[pid]? = some p) (hpdnsd : p.engine = .pdnsd)
    (hlive : p.exit = none) (file : Option PidFile) : Tracked { s with
      procs := exitWith s.procs pid 0 ++ [⟨.pdnsdDaemon, p.session, p.command, none⟩]
      pdnsdPid := file } := by
  have hruns : ∀ q r, Runs (exitWith s.procs pid 0 ++ [⟨.pdnsdDaemon, p.session, p.command, none⟩]) q r →
      r.engine ≠ .pdnsdDaemon → Runs s.procs q r := by
    intro q r hr hkind
    obtain hold | ⟨_, hnew⟩ := hr.of_append
    · exact hold.of_exit.1
    · rw [hnew] at hkind
      exact absurd rfl hkind
  constructor
  · exact h.own.same rfl rfl rfl rfl
  · refine h.tun.keep rfl rfl rfl rfl fun q r hr hkind => hruns q r hr ?_
    rw [hkind]
    exact Engine.noConfusion
  · refine h.pdnsd.keep rfl rfl rfl rfl fun q r hr hkind => hruns q r hr ?_
    rw [hkind]
    exact Engine.noConfusion
  · exact h.family.daemonize ⟨hp, hlive⟩ hpdnsd rfl rfl rfl 0 rfl
  · exact h.native

theorem hevExit (h : Tracked s) : Tracked { s with hevNative := none } := by
  constructor
  · exact h.own.same rfl rfl rfl rfl
  · exact h.tun.keep rfl rfl rfl rfl fun _ _ hp _ => hp
  · exact h.pdnsd.keep rfl rfl rfl rfl fun _ _ hp _ => hp
  · exact h.family.keep rfl rfl rfl fun _ _ hp _ => hp
  · exact fun hnative => absurd rfl hnative

/-- One step keeps track of every engine. -/
theorem step (h : Tracked s) (hseats : Seats s) {a : Act} (hok : s.Contained a) (hs : Svc.step s a = some s') :
    Tracked s' := by
  have same : ∀ {t u : Svc}, Tracked t → Still t u → Tracked u := fun ht hu =>
    ht.same hu.running hu.connectSeq (congrArg Scene.hev hu.scene) hu.threads hu.engines
  cases Svc.step_turn hs with
  | still hstill => exact same h hstill
  | @stop _ t _ reason origin hstops hbefore hafter =>
    have hknown : t.PdnsdKnown := by
      unfold Svc.PdnsdKnown
      rw [hbefore.threads, show t.procs = s.procs from congrArg Engines.procs hbefore.engines,
        show t.pdnsdPid = s.pdnsdPid from congrArg Engines.pdnsdPid hbefore.engines]
      exact hok.1 hstops
    have hstopped : Tracked (t.teardown reason origin) :=
      (same h hbefore).down (hseats.still hbefore) hknown rfl (Nat.lt_succ_self _) rfl t.mHev rfl
    exact same hstopped hafter
  | fail place cmd reason hstops hidle hafter =>
    have hmore : s.mConnectSeq < ((s.accept place cmd).teardown reason none).mConnectSeq :=
      (Nat.lt_succ_self _).trans (Nat.lt_succ_self _)
    have hstopped : Tracked ((s.accept place cmd).teardown reason none) :=
      h.down hseats (hok.1 hstops) rfl hmore rfl _ rfl
    exact same hstopped hafter
  | @start saved place n extras cmd queue _ hq hidle hcmd hafter =>
    have hstarts : s.starts (.deliver saved (.fd n)) = some cmd := Svc.starts_eq hq hidle hcmd n
    have hfree : s.HandlesFree := hok.2.1 (by rw [hstarts]; rfl)
    exact same (h.start hseats hidle hfree place n cmd) hafter
  | thread ht hp => exact h.thread hseats ht hp hok.2.2 rfl rfl rfl rfl rfl
  | dns ht hp => exact h.same rfl rfl rfl rfl (DnsThread.advance_engines hp)
  | exit pid code => exact h.exit pid code
  | pidFile file opened => exact h.files file opened s.hevRead
  | daemonize hp hpdnsd hlive => exact h.daemonize hp hpdnsd hlive _
  | hevRead => exact h.files s.pdnsdPid s.pidOpened _
  | hevExit => exact h.hevExit

/-- In every run under the condition everything that lives is tracked. -/
theorem reachable (h : Reaches system Svc.Contained s) : Tracked s := by
  apply Reaches.invariant_of (J := Single) (P := Tracked) _ _ _ h
  · exact fun s hs => Single.reachable hs.reachable
  · intro s hs
    obtain ⟨w, accelDns, _, rfl⟩ := hs
    have hnone : ∀ pid p, ¬ Runs (Svc.created w accelDns).procs pid p := fun _ _ hp => nomatch hp.1
    constructor
    · exact .idle rfl fun t ht => nomatch ht
    · exact ⟨fun pid p hp _ => absurd hp (hnone pid p), fun t ht => nomatch ht⟩
    · exact ⟨fun pid p hp _ => absurd hp (hnone pid p), fun t ht => nomatch ht⟩
    · exact .of_none fun pid p hp => absurd hp (hnone pid p)
    · exact fun hnative => absurd rfl hnative
  · exact fun s a s' hsingle hs hok hstep => hs.step hsingle.toSeats hok hstep

/-- When the service is idle and its threads are done, nothing runs. -/
theorem ended (h : Tracked s) (hidle : s.mRunning = false) (hdone : ∀ t ∈ s.startThreads, t.pc = .done) :
    NoEngines s := by
  constructor
  · intro p hp hlive
    obtain ⟨pid, hpid⟩ := List.mem_iff_getElem?.mp hp
    have hruns : Runs s.procs pid p := ⟨hpid, hlive⟩
    by_cases hkind : p.engine = .tun2socks
    · obtain ⟨t, ht, hstage⟩ | ⟨hrun, _⟩ := h.tun.live pid p hruns hkind
      · rw [hdone t ht] at hstage
        obtain hstage | hstage := hstage
        · cases hstage
        · cases hstage
      · exact Bool.false_ne_true (hidle.symm.trans hrun)
    · exact Bool.false_ne_true (hidle.symm.trans (h.family.own pid p hruns hkind).1)
  · by_contra hnative
    obtain ⟨t, ht, hclaim⟩ | ⟨_, hrun | ⟨t, ht, hverify⟩⟩ := h.native hnative
    · rw [hdone t ht] at hclaim
      cases hclaim
    · exact Bool.false_ne_true (hidle.symm.trans hrun)
    · rw [hdone t ht] at hverify
      cases hverify

end Tracked

/-- A thread of an earlier session leaves the handles alone. -/
theorem handles_kept {s s' : Svc} {i : Nat} {reply : Reply} {t : StartThread} (hown : OwnHandles s)
    (ht : s.startThreads[i]? = some t) (hs : Svc.step s (.thread i reply) = some s') (hrun : s.mRunning = true)
    (hearlier : t.session.connectSeq ≠ s.mConnectSeq) : HandlesKept s s' := by
  obtain ⟨u, p, hu, hp, rfl⟩ := Svc.stepThread_some hs
  obtain rfl := Option.some.inj (ht.symm.trans hu)
  have hmem : t ∈ s.startThreads := List.mem_of_getElem? ht
  have htun : ¬ ((∃ pid, t.pc.tunStage = .started pid) ∨ t.pc.tunStage = .dropping) := fun hstage =>
    hearlier (hown.tun hrun t hmem (StartPc.handlesTun_of_stage hstage))
  have hfinal : s.mHev = true → ∀ alive, t.pc ≠ .hevFinal alive := by
    intro hhev alive hpc
    apply hearlier (hown.hev hrun hhev t hmem _)
    rw [hpc]
    rfl
  constructor
  · exact (StartThread.advance_tun hp).handle_same (fun pid hstage => htun (.inl ⟨pid, hstage⟩))
      fun hstage => htun (.inr hstage)
  · apply (StartThread.advance_pdnsd hp).handle_same
    · exact fun pid hstage => hearlier (hown.pdnsd t hmem (StartPc.storesPdnsd_of_stage hstage)).2
    · exact (t.pc.pdnsdStage_stored 0).2
  · intro hhev hactive
    cases StartThread.advance_hev hp with
    | still _ hkeeps _ _ => exact hkeeps hactive
    | start _ hsame _ => exact hsame.trans hactive
    | wait _ hflag _ =>
      obtain hset | ⟨hsame, _⟩ := hflag
      · exact hset
      · exact hsame.trans hactive
    | stop _ hstops =>
      obtain ⟨alive, hpc⟩ := hstops
      exact absurd hpc (hfinal hhev alive)
    | up _ hsame _ _ => exact hsame.trans hactive
  · intro hhev hnative
    cases StartThread.advance_hev hp with
    | still hsame _ _ _ => exact hsame
    | start hnone _ _ =>
      rw [hnone] at hnative
      cases hnative
    | wait hsame _ _ => exact hsame
    | stop _ hstops =>
      obtain ⟨alive, hpc⟩ := hstops
      exact absurd hpc (hfinal hhev alive)
    | up hsame _ _ _ => exact hsame

/-- **No engine outlives its session**, and no thread of an earlier session touches the
handles of a running one, in contained runs. -/
theorem engines_end {s : Svc} (h : Reaches system Svc.Contained s) :
    (s.mRunning = false → (∀ t ∈ s.startThreads, t.pc = .done) → NoEngines s) ∧
    ∀ i reply t s', s.startThreads[i]? = some t → Svc.step s (.thread i reply) = some s' → s.mRunning = true →
      t.session.connectSeq ≠ s.mConnectSeq → HandlesKept s s' :=
  ⟨(Tracked.reachable h).ended, fun _ _ _ _ ht hs hrun hearlier =>
    handles_kept (Tracked.reachable h).own ht hs hrun hearlier⟩

/-- Two sessions come and go, the first with a pdnsd that has become a daemon; a thread
whose stop landed during its lookup ends under the session after. -/
theorem engines_end_two :
    (∃ s : Svc, s.procs.length = 5 ∧ s.mConnectSeq = 4 ∧ NoEngines s) ∧
    ∃ s s' : Svc, Svc.step s (.thread 0 .ok) = some s' ∧ s.mTun2socksProcess ≠ none ∧ HandlesKept s s' := by
  constructor
  · have hrun : (execWhere system Svc.Contained (Svc.created phone none)
        ([.sendStart (some (startOf "Work".toList "a.example".toList)), .deliver none (.fd 3)] ++
          bringUp 0 "203.0.113.1".toList ++ [.change (.openPidFile 0), .change (.daemonize 0), .change (.writePid 2),
           .external .binderStop, .sendStart (some (startOf "Home".toList "b.example".toList)), .deliver none (.fd 4)] ++
          bringUp 1 "203.0.113.2".toList ++ [.external .binderStop])).map
        (fun s => decide (s.procs.length = 5 ∧ s.mConnectSeq = 4 ∧ s.mRunning = false ∧
          ∀ t ∈ s.startThreads, t.pc = .done)) = some true := by decide +kernel
    obtain ⟨s, hs, hstate⟩ := Option.map_eq_some_iff.mp hrun
    obtain ⟨hprocs, hseq, hidle, hdone⟩ := of_decide_eq_true hstate
    have hreaches := execWhere_reaches _ (created_reachable rfl none) hs
    exact ⟨s, hprocs, hseq, (engines_end hreaches).1 hidle hdone⟩
  · have hrun : (execWhere system Svc.Contained (Svc.created phone none)
        ([.sendStart (some (startOf "Work".toList "a.example".toList)), .deliver none (.fd 3),
          .thread 0 .ok, .thread 0 .ok, .thread 0 .ok, .thread 0 .ok, .thread 0 (.resolved none), .external .binderStop,
          .sendStart (some (startOf "Home".toList "b.example".toList)), .deliver none (.fd 4)] ++
          bringUp 1 "203.0.113.2".toList)).map
        (fun s => decide ((Svc.step s (.thread 0 .ok)).isSome = true ∧ s.mTun2socksProcess ≠ none ∧ s.mRunning = true ∧
          s.startThreads[0]?.map (fun t => t.session.connectSeq) = some 1 ∧
          s.mConnectSeq = 3)) = some true := by decide +kernel
    obtain ⟨s, hs, hstate⟩ := Option.map_eq_some_iff.mp hrun
    obtain ⟨hstep, hheld, hrunning, hthread, hseq⟩ := of_decide_eq_true hstate
    obtain ⟨s', hstep⟩ := Option.isSome_iff_exists.mp hstep
    obtain ⟨t, ht, hone⟩ := Option.map_eq_some_iff.mp hthread
    have hreaches := execWhere_reaches _ (created_reachable rfl none) hs
    have hearlier : t.session.connectSeq ≠ s.mConnectSeq := by omega
    exact ⟨s, s', hstep, hheld, (engines_end hreaches).2 0 .ok t s' ht hstep hrunning hearlier⟩

/-- A stop lands before pdnsd is spawned, and pdnsd runs on; a thread that saw the stop
nulls the tun2socks handle of the session after. -/
theorem pdnsd_outlives :
    (¬ ∀ s, Reachable system s → s.mRunning = false → (∀ t ∈ s.startThreads, t.pc = .done) → NoEngines s) ∧
    ¬ ∀ s s' i reply t, Reachable system s → s.startThreads[i]? = some t →
      Svc.step s (.thread i reply) = some s' → s.mRunning = true → t.session.connectSeq ≠ s.mConnectSeq →
      HandlesKept s s' := by
  constructor
  · intro h
    have hrun : (exec system (Svc.created phone none)
        [.sendStart (some (startOf "Work".toList "a.example".toList)), .deliver none (.fd 3), .thread 0 .ok,
         .external .binderStop, .thread 0 .ok, .thread 0 .ok, .thread 0 .ok, .thread 0 (.resolved none),
         .thread 0 .ok]).map
        (fun s => decide (s.mRunning = false ∧ (∀ t ∈ s.startThreads, t.pc = .done) ∧ ∃ p ∈ s.procs, p.exit = none)) =
        some true := by decide +kernel
    obtain ⟨s, hs, hstate⟩ := Option.map_eq_some_iff.mp hrun
    obtain ⟨hidle, hdone, p, hp, hlive⟩ := of_decide_eq_true hstate
    exact (h s (exec_reaches _ (created_reachable rfl none) hs) hidle hdone).procs p hp hlive
  · intro h
    have hrun : (exec system (Svc.created phone none)
        ([.sendStart (some (startOf "Work".toList "a.example".toList)), .deliver none (.fd 3),
          .thread 0 .ok, .thread 0 .ok, .thread 0 .ok, .thread 0 .ok, .thread 0 (.resolved none), .thread 0 .ok,
          .thread 0 .ok, .thread 0 .ok, .thread 0 .ok, .external .binderStop, .thread 0 .ok,
          .sendStart (some (startOf "Home".toList "b.example".toList)), .deliver none (.fd 4)] ++
          bringUp 1 "203.0.113.2".toList)).map
        (fun s => decide (s.mRunning = true ∧ s.mConnectSeq = 3 ∧
          s.startThreads[0]?.map (fun t => t.session.connectSeq) = some 1 ∧ s.mTun2socksProcess ≠ none ∧
          (Svc.step s (.thread 0 .ok)).map (fun s' => s'.mTun2socksProcess) = some none)) = some true := by decide +kernel
    obtain ⟨s, hs, hstate⟩ := Option.map_eq_some_iff.mp hrun
    obtain ⟨hrunning, hseq, hthread, hheld, hstep⟩ := of_decide_eq_true hstate
    obtain ⟨t, ht, hone⟩ := Option.map_eq_some_iff.mp hthread
    obtain ⟨s', hstep, hnull⟩ := Option.map_eq_some_iff.mp hstep
    have hearlier : t.session.connectSeq ≠ s.mConnectSeq := by omega
    have hkept := h s s' 0 .ok t (exec_reaches _ (created_reachable rfl none) hs) ht hstep hrunning hearlier
    exact hheld (hkept.tun2socks.symm.trans hnull)

end KiloProxy.Vpn
