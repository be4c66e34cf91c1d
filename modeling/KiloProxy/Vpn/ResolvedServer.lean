import KiloProxy.Vpn.Turns

/-!
# Whose server an address belongs to

`mResolvedServer` is one field that the threads of every session write, and hev.yml is
one file. A lookup that ends late leaves the address of its session's server to a session
with another server, which then checks its exit address, or brings its tunnel up, over
the wrong proxy. When lookups end before a session with another server runs, and hev.yml
stays as the thread wrote it until the native tunnel has read it, every address a session
uses is its own server or was resolved for it.
-/

namespace KiloProxy.Vpn
set_option autoImplicit false
open KiloProxy.Text KiloProxy.Util KiloProxy.Service KiloProxy.Run

/-- `addr` is the server itself, or a resolution of it. -/
def Owns (resolutions : List Resolution) (server addr : Option Str) : Prop :=
  addr = server ∨ ∃ r ∈ resolutions, r.session.server = server ∧ r.addr = addr

instance (resolutions : List Resolution) (server addr : Option Str) : Decidable (Owns resolutions server addr) := by
  unfold Owns
  infer_instance

theorem Owns.mono {l l' : List Resolution} {server addr : Option Str} (h : Owns l server addr)
    (more : ∀ r ∈ l, r ∈ l') : Owns l' server addr := by
  obtain hself | ⟨r, hr, hserver, haddr⟩ := h
  · exact .inl hself
  · exact .inr ⟨r, more r hr, hserver, haddr⟩

/-- Every address in use is that of the session that uses it: those in the command lines
of tun2socks, the one hev.yml holds at a native start, the one the native tunnel has read
from it, those of the ip checks. -/
structure OwnAddresses (s : Svc) : Prop where
  tun2socks : ∀ p ∈ s.procs, p.engine = .tun2socks → ∃ t ∈ s.startThreads, t.session.connectSeq = p.session ∧
    ∃ dir addr, Owns s.resolutions t.session.server addr ∧ p.command = tun2socksCommand dir t.session addr
  hev : ∀ t ∈ s.startThreads, t.pc = .hevNative →
    ∃ conf, s.hevYml = some conf ∧ Owns s.resolutions t.session.server (some conf.serverIp)
  native : ∀ seq ∈ s.hevNative, ∀ conf ∈ s.hevRead, ∃ t ∈ s.startThreads, t.session.connectSeq = seq ∧
    Owns s.resolutions t.session.server (some conf.serverIp)
  checks : ∀ c ∈ s.mIpCheckExecutor, ∃ t ∈ s.startThreads, t.session.connectSeq = c.probe.session ∧
    Owns s.resolutions t.session.server c.probe.server

/-! ## The condition -/

/-- The next step stores an address. -/
def DnsPc.stores : DnsPc → Bool
  | .storing (some _) => true
  | _ => false

/-- The next step writes hev.yml. -/
def StartPc.writesYml : StartPc → Bool
  | .hevConf _ _ => true
  | _ => false

namespace Svc

/-- The thread has written hev.yml and is going to start the tunnel with it, or its tunnel
has yet to read it. -/
def needsYml (s : Svc) (t : StartThread) : Bool :=
  t.pc = .hevNative || (t.pc = .hevCheck && t.session.connectSeq = s.mConnectSeq) ||
    (s.hevNative = some t.session.connectSeq && s.hevRead.isNone)

/-- The start at the head of the queue finds no address but its own server's. -/
def FindsOwn (s : Svc) (saved : Option ProfileValues) (established : Established) :
    List (Nat × ServiceIntent) → Prop
  | (_, .start extras) :: _ => s.mRunning = true ∨ established ∈ [Established.threw, .null] ∨
      ∀ cmd ∈ s.command extras saved, ∀ a ∈ s.mResolvedServer, Owns s.resolutions cmd.server (some a)
  | _ => True

/-- No thread stores an address while a session with another server runs, no such address
is left to a start, and no thread writes hev.yml while another server's session has yet to
read it. -/
def Addressed (s : Svc) : Act → Prop
  | .deliver saved established => s.FindsOwn saved established s.queue
  | .thread i _ => ∀ t ∈ s.startThreads[i]?,
      (t.pc = .lookup → s.mRunning = true → t.session.server = s.mServer) ∧
      (t.pc.writesYml = true → ∀ u ∈ s.startThreads, s.needsYml u = true → u.session.server = t.session.server)
  | .dns i _ => ∀ t ∈ s.dnsThreads[i]?, t.pc.stores = true → s.mRunning = true → t.session.server = s.mServer
  | _ => True

instance (s : Svc) (saved : Option ProfileValues) (established : Established) :
    (queue : List (Nat × ServiceIntent)) → Decidable (s.FindsOwn saved established queue)
  | (_, .start extras) :: _ => inferInstanceAs (Decidable (s.mRunning = true ∨
      established ∈ [Established.threw, .null] ∨
      ∀ cmd ∈ s.command extras saved, ∀ a ∈ s.mResolvedServer, Owns s.resolutions cmd.server (some a)))
  | (_, .stop) :: _ => inferInstanceAs (Decidable True)
  | [] => inferInstanceAs (Decidable True)

instance (s : Svc) (a : Act) : Decidable (s.Addressed a) :=
  match a with
  | .deliver saved established => inferInstanceAs (Decidable (s.FindsOwn saved established s.queue))
  | .thread i _ => inferInstanceAs (Decidable (∀ t ∈ s.startThreads[i]?,
      (t.pc = .lookup → s.mRunning = true → t.session.server = s.mServer) ∧
      (t.pc.writesYml = true → ∀ u ∈ s.startThreads, s.needsYml u = true → u.session.server = t.session.server)))
  | .dns i _ => inferInstanceAs (Decidable (∀ t ∈ s.dnsThreads[i]?,
      t.pc.stores = true → s.mRunning = true → t.session.server = s.mServer))
  | .sendStart _ | .sendStop | .external _ | .screenOn | .task _ _ | .stats _ _ | .ipCheck _ | .probeBegin
  | .probeEnd _ | .monitor _ | .change _ => inferInstanceAs (Decidable True)

end Svc

/-! ## The invariant -/

/-- hev.yml names the server, or a resolution of it. -/
def YmlOwn (yml : Option HevConf) (resolutions : List Resolution) (server : Option Str) : Prop :=
  ∃ conf, yml = some conf ∧ Owns resolutions server (some conf.serverIp)

/-- What the thread carries to the engine is its own server's; at a checkpoint this is
only known of the session that holds the counter. -/
def Carries (seq : Nat) (yml : Option HevConf) (resolutions : List Resolution) (t : StartThread) : Prop :=
  match t.pc with
  | .checkpoint addr => t.session.connectSeq = seq → Owns resolutions t.session.server addr
  | .pick addr | .spawn addr | .hevConf addr _ => Owns resolutions t.session.server addr
  | .hevCheck => t.session.connectSeq = seq → YmlOwn yml resolutions t.session.server
  | .hevNative => YmlOwn yml resolutions t.session.server
  | _ => True

/-- What a process was started as. -/
def Proc.launch (p : Proc) : Engine × Nat × List Str := (p.engine, p.session, p.command)

structure Served (s : Svc) : Prop where
  live : ∀ t ∈ s.startThreads, t.session.connectSeq = s.mConnectSeq → s.mServer = t.session.server
  resolved : s.mRunning = true → ∀ a ∈ s.mResolvedServer, Owns s.resolutions s.mServer (some a)
  carried : ∀ t ∈ s.startThreads, Carries s.mConnectSeq s.hevYml s.resolutions t
  handed : ∀ l ∈ s.procs.map Proc.launch, l.1 = .tun2socks → ∃ t ∈ s.startThreads, t.session.connectSeq = l.2.1 ∧
    ∃ dir addr, Owns s.resolutions t.session.server addr ∧ l.2.2 = tun2socksCommand dir t.session addr
  /-- The native tunnel runs with what it has read, or is to read it from hev.yml. -/
  native : ∀ seq ∈ s.hevNative, ∃ t ∈ s.startThreads, t.session.connectSeq = seq ∧
    YmlOwn (s.hevRead.or s.hevYml) s.resolutions t.session.server
  checks : ∀ c ∈ s.mIpCheckExecutor, ∃ t ∈ s.startThreads, t.session.connectSeq = c.probe.session ∧
    Owns s.resolutions t.session.server c.probe.server

theorem YmlOwn.mono {yml : Option HevConf} {l l' : List Resolution} {server : Option Str} (h : YmlOwn yml l server)
    (more : ∀ r ∈ l, r ∈ l') : YmlOwn yml l' server := by
  obtain ⟨conf, hconf, hown⟩ := h
  exact ⟨conf, hconf, hown.mono more⟩

/-- Later resolutions, and a later counter, take nothing from what a thread carries. -/
theorem Carries.mono {seq seq' : Nat} {yml : Option HevConf} {l l' : List Resolution} {t : StartThread}
    (h : Carries seq yml l t) (counter : t.session.connectSeq = seq' → t.session.connectSeq = seq)
    (more : ∀ r ∈ l, r ∈ l') : Carries seq' yml l' t := by
  unfold Carries at h ⊢
  split
  · rename_i addr hpc
    rw [hpc] at h
    exact fun hseq => (h (counter hseq)).mono more
  · rename_i addr hpc
    rw [hpc] at h
    exact h.mono more
  · rename_i addr hpc
    rw [hpc] at h
    exact h.mono more
  · rename_i addr udp hpc
    rw [hpc] at h
    exact h.mono more
  · rename_i hpc
    rw [hpc] at h
    exact fun hseq => (h (counter hseq)).mono more
  · rename_i hpc
    rw [hpc] at h
    exact h.mono more
  · trivial

/-- hev.yml may be written anew when it suits the threads that are going to start with it. -/
theorem Carries.rewritten {seq : Nat} {yml yml' : Option HevConf} {l : List Resolution} {t : StartThread}
    (h : Carries seq yml l t)
    (check : t.pc = .hevCheck → t.session.connectSeq = seq → YmlOwn yml' l t.session.server)
    (native : t.pc = .hevNative → YmlOwn yml' l t.session.server) : Carries seq yml' l t := by
  unfold Carries at h ⊢
  cases hpc : t.pc with
  | hevCheck => exact check hpc
  | hevNative => exact native hpc
  | _ =>
    rw [hpc] at h
    exact h

/-- An exit changes nothing of what was started. -/
theorem exitWith_launches (procs : List Proc) (pid : Nat) (code : Int) :
    (exitWith procs pid code).map Proc.launch = procs.map Proc.launch := by
  apply List.ext_getElem?
  intro i
  unfold exitWith
  rw [List.getElem?_map, List.getElem?_map, List.getElem?_modify]
  cases procs[i]? with
  | none => rfl
  | some p =>
    simp only [Option.map_eq_map, Option.map_some]
    split
    · split
      · rfl
      · rfl
    · rfl

theorem stopped_launches (e : Shared) (mHev : Bool) : (e.stopped mHev).procs.map Proc.launch = e.procs.map Proc.launch := by
  have helim : ∀ (handle : Option Nat) (procs : List Proc),
      (handle.elim procs (destroy procs)).map Proc.launch = procs.map Proc.launch := by
    intro handle procs
    cases handle with
    | none => rfl
    | some pid => exact exitWith_launches procs pid sigterm
  have hkill : ∀ (procs : List Proc) (file : Option PidFile),
      (killPidFile procs file).1.map Proc.launch = procs.map Proc.launch := by
    intro procs file
    unfold killPidFile
    split
    · exact exitWith_launches procs _ sigterm
    · rfl
  unfold Shared.stopped
  exact (helim _ _).trans ((hkill _ _).trans (helim _ _))

/-- A stop keeps the native tunnel or ends it. -/
theorem Shared.stopped_native (e : Shared) (mHev : Bool) : ∀ seq ∈ (e.stopped mHev).hevNative, seq ∈ e.hevNative := by
  intro seq hseq
  replace hseq : seq ∈ if mHev || e.mHevActive then none else e.hevNative := hseq
  split at hseq
  · cases hseq
  · exact hseq

/-! ## Steps of the threads -/

/-- The fields an address passes through. -/
def Shared.address (e : Shared) : Option Str × List Resolution × Option HevConf :=
  (e.mResolvedServer, e.resolutions, e.hevYml)

namespace StartThread

variable {s : Svc} {t : StartThread} {reply : Reply} {p : Progress}

/-- A thread that moves on carries its own server's address on; it stores one at the end
of its lookup, and writes the one it carries to hev.yml. -/
theorem advance_address (h : t.advance s reply = some p) (hc : Carries s.mConnectSeq s.hevYml s.resolutions t)
    (hjoin : t.session.connectSeq = s.mConnectSeq →
      ∀ a ∈ s.mResolvedServer, Owns s.resolutions t.session.server (some a)) :
    p.shared.address = s.toShared.address ∧ Carries s.mConnectSeq s.hevYml s.resolutions ⟨t.session, p.pc⟩ ∨
    (t.pc = .lookup ∧ ∃ addr, p.pc = .checkpoint addr ∧
      p.shared.address = (addr, s.resolutions ++ [⟨t.session, addr⟩], s.hevYml)) ∨
    ∃ udp conf, t.pc = .hevConf (some conf.serverIp) udp ∧ p.pc = .hevCheck ∧
      p.shared.address = (s.mResolvedServer, s.resolutions, some conf) := by
  obtain ⟨g, pc⟩ := t
  unfold advance at h
  cases pc with
  | lookup =>
    right
    left
    simp only at h
    split at h
    · cases h
      exact ⟨rfl, _, rfl, rfl⟩
    · cases h
  | joining dnsThread since =>
    left
    simp only at h
    split at h
    · cases h
      refine ⟨rfl, fun hseq => ?_⟩
      cases hres : s.mResolvedServer with
      | none => exact .inl rfl
      | some a => exact hjoin hseq a hres
    · cases h
  | checkpoint addr =>
    left
    simp only at h
    split at h
    · cases h
      exact ⟨rfl, trivial⟩
    · rename_i hfresh
      cases h
      exact ⟨rfl, hc (Svc.fresh hfresh).1⟩
  | pick addr =>
    left
    simp only at h
    split at h
    · cases h
      exact ⟨rfl, hc⟩
    · cases h
      exact ⟨rfl, hc⟩
  | hevConf addr udp =>
    simp only at h
    split at h
    · cases h
      exact .inl ⟨rfl, trivial⟩
    · rename_i hsome
      split at h
      · cases h
        exact .inl ⟨rfl, trivial⟩
      · right
        right
        cases h
        cases addr with
        | none => exact absurd rfl hsome
        | some ip => exact ⟨udp, _, rfl, rfl, rfl⟩
  | hevCheck =>
    left
    simp only at h
    split at h
    · cases h
      exact ⟨rfl, trivial⟩
    · rename_i hfresh
      cases h
      exact ⟨rfl, hc (Svc.fresh hfresh).1⟩
  | done => cases h
  | _ =>
    left
    simp only at h
    repeat' split at h
    all_goals first | (cases h; done) | (cases h; exact ⟨rfl, trivial⟩)

/-- A thread leaves the native tunnel, stops it, or starts it with hev.yml unread. -/
theorem advance_native (h : t.advance s reply = some p) :
    p.shared.hevNative = none ∨ (p.shared.hevNative = s.hevNative ∧ p.shared.hevRead = s.hevRead) ∨
      (t.pc = .hevNative ∧ p.shared.hevNative = some t.session.connectSeq ∧ p.shared.hevRead = none) := by
  obtain ⟨g, pc⟩ := t
  unfold advance at h
  cases pc with
  | hevNative =>
    right
    simp only at h
    split at h
    · cases h
      exact .inl ⟨rfl, rfl⟩
    · cases h
      exact .inl ⟨rfl, rfl⟩
    · split at h
      · cases h
        exact .inl ⟨rfl, rfl⟩
      · cases h
        exact .inr ⟨rfl, rfl, rfl⟩
    · cases h
      exact .inl ⟨rfl, rfl⟩
  | hevFinal alive =>
    simp only at h
    split at h
    · cases h
      exact .inl rfl
    · split at h
      · cases h
        exact .inr (.inl ⟨rfl, rfl⟩)
      · cases h
        exact .inl rfl
  | done => cases h
  | _ =>
    right
    left
    simp only at h
    repeat' split at h
    all_goals first | (cases h; done) | (cases h; exact ⟨rfl, rfl⟩)

/-- tun2socks is started with the address the thread carries. -/
theorem advance_launches (h : t.advance s reply = some p) :
    p.shared.procs.map Proc.launch = s.procs.map Proc.launch ∨
    ∃ l, p.shared.procs.map Proc.launch = s.procs.map Proc.launch ++ [l] ∧ (l.1 = .tun2socks →
      ∃ addr, t.pc = .spawn addr ∧ l.2 = (t.session.connectSeq, tun2socksCommand s.libDir t.session addr)) := by
  obtain ⟨g, pc⟩ := t
  unfold advance at h
  cases pc with
  | engine dnsThread =>
    simp only at h
    split at h
    · cases h
      exact .inl rfl
    · split at h
      · cases h
        exact .inl rfl
      · split at h
        · cases h
          refine .inr ⟨_, List.map_append, fun htun => ?_⟩
          cases htun
        · cases h
          exact .inl rfl
  | spawn addr =>
    simp only at h
    split at h
    · cases h
      exact .inr ⟨_, List.map_append, fun _ => ⟨addr, rfl, rfl⟩⟩
    · cases h
      exact .inl rfl
  | tunCheck pid =>
    left
    simp only at h
    split at h
    · cases h
      exact exitWith_launches s.procs pid sigterm
    · cases h
      rfl
  | done => cases h
  | _ =>
    left
    simp only at h
    repeat' split at h
    all_goals first | (cases h; done) | (cases h; rfl)

end StartThread

/-- A step of a thread keeps the sessions of all. -/
theorem mem_set_session {l : List StartThread} {i : Nat} {t u : StartThread} (ht : l[i]? = some t) (hu : u ∈ l)
    (pc : StartPc) : ∃ u' ∈ l.set i ⟨t.session, pc⟩, u'.session = u.session := by
  obtain hstays | rfl := mem_set_or (x := ⟨t.session, pc⟩) ht hu
  · exact ⟨u, hstays, rfl⟩
  · obtain ⟨hlt, _⟩ := List.getElem?_eq_some_iff.mp ht
    exact ⟨_, List.mem_set hlt _, rfl⟩

namespace Served

variable {s s' : Svc}

/-- A step that adds no address. -/
theorem keep (h : Served s) (running : s'.mRunning = s.mRunning) (seq : s'.mConnectSeq = s.mConnectSeq)
    (server : s'.mServer = s.mServer) (threads : s'.startThreads = s.startThreads)
    (resolved : s'.mResolvedServer = s.mResolvedServer) (resolutions : s'.resolutions = s.resolutions)
    (yml : s'.hevYml = s.hevYml) (native : ∀ seq ∈ s'.hevNative, seq ∈ s.hevNative)
    (config : s'.hevRead.or s.hevYml = s.hevRead.or s.hevYml)
    (launches : ∀ l ∈ s'.procs.map Proc.launch, l.1 = .tun2socks → l ∈ s.procs.map Proc.launch)
    (checks : ∀ c ∈ s'.mIpCheckExecutor, ∃ t ∈ s.startThreads, t.session.connectSeq = c.probe.session ∧
      Owns s.resolutions t.session.server c.probe.server) : Served s' := by
  constructor
  · rw [threads, seq, server]
    exact h.live
  · rw [running, resolved, resolutions, server]
    exact h.resolved
  · rw [threads, seq, yml, resolutions]
    exact h.carried
  · rw [threads, resolutions]
    intro l hl htun
    exact h.handed l (launches l hl htun) htun
  · rw [threads, resolutions, yml, config]
    exact fun seq hseq => h.native seq (native seq hseq)
  · rw [threads, resolutions]
    exact checks

/-- The probe of the moment is the running session's. -/
theorem own_probe (h : Served s) (hseats : Seats s) (hrun : s.mRunning = true) :
    ∃ t ∈ s.startThreads, t.session.connectSeq = s.probe.session ∧ Owns s.resolutions t.session.server s.probe.server := by
  obtain ⟨t, ht, hseq⟩ := hseats.current hrun
  have hserver := h.live t ht hseq
  refine ⟨t, ht, hseq, ?_⟩
  rw [← hserver]
  unfold Svc.probe
  cases hres : s.mResolvedServer with
  | none => exact .inl rfl
  | some a => exact h.resolved hrun a hres

theorem still (h : Served s) (hseats : Seats s) (hs : Still s s') : Served s' := by
  apply h.keep hs.running hs.connectSeq hs.server hs.threads hs.resolved hs.resolutions
  · exact congrArg Engines.hevYml hs.engines
  · rw [show s'.hevNative = s.hevNative from congrArg Engines.hevNative hs.engines]
    exact fun _ => id
  · rw [show s'.hevRead = s.hevRead from congrArg Engines.hevRead hs.engines]
  · have hprocs : s'.procs = s.procs := congrArg Engines.procs hs.engines
    rw [hprocs]
    exact fun l hl _ => hl
  · intro c hc
    obtain ⟨b, hb, hsame⟩ | ⟨hrun, hprobe⟩ := hs.checks c hc
    · rw [← hsame]
      exact h.checks b hb
    · rw [hprobe]
      exact h.own_probe hseats hrun

/-- A stop keeps what was started and resolved, and ends the session. -/
theorem down (h : Served s) (hseats : Seats s) (running : s'.mRunning = false) (seq : s.mConnectSeq < s'.mConnectSeq)
    (threads : s'.startThreads = s.startThreads) (resolutions : s'.resolutions = s.resolutions)
    (yml : s'.hevYml = s.hevYml) (native : ∀ seq ∈ s'.hevNative, seq ∈ s.hevNative) (read : s'.hevRead = s.hevRead)
    (launches : s'.procs.map Proc.launch = s.procs.map Proc.launch)
    (checks : s'.mIpCheckExecutor = s.mIpCheckExecutor) : Served s' := by
  have hold : ∀ t ∈ s.startThreads, t.session.connectSeq ≠ s'.mConnectSeq := by
    intro t ht hseq
    have hle := hseats.le ht
    omega
  constructor
  · rw [threads]
    intro t ht hseq
    exact absurd hseq (hold t ht)
  · intro hrun
    rw [running] at hrun
    cases hrun
  · rw [threads, yml, resolutions]
    intro t ht
    exact (h.carried t ht).mono (fun hseq => absurd hseq (hold t ht)) fun _ => id
  · rw [launches, threads, resolutions]
    exact h.handed
  · rw [threads, resolutions, yml, read]
    exact fun seq hseq => h.native seq (native seq hseq)
  · rw [checks, threads, resolutions]
    exact h.checks

theorem teardown (h : Served s) (hseats : Seats s) (reason : StopReason) (origin : Option Nat) :
    Served (s.teardown reason origin) :=
  h.down hseats rfl (Nat.lt_succ_self _) rfl rfl rfl (s.toShared.stopped_native s.mHev) rfl
    (stopped_launches s.toShared s.mHev) rfl

/-- A start that finds no other server's address. -/
theorem start (h : Served s) (hseats : Seats s) (place n : Nat) (cmd : VpnIntent)
    (hfinds : ∀ a ∈ s.mResolvedServer, Owns s.resolutions cmd.server (some a)) :
    Served ((s.accept place cmd).start ((s.accept place cmd).session place n cmd)) := by
  have hold : ∀ t ∈ s.startThreads, t.session.connectSeq ≠ s.mConnectSeq + 1 := by
    intro t ht hseq
    have hle := hseats.le ht
    omega
  constructor
  · intro t ht hseq
    obtain ht | ht := List.mem_append.mp ht
    · exact absurd hseq (hold t ht)
    · obtain rfl := List.mem_singleton.mp ht
      rfl
  · exact fun _ => hfinds
  · intro t ht
    obtain ht | ht := List.mem_append.mp ht
    · exact (h.carried t ht).mono (fun hseq => absurd hseq (hold t ht)) fun _ => id
    · obtain rfl := List.mem_singleton.mp ht
      trivial
  · intro l hl htun
    obtain ⟨t, ht, hown⟩ := h.handed l hl htun
    exact ⟨t, List.mem_append_left _ ht, hown⟩
  · intro seq hseq
    obtain ⟨t, ht, hown⟩ := h.native seq hseq
    exact ⟨t, List.mem_append_left _ ht, hown⟩
  · intro c hc
    obtain ⟨t, ht, hown⟩ := h.checks c hc
    exact ⟨t, List.mem_append_left _ ht, hown⟩

/-- The native tunnel keeps its own configuration over a thread's step, as long as the step
leaves hev.yml to those that need it. -/
theorem native_moved (h : Served s) {i : Nat} {reply : Reply} {t : StartThread} {p : Progress}
    (ht : s.startThreads[i]? = some t) (hp : t.advance s reply = some p)
    (more : ∀ r ∈ s.resolutions, r ∈ p.shared.resolutions)
    (needed : ∀ u ∈ s.startThreads, s.needsYml u = true → YmlOwn s.hevYml s.resolutions u.session.server →
      YmlOwn p.shared.hevYml p.shared.resolutions u.session.server) :
    ∀ seq ∈ p.shared.hevNative, ∃ u ∈ s.startThreads, u.session.connectSeq = seq ∧
      YmlOwn (p.shared.hevRead.or p.shared.hevYml) p.shared.resolutions u.session.server := by
  have hmem : t ∈ s.startThreads := List.mem_of_getElem? ht
  intro seq hseq
  obtain hnone | ⟨hnative, hread⟩ | ⟨hpc, hnative, hread⟩ := StartThread.advance_native hp
  · rw [hnone] at hseq
    cases hseq
  · rw [hnative] at hseq
    obtain ⟨u, hu, hown, hyml⟩ := h.native seq hseq
    refine ⟨u, hu, hown, ?_⟩
    rw [hread]
    cases hconf : s.hevRead with
    | some conf =>
      rw [hconf] at hyml
      exact hyml.mono more
    | none =>
      rw [hconf] at hyml
      have hneeds : s.needsYml u = true := by
        have hseq : s.hevNative = some u.session.connectSeq := by rw [hown]; exact hseq
        simp [Svc.needsYml, hseq, hconf]
      exact needed u hu hneeds hyml
  · rw [hnative] at hseq
    have hcarried := h.carried t hmem
    have hneeds : s.needsYml t = true := by simp [Svc.needsYml, hpc]
    unfold Carries at hcarried
    rw [hpc] at hcarried
    refine ⟨t, hmem, Option.some.inj hseq, ?_⟩
    rw [hread]
    exact needed t hmem hneeds hcarried

/-- A thread's step, from what it does to the addresses. -/
theorem moved (h : Served s) {i : Nat} {reply : Reply} {t : StartThread} {p : Progress}
    (ht : s.startThreads[i]? = some t) (hp : t.advance s reply = some p)
    (more : ∀ r ∈ s.resolutions, r ∈ p.shared.resolutions)
    (resolved : s.mRunning = true → ∀ a ∈ p.shared.mResolvedServer, Owns p.shared.resolutions s.mServer (some a))
    (others : ∀ u ∈ s.startThreads, Carries s.mConnectSeq p.shared.hevYml p.shared.resolutions u)
    (needed : ∀ u ∈ s.startThreads, s.needsYml u = true → YmlOwn s.hevYml s.resolutions u.session.server →
      YmlOwn p.shared.hevYml p.shared.resolutions u.session.server)
    (next : Carries s.mConnectSeq p.shared.hevYml p.shared.resolutions ⟨t.session, p.pc⟩) :
    Served { s with
      toShared := p.shared
      startThreads := s.startThreads.set i ⟨t.session, p.pc⟩
      mMainHandler := s.mMainHandler ++ (p.post.map (Post.task t.session)).toList } := by
  have hmem : t ∈ s.startThreads := List.mem_of_getElem? ht
  -- a session keeps its thread
  have hthread : ∀ {seq : Nat} {addr : Option Str}, (∃ u ∈ s.startThreads, u.session.connectSeq = seq ∧
      Owns s.resolutions u.session.server addr) → ∃ u ∈ s.startThreads.set i ⟨t.session, p.pc⟩,
      u.session.connectSeq = seq ∧ Owns p.shared.resolutions u.session.server addr := by
    intro seq addr hsome
    obtain ⟨u, hu, hseq, hown⟩ := hsome
    obtain ⟨u', hu', hsame⟩ := mem_set_session ht hu p.pc
    rw [← hsame] at hseq hown
    exact ⟨u', hu', hseq, hown.mono more⟩
  constructor
  · intro u hu hseq
    obtain hold | hnew := List.mem_or_eq_of_mem_set hu
    · exact h.live u hold hseq
    · subst hnew
      exact h.live t hmem hseq
  · exact resolved
  · intro u hu
    obtain hold | hnew := List.mem_or_eq_of_mem_set hu
    · exact others u hold
    · subst hnew
      exact next
  · intro l hl htun
    have hold : l ∈ s.procs.map Proc.launch → ∃ u ∈ s.startThreads.set i ⟨t.session, p.pc⟩,
        u.session.connectSeq = l.2.1 ∧ ∃ dir addr, Owns p.shared.resolutions u.session.server addr ∧
          l.2.2 = tun2socksCommand dir u.session addr := by
      intro hl
      obtain ⟨u, hu, hseq, dir, addr, hown, hcommand⟩ := h.handed l hl htun
      obtain ⟨u', hu', hsame⟩ := mem_set_session ht hu p.pc
      rw [← hsame] at hseq hown hcommand
      exact ⟨u', hu', hseq, dir, addr, hown.mono more, hcommand⟩
    obtain hlaunches | ⟨l', hlaunches, hspawn⟩ := StartThread.advance_launches hp
    · rw [hlaunches] at hl
      exact hold hl
    · rw [hlaunches] at hl
      obtain hl | hl := List.mem_append.mp hl
      · exact hold hl
      · obtain rfl := List.mem_singleton.mp hl
        obtain ⟨addr, hpc, hcommand⟩ := hspawn htun
        have hcarried := h.carried t hmem
        unfold Carries at hcarried
        rw [hpc] at hcarried
        obtain ⟨u', hu', hsame⟩ := mem_set_session ht hmem p.pc
        refine ⟨u', hu', ?_, s.libDir, addr, ?_, ?_⟩
        · rw [hsame, hcommand]
        · rw [hsame]
          exact hcarried.mono more
        · rw [hsame, hcommand]
  · intro seq hseq
    obtain ⟨u, hu, hown, hyml⟩ := h.native_moved ht hp more needed seq hseq
    obtain ⟨u', hu', hsame⟩ := mem_set_session ht hu p.pc
    rw [← hsame] at hown hyml
    exact ⟨u', hu', hown, hyml⟩
  · intro c hc
    exact hthread (h.checks c hc)

theorem thread (h : Served s) (hseats : Seats s) {i : Nat} {reply : Reply} (hok : s.Addressed (.thread i reply))
    {t : StartThread} {p : Progress} (ht : s.startThreads[i]? = some t) (hp : t.advance s reply = some p) :
    Served { s with
      toShared := p.shared
      startThreads := s.startThreads.set i ⟨t.session, p.pc⟩
      mMainHandler := s.mMainHandler ++ (p.post.map (Post.task t.session)).toList } := by
  have hmem : t ∈ s.startThreads := List.mem_of_getElem? ht
  obtain ⟨hlookup, hwrites⟩ := hok t ht
  have hjoin : t.session.connectSeq = s.mConnectSeq →
      ∀ a ∈ s.mResolvedServer, Owns s.resolutions t.session.server (some a) := by
    intro hseq
    rw [← h.live t hmem hseq]
    exact h.resolved (hseats.running hmem hseq)
  obtain ⟨haddress, hnext⟩ | ⟨hpc, addr, hnext, haddress⟩ | ⟨udp, conf, hpc, hnext, haddress⟩ :=
    StartThread.advance_address hp (h.carried t hmem) hjoin
  · obtain ⟨hresolved, hrest⟩ := Prod.mk.inj haddress
    obtain ⟨hresolutions, hyml⟩ := Prod.mk.inj hrest
    apply h.moved ht hp
    · rw [hresolutions]
      exact fun _ => id
    · rw [hresolved, hresolutions]
      exact h.resolved
    · rw [hyml, hresolutions]
      exact h.carried
    · rw [hyml, hresolutions]
      exact fun _ _ _ => id
    · rw [hyml, hresolutions]
      exact hnext
  · obtain ⟨hresolved, hrest⟩ := Prod.mk.inj haddress
    obtain ⟨hresolutions, hyml⟩ := Prod.mk.inj hrest
    have hmore : ∀ r ∈ s.resolutions, r ∈ p.shared.resolutions := by
      rw [hresolutions]
      exact fun r hr => List.mem_append_left _ hr
    have hnew : Owns p.shared.resolutions t.session.server addr := by
      rw [hresolutions]
      exact .inr ⟨_, List.mem_append_right _ (List.mem_singleton_self _), rfl, rfl⟩
    apply h.moved ht hp hmore
    · intro hrun a ha
      rw [hresolved] at ha
      rw [← hlookup hpc hrun, ← Option.mem_def.mp ha]
      exact hnew
    · rw [hyml]
      exact fun u hu => (h.carried u hu).mono id hmore
    · rw [hyml]
      exact fun u _ _ hown => hown.mono hmore
    · rw [hnext]
      exact fun _ => hnew
  · obtain ⟨hresolved, hrest⟩ := Prod.mk.inj haddress
    obtain ⟨hresolutions, hyml⟩ := Prod.mk.inj hrest
    have hcarried := h.carried t hmem
    have hown : Owns s.resolutions t.session.server (some conf.serverIp) := by
      unfold Carries at hcarried
      rw [hpc] at hcarried
      exact hcarried
    have hwrite : t.pc.writesYml = true := by rw [hpc]; rfl
    -- whoever is about to start with hev.yml has the same server
    have hneeds : ∀ u ∈ s.startThreads, s.needsYml u = true →
        YmlOwn (some conf) s.resolutions u.session.server := by
      intro u hu hneed
      rw [hwrites hwrite u hu hneed]
      exact ⟨conf, rfl, hown⟩
    apply h.moved ht hp
    · rw [hresolutions]
      exact fun _ => id
    · rw [hresolved, hresolutions]
      exact h.resolved
    · rw [hyml, hresolutions]
      intro u hu
      apply (h.carried u hu).rewritten
      · intro hupc hseq
        apply hneeds u hu
        unfold Svc.needsYml
        rw [hupc, decide_eq_true hseq]
        rfl
      · intro hupc
        apply hneeds u hu
        unfold Svc.needsYml
        rw [hupc]
        rfl
    · rw [hyml, hresolutions]
      exact fun u hu hneed _ => hneeds u hu hneed
    · rw [hnext, hyml, hresolutions]
      exact fun _ => ⟨conf, rfl, hown⟩

theorem dnsThread (h : Served s) {i : Nat} {reply : Reply} (hok : s.Addressed (.dns i reply)) {t : DnsThread}
    {p : DnsPc × Shared} (ht : s.dnsThreads[i]? = some t) (hp : t.advance s reply = some p) :
    Served { s with toShared := { p.2 with dnsThreads := p.2.dnsThreads.set i ⟨t.session, p.1⟩ } } := by
  obtain ⟨pc, e⟩ := p
  obtain ⟨cache, rfl⟩ | ⟨addr, hpc, rfl⟩ := DnsThread.advance_some hp
  · exact h.keep rfl rfl rfl rfl rfl rfl rfl (fun _ => id) rfl (fun _ hl _ => hl) h.checks
  · have hmore : ∀ r ∈ s.resolutions, r ∈ s.resolutions ++ [⟨t.session, addr⟩] := fun r hr => List.mem_append_left _ hr
    constructor
    · exact h.live
    · intro hrun a ha
      obtain rfl := Option.mem_def.mp ha
      have hserver : t.session.server = s.mServer := hok t ht (by rw [hpc]; rfl) hrun
      show Owns (s.resolutions ++ [⟨t.session, some a⟩]) s.mServer (some a)
      rw [← hserver]
      exact .inr ⟨_, List.mem_append_right _ (List.mem_singleton_self _), rfl, rfl⟩
    · exact fun u hu => (h.carried u hu).mono id hmore
    · intro l hl htun
      obtain ⟨u, hu, hseq, dir, a, hown, hcommand⟩ := h.handed l hl htun
      exact ⟨u, hu, hseq, dir, a, hown.mono hmore, hcommand⟩
    · intro seq hseq
      obtain ⟨u, hu, hown, hyml⟩ := h.native seq hseq
      exact ⟨u, hu, hown, hyml.mono hmore⟩
    · intro c hc
      obtain ⟨u, hu, hseq, hown⟩ := h.checks c hc
      exact ⟨u, hu, hseq, hown.mono hmore⟩

/-- **One step keeps every address with its server.** -/
theorem step (h : Served s) (hseats : Seats s) (hlater : Seats s') {a : Act} (hok : s.Addressed a)
    (hs : Svc.step s a = some s') : Served s' := by
  cases Svc.step_turn hs with
  | still hstill => exact h.still hseats hstill
  | stop reason origin _ hbefore hafter =>
    have hthen := hseats.still hbefore
    exact ((h.still hseats hbefore).teardown hthen reason origin).still (hlater.back hafter) hafter
  | fail place cmd reason _ hidle hafter =>
    have hstopped : Served ((s.accept place cmd).teardown reason none) := by
      have hmore : s.mConnectSeq < ((s.accept place cmd).teardown reason none).mConnectSeq :=
        (Nat.lt_succ_self _).trans (Nat.lt_succ_self _)
      exact h.down hseats rfl hmore rfl rfl rfl (s.toShared.stopped_native _) rfl (stopped_launches s.toShared _) rfl
    exact hstopped.still (hlater.back hafter) hafter
  | @start saved place n extras cmd queue _ hq hidle hcmd hafter =>
    have hfinds : s.FindsOwn saved (.fd n) s.queue := hok
    rw [hq] at hfinds
    obtain hrun | hfails | hfinds := hfinds
    · exact absurd (hidle.symm.trans hrun) Bool.false_ne_true
    · cases hfails with
      | tail _ hfails => cases List.mem_singleton.mp hfails
    · exact (h.start hseats place n cmd (hfinds cmd hcmd)).still (hlater.back hafter) hafter
  | thread ht hp => exact h.thread hseats hok ht hp
  | dns ht hp => exact h.dnsThread hok ht hp
  | exit pid code =>
    refine h.keep rfl rfl rfl rfl rfl rfl rfl (fun _ => id) rfl (fun l hl _ => ?_) h.checks
    rw [← exitWith_launches s.procs pid code]
    exact hl
  | pidFile file opened => exact h.keep rfl rfl rfl rfl rfl rfl rfl (fun _ => id) rfl (fun _ hl _ => hl) h.checks
  | @daemonize pid p file hp hpdnsd hlive =>
    refine h.keep rfl rfl rfl rfl rfl rfl rfl (fun _ => id) rfl (fun l hl htun => ?_) h.checks
    have hl : l ∈ (exitWith s.procs pid 0 ++ [(⟨.pdnsdDaemon, p.session, p.command, none⟩ : Proc)]).map Proc.launch := hl
    rw [List.map_append, exitWith_launches] at hl
    obtain hl | hl := List.mem_append.mp hl
    · exact hl
    · obtain rfl := List.mem_singleton.mp hl
      cases htun
  | hevRead =>
    refine h.keep rfl rfl rfl rfl rfl rfl rfl (fun _ => id) ?_ (fun _ hl _ => hl) h.checks
    -- what has been read stands before hev.yml
    show (if s.hevNative.isSome then s.hevRead.or s.hevYml else s.hevRead).or s.hevYml = s.hevRead.or s.hevYml
    cases s.hevRead <;> cases s.hevYml <;> cases s.hevNative <;> rfl
  | hevExit => exact h.keep rfl rfl rfl rfl rfl rfl rfl (fun _ => nofun) rfl (fun _ hl _ => hl) h.checks

theorem reachable (h : Reaches system Svc.Addressed s) : Served s := by
  apply Reaches.invariant_of (J := Single) (P := Served) _ _ _ h
  · exact fun s hs => Single.reachable hs.reachable
  · intro s hs
    obtain ⟨w, accelDns, _, rfl⟩ := hs
    constructor
    · intro t ht
      cases ht
    · intro hrun
      cases hrun
    · intro t ht
      cases ht
    · intro l hl
      cases hl
    · intro seq hseq
      cases hseq
    · intro c hc
      cases hc
  · intro s a s' hsingle hs hok hstep
    exact hs.step hsingle.toSeats (hsingle.step hstep).toSeats hok hstep

end Served

/-- **Every session uses its own server's addresses**, in runs where lookups and hev.yml
are not crossed. -/
theorem addresses_own {s : Svc} (h : Reaches system Svc.Addressed s) : OwnAddresses s := by
  have hserved := Served.reachable h
  constructor
  · intro p hp htun
    exact hserved.handed p.launch (List.mem_map_of_mem hp) htun
  · intro t ht hpc
    have hcarried := hserved.carried t ht
    unfold Carries at hcarried
    rw [hpc] at hcarried
    exact hcarried
  · intro seq hseq conf hconf
    obtain ⟨t, ht, hown, read, hread, haddress⟩ := hserved.native seq hseq
    rw [Option.mem_def.mp hconf] at hread
    obtain rfl := Option.some.inj hread
    exact ⟨t, ht, hown, haddress⟩
  · exact hserved.checks

/-- A session with one server, a stop, and one with another; a session on hev whose worker
has read hev.yml. -/
theorem addresses_own_two :
    (∃ s : Svc, s.mIpCheckExecutor.map (fun c => (c.probe.session, c.probe.server)) =
      [(1, some "203.0.113.1".toList), (3, some "203.0.113.2".toList)] ∧ OwnAddresses s) ∧
    ∃ s : Svc, s.hevNative = some 1 ∧ s.hevRead.map (fun c => c.serverIp) = some "203.0.113.1".toList ∧
      OwnAddresses s := by
  constructor
  · have hrun : (execWhere system Svc.Addressed (Svc.created phone none)
        ([.sendStart (some (startOf "Work".toList "a.example".toList)), .deliver none (.fd 3)] ++
          bringUp 0 "203.0.113.1".toList ++ [.ipCheck 0, .external .binderStop,
           .sendStart (some (startOf "Home".toList "b.example".toList)), .deliver none (.fd 4)] ++
          bringUp 1 "203.0.113.2".toList ++ [.ipCheck 0])).map
        (fun s => s.mIpCheckExecutor.map fun c => (c.probe.session, c.probe.server)) =
        some [(1, some "203.0.113.1".toList), (3, some "203.0.113.2".toList)] := by decide +kernel
    obtain ⟨s, hs, hchecks⟩ := Option.map_eq_some_iff.mp hrun
    exact ⟨s, hchecks, addresses_own (execWhere_reaches _ (created_reachable rfl none) hs)⟩
  · have hrun : (execWhere system Svc.Addressed (Svc.created phone none)
        ([.change (.setting prefHevTunnel (.bool true)),
          .sendStart (some (startOf "Work".toList "a.example".toList)), .deliver none (.fd 3),
          .thread 0 .ok, .thread 0 .ok, .thread 0 .ok, .thread 0 (.resolved (some "203.0.113.1".toList)),
          .thread 0 .ok, .thread 0 .ok, .thread 0 .ok, .thread 0 .ok, .thread 0 .ok, .change .hevRead])).map
        (fun s => (s.hevNative, s.hevRead.map fun c => c.serverIp)) =
        some (some 1, some "203.0.113.1".toList) := by decide +kernel
    obtain ⟨s, hs, hread⟩ := Option.map_eq_some_iff.mp hrun
    obtain ⟨hnative, hread⟩ := Prod.mk.inj hread
    exact ⟨s, hnative, hread, addresses_own (execWhere_reaches _ (created_reachable rfl none) hs)⟩

/-- The lookup of a stopped session ends while one with another server runs. -/
theorem address_crosses : ¬ ∀ s, Reachable system s → OwnAddresses s := by
  intro h
  have hrun : (exec system (Svc.created phone none)
      [.sendStart (some (startOf "Work".toList "a.example".toList)), .deliver none (.fd 3),
       .thread 0 .ok, .thread 0 .ok, .thread 0 .ok, .thread 0 .ok, .external .binderStop,
       .sendStart (some (startOf "Home".toList "b.example".toList)), .deliver none (.fd 4),
       .thread 0 (.resolved (some "203.0.113.1".toList)), .ipCheck 0]).map
      (fun s => decide (∃ c ∈ s.mIpCheckExecutor, ∀ t ∈ s.startThreads, t.session.connectSeq = c.probe.session →
        ¬ Owns s.resolutions t.session.server c.probe.server)) = some true := by decide +kernel
  obtain ⟨s, hs, hcrossed⟩ := Option.map_eq_some_iff.mp hrun
  obtain ⟨c, hc, hforeign⟩ := of_decide_eq_true hcrossed
  obtain ⟨t, ht, hseq, hown⟩ := (h s (exec_reaches _ (created_reachable rfl none) hs)).checks c hc
  exact hforeign t ht hseq hown

end KiloProxy.Vpn
