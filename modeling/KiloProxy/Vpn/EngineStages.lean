import KiloProxy.Vpn.Turns

/-!
# Where a thread stands with its engine

For tun2socks and for pdnsd alike a thread spawns a process, stores its handle in a field
and may look at the connect counter again, to destroy the process and clear the field.
`Move` lists what one step does to the process table and the field; `Held` is the
invariant that a running process is known either to the thread that spawned it or to the
running session, through the field.
-/

namespace KiloProxy.Vpn
set_option autoImplicit false
open KiloProxy.Text KiloProxy.Util KiloProxy.Service KiloProxy.Run

/-- A thread and the process it spawns. -/
inductive Stage where
  | before
  | started (pid : Nat)
  | stored (pid : Nat)
  | dropping
  | after
deriving DecidableEq, Repr

namespace StartPc

def tunStage : StartPc → Stage
  | .begin | .engine _ | .pdnsdStarted _ _ | .resolve _ | .joining _ _ | .lookup | .checkpoint _ | .pick _ | .spawn _ =>
    .before
  | .tunStarted pid => .started pid
  | .tunCheck pid => .stored pid
  | .tunDiscard => .dropping
  | _ => .after

def pdnsdStage : StartPc → Stage
  | .begin | .engine _ => .before
  | .pdnsdStarted _ pid => .started pid
  | _ => .after

end StartPc

/-- A step from one stage to the next, with the table and the handle before and after. -/
inductive Move (kind : Engine → Prop) (procs procs' : List Proc) (handle handle' : Option Nat) : Stage → Stage → Prop where
  | still {a b : Stage} : a = b ∨ (a = .before ∧ b = .after) → handle' = handle →
      (∀ pid p, Runs procs' pid p → kind p.engine → Runs procs pid p) → Move kind procs procs' handle handle' a b
  | spawn : handle' = handle → (∀ pid p, Runs procs' pid p → kind p.engine →
      Runs procs pid p ∨ pid = procs.length) →
      Move kind procs procs' handle handle' .before (.started procs.length)
  | store (pid : Nat) : handle' = some pid → procs' = procs →
      Move kind procs procs' handle handle' (.started pid) (.stored pid)
  | hold (pid : Nat) : handle' = some pid → procs' = procs → Move kind procs procs' handle handle' (.started pid) .after
  | pass (pid : Nat) : handle' = handle → procs' = procs → Move kind procs procs' handle handle' (.stored pid) .after
  | destroy (pid : Nat) : handle' = handle → (∀ q p, Runs procs' q p → Runs procs q p ∧ pid ≠ q) →
      Move kind procs procs' handle handle' (.stored pid) .dropping
  | drop : handle' = none → procs' = procs → Move kind procs procs' handle handle' .dropping .after

namespace Move

variable {kind kind' : Engine → Prop} {procs procs' : List Proc} {handle handle' : Option Nat} {a b : Stage}

/-- Fewer engines to look at. -/
theorem mono (h : Move kind procs procs' handle handle' a b) (fewer : ∀ e, kind' e → kind e) :
    Move kind' procs procs' handle handle' a b := by
  cases h with
  | still hstage hhandle hlive => exact .still hstage hhandle fun pid p hp hk => hlive pid p hp (fewer _ hk)
  | spawn hhandle hlive => exact .spawn hhandle fun pid p hp hk => hlive pid p hp (fewer _ hk)
  | store pid hhandle hprocs => exact .store pid hhandle hprocs
  | hold pid hhandle hprocs => exact .hold pid hhandle hprocs
  | pass pid hhandle hprocs => exact .pass pid hhandle hprocs
  | destroy pid hhandle hlive => exact .destroy pid hhandle hlive
  | drop hhandle hprocs => exact .drop hhandle hprocs

/-- The field is written after a spawn and after a destroy only. -/
theorem handle_same (h : Move kind procs procs' handle handle' a b) (hstarted : ∀ pid, a ≠ .started pid)
    (hdropping : a ≠ .dropping) : handle' = handle := by
  cases h with
  | still _ hhandle _ => exact hhandle
  | spawn hhandle _ => exact hhandle
  | store pid _ _ => exact absurd rfl (hstarted pid)
  | hold pid _ _ => exact absurd rfl (hstarted pid)
  | pass _ hhandle _ => exact hhandle
  | destroy _ hhandle _ => exact hhandle
  | drop _ _ => exact absurd rfl hdropping

/-- A process that runs after the step ran before it, or is the one it started. -/
theorem live (h : Move kind procs procs' handle handle' a b) {pid : Nat} {p : Proc} (hp : Runs procs' pid p)
    (hkind : kind p.engine) : Runs procs pid p ∨ b = .started pid := by
  cases h with
  | still _ _ hlive => exact .inl (hlive pid p hp hkind)
  | spawn _ hlive =>
    obtain hold | hlast := hlive pid p hp hkind
    · exact .inl hold
    · rw [hlast]
      exact .inr rfl
  | destroy q _ hlive => exact .inl (hlive pid p hp).1
  | store q _ hprocs =>
    rw [hprocs] at hp
    exact .inl hp
  | hold q _ hprocs =>
    rw [hprocs] at hp
    exact .inl hp
  | pass q _ hprocs =>
    rw [hprocs] at hp
    exact .inl hp
  | drop _ hprocs =>
    rw [hprocs] at hp
    exact .inl hp

/-- A thread keeps to a process of its own that runs, or leaves it to the handle. -/
theorem keeps_to (h : Move kind procs procs' handle handle' a b) {pid : Nat} {p : Proc} (hp : Runs procs' pid p)
    (hat : a = .started pid ∨ a = .stored pid) : (b = .started pid ∨ b = .stored pid) ∨
      b = .after ∧ (handle' = some pid ∨ a = .stored pid ∧ handle' = handle) := by
  cases h with
  | still hstage hhandle _ =>
    obtain rfl | ⟨rfl, _⟩ := hstage
    · exact .inl hat
    · obtain hat | hat := hat
      · cases hat
      · cases hat
  | store q hhandle _ =>
    obtain hat | hat := hat
    · cases hat
      exact .inl (.inr rfl)
    · cases hat
  | hold q hhandle _ =>
    obtain hat | hat := hat
    · cases hat
      exact .inr ⟨rfl, .inl hhandle⟩
    · cases hat
  | pass q hhandle _ =>
    obtain hat | hat := hat
    · cases hat
    · exact .inr ⟨rfl, .inr ⟨hat, hhandle⟩⟩
  | destroy q _ hlive =>
    obtain hat | hat := hat
    · cases hat
    · cases hat
      exact absurd rfl (hlive pid p hp).2
  | spawn _ _ =>
    obtain hat | hat := hat
    · cases hat
    · cases hat
  | drop _ _ =>
    obtain hat | hat := hat
    · cases hat
    · cases hat

/-- A thread that is past its process stays so. -/
theorem from_after (h : Move kind procs procs' handle handle' .after b) : b = .after ∧ handle' = handle := by
  cases h with
  | still hstage hhandle _ =>
    obtain hsame | ⟨hbefore, _⟩ := hstage
    · exact ⟨hsame.symm, hhandle⟩
    · cases hbefore

/-- A thread that has spawned a process did so now or before. -/
theorem to_started {pid : Nat} (h : Move kind procs procs' handle handle' a (.started pid)) :
    a = .before ∨ ∀ q p, Runs procs' q p → kind p.engine → Runs procs q p := by
  cases h with
  | still _ _ hlive => exact .inr hlive
  | spawn _ _ => exact .inl rfl

/-- A thread that has stored a handle did so now or before. -/
theorem to_stored {pid : Nat} (h : Move kind procs procs' handle handle' a (.stored pid)) :
    handle' = some pid ∨ a = .stored pid ∧ handle' = handle := by
  cases h with
  | still hstage hhandle _ =>
    obtain hsame | ⟨_, hafter⟩ := hstage
    · exact .inr ⟨hsame, hhandle⟩
    · cases hafter
  | store q hhandle _ => exact .inl hhandle

/-- No step leads back. -/
theorem left_before (h : Move kind procs procs' handle handle' a b) (hpast : a ≠ .before) : b ≠ .before := by
  cases h with
  | still hstage _ _ =>
    obtain rfl | ⟨hbefore, _⟩ := hstage
    · exact hpast
    · exact absurd hbefore hpast
  | spawn _ _ => exact absurd rfl hpast
  | _ => exact Stage.noConfusion

end Move

/-- A new process is the last of the table. -/
theorem Runs.of_append {procs : List Proc} {q p : Proc} {pid : Nat} (h : Runs (procs ++ [q]) pid p) :
    Runs procs pid p ∨ pid = procs.length ∧ p = q := by
  obtain ⟨hget, hlive⟩ := h
  obtain hlt | hge := Nat.lt_or_ge pid procs.length
  · rw [List.getElem?_append_left hlt] at hget
    exact .inl ⟨hget, hlive⟩
  · rw [List.getElem?_append_right hge] at hget
    obtain ⟨hlast, hq⟩ := List.getElem?_eq_some_iff.mp hget
    have hpid : pid = procs.length := by
      rw [List.length_singleton] at hlast
      omega
    refine .inr ⟨hpid, ?_⟩
    simpa using hq.symm

namespace StartThread

variable {s : Svc} {t : StartThread} {reply : Reply} {p : Progress}

/-- What a step does about tun2socks. -/
theorem advance_tun (h : t.advance s reply = some p) :
    Move (· = .tun2socks) s.procs p.shared.procs s.mTun2socksProcess p.shared.mTun2socksProcess t.pc.tunStage
      p.pc.tunStage := by
  have hkeep : ∀ pid q, Runs s.procs pid q → q.engine = .tun2socks → Runs s.procs pid q := fun _ _ hq _ => hq
  obtain ⟨g, pc⟩ := t
  unfold advance at h
  cases pc with
  | engine dnsThread =>
    simp only at h
    split at h
    · cases h
      exact .still (.inl rfl) rfl hkeep
    · split at h
      · cases h
        exact .still (.inr ⟨rfl, rfl⟩) rfl hkeep
      · split at h
        · cases h
          apply Move.still (.inl rfl) rfl
          intro pid q hq hkind
          obtain hold | ⟨_, hnew⟩ := hq.of_append
          · exact hold
          · rw [hnew] at hkind
            cases hkind
        · cases h
          exact .still (.inr ⟨rfl, rfl⟩) rfl hkeep
  | spawn serverIp =>
    simp only at h
    split at h
    · cases h
      apply Move.spawn rfl
      exact fun pid q hq _ => hq.of_append.imp id And.left
    · cases h
      exact .still (.inr ⟨rfl, rfl⟩) rfl hkeep
  | tunStarted pid =>
    cases h
    exact .store pid rfl rfl
  | tunCheck pid =>
    simp only at h
    split at h
    · cases h
      exact .destroy pid rfl fun q r hr => hr.of_exit
    · cases h
      exact .pass pid rfl rfl
  | tunDiscard =>
    cases h
    exact .drop rfl rfl
  | done => cases h
  | checkpoint serverIp =>
    simp only at h
    split at h
    · cases h
      exact .still (.inr ⟨rfl, rfl⟩) rfl hkeep
    · cases h
      exact .still (.inl rfl) rfl hkeep
  | pick serverIp =>
    simp only at h
    split at h
    · cases h
      exact .still (.inr ⟨rfl, rfl⟩) rfl hkeep
    · cases h
      exact .still (.inl rfl) rfl hkeep
  | _ =>
    simp only at h
    repeat' split at h
    all_goals first | (cases h; done) | (cases h; exact .still (.inl rfl) rfl hkeep)

/-- What a step does about pdnsd. -/
theorem advance_pdnsd (h : t.advance s reply = some p) :
    Move (· ≠ .tun2socks) s.procs p.shared.procs s.mPdnsdProcess p.shared.mPdnsdProcess t.pc.pdnsdStage
      p.pc.pdnsdStage := by
  have hkeep : ∀ pid q, Runs s.procs pid q → q.engine ≠ .tun2socks → Runs s.procs pid q := fun _ _ hq _ => hq
  obtain ⟨g, pc⟩ := t
  unfold advance at h
  cases pc with
  | begin =>
    simp only at h
    split at h
    · cases h
      exact .still (.inl rfl) rfl hkeep
    · cases h
      exact .still (.inl rfl) rfl hkeep
  | engine dnsThread =>
    simp only at h
    split at h
    · cases h
      exact .still (.inr ⟨rfl, rfl⟩) rfl hkeep
    · split at h
      · cases h
        exact .still (.inr ⟨rfl, rfl⟩) rfl hkeep
      · split at h
        · cases h
          apply Move.spawn rfl
          exact fun pid q hq _ => hq.of_append.imp id And.left
        · cases h
          exact .still (.inr ⟨rfl, rfl⟩) rfl hkeep
  | pdnsdStarted dnsThread pid =>
    cases h
    exact .hold pid rfl rfl
  | spawn serverIp =>
    simp only at h
    split at h
    · cases h
      apply Move.still (.inl rfl) rfl
      intro pid q hq hkind
      obtain hold | ⟨_, hnew⟩ := hq.of_append
      · exact hold
      · rw [hnew] at hkind
        exact absurd rfl hkind
    · cases h
      exact .still (.inl rfl) rfl hkeep
  | tunCheck pid =>
    simp only at h
    split at h
    · cases h
      exact .still (.inl rfl) rfl fun q r hr _ => hr.of_exit.1
    · cases h
      exact .still (.inl rfl) rfl hkeep
  | done => cases h
  | _ =>
    simp only at h
    repeat' split at h
    all_goals first | (cases h; done) | (cases h; exact .still (.inl rfl) rfl hkeep)

/-- A step passes the check on a stored handle for the running session only. -/
theorem advance_passes (h : t.advance s reply = some p) {pid : Nat} (hstored : t.pc.tunStage = .stored pid)
    (hafter : p.pc.tunStage = .after) : s.mRunning = true ∧ t.session.connectSeq = s.mConnectSeq := by
  obtain ⟨g, pc⟩ := t
  unfold advance at h
  cases pc with
  | tunCheck pid =>
    simp only at h
    split at h
    · cases h
      cases hafter
    · rename_i hfresh
      exact ⟨(Svc.fresh hfresh).2, (Svc.fresh hfresh).1⟩
  | _ => cases hstored

end StartThread

/-! ## Held processes -/

/-- Each running process of the kind is at the thread that spawned it, or the running
session holds it, whose thread is past it. -/
structure Held (kind : Engine → Prop) (handle : Svc → Option Nat) (stage : StartPc → Stage) (s : Svc) : Prop where
  live : ∀ pid p, Runs s.procs pid p → kind p.engine →
    (∃ t ∈ s.startThreads, stage t.pc = .started pid ∨ stage t.pc = .stored pid) ∨
    (s.mRunning = true ∧ handle s = some pid ∧
      ∀ t ∈ s.startThreads, t.session.connectSeq = s.mConnectSeq → stage t.pc = .after)
  stored : ∀ t ∈ s.startThreads, t.session.connectSeq = s.mConnectSeq → ∀ pid, stage t.pc = .stored pid →
    handle s = some pid

namespace Held

variable {kind : Engine → Prop} {handle : Svc → Option Nat} {stage : StartPc → Stage} {s s' : Svc}

/-- A step away from threads and handle that starts no process. -/
theorem keep (h : Held kind handle stage s) (running : s'.mRunning = s.mRunning)
    (seq : s'.mConnectSeq = s.mConnectSeq) (threads : s'.startThreads = s.startThreads) (same : handle s' = handle s)
    (live : ∀ pid p, Runs s'.procs pid p → kind p.engine → Runs s.procs pid p) : Held kind handle stage s' := by
  constructor
  · intro pid p hp hkind
    rw [threads, running, seq, same]
    exact h.live pid p (live pid p hp hkind) hkind
  · rw [threads, seq, same]
    exact h.stored

/-- A stop destroys what the session holds. -/
theorem down (h : Held kind handle stage s) (hseats : Seats s) (seq : s.mConnectSeq < s'.mConnectSeq)
    (threads : s'.startThreads = s.startThreads)
    (live : ∀ pid p, Runs s'.procs pid p → kind p.engine → Runs s.procs pid p ∧ handle s ≠ some pid) :
    Held kind handle stage s' := by
  constructor
  · intro pid p hp hkind
    obtain ⟨hold, hother⟩ := live pid p hp hkind
    rw [threads]
    obtain hthread | ⟨_, hheld, _⟩ := h.live pid p hold hkind
    · exact .inl hthread
    · exact absurd hheld hother
  · rw [threads]
    intro t ht hseq
    have hle := hseats.le ht
    omega

/-- A session starts with nothing in its hands. -/
theorem start (h : Held kind handle stage s) (hseats : Seats s) (hidle : s.mRunning = false) {g : Session}
    (hbegin : stage .begin = .before) (seq : s'.mConnectSeq = s.mConnectSeq + 1)
    (threads : s'.startThreads = s.startThreads ++ [⟨g, .begin⟩]) (procs : s'.procs = s.procs) :
    Held kind handle stage s' := by
  constructor
  · intro pid p hp hkind
    rw [procs] at hp
    obtain ⟨t, ht, hstage⟩ | ⟨hrun, _⟩ := h.live pid p hp hkind
    · rw [threads]
      exact .inl ⟨t, List.mem_append_left _ ht, hstage⟩
    · exact absurd (hidle.symm.trans hrun) Bool.false_ne_true
  · rw [threads, seq]
    intro t ht hseq pid hstage
    obtain ht | ht := List.mem_append.mp ht
    · have hle := hseats.le ht
      omega
    · obtain rfl := List.mem_singleton.mp ht
      rw [hbegin] at hstage
      cases hstage

/-- A thread moves on. It writes the handle while no later session runs, and leaves a
process to the handle for its own session only. -/
theorem thread (h : Held kind handle stage s) (hseats : Seats s) {i : Nat} {t : StartThread} {pc : StartPc}
    (ht : s.startThreads[i]? = some t) (running : s'.mRunning = s.mRunning) (seq : s'.mConnectSeq = s.mConnectSeq)
    (threads : s'.startThreads = s.startThreads.set i ⟨t.session, pc⟩)
    (hmove : Move kind s.procs s'.procs (handle s) (handle s') (stage t.pc) (stage pc))
    (hlate : (∃ pid, stage t.pc = .started pid) ∨ stage t.pc = .dropping → s.mRunning = true →
      t.session.connectSeq = s.mConnectSeq)
    (hleaves : ∀ pid, stage t.pc = .started pid ∨ stage t.pc = .stored pid → stage pc = .after →
      s.mRunning = true ∧ t.session.connectSeq = s.mConnectSeq) : Held kind handle stage s' := by
  have hmem : t ∈ s.startThreads := List.mem_of_getElem? ht
  obtain ⟨hlt, _⟩ := List.getElem?_eq_some_iff.mp ht
  have hnew : (⟨t.session, pc⟩ : StartThread) ∈ s'.startThreads := by
    rw [threads]
    exact List.mem_set hlt _
  -- the handle stays unless the running session is the thread's own
  have hsame : s.mRunning = true → t.session.connectSeq ≠ s.mConnectSeq → handle s' = handle s := by
    intro hrun hforeign
    apply hmove.handle_same
    · exact fun pid hstage => hforeign (hlate (.inl ⟨pid, hstage⟩) hrun)
    · exact fun hstage => hforeign (hlate (.inr hstage) hrun)
  -- this thread is the only one of its session
  have honly : t.session.connectSeq = s.mConnectSeq → stage pc = .after →
      ∀ u ∈ s'.startThreads, u.session.connectSeq = s'.mConnectSeq → stage u.pc = .after := by
    intro hmine hafter u hu hown
    rw [threads] at hu
    obtain rfl | ⟨_, hother⟩ := hseats.other ht hu
    · exact hafter
    · rw [seq] at hown
      exact absurd (hown.trans hmine.symm) hother
  constructor
  · intro pid p hp hkind
    have hfrom : Runs s.procs pid p → (∃ u ∈ s'.startThreads, stage u.pc = .started pid ∨ stage u.pc = .stored pid) ∨
        (s'.mRunning = true ∧ handle s' = some pid ∧
          ∀ u ∈ s'.startThreads, u.session.connectSeq = s'.mConnectSeq → stage u.pc = .after) := by
      intro hold
      obtain ⟨u, hu, hstage⟩ | ⟨hrun, hheld, hpast⟩ := h.live pid p hold hkind
      · obtain hstays | rfl := mem_set_or (x := ⟨t.session, pc⟩) ht hu
        · rw [← threads] at hstays
          exact .inl ⟨u, hstays, hstage⟩
        · obtain hat | ⟨hafter, hhandle⟩ := hmove.keeps_to hp hstage
          · exact .inl ⟨_, hnew, hat⟩
          · obtain ⟨hrun, hmine⟩ := hleaves pid hstage hafter
            right
            refine ⟨running.trans hrun, ?_, honly hmine hafter⟩
            obtain hnow | ⟨hstored, hsame⟩ := hhandle
            · exact hnow
            · exact hsame.trans (h.stored u hmem hmine pid hstored)
      · right
        by_cases hmine : t.session.connectSeq = s.mConnectSeq
        · have hfrom := hmove
          rw [hpast t hmem hmine] at hfrom
          obtain ⟨hafter, hhandle⟩ := hfrom.from_after
          exact ⟨running.trans hrun, hhandle.trans hheld, honly hmine hafter⟩
        · refine ⟨running.trans hrun, (hsame hrun hmine).trans hheld, ?_⟩
          intro u hu hown
          rw [threads] at hu
          rw [seq] at hown
          obtain hold | hthis := List.mem_or_eq_of_mem_set hu
          · exact hpast u hold hown
          · subst hthis
            exact absurd hown hmine
    obtain hold | hspawned := hmove.live hp hkind
    · exact hfrom hold
    · exact .inl ⟨_, hnew, .inl hspawned⟩
  · intro u hu hown pid hstage
    rw [threads] at hu
    rw [seq] at hown
    obtain rfl | ⟨hold, hother⟩ := hseats.other ht hu
    · have hto := hmove
      rw [show stage pc = .stored pid from hstage] at hto
      obtain hnow | ⟨hstored, hhandle⟩ := hto.to_stored
      · exact hnow
      · exact hhandle.trans (h.stored t hmem hown pid hstored)
    · have hrun := hseats.running hold hown
      have hforeign : t.session.connectSeq ≠ s.mConnectSeq := fun hmine => hother (hown.trans hmine.symm)
      exact (hsame hrun hforeign).trans (h.stored u hold hown pid hstage)

end Held

end KiloProxy.Vpn
