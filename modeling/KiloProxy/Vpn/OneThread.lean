import KiloProxy.Vpn.Frames
import Mathlib.Data.List.Perm.Basic

/-!
# One thread, one completion for each session

Every accepted start raises the connect counter and runs one background thread, which
posts its completion as its last act. So no two threads are of one session, and the
tunnel of a session comes up at most once.
-/

namespace KiloProxy.Vpn
set_option autoImplicit false
open KiloProxy.Text KiloProxy.Util KiloProxy.Service KiloProxy.Run

/-- The completion of the session `c`. -/
def Task.completes (c : Nat) : Task → Bool
  | .tunnelUp g => g.connectSeq = c
  | _ => false

/-- The thread of the session `c`, still on its way. -/
def StartThread.underway (c : Nat) (t : StartThread) : Bool := t.session.connectSeq = c && t.pc ≠ .done

/-- How often the tunnel of the session `c` may yet come up. -/
def Svc.completions (s : Svc) (c : Nat) : Nat :=
  s.startThreads.countP (StartThread.underway c) + s.mMainHandler.countP (Task.completes c)

/-- How often it has come up and not gone down. -/
def Svc.ups (s : Svc) (c : Nat) : Nat := if s.mTunnelUp = true ∧ s.mConnectSeq = c then 1 else 0

/-- The sessions of the start threads, by their counters. -/
def Svc.threadSeqs (s : Svc) : List Nat := s.startThreads.map fun t => t.session.connectSeq

theorem Svc.threadSeqs_get {s : Svc} {i : Nat} {t : StartThread} (ht : s.startThreads[i]? = some t) :
    s.threadSeqs[i]? = some t.session.connectSeq := by
  unfold threadSeqs
  rw [List.getElem?_map, ht]
  rfl

/-- The counter is that of the running session's thread, and above all others. -/
structure Seats (s : Svc) : Prop where
  idle : s.mRunning = false → ∀ c ∈ s.threadSeqs, c < s.mConnectSeq
  runs : s.mRunning = true → s.mConnectSeq ∈ s.threadSeqs
  bound : ∀ c ∈ s.threadSeqs, c ≤ s.mConnectSeq
  distinct : s.threadSeqs.Nodup

namespace Seats

variable {s s' : Svc}

/-- Nothing else counts. -/
theorem of_eq (h : Seats s) (running : s'.mRunning = s.mRunning) (seq : s'.mConnectSeq = s.mConnectSeq)
    (threads : s'.startThreads = s.startThreads) : Seats s' := by
  have hseqs : s'.threadSeqs = s.threadSeqs := by unfold Svc.threadSeqs; rw [threads]
  constructor
  · rw [hseqs, seq, running]
    exact h.idle
  · rw [hseqs, seq, running]
    exact h.runs
  · rw [hseqs, seq]
    exact h.bound
  · rw [hseqs]
    exact h.distinct

/-- No two threads are of one session. -/
theorem same (h : Seats s) {i j : Nat} {t u : StartThread} (ht : s.startThreads[i]? = some t)
    (hu : s.startThreads[j]? = some u) (hseq : t.session.connectSeq = u.session.connectSeq) : i = j := by
  have hi := Svc.threadSeqs_get ht
  have hj := Svc.threadSeqs_get hu
  rw [← hseq] at hj
  obtain ⟨hlt, _⟩ := List.getElem?_eq_some_iff.mp hi
  exact (List.getElem?_inj hlt h.distinct).mp (hi.trans hj.symm)

/-- The running session's thread. -/
theorem current (h : Seats s) (hrun : s.mRunning = true) :
    ∃ t ∈ s.startThreads, t.session.connectSeq = s.mConnectSeq := List.mem_map.mp (h.runs hrun)

/-- A thread that holds the counter is that of a running session. -/
theorem running (h : Seats s) {t : StartThread} (ht : t ∈ s.startThreads)
    (hseq : t.session.connectSeq = s.mConnectSeq) : s.mRunning = true := by
  by_contra hidle
  have hlt := h.idle (Bool.not_eq_true _ ▸ hidle) _ (List.mem_map_of_mem ht)
  omega

theorem le (h : Seats s) {t : StartThread} (ht : t ∈ s.startThreads) : t.session.connectSeq ≤ s.mConnectSeq :=
  h.bound _ (List.mem_map_of_mem ht)

/-- All threads but the stepping one are of other sessions. -/
theorem other (h : Seats s) {i : Nat} {t u x : StartThread} (ht : s.startThreads[i]? = some t)
    (hu : u ∈ s.startThreads.set i x) :
    u = x ∨ (u ∈ s.startThreads ∧ u.session.connectSeq ≠ t.session.connectSeq) := by
  obtain ⟨hlt, _⟩ := List.getElem?_eq_some_iff.mp ht
  obtain ⟨j, hj⟩ := List.mem_iff_getElem?.mp hu
  by_cases hij : i = j
  · subst hij
    rw [List.getElem?_set_self hlt] at hj
    exact .inl (Option.some.inj hj).symm
  · rw [List.getElem?_set_ne hij] at hj
    exact .inr ⟨List.mem_of_getElem? hj, fun hseq => hij (h.same ht hj hseq.symm)⟩

end Seats

/-- A thread other than the stepping one stays. -/
theorem mem_set_or {l : List StartThread} {i : Nat} {t u x : StartThread} (ht : l[i]? = some t) (hu : u ∈ l) :
    u ∈ l.set i x ∨ u = t := by
  obtain ⟨j, hj⟩ := List.mem_iff_getElem?.mp hu
  by_cases hij : i = j
  · subst hij
    exact .inr (Option.some.inj (hj.symm.trans ht))
  · left
    apply List.mem_iff_getElem?.mpr
    exact ⟨j, by rw [List.getElem?_set_ne hij, hj]⟩

/-- A tunnel comes up once. -/
structure Single (s : Svc) : Prop extends Seats s where
  off : s.mRunning = false → s.mTunnelUp = false
  later : ∀ c, s.mConnectSeq < c → s.completions c = 0
  once : ∀ c, s.completions c + s.ups c ≤ 1

/-- A thread that posts the completion is done. -/
theorem StartThread.advance_completes {s : Svc} {t : StartThread} {reply : Reply} {p : Progress}
    (h : t.advance s reply = some p) (hpost : p.post = some .tunnelUp) : p.pc = .done := by
  obtain ⟨g, pc⟩ := t
  unfold advance at h
  cases pc with
  | done => cases h
  | _ =>
    simp only at h
    repeat' split at h
    all_goals first | cases h; done | (cases h; first | rfl | cases hpost)

/-- A done thread takes no step. -/
theorem StartThread.advance_underway {s : Svc} {t : StartThread} {reply : Reply} {p : Progress}
    (h : t.advance s reply = some p) : t.pc ≠ .done := by
  intro hdone
  unfold advance at h
  rw [hdone] at h
  cases h

/-- What a step posts was the thread's to post. -/
theorem StartThread.advance_turns {s : Svc} {t : StartThread} {reply : Reply} {p : Progress}
    (h : t.advance s reply = some p) (c : Nat) :
    (if underway c ⟨t.session, p.pc⟩ = true then 1 else 0) +
      (p.post.map (Post.task t.session)).toList.countP (Task.completes c) ≤ if underway c t = true then 1 else 0 := by
  have hwas : underway c t = decide (t.session.connectSeq = c) := by
    unfold underway
    rw [decide_eq_true (advance_underway h), Bool.and_true]
  have hnow : underway c ⟨t.session, p.pc⟩ = true → t.session.connectSeq = c := fun hown =>
    of_decide_eq_true (Bool.and_eq_true_iff.mp hown).1
  have hnothing : (if underway c ⟨t.session, p.pc⟩ = true then 1 else 0) ≤ if underway c t = true then 1 else 0 := by
    by_cases hown : underway c ⟨t.session, p.pc⟩ = true
    · rw [if_pos hown, hwas, if_pos (decide_eq_true (hnow hown))]
    · rw [if_neg hown]
      exact Nat.zero_le _
  cases hpost : p.post with
  | none => exact hnothing
  | some post => cases post with
    | stop reason => exact hnothing
    | tunnelUp =>
      have hdone : underway c ⟨t.session, p.pc⟩ = false := by
        unfold underway
        rw [advance_completes h hpost]
        exact Bool.and_false _
      rw [hdone, hwas, if_neg Bool.false_ne_true, Nat.zero_add]
      show [Task.tunnelUp t.session].countP (Task.completes c) ≤ _
      rw [List.countP_cons, List.countP_nil, Nat.zero_add]
      exact le_rfl

/-- Taking out an entry lowers the count of its kind. -/
theorem countP_eraseIdx {α : Type} {l : List α} {i : Nat} {a : α} (h : l[i]? = some a) (kind : α → Bool) :
    l.countP kind = (l.eraseIdx i).countP kind + if kind a then 1 else 0 := by
  obtain ⟨hi, rfl⟩ := List.getElem?_eq_some_iff.mp h
  rw [← (List.getElem_cons_eraseIdx_perm hi).countP_eq, List.countP_cons]

namespace Single

variable {s s' : Svc}

/-- A step that starts no thread and posts no completion. -/
theorem keep (h : Single s) (control : s'.toControl = s.toControl) (threads : s'.startThreads = s.startThreads)
    (tasks : ∀ c, s'.mMainHandler.countP (Task.completes c) ≤ s.mMainHandler.countP (Task.completes c)) :
    Single s' := by
  have hups : ∀ c, s'.ups c = s.ups c := fun c => by unfold Svc.ups; rw [control]
  have hfewer : ∀ c, s'.completions c ≤ s.completions c := by
    intro c
    unfold Svc.completions
    rw [threads]
    exact Nat.add_le_add_left (tasks c) _
  refine ⟨h.toSeats.of_eq ?_ ?_ threads, ?_, ?_, ?_⟩
  · rw [control]
  · rw [control]
  · rw [control]
    exact h.off
  · intro c hc
    rw [control] at hc
    have hnone := h.later c hc
    have hle := hfewer c
    omega
  · intro c
    have honce := h.once c
    have hle := hfewer c
    rw [hups]
    omega

/-- A step away from threads and tasks. -/
theorem quiet (h : Single s) (control : s'.toControl = s.toControl) (threads : s'.startThreads = s.startThreads)
    (tasks : s'.mMainHandler = s.mMainHandler) : Single s' :=
  h.keep control threads fun c => by rw [tasks]

/-- A task that is no completion is posted. -/
theorem post (h : Single s) (control : s'.toControl = s.toControl) (threads : s'.startThreads = s.startThreads)
    (task : Task) (other : ∀ c, task.completes c = false) (tasks : s'.mMainHandler = s.mMainHandler ++ [task]) :
    Single s' := by
  apply h.keep control threads
  intro c
  rw [tasks, List.countP_append, List.countP_cons_of_neg (by rw [other]; exact Bool.false_ne_true), List.countP_nil]
  exact le_rfl

theorem reports (h : Single s) (hr : Reports s s') : Single s' := h.quiet hr.control hr.startThreads hr.tasks

/-- A step that leaves no session running, above all counters so far. -/
theorem down (h : Single s) (running : s'.mRunning = false) (tunnel : s'.mTunnelUp = false)
    (seq : s.mConnectSeq < s'.mConnectSeq) (threads : s'.startThreads = s.startThreads)
    (tasks : s'.mMainHandler = s.mMainHandler) : Single s' := by
  have hseqs : s'.threadSeqs = s.threadSeqs := by unfold Svc.threadSeqs; rw [threads]
  have hsame : ∀ c, s'.completions c = s.completions c := by
    intro c
    unfold Svc.completions
    rw [threads, tasks]
  have hbelow : ∀ c ∈ s'.threadSeqs, c < s'.mConnectSeq := by
    intro c hc
    rw [hseqs] at hc
    have hle := h.bound c hc
    omega
  refine ⟨⟨?_, ?_, ?_, ?_⟩, ?_, ?_, ?_⟩
  · exact fun _ => hbelow
  · intro hrun
    rw [running] at hrun
    cases hrun
  · exact fun c hc => (hbelow c hc).le
  · rw [hseqs]
    exact h.distinct
  · exact fun _ => tunnel
  · intro c hc
    rw [hsame]
    exact h.later c (by omega)
  · intro c
    have honce := h.once c
    have hups : s'.ups c = 0 := if_neg fun hup => Bool.false_ne_true (tunnel.symm.trans hup.1)
    rw [hsame, hups]
    omega

theorem teardown (h : Single s) (reason : StopReason) (origin : Option Nat) : Single (s.teardown reason origin) :=
  h.down rfl rfl (Nat.lt_succ_self _) rfl rfl

/-- A stop takes the tunnel down; the completions still posted are of an earlier session from then on. -/
theorem stopMe (h : Single s) (reason : StopReason) (origin : Option Nat) : Single (s.stopMe reason origin) := by
  cases s.stopMe_cases reason origin with
  | inl hsame =>
    rw [hsame.2]
    exact h
  | inr hdown =>
    rw [hdown]
    exact h.teardown reason origin

/-- The thread of an accepted start is the first of its session. -/
theorem onStart (h : Single s) (place : Nat) (extras : Option VpnIntent) (saved : Option ProfileValues)
    (established : Established) : Single (s.onStart place extras saved established) := by
  obtain he | ⟨hidle, cmd, _, ⟨_, reason, he⟩ | ⟨n, _, he⟩⟩ := s.onStart_cases place extras saved established
  · rw [he]
    exact h
  · rw [he]
    have hseq : s.mConnectSeq < ((s.accept place cmd).teardown reason none).mConnectSeq :=
      (Nat.lt_succ_self _).trans (Nat.lt_succ_self _)
    exact h.down rfl rfl hseq rfl rfl
  · rw [he]
    have hnew : s.completions (s.mConnectSeq + 1) = 0 := h.later _ (Nat.lt_succ_self _)
    have hdown := h.off hidle
    -- the counter of the new session, above those of all threads
    have hmore : ∀ c, ((s.accept place cmd).start ((s.accept place cmd).session place n cmd)).completions c =
        s.completions c + if s.mConnectSeq + 1 = c then 1 else 0 := by
      intro c
      have hone : StartThread.underway c ⟨(s.accept place cmd).session place n cmd, .begin⟩ =
          decide (s.mConnectSeq + 1 = c) := Bool.and_true _
      have hcount : (s.startThreads ++ [(⟨(s.accept place cmd).session place n cmd, .begin⟩ : StartThread)]).countP
          (StartThread.underway c) =
          s.startThreads.countP (StartThread.underway c) + if s.mConnectSeq + 1 = c then 1 else 0 := by
        rw [List.countP_append, List.countP_cons, List.countP_nil, hone]
        simp only [decide_eq_true_eq, Nat.zero_add]
      have hgoal : ((s.accept place cmd).start ((s.accept place cmd).session place n cmd)).completions c =
          (s.startThreads ++ [(⟨(s.accept place cmd).session place n cmd, .begin⟩ : StartThread)]).countP
            (StartThread.underway c) + s.mMainHandler.countP (Task.completes c) := rfl
      rw [hgoal, hcount]
      unfold Svc.completions
      omega
    have hseqs : ((s.accept place cmd).start ((s.accept place cmd).session place n cmd)).threadSeqs =
        s.threadSeqs ++ [s.mConnectSeq + 1] := List.map_append
    refine ⟨⟨?_, ?_, ?_, ?_⟩, ?_, ?_, ?_⟩
    · intro hi
      cases hi
    · intro _
      rw [hseqs]
      exact List.mem_append_right _ (List.mem_singleton_self _)
    · intro c hc
      show c ≤ s.mConnectSeq + 1
      rw [hseqs] at hc
      obtain hold | hlast := List.mem_append.mp hc
      · have hle := h.bound c hold
        omega
      · exact (List.mem_singleton.mp hlast).le
    · rw [hseqs]
      apply List.nodup_append.mpr
      refine ⟨h.distinct, List.pairwise_singleton _ _, fun c hold d hlast => ?_⟩
      have hle := h.bound c hold
      have heq : d = s.mConnectSeq + 1 := List.mem_singleton.mp hlast
      omega
    · exact fun _ => hdown
    · intro c hc
      have hlt : s.mConnectSeq + 1 < c := hc
      have hnone := h.later c (by omega)
      rw [hmore, hnone, if_neg (by omega)]
    · intro c
      have honce := h.once c
      have hups : ((s.accept place cmd).start ((s.accept place cmd).session place n cmd)).ups c = 0 := by
        apply if_neg
        intro hup
        exact Bool.false_ne_true (hdown.symm.trans hup.1)
      rw [hmore, hups]
      by_cases hc : s.mConnectSeq + 1 = c
      · subst hc
        rw [hnew, if_pos rfl]
      · rw [if_neg hc]
        omega

theorem deliver (h : Single s) {saved : Option ProfileValues} {established : Established}
    (hs : s.deliver saved established = some s') : Single s' := by
  obtain ⟨place, queue, ⟨_, rfl⟩ | ⟨extras, _, rfl⟩⟩ := Svc.deliver_cases hs
  · have hpopped : Single { s with queue := queue, handledStops := s.handledStops ++ [place] } := h.quiet rfl rfl rfl
    exact hpopped.stopMe _ _
  · have hpopped : Single { s with queue := queue } := h.quiet rfl rfl rfl
    exact hpopped.onStart place extras saved established

/-- A completion that is processed makes room for the tunnel it brings up. -/
theorem task (h : Single s) {i : Nat} {usage : Option (Int × Int)} (hs : s.task i usage = some s') : Single s' := by
  obtain ⟨t, ht, rfl⟩ := Option.map_eq_some_iff.mp hs
  have hcount := countP_eraseIdx ht
  have hpopped : Single { s with mMainHandler := s.mMainHandler.eraseIdx i } := by
    refine h.keep rfl rfl fun c => ?_
    have hc := hcount (Task.completes c)
    show (s.mMainHandler.eraseIdx i).countP (Task.completes c) ≤ _
    omega
  cases t with
  | stop g reason => exact hpopped.stopMe reason _
  | probeDone p answer =>
    obtain hr | ⟨u, hr, _, hdown⟩ := Svc.probeDone_cases { s with mMainHandler := s.mMainHandler.eraseIdx i } p answer
    · exact hpopped.reports hr
    · show Single (Svc.probeDone _ p answer)
      rw [hdown]
      exact (hpopped.reports hr).teardown _ _
  | tunnelUp g =>
    unfold Svc.runTask
    simp only
    split
    · exact hpopped
    · rename_i hfresh
      obtain ⟨hseq, hrun⟩ := Svc.fresh hfresh
      have hr := Svc.postStartOnMain_reports (s := { s with mMainHandler := s.mMainHandler.eraseIdx i }) g usage hrun
      apply reports _ hr
      refine ⟨h.toSeats.of_eq rfl rfl rfl, ?_, hpopped.later, ?_⟩
      · intro hidle
        exact absurd (hrun.symm.trans hidle) (Bool.false_ne_true ∘ Eq.symm)
      · intro c
        have honce := h.once c
        have hc := hcount (Task.completes c)
        show s.startThreads.countP (StartThread.underway c) + (s.mMainHandler.eraseIdx i).countP (Task.completes c) + _ ≤ 1
        unfold Svc.completions at honce
        by_cases hown : s.mConnectSeq = c
        · have hcompletes : Task.completes c (.tunnelUp g) = true := decide_eq_true (hseq.trans hown)
          rw [hcompletes, if_pos rfl] at hc
          have hups : (Svc.tunnelUp { s with mMainHandler := s.mMainHandler.eraseIdx i } g usage).ups c = 1 :=
            if_pos ⟨rfl, hown⟩
          rw [hups]
          omega
        · have hups : (Svc.tunnelUp { s with mMainHandler := s.mMainHandler.eraseIdx i } g usage).ups c = 0 :=
            if_neg fun hup => hown hup.2
          rw [hups]
          omega

/-- A thread ends with the completion it posts. -/
theorem thread (h : Single s) {i : Nat} {reply : Reply} (hs : s.stepThread i reply = some s') : Single s' := by
  obtain ⟨t, p, ht, hp, rfl⟩ := Svc.stepThread_some hs
  obtain ⟨hi, hti⟩ := List.getElem?_eq_some_iff.mp ht
  have hseqs : (s.startThreads.set i ⟨t.session, p.pc⟩).map (fun t => t.session.connectSeq) = s.threadSeqs := by
    obtain ⟨hlt, hsame⟩ := List.getElem?_eq_some_iff.mp (Svc.threadSeqs_get ht)
    rw [List.map_set]
    show s.threadSeqs.set i t.session.connectSeq = s.threadSeqs
    rw [← hsame, List.set_getElem_self]
  have hfewer : ∀ c, (s.startThreads.set i ⟨t.session, p.pc⟩).countP (StartThread.underway c) +
      (s.mMainHandler ++ (p.post.map (Post.task t.session)).toList).countP (Task.completes c) ≤ s.completions c := by
    intro c
    have hpos : (if StartThread.underway c s.startThreads[i] = true then 1 else 0) ≤
        s.startThreads.countP (StartThread.underway c) := List.boole_getElem_le_countP hi
    have hposted := StartThread.advance_turns hp c
    rw [List.countP_set hi, List.countP_append]
    unfold Svc.completions
    rw [hti] at hpos ⊢
    omega
  refine ⟨⟨?_, ?_, ?_, ?_⟩, h.off, ?_, ?_⟩
  · show s.mRunning = false → ∀ c ∈ List.map _ _, c < s.mConnectSeq
    rw [hseqs]
    exact h.idle
  · show s.mRunning = true → s.mConnectSeq ∈ List.map _ _
    rw [hseqs]
    exact h.runs
  · show ∀ c ∈ List.map _ _, c ≤ s.mConnectSeq
    rw [hseqs]
    exact h.bound
  · show (List.map _ _).Nodup
    rw [hseqs]
    exact h.distinct
  · intro c hc
    have hnone := h.later c hc
    have hle := hfewer c
    exact Nat.le_zero.mp (hnone ▸ hle)
  · intro c
    have honce := h.once c
    have hle := hfewer c
    exact (Nat.add_le_add_right hle _).trans honce

theorem monitor (h : Single s) {i : Nat} (hs : s.stepMonitor i = some s') : Single s' := by
  obtain ⟨m, p, code, _, _, _, rfl⟩ := Svc.stepMonitor_some hs
  by_cases hstop : code ≠ 0 ∧ s.mRunning = true
  · exact h.post rfl rfl (.stop m.session (.tun2socksExited code)) (fun _ => rfl) (if_pos hstop)
  · exact h.quiet rfl rfl (if_neg hstop)

/-- Over every step a tunnel comes up at most once a session. -/
theorem step (h : Single s) {a : Act} (hs : Svc.step s a = some s') : Single s' := by
  cases a with
  | deliver saved established => exact h.deliver hs
  | external reason =>
    obtain ⟨d, rfl⟩ := Svc.external_some hs
    exact (h.stopMe reason none).quiet rfl rfl rfl
  | task i usage => exact h.task hs
  | thread i reply => exact h.thread hs
  | monitor i => exact h.monitor hs
  | probeEnd answer =>
    obtain ⟨p, choice, rest, _, rfl⟩ := Svc.probeEnd_some hs
    exact h.post rfl rfl (.probeDone p answer) (fun _ => rfl) rfl
  | _ =>
    have haside : Aside s s' := Svc.step_aside rfl hs
    exact h.quiet haside.control haside.startThreads haside.tasks

/-- Over every run a tunnel comes up at most once a session. -/
theorem reachable (h : Reachable system s) : Single s := by
  apply Reaches.invariant (P := Single) _ _ h
  · intro s hs
    obtain ⟨w, accelDns, _, rfl⟩ := hs
    refine ⟨⟨?_, ?_, ?_, ?_⟩, ?_, ?_, ?_⟩
    · exact fun _ c hc => nomatch hc
    · exact fun hrun => nomatch hrun
    · exact fun c hc => nomatch hc
    · exact List.nodup_nil
    · exact fun _ => rfl
    · exact fun _ _ => rfl
    · exact fun _ => Nat.zero_le _
  · exact fun _ _ _ hs _ hstep => hs.step hstep

/-- A tunnel that is up is not brought up again. -/
theorem not_again (h : Single s) {i : Nat} {g : Session} (ht : s.mMainHandler[i]? = some (.tunnelUp g))
    (hown : g.connectSeq = s.mConnectSeq) : s.mTunnelUp = false := by
  by_contra hup
  have honce := h.once s.mConnectSeq
  have hups : s.ups s.mConnectSeq = 1 := if_pos ⟨Bool.not_eq_false _ ▸ hup, rfl⟩
  have hpos : 0 < s.mMainHandler.countP (Task.completes s.mConnectSeq) := by
    apply List.countP_pos_iff.mpr
    exact ⟨_, List.mem_of_getElem? ht, decide_eq_true hown⟩
  unfold Svc.completions at honce
  omega

end Single

end KiloProxy.Vpn
