import KiloProxy.Vpn.Frames

/-!
# Cancel wins

A connect generation is owned by the start intent that opened it. Every background
thread and posted completion carries a generation no newer than the counter, and only
while the service runs does one carry the counter itself. A stop moves the counter on,
so nothing older than it can bring the tunnel up again.
-/

namespace KiloProxy.Vpn
set_option autoImplicit false
open KiloProxy.Text KiloProxy.Util KiloProxy.Service KiloProxy.Run

/-- A start thread or a posted completion of `g` is around. -/
def Svc.Holds (s : Svc) (g : Session) : Prop :=
  (∃ t ∈ s.startThreads, t.session = g) ∨ Task.tunnelUp g ∈ s.mMainHandler

/-- The start intent at `i` was sent after every stop intent processed so far. -/
def Svc.Newest (s : Svc) (i : Nat) : Prop := ∀ j ∈ s.handledStops, j < i

/-- The running session is owned by the intent at `i`. -/
def Svc.OwnedBy (s : Svc) (i : Nat) : Prop := s.mRunning = true ∧ s.startedBy = some i

/-- The generation invariant. -/
structure Generations (s : Svc) : Prop where
  held : ∀ g, s.Holds g → g.connectSeq ≤ s.mConnectSeq ∧ (g.connectSeq = s.mConnectSeq → s.OwnedBy g.intent)
  up : s.mTunnelUp = true → ∃ g, s.tunnelUpBy = some g ∧ g.connectSeq = s.mConnectSeq ∧ s.OwnedBy g.intent
  running : s.mRunning = true → ∃ i, s.startedBy = some i ∧ s.Newest i
  queued : ∀ q ∈ s.queue, s.Newest q.1 ∧ q.1 < s.sent
  sorted : s.queue.Pairwise fun a b => a.1 < b.1
  handled : s.Newest s.sent

namespace Generations

variable {s s' : Svc}

/-- A step that only drops threads and completions keeps the invariant. -/
theorem quiet (h : Generations s) (control : s'.toControl = s.toControl) (intents : s'.toIntents = s.toIntents)
    (handledStops : s'.handledStops = s.handledStops) (startedBy : s'.startedBy = s.startedBy)
    (tunnelUpBy : s'.tunnelUpBy = s.tunnelUpBy) (holds : ∀ g, s'.Holds g → s.Holds g) : Generations s' := by
  have hnewest : ∀ i, s'.Newest i ↔ s.Newest i := fun i => by unfold Svc.Newest; rw [handledStops]
  have howned : ∀ i, s'.OwnedBy i ↔ s.OwnedBy i := fun i => by unfold Svc.OwnedBy; rw [control, startedBy]
  constructor
  · intro g hg
    rw [control, howned]
    exact h.held g (holds g hg)
  · rw [control, tunnelUpBy]
    simp only [howned]
    exact h.up
  · rw [control, startedBy]
    simp only [hnewest]
    exact h.running
  · rw [intents]
    simp only [hnewest]
    exact h.queued
  · rw [intents]
    exact h.sorted
  · rw [intents, hnewest]
    exact h.handled

theorem reports (h : Generations s) (hr : Reports s s') : Generations s' := by
  apply h.quiet hr.control hr.intents hr.handledStops hr.startedBy hr.tunnelUpBy
  intro g hg
  unfold Svc.Holds at hg ⊢
  rwa [hr.startThreads, hr.tasks] at hg

/-- A stop retires every generation. -/
theorem teardown (h : Generations s) (reason : StopReason) (origin : Option Nat) :
    Generations (s.teardown reason origin) where
  held g hg := by
    have hle := (h.held g hg).1
    have hseq : (s.teardown reason origin).mConnectSeq = s.mConnectSeq + 1 := rfl
    exact ⟨by omega, by omega⟩
  up hup := by cases hup
  running hrun := by cases hrun
  queued := h.queued
  sorted := h.sorted
  handled := h.handled

theorem stopMe (h : Generations s) (reason : StopReason) (origin : Option Nat) :
    Generations (s.stopMe reason origin) := by
  rcases s.stopMe_cases reason origin with ⟨_, hsame⟩ | hdown
  · rw [hsame]
    exact h
  · rw [hdown]
    exact h.teardown reason origin

/-- The tunnel comes up in the current generation. -/
theorem tunnelUp (h : Generations s) {g : Session} (hseq : g.connectSeq = s.mConnectSeq) (howned : s.OwnedBy g.intent)
    (usage : Option (Int × Int)) : Generations (s.tunnelUp g usage) where
  held := h.held
  up _ := ⟨g, rfl, hseq, howned⟩
  running := h.running
  queued := h.queued
  sorted := h.sorted
  handled := h.handled

/-- A start opens a generation of its own. -/
theorem accept (h : Generations s) (hidle : s.mRunning = false) {place : Nat} (hnew : s.Newest place)
    (cmd : VpnIntent) : Generations (s.accept place cmd) where
  held g hg := by
    have hle := (h.held g hg).1
    have hseq : (s.accept place cmd).mConnectSeq = s.mConnectSeq + 1 := rfl
    exact ⟨by omega, by omega⟩
  up hup := by
    obtain ⟨g, _, _, hrun, _⟩ := h.up hup
    rw [hidle] at hrun
    cases hrun
  running _ := ⟨place, rfl, hnew⟩
  queued := h.queued
  sorted := h.sorted
  handled := h.handled

/-- The thread of `start` carries the generation just opened. -/
theorem start (h : Generations s) {g : Session} (hseq : g.connectSeq = s.mConnectSeq) (howned : s.OwnedBy g.intent) :
    Generations (s.start g) where
  held g' hg' := by
    rcases hg' with ⟨t, ht, rfl⟩ | htask
    · rcases List.mem_append.mp ht with ht | ht
      · exact h.held _ (.inl ⟨t, ht, rfl⟩)
      · rw [List.mem_singleton] at ht
        subst ht
        exact ⟨hseq.le, fun _ => howned⟩
    · exact h.held g' (.inr htask)
  up := h.up
  running := h.running
  queued := h.queued
  sorted := h.sorted
  handled := h.handled

/-- `onStartCommand` for the intent at `place`, newer than every stop processed. -/
theorem onStart (h : Generations s) {place : Nat} (hnew : s.Newest place) (extras : Option VpnIntent)
    (saved : Option ProfileValues) (established : Established) :
    Generations (s.onStart place extras saved established) := by
  rcases s.onStart_cases place extras saved established with he | ⟨hidle, cmd, _, ⟨_, reason, he⟩ | ⟨n, _, he⟩⟩
  · rw [he]
    exact h
  · rw [he]
    exact (h.accept hidle hnew cmd).teardown reason none
  · rw [he]
    exact (h.accept hidle hnew cmd).start rfl ⟨rfl, rfl⟩

/-- The head of the queue was sent after every stop processed, and the rest after it. -/
theorem head (h : Generations s) {q : Nat × ServiceIntent} {queue : List (Nat × ServiceIntent)}
    (hq : s.queue = q :: queue) :
    s.Newest q.1 ∧ q.1 < s.sent ∧ (∀ r ∈ queue, q.1 < r.1 ∧ s.Newest r.1 ∧ r.1 < s.sent) ∧
      queue.Pairwise fun a b => a.1 < b.1 := by
  have hsorted := h.sorted
  rw [hq, List.pairwise_cons] at hsorted
  obtain ⟨hnew, hlt⟩ := h.queued q (by rw [hq]; exact List.mem_cons_self)
  exact ⟨hnew, hlt, fun r hr => ⟨hsorted.1 r hr, h.queued r (by rw [hq]; exact List.mem_cons_of_mem _ hr)⟩, hsorted.2⟩

/-- An idle service has processed the stop intent at the head. -/
theorem processed (h : Generations s) (hidle : s.mRunning = false) {place : Nat}
    {queue : List (Nat × ServiceIntent)} (hq : s.queue = (place, .stop) :: queue) :
    Generations { s with queue := queue, handledStops := s.handledStops ++ [place] } := by
  obtain ⟨_, hlt, hrest, hsorted⟩ := h.head hq
  have hnewer : ∀ i, s.Newest i → place < i → ∀ j ∈ s.handledStops ++ [place], j < i := by
    intro i hi hplace j hj
    rcases List.mem_append.mp hj with hj | hj
    · exact hi j hj
    · rw [List.mem_singleton] at hj
      omega
  constructor
  · exact h.held
  · exact h.up
  · intro hrun
    exact absurd (hidle.symm.trans hrun) Bool.false_ne_true
  · intro r hr
    exact ⟨hnewer _ (hrest r hr).2.1 (hrest r hr).1, (hrest r hr).2.2⟩
  · exact hsorted
  · exact hnewer _ h.handled hlt

/-- The next intent is delivered. -/
theorem deliver (h : Generations s) {saved : Option ProfileValues} {established : Established}
    (hs : s.deliver saved established = some s') : Generations s' := by
  obtain ⟨place, queue, ⟨hq, rfl⟩ | ⟨extras, hq, rfl⟩⟩ := Svc.deliver_cases hs
  · rcases Svc.stopMe_cases { s with queue := queue, handledStops := s.handledStops ++ [place] } .stopAction none
      with ⟨hidle, hsame⟩ | hdown
    · rw [hsame]
      exact h.processed hidle hq
    · rw [hdown]
      exact (h.teardown .stopAction none).processed rfl hq
  · obtain ⟨hnew, _, hrest, hsorted⟩ := h.head hq
    have hpopped : Generations { s with queue := queue } :=
      { h with
        queued := fun r hr => (hrest r hr).2
        sorted := hsorted }
    exact hpopped.onStart hnew extras saved established

/-- A new intent goes to the end of the queue. -/
theorem send (h : Generations s) (intent : ServiceIntent) :
    Generations { s with queue := s.queue ++ [(s.sent, intent)], sent := s.sent + 1 } where
  held := h.held
  up := h.up
  running := h.running
  queued q hq := by
    show s.Newest q.1 ∧ q.1 < s.sent + 1
    rcases List.mem_append.mp hq with hq | hq
    · exact ⟨(h.queued q hq).1, by have := (h.queued q hq).2; omega⟩
    · rw [List.mem_singleton] at hq
      subst hq
      exact ⟨h.handled, Nat.lt_succ_self _⟩
  sorted := by
    show (s.queue ++ [(s.sent, intent)]).Pairwise _
    rw [List.pairwise_append]
    refine ⟨h.sorted, List.pairwise_singleton _ _, fun a ha b hb => ?_⟩
    rw [List.mem_singleton] at hb
    subst hb
    exact (h.queued a ha).2
  handled j hj := by
    have := h.handled j hj
    show j < s.sent + 1
    omega

/-- A posted closure runs. -/
theorem task (h : Generations s) {i : Nat} {usage : Option (Int × Int)} (hs : s.task i usage = some s') :
    Generations s' := by
  obtain ⟨t, tasks, ht, hsub, hcases⟩ := Svc.task_cases hs
  have hpopped : Generations { s with mMainHandler := tasks } :=
    h.quiet rfl rfl rfl rfl rfl fun g hg => hg.imp id (hsub _)
  rcases hcases with ⟨g, reason, _, rfl⟩ | ⟨g, _, rfl⟩ | ⟨g, rfl, hseq, hrun, rfl⟩ | ⟨p, answer, _, rfl⟩
  · exact hpopped.stopMe reason _
  · exact hpopped
  · have howned := (h.held g (.inr (List.mem_of_getElem? ht))).2 hseq
    exact (hpopped.tunnelUp hseq howned usage).reports (Svc.postStartOnMain_reports g usage hrun)
  · rcases Svc.probeDone_cases { s with mMainHandler := tasks } p answer with hr | ⟨t, hr, _, hdown⟩
    · exact hpopped.reports hr
    · rw [hdown]
      exact (hpopped.reports hr).teardown _ _

/-- A background thread moves on; it passes its session to what it posts. -/
theorem thread (h : Generations s) {i : Nat} {reply : Reply} (hs : s.stepThread i reply = some s') :
    Generations s' := by
  obtain ⟨t, p, ht, _, rfl⟩ := Svc.stepThread_some hs
  refine h.quiet rfl rfl rfl rfl rfl fun g hg => ?_
  have hmem : t ∈ s.startThreads := List.mem_of_getElem? ht
  rcases hg with ⟨t', ht', rfl⟩ | htask
  · rcases List.mem_or_eq_of_mem_set ht' with hold | rfl
    · exact .inl ⟨t', hold, rfl⟩
    · exact .inl ⟨t, hmem, rfl⟩
  · rcases List.mem_append.mp htask with hold | hnew
    · exact .inr hold
    · obtain ⟨post, _, hpost⟩ := Option.map_eq_some_iff.mp (Option.mem_toList.mp hnew)
      cases post with
      | stop reason => cases hpost
      | tunnelUp =>
        cases hpost
        exact .inl ⟨t, hmem, rfl⟩

theorem monitor (h : Generations s) {i : Nat} (hs : s.stepMonitor i = some s') : Generations s' := by
  obtain ⟨m, p, code, _, _, _, rfl⟩ := Svc.stepMonitor_some hs
  refine h.quiet rfl rfl rfl rfl rfl fun g hg => ?_
  apply hg.imp id
  intro htask
  show Task.tunnelUp g ∈ s.mMainHandler
  replace htask : Task.tunnelUp g ∈ if _ then _ else _ := htask
  split at htask
  · rcases List.mem_append.mp htask with hold | hnew
    · exact hold
    · cases List.mem_singleton.mp hnew
  · exact htask

/-- One step keeps the invariant. -/
theorem step (h : Generations s) {a : Act} (hs : Svc.step s a = some s') : Generations s' := by
  cases a with
  | sendStart extras =>
    obtain rfl := Option.some.inj hs
    exact h.send (.start extras)
  | sendStop =>
    obtain rfl := Option.some.inj hs
    exact h.send .stop
  | deliver saved established => exact h.deliver hs
  | external reason =>
    obtain ⟨d, rfl⟩ := Svc.external_some hs
    exact (h.stopMe reason none).quiet rfl rfl rfl rfl rfl fun g hg => hg
  | screenOn => exact h.reports (Svc.screenOn_quiet hs).toReports
  | task i usage => exact h.task hs
  | stats i usage =>
    obtain ⟨l, rfl⟩ := Svc.stats_some hs
    exact h.quiet rfl rfl rfl rfl rfl fun g hg => hg
  | ipCheck i =>
    rcases Svc.ipCheck_cases hs with hr | ⟨_, l, rfl⟩
    · exact h.reports hr.toReports
    · exact h.quiet rfl rfl rfl rfl rfl fun g hg => hg
  | probeBegin =>
    obtain ⟨p, choice, rest, _, rfl⟩ := Svc.probeBegin_some hs
    exact h.quiet rfl rfl rfl rfl rfl fun g hg => hg
  | probeEnd answer =>
    obtain ⟨p, choice, rest, _, rfl⟩ := Svc.probeEnd_some hs
    refine h.quiet rfl rfl rfl rfl rfl fun g hg => ?_
    apply hg.imp id
    intro htask
    rcases List.mem_append.mp htask with hold | hnew
    · exact hold
    · cases List.mem_singleton.mp hnew
  | thread i reply => exact h.thread hs
  | dns i reply =>
    obtain ⟨t, p, _, _, rfl⟩ := Svc.stepDns_some hs
    exact h.quiet rfl rfl rfl rfl rfl fun g hg => hg
  | monitor i => exact h.monitor hs
  | change c =>
    rcases Svc.change_cases hs with hr | ⟨key, value, _, rfl⟩
    · exact h.reports hr.toReports
    · exact h.quiet rfl rfl rfl rfl rfl fun g hg => hg

theorem created (w : World) (accelDns : Option AccelDns) : Generations (Svc.created w accelDns) where
  held g hg := by
    rcases hg with ⟨t, ht, _⟩ | ht
    · cases ht
    · cases ht
  up hup := by cases hup
  running hrun := by cases hrun
  queued q hq := by cases hq
  sorted := .nil
  handled j hj := by cases hj

/-- In every reachable state what is held is of a generation already counted. -/
theorem reachable (h : Reachable system s) : Generations s := by
  apply Reaches.invariant _ _ h
  · rintro _ ⟨w, accelDns, _, rfl⟩
    exact created w accelDns
  · intro s a s' hs _ hstep
    exact hs.step hstep

end Generations

/-! ## The steps seen from outside -/

/-- The completion of the current session is posted and runs. -/
def Completes (s : Svc) (a : Act) : Prop :=
  ∃ i usage g, a = .task i usage ∧ s.mMainHandler[i]? = some (.tunnelUp g) ∧ g.connectSeq = s.mConnectSeq ∧
    s.mRunning = true

/-- The tunnel does not come up, and what was processed stays processed. -/
structure Lowers (s s' : Svc) : Prop where
  up : s'.mTunnelUp = true → s.mTunnelUp = true
  handled : ∀ j ∈ s.handledStops, j ∈ s'.handledStops

namespace Lowers

theorem refl (s : Svc) : Lowers s s := ⟨id, fun _ => id⟩

theorem trans {s t u : Svc} (h : Lowers s t) (h' : Lowers t u) : Lowers s u :=
  ⟨fun hup => h.up (h'.up hup), fun j hj => h'.handled j (h.handled j hj)⟩

theorem of_eq {s s' : Svc} (control : s'.toControl = s.toControl) (handled : s'.handledStops = s.handledStops) :
    Lowers s s' :=
  ⟨fun hup => by rwa [control] at hup, fun j hj => by rwa [handled]⟩

theorem of_reports {s s' : Svc} (h : Reports s s') : Lowers s s' := of_eq h.control h.handledStops

theorem teardown (s : Svc) (reason : StopReason) (origin : Option Nat) : Lowers s (s.teardown reason origin) :=
  ⟨fun hup => (Bool.false_ne_true hup).elim, fun _ => id⟩

theorem stopMe (s : Svc) (reason : StopReason) (origin : Option Nat) : Lowers s (s.stopMe reason origin) := by
  rcases s.stopMe_cases reason origin with ⟨_, hsame⟩ | hdown
  · rw [hsame]
    exact refl s
  · rw [hdown]
    exact teardown s reason origin

theorem onStart (s : Svc) (place : Nat) (extras : Option VpnIntent) (saved : Option ProfileValues)
    (established : Established) : Lowers s (s.onStart place extras saved established) := by
  rcases s.onStart_cases place extras saved established with he | ⟨_, cmd, _, ⟨_, reason, he⟩ | ⟨n, _, he⟩⟩
  · rw [he]
    exact refl s
  · rw [he]
    have haccept : Lowers s (s.accept place cmd) := ⟨id, fun _ => id⟩
    exact haccept.trans (teardown _ reason none)
  · rw [he]
    exact ⟨id, fun _ => id⟩

theorem deliver {s s' : Svc} {saved : Option ProfileValues} {established : Established}
    (hs : s.deliver saved established = some s') : Lowers s s' := by
  obtain ⟨place, queue, ⟨_, rfl⟩ | ⟨extras, _, rfl⟩⟩ := Svc.deliver_cases hs
  · have hpopped : Lowers s { s with queue := queue, handledStops := s.handledStops ++ [place] } :=
      ⟨id, fun j hj => List.mem_append_left _ hj⟩
    exact hpopped.trans (stopMe _ _ _)
  · have hpopped : Lowers s { s with queue := queue } := ⟨id, fun _ => id⟩
    exact hpopped.trans (onStart _ place extras saved established)

end Lowers

namespace Svc

variable {s s' : Svc}

/-- Only the completion of the current session brings the tunnel up. -/
theorem task_lowers {i : Nat} {usage : Option (Int × Int)} (hs : s.task i usage = some s') :
    Lowers s s' ∨ Completes s (.task i usage) ∧ ∀ j ∈ s.handledStops, j ∈ s'.handledStops := by
  obtain ⟨t, tasks, ht, _, hcases⟩ := task_cases hs
  have hpopped : Lowers s { s with mMainHandler := tasks } := ⟨id, fun _ => id⟩
  rcases hcases with ⟨g, reason, _, rfl⟩ | ⟨g, _, rfl⟩ | ⟨g, rfl, hseq, hrun, rfl⟩ | ⟨p, answer, _, rfl⟩
  · exact .inl (hpopped.trans (.stopMe _ reason _))
  · exact .inl hpopped
  · have hr := postStartOnMain_reports (s := { s with mMainHandler := tasks }) g usage hrun
    exact .inr ⟨⟨i, usage, g, rfl, ht, hseq, hrun⟩, fun j hj => by rw [hr.handledStops]; exact hj⟩
  · left
    rcases probeDone_cases { s with mMainHandler := tasks } p answer with hr | ⟨t, hr, _, hdown⟩
    · exact hpopped.trans (.of_reports hr)
    · rw [hdown]
      exact hpopped.trans (.trans (.of_reports hr) (.teardown t _ _))

/-- No step brings the tunnel up but the one that completes a start. -/
theorem step_lowers {a : Act} (hs : Svc.step s a = some s') :
    Lowers s s' ∨ Completes s a ∧ ∀ j ∈ s.handledStops, j ∈ s'.handledStops := by
  cases a with
  | task i usage => exact task_lowers hs
  | deliver saved established => exact .inl (.deliver hs)
  | external reason =>
    left
    obtain ⟨d, rfl⟩ := external_some hs
    exact (Lowers.stopMe s reason none).trans (.of_eq rfl rfl)
  | probeEnd answer =>
    left
    obtain ⟨p, choice, rest, _, rfl⟩ := probeEnd_some hs
    exact .of_eq rfl rfl
  | thread i reply =>
    left
    obtain ⟨t, p, _, _, rfl⟩ := stepThread_some hs
    exact .of_eq rfl rfl
  | monitor i =>
    left
    obtain ⟨m, p, code, _, _, _, rfl⟩ := stepMonitor_some hs
    exact .of_eq rfl rfl
  | _ =>
    left
    have haside : Aside s s' := step_aside rfl hs
    exact .of_eq haside.control haside.handledStops

/-- What was processed stays processed in all later states. -/
theorem handledStops_later (hs : Reachable system s) (h : Leads system (fun _ _ => True) s s') :
    ∀ j ∈ s.handledStops, j ∈ s'.handledStops := by
  apply Leads.preorder (R := fun s s' => ∀ j ∈ s.handledStops, j ∈ s'.handledStops) _ _ _ hs h
  · intro s j hj
    exact hj
  · intro s t u hst htu j hj
    exact htu j (hst j hj)
  · intro s a t _ _ hstep
    rcases step_lowers hstep with hl | ⟨_, hkept⟩
    · exact hl.handled
    · exact hkept

end Svc

/-- **Cancel wins.** Once the stop intent sent as number `j` is processed, whatever runs
or is up then or later belongs to a start intent sent after it; and the tunnel comes up
only by the completion of the session that holds the connect counter. -/
theorem cancel_wins {s s' : Svc} (hs : Reachable system s) (hlater : Leads system (fun _ _ => True) s s') :
    (∀ j ∈ s.handledStops,
      (s'.mRunning = true → ∃ i, s'.startedBy = some i ∧ j < i) ∧
      (s'.mTunnelUp = true → ∃ g, s'.tunnelUpBy = some g ∧ j < g.intent ∧ g.connectSeq = s'.mConnectSeq)) ∧
    ∀ a t, Svc.step s' a = some t → s'.mTunnelUp = false → t.mTunnelUp = true → Completes s' a := by
  constructor
  · intro j hj
    have hgen := Generations.reachable (hlater.reaches hs)
    have hj' := Svc.handledStops_later hs hlater j hj
    constructor
    · intro hrun
      obtain ⟨i, hi, hnew⟩ := hgen.running hrun
      exact ⟨i, hi, hnew j hj'⟩
    · intro hup
      obtain ⟨g, hg, hseq, hrun, hi⟩ := hgen.up hup
      obtain ⟨i, hi', hnew⟩ := hgen.running hrun
      obtain rfl : g.intent = i := Option.some.inj (hi.symm.trans hi')
      exact ⟨g, hg, hnew j hj', hseq⟩
  · intro a t hstep hdown hup
    rcases Svc.step_lowers hstep with hl | ⟨hc, _⟩
    · rw [hl.up hup] at hdown
      cases hdown
    · exact hc

/-- A start is cancelled while it is queued; a second start then comes up. -/
theorem cancel_wins_second_start : ∃ s s' : Svc, s.handledStops = [1] ∧ s'.mTunnelUp = true ∧
    ∀ j ∈ s.handledStops, s'.mTunnelUp = true → ∃ g : Session, s'.tunnelUpBy = some g ∧ j < g.intent ∧
      g.connectSeq = s'.mConnectSeq := by
  have hrun : ((exec system (Svc.created phone none)
      [.sendStart (some (startOf "Home".toList "10.0.0.1".toList)), .sendStop,
       .sendStart (some (startOf "Work".toList "10.0.0.2".toList)), .deliver none (.fd 3), .deliver none .null]).bind
      fun s => (exec system s ([.deliver none (.fd 4)] ++ bringUp 1 "10.0.0.2".toList ++ [.task 0 none])).map
      fun s' => (s.handledStops, s'.mTunnelUp)) = some ([1], true) := by decide +kernel
  obtain ⟨s, hs, hrest⟩ := Option.bind_eq_some_iff.mp hrun
  obtain ⟨s', hs', hpair⟩ := Option.map_eq_some_iff.mp hrest
  obtain ⟨hstops, hup⟩ := Prod.mk.inj hpair
  have hreach : Reachable system s := exec_reaches _ (created_reachable rfl none) hs
  exact ⟨s, s', hstops, hup, fun j hj => ((cancel_wins hreach (exec_leads _ .here hs')).1 j hj).2⟩

end KiloProxy.Vpn
