import KiloProxy.Vpn.OneThread
import KiloProxy.Vpn.PublishedState
import KiloProxy.Vpn.UsageKept

/-!
# Exact usage accounting

A ledger runs beside the service and notes, for each session whose tunnel came up, the
reading at tunnel-up, the last reading of a tick and the last one that was stored. When
every session of the profile reaches tunnel-up before it is stopped and its readings are
those of one byte counter, the stored totals are the opening ones plus what the counters
moved, over any number of sessions, ticks and persists.
-/

namespace KiloProxy.Vpn
set_option autoImplicit false
open KiloProxy.Text KiloProxy.Util KiloProxy.Service KiloProxy.Run

/-- The readings of a session: at tunnel-up, of the last tick, of the last persist. -/
structure Meter where
  first : Int × Int
  last : Int × Int
  saved : Int × Int
deriving DecidableEq, Repr

namespace Meter

def counted (m : Meter) (d : Direction) : Int := reading m.last d - reading m.first d

def stored (m : Meter) (d : Direction) : Int := reading m.saved d - reading m.first d

/-- A tick reads, and may persist. -/
def tick (m : Meter) (usage : Option (Int × Int)) (persists : Bool) : Meter :=
  { m with last := usage.getD m.last, saved := if persists then usage.getD m.last else m.saved }

end Meter

/-- The totals on record at first, the finished sessions, and the one whose tunnel is up. -/
structure Ledger where
  opening : Int × Int
  past : List Meter
  now : Option Meter

namespace Ledger

/-- What the finished sessions leave on record. -/
def balance (l : Ledger) (d : Direction) : Int := reading l.opening d + (l.past.map (Meter.counted · d)).sum

/-- The session, if any, is over. -/
def close (l : Ledger) : Ledger := { l with past := l.past ++ l.now.toList, now := none }

/-- What a step that ends with the tunnel up notes. -/
def note (l : Ledger) (s s' : Svc) : Act → Option Meter
  | .task _ usage => if s.mTunnelUp then l.now else some ⟨usage.getD (0, 0), usage.getD (0, 0), usage.getD (0, 0)⟩
  | .stats _ usage => l.now.map fun m => m.tick usage (s'.mStatsTick % usagePersistTicks = 0)
  | _ => l.now

/-- The ledger after the step from `s` to `s'`. -/
def next (l : Ledger) (s : Svc) (a : Act) (s' : Svc) : Ledger :=
  if s'.mTunnelUp then { l with now := l.note s s' a } else l.close

end Ledger

/-- A count of bytes as a `Long`. -/
def Counts (usage : Int × Int) : Prop := ∀ d, 0 ≤ reading usage d ∧ reading usage d < 2 ^ 63

instance (usage : Int × Int) : Decidable (Counts usage) := by unfold Counts; infer_instance

namespace Svc

/-- A stop now is after tunnel-up. -/
def StopsUp (s : Svc) : Prop := s.mRunning = true → s.mTunnelUp = true

instance (s : Svc) : Decidable s.StopsUp := by unfold StopsUp; infer_instance

/-- The next intent: a stop after tunnel-up, or a start of the profile `name` that succeeds. -/
def DeliversUp (s : Svc) (name : Str) (saved : Option ProfileValues) (established : Established) :
    List (Nat × ServiceIntent) → Prop
  | (_, .stop) :: _ => s.StopsUp
  | (_, .start extras) :: _ => s.mRunning = true ∨
      ∀ cmd ∈ s.command extras saved, cmd.name = some name ∧ established ≠ .threw ∧ established ≠ .null
  | [] => True

/-- What a posted closure needs: a stop comes after tunnel-up, tunnel-up has a reading. -/
def RunsUp (s : Svc) (usage : Option (Int × Int)) : Option Task → Prop
  | some (.stop _ _) => s.StopsUp
  | some (.tunnelUp g) => s.stale g = false → ∃ u ∈ usage, Counts u
  | _ => True

/-- Every session is of the profile `name` and is stopped after tunnel-up only; the
readings within a session are those of one counter. -/
def Metered (name : Str) (s : Svc) : Act → Prop
  | .deliver saved established => s.DeliversUp name saved established s.queue
  | .external _ => s.StopsUp
  | .task i usage => s.RunsUp usage s.mMainHandler[i]?
  | .stats _ usage => ∀ u ∈ usage, Counts u ∧ ∀ d, reading s.lastUsage d ≤ reading u d
  | _ => True

instance (s : Svc) (name : Str) (saved : Option ProfileValues) (established : Established) :
    (queue : List (Nat × ServiceIntent)) → Decidable (s.DeliversUp name saved established queue)
  | (_, .stop) :: _ => inferInstanceAs (Decidable s.StopsUp)
  | (_, .start extras) :: _ => inferInstanceAs (Decidable (s.mRunning = true ∨
      ∀ cmd ∈ s.command extras saved, cmd.name = some name ∧ established ≠ .threw ∧ established ≠ .null))
  | [] => inferInstanceAs (Decidable True)

instance (s : Svc) (usage : Option (Int × Int)) : (task : Option Task) → Decidable (s.RunsUp usage task)
  | some (.stop _ _) => inferInstanceAs (Decidable s.StopsUp)
  | some (.tunnelUp g) => inferInstanceAs (Decidable (s.stale g = false → ∃ u ∈ usage, Counts u))
  | some (.probeDone _ _) | none => inferInstanceAs (Decidable True)

instance (name : Str) (s : Svc) (a : Act) : Decidable (s.Metered name a) :=
  match a with
  | .deliver saved established => inferInstanceAs (Decidable (s.DeliversUp name saved established s.queue))
  | .external _ => inferInstanceAs (Decidable s.StopsUp)
  | .task i usage => inferInstanceAs (Decidable (s.RunsUp usage s.mMainHandler[i]?))
  | .stats _ usage =>
    inferInstanceAs (Decidable (∀ u ∈ usage, Counts u ∧ ∀ d, reading s.lastUsage d ≤ reading u d))
  | .sendStart _ | .sendStop | .screenOn | .ipCheck _ | .probeBegin | .probeEnd _ | .thread _ _ | .dns _ _
  | .monitor _ | .change _ => inferInstanceAs (Decidable True)

/-- What clients are shown. -/
def shown (s : Svc) (d : Direction) : Int := reading (s.getReceivedBytes, s.getSentBytes) d

end Svc

/-! ## The invariant -/

/-- The counters of a session whose tunnel is up, in one direction. -/
structure Reads (name : Str) (s : Svc) (l : Ledger) (m : Meter) (d : Direction) : Prop where
  first : 0 ≤ reading m.first d
  grew : reading m.first d ≤ reading m.last d
  last : reading m.last d < 2 ^ 63
  base : s.base d = reading m.first d
  received : s.received d = m.counted d
  cumulative : s.cumulative d = long (l.balance d)
  stored : s.stored d name = long (l.balance d + m.stored d)

/-- What is stored is the balance, and the session's counters are the ledger's. -/
structure Balanced (name : Str) (s : Svc) (l : Ledger) : Prop where
  named : s.mRunning = true → s.mProfileName = some name
  down : s.mTunnelUp = false → l.now = none ∧ ∀ d, s.stored d name = long (l.balance d)
  up : s.mTunnelUp = true → ∃ m, l.now = some m ∧ s.lastUsage = m.last ∧ ∀ d, Reads name s l m d

/-- A tick of a running service. -/
theorem Svc.statsTick_running {s : Svc} (hrun : s.mRunning = true) (usage : Option (Int × Int)) :
    s.statsTick usage = { s.countUsage usage with
      prefs := if (s.mStatsTick + 1) % usagePersistTicks = 0 then (s.countUsage usage).persisted else s.prefs,
      mStatsHandler := s.mStatsHandler ++ [s.uptime + statsInterval] } := by
  have hruns : (s.countUsage usage).mRunning = true := hrun
  unfold Svc.statsTick
  simp only [hruns, Bool.true_and, decide_eq_true_eq, if_true]
  rfl

theorem long_add (m n : Int) : long (long m + n) = long (m + n) := Int.bmod_add_bmod

namespace Ledger

theorem next_down (l : Ledger) (s : Svc) (a : Act) {s' : Svc} (hdown : s'.mTunnelUp = false) : l.next s a s' = l.close := by
  unfold next
  rw [hdown]
  exact if_neg Bool.false_ne_true

theorem next_up (l : Ledger) (s : Svc) (a : Act) {s' : Svc} (hup : s'.mTunnelUp = true) :
    l.next s a s' = { l with now := l.note s s' a } := by
  unfold next
  exact if_pos hup

/-- A finished session adds what it counted. -/
theorem balance_close (l : Ledger) (d : Direction) :
    l.close.balance d = l.balance d + (l.now.toList.map (Meter.counted · d)).sum := by
  unfold close balance
  rw [List.map_append, List.sum_append]
  exact (Int.add_assoc _ _ _).symm

end Ledger

namespace Reads

variable {name : Str} {s : Svc} {l : Ledger} {m : Meter} {d : Direction}

/-- What a persist would store. -/
theorem total (h : Reads name s l m d) : long (s.total d) = long (l.balance d + m.counted d) := by
  unfold Svc.total
  rw [h.cumulative, h.received, long_add]

/-- The balance is of finished sessions. -/
theorem renote (h : Reads name s l m d) (now : Option Meter) : Reads name s { l with now := now } m d :=
  ⟨h.first, h.grew, h.last, h.base, h.received, h.cumulative, h.stored⟩

end Reads

namespace Balanced

variable {name : Str} {s s' : Svc} {l : Ledger}

/-- A step away from the counters. -/
theorem quiet (h : Balanced name s l) (control : s'.toControl = s.toControl) (profile : s'.mProfileName = s.mProfileName)
    (counters : s'.toCounters = s.toCounters) (stored : ∀ d, s'.stored d name = s.stored d name)
    (last : s'.lastUsage = s.lastUsage) : Balanced name s' l := by
  constructor
  · rw [control, profile]
    exact h.named
  · rw [control]
    simp only [stored]
    exact h.down
  · intro hup
    rw [control] at hup
    obtain ⟨m, hnow, hlast, hreads⟩ := h.up hup
    refine ⟨m, hnow, last.trans hlast, fun d => ?_⟩
    have hd := hreads d
    constructor
    · exact hd.first
    · exact hd.grew
    · exact hd.last
    · unfold Svc.base
      rw [counters]
      exact hd.base
    · unfold Svc.received
      rw [counters]
      exact hd.received
    · unfold Svc.cumulative
      rw [counters]
      exact hd.cumulative
    · rw [stored]
      exact hd.stored

theorem uncounted (h : Balanced name s l) (hu : Uncounted s s') : Balanced name s' l :=
  h.quiet hu.control hu.profile hu.counters (hu.stored · name) hu.last

theorem reports (h : Balanced name s l) (hr : Reports s s') : Balanced name s' l := h.uncounted hr.uncounted

/-- The ledger of a service whose tunnel is down may be closed again. -/
theorem closed (h : Balanced name s l) (hdown : s.mTunnelUp = false) : Balanced name s l.close := by
  obtain ⟨hnone, hstored⟩ := h.down hdown
  constructor
  · exact h.named
  · intro _
    refine ⟨rfl, fun d => ?_⟩
    rw [l.balance_close, hnone, hstored]
    exact congrArg long (Int.add_zero _).symm
  · intro hup
    rw [hdown] at hup
    cases hup

/-- A step that leaves the tunnel as it is and notes nothing. -/
theorem same (h : Balanced name s' l) {a : Act} (tunnel : s'.mTunnelUp = s.mTunnelUp)
    (note : s.mTunnelUp = true → l.note s s' a = l.now) : Balanced name s' (l.next s a s') := by
  cases hup : s.mTunnelUp with
  | false =>
    rw [l.next_down s a (tunnel.trans hup)]
    exact h.closed (tunnel.trans hup)
  | true =>
    rw [l.next_up s a (tunnel.trans hup), note hup]
    exact h

/-- A step that leaves the tunnel down. -/
theorem off (h : Balanced name s' l.close) {a : Act} (hdown : s'.mTunnelUp = false) : Balanced name s' (l.next s a s') := by
  rw [l.next_down s a hdown]
  exact h

/-- A stop stores what the session counted. -/
theorem teardown (h : Balanced name s l) (hstop : s.StopsUp) (hb : Blank s) (reason : StopReason) (origin : Option Nat) :
    Balanced name (s.teardown reason origin) l.close := by
  constructor
  · intro hrun
    cases hrun
  · intro _
    refine ⟨rfl, fun d => ?_⟩
    have hafter : (s.teardown reason origin).stored d name = PrefMap.getLong s.persisted (usageKey d name) 0 := rfl
    rw [hafter, stored_persisted, l.balance_close]
    cases hrun : s.mRunning with
    | true =>
      obtain ⟨m, hnow, _, hreads⟩ := h.up (hstop hrun)
      rw [if_pos ⟨name, h.named hrun, rfl⟩, hnow, (hreads d).total]
      exact congrArg (fun n => long (l.balance d + n)) (Int.add_zero _).symm
    | false =>
      obtain ⟨hname, htunnel⟩ := hb.idle hrun
      obtain ⟨hnone, hstored⟩ := h.down htunnel
      have hnobody : ¬ ∃ n ∈ s.mProfileName, usageKey d n = usageKey d name := by
        intro hsome
        obtain ⟨n, hn, _⟩ := hsome
        rw [hname] at hn
        cases hn
      rw [if_neg hnobody, hnone, hstored]
      exact congrArg long (Int.add_zero _).symm
  · intro hup
    cases hup

theorem stopMe (h : Balanced name s l) (hstop : s.StopsUp) (hb : Blank s) (reason : StopReason) (origin : Option Nat) :
    (s.stopMe reason origin).mTunnelUp = false ∧ Balanced name (s.stopMe reason origin) l.close := by
  cases s.stopMe_cases reason origin with
  | inl hsame =>
    have hdown := (hb.idle hsame.1).2
    rw [hsame.2]
    exact ⟨hdown, h.closed hdown⟩
  | inr hdown =>
    rw [hdown]
    exact ⟨rfl, h.teardown hstop hb reason origin⟩

/-- A start of the profile, while no tunnel is up. -/
theorem onStart (h : Balanced name s l) (hb : Blank s) (place : Nat) {extras : Option VpnIntent}
    {saved : Option ProfileValues} {established : Established}
    (hok : s.mRunning = true ∨
      ∀ cmd ∈ s.command extras saved, cmd.name = some name ∧ established ≠ .threw ∧ established ≠ .null) :
    (s.onStart place extras saved established).mTunnelUp = s.mTunnelUp ∧
      Balanced name (s.onStart place extras saved established) l := by
  obtain he | ⟨hidle, cmd, hcmd, hcases⟩ := s.onStart_cases place extras saved established
  · rw [he]
    exact ⟨rfl, h⟩
  · have hgood : cmd.name = some name ∧ established ≠ .threw ∧ established ≠ .null := by
      obtain hrun | hall := hok
      · exact absurd (hidle.symm.trans hrun) Bool.false_ne_true
      · exact hall cmd hcmd
    obtain ⟨hname, hthrew, hnull⟩ := hgood
    obtain ⟨hfails, _⟩ | ⟨n, _, he⟩ := hcases
    · obtain hfail | hfail := List.mem_cons.mp hfails
      · exact absurd hfail hthrew
      · exact absurd (List.mem_singleton.mp hfail) hnull
    · rw [he]
      have hdown := (hb.idle hidle).2
      refine ⟨rfl, ?_⟩
      constructor
      · exact fun _ => hname
      · exact fun _ => h.down hdown
      · intro hup
        exact absurd (hdown.symm.trans hup) Bool.false_ne_true

/-- Tunnel-up loads what is stored and starts to count. -/
theorem tunnelUp (h : Balanced name s l) (hrun : s.mRunning = true) (hdown : s.mTunnelUp = false) (g : Session)
    {u : Int × Int} (hcounts : Counts u) :
    Balanced name (s.tunnelUp g (some u)) { l with now := some ⟨u, u, u⟩ } := by
  have hname := h.named hrun
  constructor
  · exact fun _ => hname
  · intro hno
    cases hno
  · intro _
    refine ⟨_, rfl, rfl, fun d => ?_⟩
    obtain ⟨hlow, hhigh⟩ := hcounts d
    have hload : reading s.storedBytes d = s.stored d name := by
      unfold Svc.storedBytes
      rw [hname]
      cases d with
      | rx => rfl
      | tx => rfl
    have hbalance := (h.down hdown).2 d
    constructor
    · exact hlow
    · exact le_rfl
    · exact hhigh
    · cases d with
      | rx => rfl
      | tx => rfl
    · have hzero : (s.tunnelUp g (some u)).received d = 0 := by
        cases d with
        | rx => rfl
        | tx => rfl
      rw [hzero]
      exact (Int.sub_self _).symm
    · have hcum : (s.tunnelUp g (some u)).cumulative d = reading s.storedBytes d := by
        cases d with
        | rx => rfl
        | tx => rfl
      rw [hcum, hload]
      exact hbalance
    · have hnothing : Meter.stored ⟨u, u, u⟩ d = 0 := Int.sub_self _
      rw [hnothing, Int.add_zero]
      exact hbalance

/-- A tick counts what the counter moved. -/
theorem countUsage {m : Meter} {d : Direction} (hd : Reads name s l m d) (hlast : s.lastUsage = m.last)
    {usage : Option (Int × Int)} (hok : ∀ u ∈ usage, Counts u ∧ ∀ d, reading s.lastUsage d ≤ reading u d) :
    Reads name (s.countUsage usage) l { m with last := usage.getD m.last } d := by
  have hcum : (s.countUsage usage).cumulative d = s.cumulative d := by
    cases d with
    | rx => rfl
    | tx => rfl
  have hbase : (s.countUsage usage).base d = s.base d := by
    cases d with
    | rx => rfl
    | tx => rfl
  cases usage with
  | none =>
    have hrec : (s.countUsage none).received d = s.received d := by
      cases d with
      | rx => rfl
      | tx => rfl
    exact ⟨hd.first, hd.grew, hd.last, hbase.trans hd.base, hrec.trans hd.received, hcum.trans hd.cumulative, hd.stored⟩
  | some u =>
    obtain ⟨hcounts, hmore⟩ := hok u rfl
    have hhigh := (hcounts d).2
    have hup := hmore d
    have hfirst := hd.first
    have hgrew := hd.grew
    rw [hlast] at hup
    have hfit : InLong (reading u d - s.base d) := by
      rw [hd.base]
      unfold InLong
      omega
    have hrec : (s.countUsage (some u)).received d = max 0 (long (reading u d - s.base d)) := by
      cases d with
      | rx => rfl
      | tx => rfl
    constructor
    · exact hfirst
    · exact hgrew.trans hup
    · exact hhigh
    · exact hbase.trans hd.base
    · rw [hrec, long_eq hfit, hd.base]
      show max 0 (reading u d - reading m.first d) = reading u d - reading m.first d
      omega
    · exact hcum.trans hd.cumulative
    · exact hd.stored

/-- A persist stores the counted bytes over those stored before. -/
theorem persist {m : Meter} {d : Direction} (hd : Reads name s l m d) (hname : s.mProfileName = some name)
    (ticks : List Nat) :
    Reads name { s with prefs := s.persisted, mStatsHandler := ticks } l { m with saved := m.last } d := by
  constructor
  · exact hd.first
  · exact hd.grew
  · exact hd.last
  · exact hd.base
  · exact hd.received
  · exact hd.cumulative
  · have hafter : Svc.stored { s with prefs := s.persisted, mStatsHandler := ticks } d name =
        PrefMap.getLong s.persisted (usageKey d name) 0 := rfl
    rw [hafter, stored_persisted, if_pos ⟨name, hname, rfl⟩]
    exact hd.total

/-- A tick while the tunnel is up. -/
theorem statsTick (h : Balanced name s l) (hb : Blank s) (hup : s.mTunnelUp = true) {usage : Option (Int × Int)}
    (hok : ∀ u ∈ usage, Counts u ∧ ∀ d, reading s.lastUsage d ≤ reading u d) :
    Balanced name (s.statsTick usage)
      { l with now := l.now.map fun m => m.tick usage ((s.mStatsTick + 1) % usagePersistTicks = 0) } := by
  have hrun := hb.running_of_up hup
  have hname := h.named hrun
  obtain ⟨m, hnow, hlast, hreads⟩ := h.up hup
  constructor
  · exact fun _ => hname
  · intro hdown
    exact absurd (hup.symm.trans hdown) (Bool.false_ne_true ∘ Eq.symm)
  · intro _
    refine ⟨m.tick usage ((s.mStatsTick + 1) % usagePersistTicks = 0), ?_, ?_, fun d => ?_⟩
    · rw [hnow]
      rfl
    · show usage.getD s.lastUsage = usage.getD m.last
      rw [hlast]
    · have hcount := countUsage (hreads d) hlast hok
      by_cases hpersist : (s.mStatsTick + 1) % usagePersistTicks = 0
      · have hstored := persist hcount hname (s.mStatsHandler ++ [s.uptime + statsInterval])
        have hmeter : m.tick usage (decide ((s.mStatsTick + 1) % usagePersistTicks = 0)) =
            { m with last := usage.getD m.last, saved := usage.getD m.last } := by
          unfold Meter.tick
          rw [decide_eq_true hpersist]
          rfl
        rw [hmeter, Svc.statsTick_running hrun, if_pos hpersist]
        exact hstored.renote _
      · have hmeter : m.tick usage (decide ((s.mStatsTick + 1) % usagePersistTicks = 0)) =
            { m with last := usage.getD m.last } := by
          unfold Meter.tick
          rw [decide_eq_false hpersist]
          rfl
        rw [hmeter, Svc.statsTick_running hrun, if_neg hpersist]
        exact ⟨hcount.first, hcount.grew, hcount.last, hcount.base, hcount.received, hcount.cumulative, hcount.stored⟩

/-! ## Steps -/

theorem deliver (h : Balanced name s l) (hb : Blank s) {saved : Option ProfileValues} {established : Established}
    (hok : s.Metered name (.deliver saved established)) (hs : s.deliver saved established = some s') :
    Balanced name s' (l.next s (.deliver saved established) s') := by
  have hqueue : s.DeliversUp name saved established s.queue := hok
  obtain ⟨place, queue, ⟨hq, rfl⟩ | ⟨extras, hq, rfl⟩⟩ := Svc.deliver_cases hs
  · rw [hq] at hqueue
    have hpopped : Balanced name { s with queue := queue, handledStops := s.handledStops ++ [place] } l :=
      h.quiet rfl rfl rfl (fun _ => rfl) rfl
    have hblank : Blank { s with queue := queue, handledStops := s.handledStops ++ [place] } := hb.quiet rfl rfl rfl rfl rfl
    obtain ⟨hdown, hstopped⟩ := hpopped.stopMe hqueue hblank .stopAction none
    exact hstopped.off hdown
  · rw [hq] at hqueue
    have hpopped : Balanced name { s with queue := queue } l := h.quiet rfl rfl rfl (fun _ => rfl) rfl
    have hblank : Blank { s with queue := queue } := hb.quiet rfl rfl rfl rfl rfl
    obtain ⟨htunnel, hstarted⟩ := hpopped.onStart hblank place hqueue
    exact hstarted.same htunnel fun _ => rfl

theorem task (h : Balanced name s l) (hb : Blank s) (hsingle : Single s) {i : Nat} {usage : Option (Int × Int)}
    (hok : s.Metered name (.task i usage)) (hs : s.task i usage = some s') :
    Balanced name s' (l.next s (.task i usage) s') := by
  have hruns : s.RunsUp usage s.mMainHandler[i]? := hok
  have hnote : ∀ t : Svc, s.mTunnelUp = true → l.note s t (.task i usage) = l.now := fun _ hup => if_pos hup
  obtain ⟨t, ht, rfl⟩ := Option.map_eq_some_iff.mp hs
  rw [ht] at hruns
  have hpopped : Balanced name { s with mMainHandler := s.mMainHandler.eraseIdx i } l :=
    h.quiet rfl rfl rfl (fun _ => rfl) rfl
  have hblank : Blank { s with mMainHandler := s.mMainHandler.eraseIdx i } := hb.quiet rfl rfl rfl rfl rfl
  cases t with
  | stop g reason =>
    obtain ⟨hdown, hstopped⟩ := hpopped.stopMe hruns hblank reason (some g.connectSeq)
    exact hstopped.off hdown
  | probeDone p answer =>
    obtain hr | ⟨u, hr, hup, hdown⟩ :=
      Svc.probeDone_cases { s with mMainHandler := s.mMainHandler.eraseIdx i } p answer
    · apply same (hpopped.reports hr) _ (hnote _)
      rw [hr.control]
    · have hreported := hpopped.reports hr
      have hupNow : u.mTunnelUp = true := by
        rw [hr.control]
        exact hup
      have hblankNow : Blank u := hblank.reports_up hup hr
      apply off
      · show Balanced name (Svc.probeDone _ p answer) _
        rw [hdown]
        exact hreported.teardown (fun _ => hupNow) hblankNow _ _
      · show (Svc.probeDone _ p answer).mTunnelUp = false
        rw [hdown]
        rfl
  | tunnelUp g =>
    cases hstale : s.stale g with
    | true =>
      have hskip : Svc.runTask { s with mMainHandler := s.mMainHandler.eraseIdx i } (.tunnelUp g) usage =
          { s with mMainHandler := s.mMainHandler.eraseIdx i } := if_pos hstale
      rw [hskip]
      exact same hpopped rfl (hnote _)
    | false =>
      obtain ⟨u, husage, hcounts⟩ := hruns hstale
      obtain rfl := Option.mem_def.mp husage
      obtain ⟨hown, hrun⟩ := Svc.fresh (s := s) (g := g) fun hyes => Bool.false_ne_true (hstale.symm.trans hyes)
      have hdown : s.mTunnelUp = false := hsingle.not_again ht hown
      have hpost : Svc.runTask { s with mMainHandler := s.mMainHandler.eraseIdx i } (.tunnelUp g) (some u) =
          Svc.postStartOnMain { s with mMainHandler := s.mMainHandler.eraseIdx i } g (some u) :=
        if_neg fun hyes => Bool.false_ne_true (hstale.symm.trans hyes)
      have hr := Svc.postStartOnMain_reports (s := { s with mMainHandler := s.mMainHandler.eraseIdx i }) g (some u) hrun
      have hup : (Svc.postStartOnMain { s with mMainHandler := s.mMainHandler.eraseIdx i } g (some u)).mTunnelUp = true := by
        rw [hr.control]
        rfl
      have hfirst : ∀ t : Svc, l.note s t (.task i (some u)) = some ⟨u, u, u⟩ := fun _ =>
        if_neg fun hup => Bool.false_ne_true (hdown.symm.trans hup)
      rw [hpost, l.next_up s _ hup, hfirst]
      exact (hpopped.tunnelUp hrun hdown g hcounts).reports hr

theorem stats (h : Balanced name s l) (hb : Blank s) {i : Nat} {usage : Option (Int × Int)}
    (hok : s.Metered name (.stats i usage)) (hs : s.stats i usage = some s') :
    Balanced name s' (l.next s (.stats i usage) s') := by
  have hup : s.mTunnelUp = true := by
    obtain ⟨due, hdue, _⟩ := Option.bind_eq_some_iff.mp hs
    by_contra hdown
    rw [(hb.down (Bool.not_eq_true _ ▸ hdown)).2.2] at hdue
    cases hdue
  obtain ⟨ticks, rfl⟩ := Svc.stats_some hs
  have hpopped : Balanced name { s with mStatsHandler := ticks } l := h.quiet rfl rfl rfl (fun _ => rfl) rfl
  have hblank : Blank { s with mStatsHandler := ticks } := .while_up hup (hb.running_of_up hup)
  have hstill : (Svc.statsTick { s with mStatsHandler := ticks } usage).mTunnelUp = true := hup
  rw [l.next_up s _ hstill]
  exact hpopped.statsTick hblank hup hok

/-- **One step keeps the books.** -/
theorem step (h : Balanced name s l) (hb : Blank s) (hsingle : Single s) {a : Act} (hok : s.Metered name a)
    (hs : Svc.step s a = some s') : Balanced name s' (l.next s a s') := by
  cases a with
  | deliver saved established => exact h.deliver hb hok hs
  | external reason =>
    obtain ⟨d, rfl⟩ := Svc.external_some hs
    obtain ⟨hdown, hstopped⟩ := h.stopMe hok hb reason none
    have hends : Balanced name { s.stopMe reason none with destroyed := d } l.close :=
      hstopped.quiet rfl rfl rfl (fun _ => rfl) rfl
    exact hends.off hdown
  | task i usage => exact h.task hb hsingle hok hs
  | stats i usage => exact h.stats hb hok hs
  | _ =>
    have hu : Uncounted s s' := Svc.step_uncounted rfl hs
    apply same (h.uncounted hu) _ fun _ => rfl
    rw [hu.control]

end Balanced

/-- The service and its ledger. The totals on record are `Long`s. -/
def metered (name : Str) : System (Svc × Ledger) Act where
  init p := system.init p.1 ∧ (∀ d, InLong (p.1.stored d name)) ∧
    p.2 = ⟨(p.1.stored .rx name, p.1.stored .tx name), [], none⟩
  step p a := (Svc.step p.1 a).map fun s' => (s', p.2.next p.1 a s')

section Runs

variable {name : Str} {p : Svc × Ledger}

/-- The ledger does not hold the service up. -/
theorem metered_reachable (h : Reaches (metered name) (fun p a => p.1.Metered name a) p) : Reachable system p.1 := by
  induction h with
  | start hi => exact .start hi.1
  | next _ _ hstep ih =>
    obtain ⟨s', hs', rfl⟩ := Option.map_eq_some_iff.mp hstep
    exact ih.next trivial hs'

theorem Balanced.reachable (h : Reaches (metered name) (fun p a => p.1.Metered name a) p) : Balanced name p.1 p.2 := by
  apply Reaches.invariant_of (J := fun p => Blank p.1 ∧ Single p.1) (P := fun p => Balanced name p.1 p.2) _ _ _ h
  · intro p hp
    have hreach := metered_reachable hp
    exact ⟨Blank.reachable hreach, Single.reachable hreach⟩
  · intro p hp
    obtain ⟨⟨w, accelDns, _, hs⟩, hlong, hl⟩ := hp
    constructor
    · intro hrun
      rw [hs] at hrun
      cases hrun
    · intro _
      rw [hl]
      refine ⟨rfl, fun d => ?_⟩
      have hopening : Ledger.balance ⟨(p.1.stored .rx name, p.1.stored .tx name), [], none⟩ d = p.1.stored d name := by
        cases d with
        | rx => exact Int.add_zero _
        | tx => exact Int.add_zero _
      rw [hopening, long_eq (hlong d)]
    · intro hup
      rw [hs] at hup
      cases hup
  · intro p a p' hknown hp hok hstep
    obtain ⟨s', hs', rfl⟩ := Option.map_eq_some_iff.mp hstep
    exact hp.step hknown.1 hknown.2 hok hs'

/-- What is shown is what a persist stores. -/
theorem shown_persisted (s : Svc) {n : Str} (hname : s.mProfileName = some n) (d : Direction) :
    PrefMap.getLong s.persisted (usageKey d n) 0 = s.shown d := by
  rw [stored_persisted, if_pos ⟨n, hname, rfl⟩]
  cases d with
  | rx => rfl
  | tx => rfl

/-- **Usage is accounted exactly.** What is on record is the opening total and what each
finished session counted, first to last reading; within a session, up to the reading of
the last persist. What is shown is what a persist would store. -/
theorem usage_exact (h : Reaches (metered name) (fun p a => p.1.Metered name a) p) (d : Direction) :
    (p.1.mTunnelUp = false → p.2.now = none ∧ p.1.stored d name = long (p.2.balance d)) ∧
    (p.1.mTunnelUp = true → ∃ m, p.2.now = some m ∧ p.1.stored d name = long (p.2.balance d + m.stored d) ∧
      p.1.shown d = long (p.2.balance d + m.counted d)) ∧
    ∀ n, p.1.mProfileName = some n → PrefMap.getLong p.1.persisted (usageKey d n) 0 = p.1.shown d := by
  have hbalanced := Balanced.reachable h
  refine ⟨fun hdown => ?_, fun hup => ?_, fun n hname => shown_persisted p.1 hname d⟩
  · obtain ⟨hnone, hstored⟩ := hbalanced.down hdown
    exact ⟨hnone, hstored d⟩
  · obtain ⟨m, hnow, _, hreads⟩ := hbalanced.up hup
    have hshown : p.1.shown d = long (p.1.total d) := by
      cases d with
      | rx => rfl
      | tx => rfl
    exact ⟨m, hnow, (hreads d).stored, hshown.trans (hreads d).total⟩

end Runs

/-- A second passes and the statistics tick reads `usage`. -/
def tickOf (usage : Option (Int × Int)) : List Act := [.change (.uptime statsInterval), .stats 0 usage]

/-- Two sessions: one with a persist on the way, one with a tick that reads nothing. -/
def twoSessions : List Act :=
  [.sendStart (some (startOf "Work".toList "10.0.0.2".toList)), .deliver none (.fd 3)] ++ bringUp 0 "10.0.0.2".toList ++
  [.task 0 (some (1000, 2000))] ++ tickOf (some (1010, 2020)) ++ tickOf none ++ tickOf (some (1015, 2020)) ++
  tickOf (some (1015, 2030)) ++ tickOf (some (1020, 2035)) ++ tickOf (some (1030, 2040)) ++ [.external .binderStop] ++
  [.sendStart (some (startOf "Work".toList "10.0.0.2".toList)), .deliver none (.fd 4)] ++ bringUp 1 "10.0.0.2".toList ++
  [.task 0 (some (7, 0))] ++ tickOf (some (12, 1)) ++ tickOf none ++ [.external .notificationStop]

theorem usage_exact_two : ∃ p : Svc × Ledger, p.1.stored .rx "Work".toList = 135 ∧ p.2.balance .rx = 135 ∧
    ∀ d, (p.1.mTunnelUp = false → p.2.now = none ∧ p.1.stored d "Work".toList = long (p.2.balance d)) := by
  have hrun : ((execWhere (metered "Work".toList) (fun p a => p.1.Metered "Work".toList a)
      (Svc.created usedPhone none, ⟨(100, 100), [], none⟩) twoSessions).map
      fun p => (p.1.stored .rx "Work".toList, p.2.balance .rx)) = some (135, 135) := by decide +kernel
  obtain ⟨p, hp, hpair⟩ := Option.map_eq_some_iff.mp hrun
  obtain ⟨hstored, hbalance⟩ := Prod.mk.inj hpair
  have hstart : (metered "Work".toList).init (Svc.created usedPhone none, ⟨(100, 100), [], none⟩) := by
    refine ⟨⟨usedPhone, none, rfl, rfl⟩, ?_, ?_⟩
    · decide +kernel
    · have hrx : (Svc.created usedPhone none).stored .rx "Work".toList = 100 := by decide +kernel
      have htx : (Svc.created usedPhone none).stored .tx "Work".toList = 100 := by decide +kernel
      show (⟨(100, 100), [], none⟩ : Ledger) = ⟨(_, _), [], none⟩
      rw [hrx, htx]
  have hreach := execWhere_reaches twoSessions (.start hstart) hp
  exact ⟨p, hstored, hbalance, fun d => (usage_exact hreach d).1⟩

end KiloProxy.Vpn
