import KiloProxy.Vpn.Frames

/-!
# Stored usage totals

A stop writes the in-memory total of the session over the stored one. The total is
loaded at tunnel-up only, so a stop before that writes zero. When a session with usage
on record is stopped only after its tunnel is up, the readings of a session do not go
down and the totals fit a `Long`, no stored total ever goes down.
-/

namespace KiloProxy.Vpn
set_option autoImplicit false
open KiloProxy.Text KiloProxy.Util KiloProxy.Service KiloProxy.Run

/-- Received or sent. -/
inductive Direction where
  | rx
  | tx
deriving DecidableEq, Repr

instance {p : Direction → Prop} [DecidablePred p] : Decidable (∀ d, p d) :=
  decidable_of_iff (p .rx ∧ p .tx) ⟨fun h d => by cases d; exacts [h.1, h.2], fun h => ⟨h .rx, h .tx⟩⟩

def usageKey : Direction → Str → Str
  | .rx => usageRxKey
  | .tx => usageTxKey

theorem usageKey_rx : usageKey .rx = usageRxKey := rfl
theorem usageKey_tx : usageKey .tx = usageTxKey := rfl

/-- A pair of readings, by direction. -/
def reading (usage : Int × Int) : Direction → Int
  | .rx => usage.1
  | .tx => usage.2

namespace Svc

/-- The total stored for the profile `name`. -/
def stored (s : Svc) (d : Direction) (name : Str) : Int := PrefMap.getLong s.prefs (usageKey d name) 0

def cumulative (s : Svc) (d : Direction) : Int := reading (s.mCumulativeRx, s.mCumulativeTx) d
def received (s : Svc) (d : Direction) : Int := reading (s.mReceivedBytes, s.mSentBytes) d
def base (s : Svc) (d : Direction) : Int := reading (s.mBaseRx, s.mBaseTx) d

/-- What a persist would store. -/
def total (s : Svc) (d : Direction) : Int := s.cumulative d + s.received d

/-- A stop now is after tunnel-up, or has nothing on record to overwrite. -/
def MayStop (s : Svc) : Prop := s.mTunnelUp = true ∨ ∀ name ∈ s.mProfileName, ∀ d, s.stored d name ≤ 0

instance (s : Svc) : Decidable s.MayStop := by unfold MayStop; infer_instance

/-- Sessions with usage on record are stopped after tunnel-up only, readings do not go
down within a session, totals fit a `Long`. -/
def Accounted (s : Svc) : Act → Prop
  | .deliver saved established =>
    match s.queue with
    | (_, .stop) :: _ => s.MayStop
    | (_, .start extras) :: _ =>
      s.mRunning = true ∨ established ∉ [Established.threw, .null] ∨
        ∀ cmd ∈ s.command extras saved, ∀ name ∈ cmd.name, ∀ d, s.stored d name ≤ 0
    | [] => True
  | .external _ => s.MayStop
  | .task i _ =>
    match s.mMainHandler[i]? with
    | some (.stop _ _) => s.MayStop
    | some (.tunnelUp _) => ∀ name ∈ s.mProfileName, ∀ d, InLong (s.stored d name)
    | _ => True
  | .stats _ usage => ∀ u ∈ usage, ∀ d, reading s.lastUsage d ≤ reading u d ∧ InLong (reading u d - s.base d) ∧
      InLong (s.cumulative d + max 0 (reading u d - s.base d))
  | _ => True

instance (s : Svc) (a : Act) : Decidable (s.Accounted a) :=
  match a with
  | .deliver saved established => by
    show Decidable (match s.queue with
      | (_, .stop) :: _ => s.MayStop
      | (_, .start extras) :: _ =>
        s.mRunning = true ∨ established ∉ [Established.threw, .null] ∨
          ∀ cmd ∈ s.command extras saved, ∀ name ∈ cmd.name, ∀ d, s.stored d name ≤ 0
      | [] => True)
    split <;> infer_instance
  | .external _ => inferInstanceAs (Decidable s.MayStop)
  | .task i _ =>
    have dec (task : Option Task) : Decidable (match task with
        | some (.stop _ _) => s.MayStop
        | some (.tunnelUp _) => ∀ name ∈ s.mProfileName, ∀ d, InLong (s.stored d name)
        | _ => True) := by
      split <;> infer_instance
    dec s.mMainHandler[i]?
  | .stats _ usage =>
    inferInstanceAs (Decidable (∀ u ∈ usage, ∀ d, reading s.lastUsage d ≤ reading u d ∧ InLong (reading u d - s.base d) ∧
      InLong (s.cumulative d + max 0 (reading u d - s.base d))))
  | .sendStart _ | .sendStop | .screenOn | .ipCheck _ | .probeBegin | .probeEnd _ | .thread _ _ | .dns _ _
  | .monitor _ | .change _ => inferInstanceAs (Decidable True)

end Svc

/-! ## The keys -/

/-- The two directions have keys of their own. -/
theorem usageKey_ne {d e : Direction} (hne : d ≠ e) (name name' : Str) : usageKey d name ≠ usageKey e name' := by
  have hrt : ∀ n n', usageRxKey n ≠ usageTxKey n' := by
    intro n n' h
    have htake := congrArg (List.take 9) h
    unfold usageRxKey usageTxKey at htake
    rw [List.take_append_of_le_length (by decide), List.take_append_of_le_length (by decide)] at htake
    exact absurd htake (by decide)
  cases d with
  | rx => cases e with
    | rx => exact absurd rfl hne
    | tx => exact hrt name name'
  | tx => cases e with
    | rx => exact (hrt name' name).symm
    | tx => exact absurd rfl hne

/-- No setting is a usage total. -/
theorem usageKey_not_setting (d : Direction) (name : Str) : usageKey d name ∉ settingKeys := by
  have hhead : (usageKey d name).take 6 = "usage_".toList := by
    cases d with
    | rx => exact (List.take_append_of_le_length (by decide)).trans (by decide)
    | tx => exact (List.take_append_of_le_length (by decide)).trans (by decide)
  intro hmem
  have hall : ∀ k ∈ settingKeys, k.take 6 ≠ "usage_".toList := by decide +kernel
  exact hall _ hmem hhead

/-- What a persist leaves stored. -/
theorem stored_persisted (s : Svc) (d : Direction) (name : Str) :
    PrefMap.getLong s.persisted (usageKey d name) 0 =
      if ∃ n ∈ s.mProfileName, usageKey d n = usageKey d name then long (s.total d) else s.stored d name := by
  unfold Svc.persisted
  cases hname : s.mProfileName with
  | none =>
    rw [if_neg (by rintro ⟨n, hn, _⟩; cases hn)]
    rfl
  | some n =>
    have hiff : (∃ n' ∈ some n, usageKey d n' = usageKey d name) ↔ usageKey d name = usageKey d n :=
      ⟨fun ⟨n', hn', he⟩ => by cases hn'; exact he.symm, fun he => ⟨n, rfl, he.symm⟩⟩
    simp only [hiff]
    cases d with
    | rx =>
      have hne : usageRxKey name ≠ usageTxKey n := usageKey_ne (d := .rx) (e := .tx) (by decide) name n
      rw [usageKey_rx, PrefMap.getLong, Function.update_of_ne hne, Function.update_apply]
      by_cases he : usageRxKey name = usageRxKey n
      · rw [if_pos he, if_pos he]
        rfl
      · rw [if_neg he, if_neg he]
        rfl
    | tx =>
      have hne : usageTxKey name ≠ usageRxKey n := usageKey_ne (d := .tx) (e := .rx) (by decide) name n
      rw [usageKey_tx, PrefMap.getLong, Function.update_apply]
      by_cases he : usageTxKey name = usageTxKey n
      · rw [if_pos he, if_pos he]
        rfl
      · rw [if_neg he, if_neg he, Function.update_of_ne hne]
        rfl

/-! ## The invariant -/

/-- No stored total went down. -/
def Grows (s s' : Svc) : Prop := ∀ d name, s.stored d name ≤ s'.stored d name

theorem Grows.of_eq {s s' : Svc} (prefs : s'.prefs = s.prefs) : Grows s s' := fun d name => by
  unfold Svc.stored
  rw [prefs]

theorem Grows.trans {s t u : Svc} (h : Grows s t) (h' : Grows t u) : Grows s u := fun d name =>
  (h d name).trans (h' d name)

/-- Neither the session nor its totals changed. -/
structure Uncounted (s s' : Svc) : Prop where
  control : s'.toControl = s.toControl
  profile : s'.mProfileName = s.mProfileName
  counters : s'.toCounters = s.toCounters
  ticks : s'.mStatsHandler = s.mStatsHandler
  stored : ∀ d name, s'.stored d name = s.stored d name
  last : s'.lastUsage = s.lastUsage

theorem Uncounted.grows {s s' : Svc} (h : Uncounted s s') : Grows s s' := fun d name => (h.stored d name).ge

theorem Reports.uncounted {s s' : Svc} (h : Reports s s') : Uncounted s s' := by
  constructor
  · exact h.control
  · rw [h.config]
  · exact h.counters
  · exact h.ticks
  · intro d name
    unfold Svc.stored
    rw [h.prefs]
  · exact h.lastUsage

/-- The action counts traffic, or starts or ends a session. -/
def Act.counts : Act → Bool
  | .deliver _ _ | .external _ | .task _ _ | .stats _ _ => true
  | _ => false

/-- All other actions leave the totals alone; no setting is a total. -/
theorem Svc.step_uncounted {s s' : Svc} {a : Act} (ha : a.counts = false) (hs : Svc.step s a = some s') :
    Uncounted s s' := by
  have haside : ∀ {t : Svc}, t.toControl = s.toControl → t.mProfileName = s.mProfileName →
      t.toCounters = s.toCounters → t.mStatsHandler = s.mStatsHandler → t.prefs = s.prefs →
      t.lastUsage = s.lastUsage → Uncounted s t := by
    intro t control profile counters ticks prefs last
    refine ⟨control, profile, counters, ticks, fun d name => ?_, last⟩
    unfold Svc.stored
    rw [prefs]
  cases a with
  | deliver saved established => cases ha
  | external reason => cases ha
  | task i usage => cases ha
  | stats i usage => cases ha
  | sendStart extras =>
    obtain rfl := Option.some.inj hs
    exact haside rfl rfl rfl rfl rfl rfl
  | sendStop =>
    obtain rfl := Option.some.inj hs
    exact haside rfl rfl rfl rfl rfl rfl
  | screenOn => exact (Svc.screenOn_quiet hs).uncounted
  | ipCheck i =>
    obtain hr | ⟨_, l, rfl⟩ := Svc.ipCheck_cases hs
    · exact hr.uncounted
    · exact haside rfl rfl rfl rfl rfl rfl
  | probeBegin =>
    obtain ⟨p, choice, rest, _, rfl⟩ := Svc.probeBegin_some hs
    exact haside rfl rfl rfl rfl rfl rfl
  | probeEnd answer =>
    obtain ⟨p, choice, rest, _, rfl⟩ := Svc.probeEnd_some hs
    exact haside rfl rfl rfl rfl rfl rfl
  | thread i reply =>
    obtain ⟨t, p, _, _, rfl⟩ := Svc.stepThread_some hs
    exact haside rfl rfl rfl rfl rfl rfl
  | dns i reply =>
    obtain ⟨t, p, _, _, rfl⟩ := Svc.stepDns_some hs
    exact haside rfl rfl rfl rfl rfl rfl
  | monitor i =>
    obtain ⟨m, p, code, _, _, _, rfl⟩ := Svc.stepMonitor_some hs
    exact haside rfl rfl rfl rfl rfl rfl
  | change c =>
    obtain hr | ⟨key, value, hkey, rfl⟩ := Svc.change_cases hs
    · exact hr.uncounted
    · refine ⟨rfl, rfl, rfl, rfl, fun d name => ?_, rfl⟩
      have hne : usageKey d name ≠ key := by
        intro he
        rw [← he] at hkey
        exact usageKey_not_setting d name hkey
      show PrefMap.getLong (Function.update s.prefs key (some value)) (usageKey d name) 0 = s.stored d name
      rw [PrefMap.getLong, Function.update_of_ne hne]
      rfl

/-- The totals in memory are no less than the stored ones while the tunnel is up, and
zero before. -/
structure Kept (s : Svc) : Prop where
  idle : s.mRunning = false → s.mProfileName = none ∧ s.mTunnelUp = false
  down : s.mTunnelUp = false → s.mStatsHandler = [] ∧ ∀ d, s.cumulative d = 0 ∧ s.received d = 0
  up : s.mTunnelUp = true → ∀ d, s.received d = max 0 (reading s.lastUsage d - s.base d) ∧
    InLong (s.cumulative d) ∧ InLong (s.total d) ∧ ∀ name ∈ s.mProfileName, s.stored d name ≤ s.total d

namespace Kept

variable {s s' : Svc}

/-- A step away from the totals keeps the invariant. -/
theorem quiet (h : Kept s) (running : s'.mRunning = s.mRunning) (tunnelUp : s'.mTunnelUp = s.mTunnelUp)
    (profile : s'.mProfileName = s.mProfileName) (counters : s'.toCounters = s.toCounters)
    (ticks : s'.mStatsHandler = s.mStatsHandler) (prefs : ∀ d name, s'.stored d name = s.stored d name)
    (last : s'.lastUsage = s.lastUsage) : Kept s' := by
  have hcum : ∀ d, s'.cumulative d = s.cumulative d := fun d => by unfold Svc.cumulative; rw [counters]
  have hrec : ∀ d, s'.received d = s.received d := fun d => by unfold Svc.received; rw [counters]
  have hbase : ∀ d, s'.base d = s.base d := fun d => by unfold Svc.base; rw [counters]
  have htotal : ∀ d, s'.total d = s.total d := fun d => by unfold Svc.total; rw [hcum, hrec]
  constructor
  · rw [running, profile, tunnelUp]
    exact h.idle
  · rw [tunnelUp, ticks]
    simp only [hcum, hrec]
    exact h.down
  · rw [tunnelUp, profile, last]
    simp only [hcum, hrec, hbase, htotal, prefs]
    exact h.up

theorem uncounted (h : Kept s) (hu : Uncounted s s') : Kept s' := by
  apply h.quiet _ _ hu.profile hu.counters hu.ticks hu.stored hu.last
  · rw [hu.control]
  · rw [hu.control]

theorem reports (h : Kept s) (hr : Reports s s') : Kept s' := h.uncounted hr.uncounted

/-- A persist raises what is stored. -/
theorem persisted_grows (h : Kept s) (hstop : s.mRunning = true → s.MayStop) (d : Direction) (name : Str) :
    s.stored d name ≤ PrefMap.getLong s.persisted (usageKey d name) 0 := by
  rw [stored_persisted]
  split
  · rename_i hname
    obtain ⟨n, hn, hkey⟩ := hname
    have hstored : s.stored d name = s.stored d n := by unfold Svc.stored; rw [hkey]
    have hrun : s.mRunning = true := by
      by_contra hidle
      rw [(h.idle (Bool.not_eq_true _ ▸ hidle)).1] at hn
      cases hn
    cases hup : s.mTunnelUp with
    | true =>
      obtain ⟨_, _, hlong, hle⟩ := h.up hup d
      rw [long_eq hlong, hstored]
      exact hle n hn
    | false =>
      have hzero : s.total d = 0 := by
        unfold Svc.total
        rw [((h.down hup).2 d).1, ((h.down hup).2 d).2]
        rfl
      have hle : s.stored d n ≤ 0 := by
        rcases hstop hrun with hup' | hnone
        · rw [hup] at hup'
          cases hup'
        · exact hnone n hn d
      rw [hzero, hstored]
      exact hle
  · exact le_rfl

/-- A stop writes the totals, which is no loss where it may stop. -/
theorem teardown (h : Kept s) (hstop : s.mRunning = true → s.MayStop) (reason : StopReason) (origin : Option Nat) :
    Kept (s.teardown reason origin) ∧ Grows s (s.teardown reason origin) := by
  refine ⟨⟨fun _ => ⟨rfl, rfl⟩, fun _ => ⟨rfl, fun d => ?_⟩, fun hup => (Bool.false_ne_true hup).elim⟩, ?_⟩
  · cases d with
    | rx => exact ⟨rfl, rfl⟩
    | tx => exact ⟨rfl, rfl⟩
  · exact h.persisted_grows hstop

theorem stopMe (h : Kept s) (hstop : s.mRunning = true → s.MayStop) (reason : StopReason) (origin : Option Nat) :
    Kept (s.stopMe reason origin) ∧ Grows s (s.stopMe reason origin) := by
  rcases s.stopMe_cases reason origin with ⟨_, hsame⟩ | hdown
  · rw [hsame]
    exact ⟨h, .of_eq rfl⟩
  · rw [hdown]
    exact h.teardown hstop reason origin

/-- Tunnel-up loads what is stored. -/
theorem tunnelUp (h : Kept s) (hrun : s.mRunning = true)
    (hlong : ∀ name ∈ s.mProfileName, ∀ d, InLong (s.stored d name)) (g : Session) (usage : Option (Int × Int)) :
    Kept (s.tunnelUp g usage) := by
  refine ⟨fun hidle => ?_, fun hdown => (Bool.noConfusion hdown), fun _ d => ?_⟩
  · rw [show s.mRunning = false from hidle] at hrun
    cases hrun
  · have hrec : (s.tunnelUp g usage).received d = 0 := by cases d <;> rfl
    have hlast : reading (s.tunnelUp g usage).lastUsage d = (s.tunnelUp g usage).base d := by cases d <;> rfl
    have htotal : (s.tunnelUp g usage).total d = (s.tunnelUp g usage).cumulative d := by
      rw [Svc.total, hrec, add_zero]
    have hcum : (s.tunnelUp g usage).cumulative d = reading s.storedBytes d := by cases d <;> rfl
    rw [htotal, hcum, hrec, hlast, sub_self, max_self]
    cases hname : s.mProfileName with
    | none =>
      have hsame : reading s.storedBytes d = s.cumulative d := by
        unfold Svc.storedBytes
        rw [hname]
        rfl
      have hin : InLong (s.cumulative d) := by
        cases hup : s.mTunnelUp with
        | true => exact (h.up hup d).2.1
        | false =>
          rw [((h.down hup).2 d).1]
          decide
      rw [hsame]
      exact ⟨rfl, hin, hin, fun name hn => by
        rw [show (s.tunnelUp g usage).mProfileName = none from hname] at hn
        cases hn⟩
    | some name =>
      have hload : reading s.storedBytes d = s.stored d name := by
        unfold Svc.storedBytes
        rw [hname]
        cases d <;> rfl
      have hin : InLong (s.stored d name) := hlong name hname d
      rw [hload]
      exact ⟨rfl, hin, hin, fun n hn => by
        rw [show (s.tunnelUp g usage).mProfileName = some name from hname] at hn
        cases hn
        exact le_rfl⟩

/-- A tick moves the session's bytes up. -/
theorem countUsage (h : Kept s) (hup : s.mTunnelUp = true) {usage : Option (Int × Int)}
    (hok : ∀ u ∈ usage, ∀ d, reading s.lastUsage d ≤ reading u d ∧ InLong (reading u d - s.base d) ∧
      InLong (s.cumulative d + max 0 (reading u d - s.base d))) : Kept (s.countUsage usage) := by
  refine ⟨h.idle, fun hdown => ?_, fun _ d => ?_⟩
  · rw [show s.mTunnelUp = false from hdown] at hup
    cases hup
  · have hcum : (s.countUsage usage).cumulative d = s.cumulative d := by cases d <;> rfl
    have hbase : (s.countUsage usage).base d = s.base d := by cases d <;> rfl
    obtain ⟨hrec, hin, htotal, hle⟩ := h.up hup d
    rw [Svc.total, hcum, hbase]
    cases usage with
    | none => exact ⟨by cases d <;> exact hrec, hin, by cases d <;> exact htotal, by cases d <;> exact hle⟩
    | some u =>
      obtain ⟨hlast, hdiff, hsum⟩ := hok u rfl d
      have hnew : (s.countUsage (some u)).received d = max 0 (reading u d - s.base d) := by
        rw [← long_eq hdiff]
        cases d <;> rfl
      have hread : reading (s.countUsage (some u)).lastUsage d = reading u d := rfl
      rw [hnew, hread]
      refine ⟨rfl, hin, hsum, fun name hn => ?_⟩
      have hold := hle name hn
      rw [Svc.total, hrec] at hold
      show s.stored d name ≤ _
      omega

/-- A persist of the totals keeps them. -/
theorem persist (h : Kept s) (hup : s.mTunnelUp = true) (ticks : List Nat) :
    Kept { s with prefs := s.persisted, mStatsHandler := ticks } := by
  refine ⟨h.idle, fun hdown => ?_, fun _ d => ?_⟩
  · rw [show s.mTunnelUp = false from hdown] at hup
    cases hup
  · obtain ⟨hrec, hin, htotal, hle⟩ := h.up hup d
    refine ⟨hrec, hin, htotal, fun name hn => ?_⟩
    show PrefMap.getLong s.persisted (usageKey d name) 0 ≤ s.total d
    rw [stored_persisted, if_pos ⟨name, hn, rfl⟩, long_eq htotal]

/-- A tick adds what was counted since the last one. -/
theorem statsTick (h : Kept s) (hup : s.mTunnelUp = true) {usage : Option (Int × Int)}
    (hok : ∀ u ∈ usage, ∀ d, reading s.lastUsage d ≤ reading u d ∧ InLong (reading u d - s.base d) ∧
      InLong (s.cumulative d + max 0 (reading u d - s.base d))) :
    Kept (s.statsTick usage) ∧ Grows s (s.statsTick usage) := by
  have hcount := h.countUsage hup hok
  have hstop : (s.countUsage usage).mRunning = true → (s.countUsage usage).MayStop := fun _ => .inl hup
  unfold Svc.statsTick
  by_cases hpersist : ((s.countUsage usage).mRunning && (s.countUsage usage).mStatsTick % usagePersistTicks = 0) = true
  · simp only [hpersist, if_true]
    exact ⟨hcount.persist hup _, fun d name => hcount.persisted_grows hstop d name⟩
  · simp only [hpersist]
    refine ⟨⟨hcount.idle, fun hdown => ?_, hcount.up⟩, fun d name => le_rfl⟩
    rw [show s.mTunnelUp = false from hdown] at hup
    cases hup

/-- A start leaves the totals at zero until tunnel-up. -/
theorem accept (h : Kept s) (hidle : s.mRunning = false) (place : Nat) (cmd : VpnIntent) :
    Kept (s.accept place cmd) := by
  obtain ⟨hticks, hzero⟩ := h.down (h.idle hidle).2
  refine ⟨fun hi => (Bool.noConfusion hi), fun _ => ⟨hticks, fun d => ?_⟩, fun hup => ?_⟩
  · cases d with
    | rx => exact hzero .rx
    | tx => exact hzero .tx
  · exact absurd ((h.idle hidle).2.symm.trans hup) Bool.false_ne_true

/-- A start intent loses nothing where a start that fails at once, with its totals still zero, finds nothing
stored. -/
theorem onStart (h : Kept s) {place : Nat} {extras : Option VpnIntent} {saved : Option ProfileValues}
    {established : Established}
    (hok : s.mRunning = true ∨ established ∉ [Established.threw, .null] ∨
      ∀ cmd ∈ s.command extras saved, ∀ name ∈ cmd.name, ∀ d, s.stored d name ≤ 0) :
    Kept (s.onStart place extras saved established) ∧ Grows s (s.onStart place extras saved established) := by
  rcases s.onStart_cases place extras saved established with he | ⟨hidle, cmd, hcmd, ⟨hfails, reason, he⟩ | ⟨n, _, he⟩⟩
  · rw [he]
    exact ⟨h, .of_eq rfl⟩
  · rw [he]
    apply (h.accept hidle place cmd).teardown
    intro _
    rcases hok with hrun | hne | hnone
    · exact absurd (hidle.symm.trans hrun) Bool.false_ne_true
    · exact absurd hfails hne
    · exact .inr fun name hn d => hnone cmd hcmd name hn d
  · rw [he]
    exact ⟨(h.accept hidle place cmd).quiet rfl rfl rfl rfl rfl (fun _ _ => rfl) rfl, .of_eq rfl⟩

theorem deliver (h : Kept s) {saved : Option ProfileValues} {established : Established}
    (hok : s.Accounted (.deliver saved established)) (hs : s.deliver saved established = some s') :
    Kept s' ∧ Grows s s' := by
  unfold Svc.Accounted at hok
  obtain ⟨place, queue, ⟨hq, rfl⟩ | ⟨extras, hq, rfl⟩⟩ := Svc.deliver_cases hs
  · rw [hq] at hok
    have hpopped : Kept { s with queue := queue, handledStops := s.handledStops ++ [place] } :=
      h.quiet rfl rfl rfl rfl rfl (fun _ _ => rfl) rfl
    exact hpopped.stopMe (fun _ => hok) _ _
  · rw [hq] at hok
    have hpopped : Kept { s with queue := queue } := h.quiet rfl rfl rfl rfl rfl (fun _ _ => rfl) rfl
    exact hpopped.onStart hok

/-- A posted task persists what was counted, or nothing. -/
theorem task (h : Kept s) {i : Nat} {usage : Option (Int × Int)} (hok : s.Accounted (.task i usage))
    (hs : s.task i usage = some s') : Kept s' ∧ Grows s s' := by
  obtain ⟨t, tasks, ht, _, hcases⟩ := Svc.task_cases hs
  unfold Svc.Accounted at hok
  simp only [ht] at hok
  have hpopped : Kept { s with mMainHandler := tasks } := h.quiet rfl rfl rfl rfl rfl (fun _ _ => rfl) rfl
  rcases hcases with ⟨g, reason, rfl, rfl⟩ | ⟨g, _, rfl⟩ | ⟨g, rfl, _, hrun, rfl⟩ | ⟨p, answer, _, rfl⟩
  · exact hpopped.stopMe (fun _ => hok) reason _
  · exact ⟨hpopped, .of_eq rfl⟩
  · have hr := Svc.postStartOnMain_reports (s := { s with mMainHandler := tasks }) g usage hrun
    exact ⟨(hpopped.tunnelUp hrun hok g usage).reports hr, .of_eq hr.prefs⟩
  · rcases Svc.probeDone_cases { s with mMainHandler := tasks } p answer with hr | ⟨t, hr, hup, hdown⟩
    · exact ⟨hpopped.reports hr, .of_eq hr.prefs⟩
    · rw [hdown]
      have hmay : t.MayStop := .inl (by rw [hr.control]; exact hup)
      have hdone := (hpopped.reports hr).teardown (fun _ => hmay) .proxyConnectFailed none
      exact ⟨hdone.1, (Grows.of_eq hr.prefs).trans hdone.2⟩

/-- A tick that persists stores at least what was there. -/
theorem stats (h : Kept s) {i : Nat} {usage : Option (Int × Int)} (hok : s.Accounted (.stats i usage))
    (hs : s.stats i usage = some s') : Kept s' ∧ Grows s s' := by
  have hup : s.mTunnelUp = true := by
    -- a tick is pending only while the tunnel is up
    obtain ⟨due, hdue, _⟩ := Option.bind_eq_some_iff.mp hs
    by_contra hdown
    rw [(h.down (Bool.not_eq_true _ ▸ hdown)).1] at hdue
    cases hdue
  obtain ⟨l, rfl⟩ := Svc.stats_some hs
  have hpopped : Kept { s with mStatsHandler := l } := by
    refine ⟨h.idle, fun hdown => ?_, h.up⟩
    rw [show s.mTunnelUp = false from hdown] at hup
    cases hup
  exact hpopped.statsTick hup hok

/-- One accounted step keeps the invariant and lowers no stored total. -/
theorem step (h : Kept s) {a : Act} (hok : s.Accounted a) (hs : Svc.step s a = some s') : Kept s' ∧ Grows s s' := by
  cases a with
  | deliver saved established => exact h.deliver hok hs
  | external reason =>
    obtain ⟨d, rfl⟩ := Svc.external_some hs
    obtain ⟨hkept, hgrows⟩ := h.stopMe (fun _ => hok) reason none
    exact ⟨hkept.quiet rfl rfl rfl rfl rfl (fun _ _ => rfl) rfl, hgrows⟩
  | task i usage => exact h.task hok hs
  | stats i usage => exact h.stats hok hs
  | _ =>
    have hu : Uncounted s s' := Svc.step_uncounted rfl hs
    exact ⟨h.uncounted hu, hu.grows⟩

/-- In every run under the condition the stored totals are kept. -/
theorem reachable (h : Reaches system Svc.Accounted s) : Kept s := by
  apply Reaches.invariant (P := Kept) _ _ h
  · rintro _ ⟨w, accelDns, _, rfl⟩
    exact ⟨fun _ => ⟨rfl, rfl⟩, fun _ => ⟨rfl, fun d => by cases d; exacts [⟨rfl, rfl⟩, ⟨rfl, rfl⟩]⟩,
      fun hup => (Bool.false_ne_true hup).elim⟩
  · intro s a s' hs hok hstep
    exact (hs.step hok hstep).1

end Kept

/-- **Stored usage totals never go down** in accounted runs. -/
theorem usage_kept {s s' : Svc} (hs : Reaches system Svc.Accounted s) (h : Leads system Svc.Accounted s s') :
    ∀ d name, s.stored d name ≤ s'.stored d name := by
  apply Leads.preorder (R := Grows) _ _ _ hs h
  · intro s
    exact .of_eq rfl
  · intro s t u hst htu
    exact hst.trans htu
  · intro s a t hs hok hstep
    exact ((Kept.reachable hs).step hok hstep).2

/-- A phone on which 100 bytes are on record for the profile `Work`, each way. -/
def usedPhone : World :=
  { phone with prefs := fun k =>
      if k = usageKey .rx "Work".toList ∨ k = usageKey .tx "Work".toList then some (.long 100) else none }

/-- A session that moves 30 bytes each way and is stopped after tunnel-up. -/
theorem usage_kept_session : ∃ s s' : Svc, s.stored .rx "Work".toList = 100 ∧ s'.stored .rx "Work".toList = 130 ∧
    ∀ d name, s.stored d name ≤ s'.stored d name := by
  have hrun : ((execWhere system Svc.Accounted (Svc.created usedPhone none)
      [.sendStart (some (startOf "Work".toList "10.0.0.2".toList)), .deliver none (.fd 3)]).bind
      fun s => (execWhere system Svc.Accounted s (bringUp 0 "10.0.0.2".toList ++
        [.task 0 (some (1000, 2000)), .stats 0 (some (1030, 2030)), .external .binderStop])).map
      fun s' => (s.stored .rx "Work".toList, s'.stored .rx "Work".toList)) = some (100, 130) := by decide +kernel
  obtain ⟨s, hs, hrest⟩ := Option.bind_eq_some_iff.mp hrun
  obtain ⟨s', hs', hpair⟩ := Option.map_eq_some_iff.mp hrest
  obtain ⟨hbefore, hafter⟩ := Prod.mk.inj hpair
  have hreach : Reaches system Svc.Accounted s := execWhere_reaches _ (created_reachable rfl none) hs
  exact ⟨s, s', hbefore, hafter, usage_kept hreach (execWhere_leads _ .here hs')⟩

/-- A stop while connecting stores zero over what was on record. -/
theorem usage_lost : ¬ ∀ s s' : Svc, Reachable system s → Leads system (fun _ _ => True) s s' →
    ∀ d name, s.stored d name ≤ s'.stored d name := by
  intro h
  have hrun : (exec system (Svc.created usedPhone none)
      [.sendStart (some (startOf "Work".toList "10.0.0.2".toList)), .deliver none (.fd 3), .external .binderStop]).map
      (fun s' => s'.stored .rx "Work".toList) = some 0 := by decide +kernel
  obtain ⟨s', hs', hafter⟩ := Option.map_eq_some_iff.mp hrun
  have hbefore : (Svc.created usedPhone none).stored .rx "Work".toList = 100 := by decide +kernel
  have hle := h _ s' (created_reachable rfl none) (exec_leads _ .here hs') .rx "Work".toList
  rw [hbefore, hafter] at hle
  exact absurd hle (by decide)

end KiloProxy.Vpn
