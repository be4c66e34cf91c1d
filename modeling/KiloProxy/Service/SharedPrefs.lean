import KiloProxy.Run.System
import KiloProxy.Store.WholeFile
import KiloProxy.Util.Preferences

/-!
# The default preferences of the two processes

The UI process edits settings, split-tunnel lists and the bubble position, the `:vpn`
process rewrites the usage totals of a profile every few seconds and reads the engine
settings at a connect. Both go through a copy of the whole file.
-/

namespace KiloProxy.Service
set_option autoImplicit false
open KiloProxy.Text KiloProxy.Util KiloProxy.Store KiloProxy.Run

inductive Proc where
  | ui
  | vpn
deriving DecidableEq, Repr

/-- The edits of `persistProfileBytes`. -/
def persistPuts (name : Str) (totalRx totalTx : Int) : Puts Str PrefValue :=
  [(usageRxKey name, some (.long totalRx)), (usageTxKey name, some (.long totalTx))]

/-- A connect: the settings it runs with, each beside the values committed last when
they were read. -/
structure Connect where
  split : SplitPrefs
  splitEdited : SplitPrefs
  accel : AccelPrefs
  accelEdited : AccelPrefs

/-- The file with both copies, the start intents not yet delivered, and the connects so far. -/
structure TwoProcess where
  prefs : Shared Proc Str PrefValue
  intents : List (SplitPrefs × SplitPrefs)
  connects : List Connect

/-- What a process does with the preferences. `edit` is any `apply()` of the UI process;
`buildVpnIntent` runs in the process that starts the service. -/
inductive PrefAction where
  | access (p : Proc)
  | edit (puts : Puts Str PrefValue)
  | persistProfileBytes (name : Str) (totalRx totalTx : Int)
  | buildVpnIntent (p : Proc)
  | onStartCommand
  | exit (p : Proc)

namespace TwoProcess

def step (s : TwoProcess) : PrefAction → Option TwoProcess
  | .access p => some { s with prefs := s.prefs.load p }
  | .edit puts => some { s with prefs := s.prefs.commit .ui puts }
  | .persistProfileBytes name totalRx totalTx =>
    some { s with prefs := s.prefs.commit .vpn (persistPuts name totalRx totalTx) }
  | .buildVpnIntent p =>
    some { s with
      prefs := s.prefs.load p
      intents := s.intents ++ [(readSplitPrefs (s.prefs.view p), readSplitPrefs s.prefs.latest)] }
  | .onStartCommand =>
    match s.intents with
    | [] => none
    | i :: rest =>
      some {
        prefs := s.prefs.load .vpn
        intents := rest
        connects := s.connects ++
          [⟨i.1, i.2, readAccelPrefs (s.prefs.view .vpn), readAccelPrefs s.prefs.latest⟩] }
  | .exit p => some { s with prefs := s.prefs.exit p }

/-- Both processes start without a copy. -/
def system : System TwoProcess PrefAction where
  init s := s.prefs.copy = (fun _ => none) ∧ s.prefs.Current ∧ s.intents = [] ∧ s.connects = []
  step := step

/-- A commit finds the process's map in agreement with the file on the keys it does not write. -/
def CommitAgrees (s : TwoProcess) : PrefAction → Prop
  | .edit puts => s.prefs.AgreesOutside .ui (puts.map Prod.fst)
  | .persistProfileBytes name totalRx totalTx =>
    s.prefs.AgreesOutside .vpn ((persistPuts name totalRx totalTx).map Prod.fst)
  | _ => True

/-- A connect finds it in agreement on the keys it reads. -/
def ConnectAgrees (s : TwoProcess) : PrefAction → Prop
  | .buildVpnIntent p => s.prefs.AgreesOn p splitKeys
  | .onStartCommand => s.prefs.AgreesOn .vpn accelKeys
  | _ => True

def MapAgrees (s : TwoProcess) (a : PrefAction) : Prop := CommitAgrees s a ∧ ConnectAgrees s a

/-- A connect ran with the values committed last. -/
def Connect.RunsEdited (c : Connect) : Prop := c.split = c.splitEdited ∧ c.accel = c.accelEdited

/-- No update is lost: the file is current and every connect ran with the edited values. -/
structure UpdatesKept (s : TwoProcess) : Prop where
  file : s.prefs.Current
  started : ∀ c ∈ s.connects, Connect.RunsEdited c

/-- The intents on their way were built from the edited values. -/
def IntentsEdited (s : TwoProcess) : Prop := ∀ i ∈ s.intents, i.1 = i.2

/-- One step keeps the file current exactly when its commit, if it makes one, agrees. -/
theorem step_current_iff {s s' : TwoProcess} {a : PrefAction} (hcur : s.prefs.Current) (h : step s a = some s') :
    s'.prefs.Current ↔ CommitAgrees s a := by
  cases a with
  | access p => cases h; exact iff_of_true hcur trivial
  | edit puts => cases h; exact Shared.commit_current_iff hcur .ui puts
  | persistProfileBytes name totalRx totalTx => cases h; exact Shared.commit_current_iff hcur .vpn _
  | buildVpnIntent p => cases h; exact iff_of_true hcur trivial
  | onStartCommand =>
    simp only [step] at h
    split at h
    · cases h
    · cases h; exact iff_of_true hcur trivial
  | exit p => cases h; exact iff_of_true hcur trivial

/-- One agreeing step keeps all updates. -/
theorem step_kept {s s' : TwoProcess} {a : PrefAction} (hi : UpdatesKept s ∧ IntentsEdited s)
    (hok : MapAgrees s a) (h : step s a = some s') : UpdatesKept s' ∧ IntentsEdited s' := by
  obtain ⟨⟨hcur, hstarted⟩, hintents⟩ := hi
  have hcur' := (step_current_iff hcur h).mpr hok.1
  have hagree := hok.2
  cases a with
  | access p => cases h; exact ⟨⟨hcur', hstarted⟩, hintents⟩
  | edit puts => cases h; exact ⟨⟨hcur', hstarted⟩, hintents⟩
  | persistProfileBytes name totalRx totalTx => cases h; exact ⟨⟨hcur', hstarted⟩, hintents⟩
  | buildVpnIntent p =>
    cases h
    refine ⟨⟨hcur', hstarted⟩, fun i hi => ?_⟩
    rcases List.mem_append.mp hi with h | h
    · exact hintents i h
    · obtain rfl := List.mem_singleton.mp h
      exact readSplitPrefs_congr (Shared.view_latest hcur hagree)
  | onStartCommand =>
    simp only [step] at h
    split at h
    · cases h
    · rename_i i rest hs
      cases h
      rw [IntentsEdited, hs] at hintents
      refine ⟨⟨hcur', fun c hc => ?_⟩, fun j hj => hintents j (List.mem_cons_of_mem _ hj)⟩
      rcases List.mem_append.mp hc with h | h
      · exact hstarted c h
      · obtain rfl := List.mem_singleton.mp h
        exact ⟨hintents i List.mem_cons_self, readAccelPrefs_congr (Shared.view_latest hcur hagree)⟩
  | exit p => cases h; exact ⟨⟨hcur', hstarted⟩, hintents⟩

/-- **Preference updates.** In a run whose commits and connects each find the process's
map in agreement with the file, no update is ever lost and every connect runs with the
edited values; and a commit that does not find it so loses an update. -/
theorem updates_kept (s : TwoProcess) (h : Reaches system MapAgrees s) :
    UpdatesKept s ∧ ∀ a s', step s a = some s' → (s'.prefs.Current ↔ CommitAgrees s a) := by
  have hinv : UpdatesKept s ∧ IntentsEdited s := by
    apply Reaches.invariant (P := fun s => UpdatesKept s ∧ IntentsEdited s) _ _ h
    · rintro t ⟨_, hcur, hintents, hconnects⟩
      refine ⟨⟨hcur, fun c hc => ?_⟩, fun i hi => ?_⟩
      · rw [hconnects] at hc; cases hc
      · rw [hintents] at hi; cases hi
    · intro t a t' hi hok hstep
      exact step_kept hi hok hstep
  exact ⟨hinv.1, fun a s' hstep => step_current_iff hinv.1.file hstep⟩

/-- An empty file, no process running. -/
def fresh : TwoProcess := ⟨⟨fun _ => none, fun _ => none, fun _ => none⟩, [], []⟩

theorem fresh_init : system.init fresh := ⟨rfl, rfl, rfl, rfl⟩

/-- Fast tunnel switched on in the settings. -/
def hevOn : PrefAction := .edit [(prefHevTunnel, some (.bool true))]

def afterHev : TwoProcess := { fresh with prefs := fresh.prefs.commit .ui [(prefHevTunnel, some (.bool true))] }

/-- The setting is switched on before the `:vpn` process reads the file. -/
theorem updates_kept_hev :
    UpdatesKept afterHev ∧ ∀ a s', step afterHev a = some s' → (s'.prefs.Current ↔ CommitAgrees afterHev a) := by
  apply updates_kept afterHev
  refine .next (.start fresh_init) (a := hevOn) ⟨?_, trivial⟩ rfl
  intro k _
  rfl

/-- A connect, then the setting is switched on, then the `:vpn` process writes the totals:
the setting is gone from the file. And a second connect does not see the setting. -/
theorem edit_lost :
    (∃ s, Reachable system s ∧ ¬ s.prefs.Current) ∧
      ∃ s, Reachable system s ∧ ∃ c ∈ s.connects, c.accel ≠ c.accelEdited := by
  constructor
  · refine ⟨_, exec_reaches [.buildVpnIntent .ui, .onStartCommand, hevOn, .persistProfileBytes "a".toList 1 1]
      (.start fresh_init) rfl, fun h => ?_⟩
    have hkey := congrFun h prefHevTunnel
    exact absurd hkey (by decide)
  · refine ⟨_, exec_reaches [.buildVpnIntent .ui, .onStartCommand, hevOn, .buildVpnIntent .ui, .onStartCommand]
      (.start fresh_init) rfl, _, List.mem_append_right _ (List.mem_singleton.mpr rfl), ?_⟩
    decide

end TwoProcess

end KiloProxy.Service
