import KiloProxy.Run.System
import KiloProxy.Ui.SheetForm
import KiloProxy.Vpn.State

/-!
# The test gate of Save

Two coroutines write `testStatus`. The automatic test is the body of a `LaunchedEffect` keyed on the
credentials: an edit of one of them cancels it and starts it over, and that resets the result. The
manual test runs in the scope of the sheet, and an edit does not cancel it. Save is so enabled by a
test of what is in the form, unless a manual test ends well on credentials that were edited since it
took them (`save_gate`).

An event of the sheet and the recomposition that follows it are one step: the effect of a changed key
is started before the next event.
-/

namespace KiloProxy.Ui
set_option autoImplicit false
open KiloProxy.Text KiloProxy.Run KiloProxy.Vpn

/-- `SocksTester.TEST_OK` -/
def testOk : Str := "Proxy works".toList

/-- What `testProxy` makes of the probe. -/
def testText : ProxyProbe → Str
  | .ok => testOk
  | .authFailed => "Auth failed".toList
  | .notSocks5 => "Not a SOCKS5 proxy".toList
  | .connectFailed => "Connection failed".toList
  | .unreachable => "Proxy unreachable".toList

theorem testText_ok {p : ProxyProbe} (h : testText p = testOk) : p = .ok := by
  cases p with
  | ok => rfl
  | _ => exact absurd h (by decide)

/-- The arguments of `testProxy`. -/
structure Creds where
  server : Str
  port : Int
  username : Str
  password : Str
deriving DecidableEq, Repr

namespace SheetForm

variable (form : SheetForm)

/-- The key of the effect. -/
def key : Str × Str × Str × Str := (form.host, form.portText, form.username, form.password)

/-- `allFilled` -/
def allFilled : Bool :=
  trim form.host != [] && validPort (trim form.portText) && form.username != [] && form.password != []

/-- `allFieldsFilled` -/
def allFieldsFilled : Bool := form.allFilled && trim form.name != []

/-- What a test started now takes, on a port that was read before or is read now. -/
def credsAt (port : Int) : Creds := ⟨trim form.host, port, trim form.username, trim form.password⟩

/-- The credentials in the form, trimmed. -/
def creds : Option Creds := (toIntOrNull (trim form.portText)).map form.credsAt

/-- Forms with the same key have the same credentials, and are filled alike. -/
theorem key_congr {f g : SheetForm} (h : f.key = g.key) : f.allFilled = g.allFilled ∧ f.creds = g.creds := by
  obtain ⟨hhost, hport, huser, hpass⟩ : f.host = g.host ∧ f.portText = g.portText ∧ f.username = g.username ∧
      f.password = g.password := by
    simpa [key] using h
  constructor
  · rw [allFilled, allFilled, hhost, hport, huser, hpass]
  · unfold creds credsAt
    rw [hhost, hport, huser, hpass]

end SheetForm

/-- The coroutine of the `LaunchedEffect`. -/
inductive AutoJob where
  | idle
  | delayed
  | testing (creds : Creds)
deriving DecidableEq, Repr

/-- The coroutine of `runManualTest`: launched with the port it read, or in its test. -/
inductive ManualJob where
  | launched (port : Int)
  | testing (creds : Creds)
deriving DecidableEq, Repr

/-- The sheet with its tests. `tested` is what the test took whose result `testStatus` is. -/
structure GatedSheet where
  form : SheetForm
  testing : Bool
  testStatus : Option Str
  tested : Option Creds
  auto : AutoJob
  manual : List ManualJob
deriving DecidableEq, Repr

namespace GatedSheet

variable (s : GatedSheet)

/-- The effect up to its delay; a coroutine of it that was running is cancelled. -/
def launched : GatedSheet :=
  if !s.form.allFilled then { s with testing := false, testStatus := none, tested := none, auto := .idle }
  else if !s.form.credsModified then { s with auto := .idle }
  else { s with testing := true, testStatus := none, tested := none, auto := .delayed }

/-- The sheet is drawn with the edited form; a changed key starts the effect over. -/
def recomposed (form : SheetForm) : GatedSheet :=
  if form.key = s.form.key then { s with form := form } else launched { s with form := form }

/-- The sheet as it comes up: new, on a profile or on a draft. -/
def opened (form : SheetForm) : GatedSheet := launched ⟨form, false, none, none, .idle, []⟩

/-- The delay is over: the test starts if the form still allows it. -/
def delayOver : Option GatedSheet :=
  match s.auto with
  | .delayed =>
    match if s.form.allFilled && s.form.credsModified then s.form.creds else none with
    | some creds => some { s with auto := .testing creds }
    | none => some { s with testing := false, auto := .idle }
  | _ => none

def autoDone (probe : ProxyProbe) : Option GatedSheet :=
  match s.auto with
  | .testing creds =>
    some { s with testStatus := some (testText probe), tested := some creds, testing := false, auto := .idle }
  | _ => none

/-- `runManualTest` up to its `scope.launch`. -/
def runManualTest : GatedSheet :=
  if s.testing then s
  else
    match toIntOrNull (trim s.form.portText) with
    | none => s
    | some port =>
      if 1 ≤ port ∧ port ≤ 65535 ∧ trim s.form.host ≠ [] ∧ trim s.form.username ≠ [] ∧ s.form.password ≠ [] then
        { s with
          form := { s.form with credsModified := true }
          testing := true
          testStatus := none
          tested := none
          manual := s.manual ++ [.launched port] }
      else s

/-- The launched coroutine reads the other fields and starts its test. -/
def manualBegin (i : Nat) : Option GatedSheet :=
  match s.manual[i]? with
  | some (.launched port) => some { s with manual := s.manual.set i (.testing (s.form.credsAt port)) }
  | _ => none

def manualDone (i : Nat) (probe : ProxyProbe) : Option GatedSheet :=
  match s.manual[i]? with
  | some (.testing creds) =>
    some { s with
      testStatus := some (testText probe)
      tested := some creds
      testing := false
      manual := s.manual.eraseIdx i }
  | _ => none

/-- `enabled` of the Save button. -/
def allValid : Bool :=
  s.form.allFieldsFilled && (s.testStatus == some testOk || (s.form.isEdit && !s.form.credsModified))

end GatedSheet

/-- The events of the sheet; `mProfiles` are the names in use, `drawn` a session number. -/
inductive GateAct where
  | edit (mProfiles : List Str) (drawn : Nat) (e : SheetForm.Edit)
  | runManualTest
  | manualBegin (i : Nat)
  | manualDone (i : Nat) (probe : ProxyProbe)
  | delayOver
  | autoDone (probe : ProxyProbe)
deriving DecidableEq, Repr

def GatedSheet.step (s : GatedSheet) : GateAct → Option GatedSheet
  | .edit mProfiles drawn e => some (s.recomposed (s.form.apply mProfiles drawn e))
  | .runManualTest => some s.runManualTest
  | .manualBegin i => s.manualBegin i
  | .manualDone i probe => s.manualDone i probe
  | .delayOver => s.delayOver
  | .autoDone probe => s.autoDone probe

def gate : System GatedSheet GateAct where
  init s := ∃ form, s = GatedSheet.opened form
  step := GatedSheet.step

/-- The condition: a manual test that ends well took what is in the form, if the form is filled. -/
def Untouched (s : GatedSheet) : GateAct → Prop
  | .manualDone i .ok => ∀ creds, s.manual[i]? = some (.testing creds) → s.form.allFilled = true →
      s.form.creds = some creds
  | _ => True

/-- An enabled Save of a new profile or of edited credentials stands on a test of what is in the form. -/
def Gated (s : GatedSheet) : Prop :=
  s.allValid = true → (s.form.isEdit = false ∨ s.form.credsModified = true) →
    s.testStatus = some testOk ∧ ∃ creds, s.form.creds = some creds ∧ s.tested = some creds

/-! ## The invariant -/

/-- The result comes after the mark, and where the form is filled a good one is of what is in it; the
automatic test is of what is in it. -/
structure Sound (s : GatedSheet) : Prop where
  marked : s.testStatus ≠ none ∨ s.auto ≠ .idle ∨ s.manual ≠ [] → s.form.credsModified = true
  passed : s.testStatus = some testOk → s.form.allFilled = true →
    ∃ creds, s.form.creds = some creds ∧ s.tested = some creds
  auto : ∀ creds, s.auto = .testing creds → s.form.creds = some creds

/-- On a sound sheet Save is open on tested credentials only. -/
theorem Sound.gated {s : GatedSheet} (h : Sound s) : Gated s := by
  intro hvalid hedited
  obtain ⟨hfields, hpassed⟩ : s.form.allFieldsFilled = true ∧
      (s.testStatus = some testOk ∨ s.form.isEdit = true ∧ s.form.credsModified = false) := by
    simpa [GatedSheet.allValid] using hvalid
  have hfilled : s.form.allFilled = true := (Bool.and_eq_true_iff.mp hfields).1
  obtain hok | ⟨hedit, hunmodified⟩ := hpassed
  · exact ⟨hok, h.passed hok hfilled⟩
  · rw [hedit, hunmodified] at hedited
    simp at hedited

/-- A coroutine of either kind comes after the mark. -/
theorem Sound.marked_manual {s : GatedSheet} (h : Sound s) {i : Nat} {job : ManualJob}
    (hjob : s.manual[i]? = some job) : s.form.credsModified = true := by
  apply h.marked
  right
  right
  intro hnil
  rw [hnil] at hjob
  cases hjob

theorem Sound.marked_auto {s : GatedSheet} (h : Sound s) {job : AutoJob} (hauto : s.auto = job) (hjob : job ≠ .idle) :
    s.form.credsModified = true := h.marked (.inr (.inl (hauto ▸ hjob)))

/-- The effect keeps a result only where there was none to keep. -/
theorem Sound.launched {s : GatedSheet} (h : s.testStatus ≠ none ∨ s.manual ≠ [] → s.form.credsModified = true) :
    Sound s.launched := by
  unfold GatedSheet.launched
  split
  · refine ⟨?_, ?_, ?_⟩
    · rintro (hnone | hidle | hmanual)
      · exact absurd rfl hnone
      · exact absurd rfl hidle
      · exact h (.inr hmanual)
    · intro hok
      cases hok
    · intro creds hauto
      cases hauto
  · split
    · rename_i hmarked
      have hno : ¬(s.testStatus ≠ none ∨ s.manual ≠ []) := fun hsome => by
        rw [h hsome] at hmarked
        cases hmarked
      rw [not_or, not_not, not_not] at hno
      refine ⟨?_, ?_, ?_⟩
      · rintro (hsome | hidle | hmanual)
        · exact absurd hno.1 hsome
        · exact absurd rfl hidle
        · exact absurd hno.2 hmanual
      · intro hok
        rw [show ({ s with auto := .idle } : GatedSheet).testStatus = s.testStatus from rfl, hno.1] at hok
        cases hok
      · intro creds hauto
        cases hauto
    · rename_i hmarked
      refine ⟨fun _ => by simpa using hmarked, ?_, ?_⟩
      · intro hok
        cases hok
      · intro creds hauto
        cases hauto

theorem Sound.opened (form : SheetForm) : Sound (GatedSheet.opened form) :=
  Sound.launched fun h => by simp at h

/-- An edit leaves the key and what stands on it, or starts the effect over. -/
theorem Sound.recomposed {s : GatedSheet} (h : Sound s) {form : SheetForm}
    (hmark : s.form.credsModified = true → form.credsModified = true) : Sound (s.recomposed form) := by
  unfold GatedSheet.recomposed
  split
  · rename_i hkey
    obtain ⟨hfilled, hcreds⟩ := SheetForm.key_congr hkey
    refine ⟨fun hsome => hmark (h.marked hsome), ?_, ?_⟩
    · intro hok hall
      rw [hcreds]
      exact h.passed hok (hfilled.symm.trans hall)
    · intro creds hauto
      rw [hcreds]
      exact h.auto creds hauto
  · exact Sound.launched fun hsome => hmark (h.marked (hsome.elim .inl fun hmanual => .inr (.inr hmanual)))

/-- The automatic test takes the credentials of the form. -/
theorem Sound.delayOver {s s' : GatedSheet} (h : Sound s) (hs : s.delayOver = some s') : Sound s' := by
  unfold GatedSheet.delayOver at hs
  split at hs
  · rename_i hauto
    have hmarked := h.marked_auto hauto (by simp)
    split at hs
    · rename_i creds hcreds
      obtain rfl := Option.some.inj hs
      refine ⟨fun _ => hmarked, h.passed, ?_⟩
      intro creds' htest
      obtain rfl : creds = creds' := by simpa using htest
      split at hcreds
      · exact hcreds
      · cases hcreds
    · obtain rfl := Option.some.inj hs
      exact ⟨fun _ => hmarked, h.passed, fun creds htest => by cases htest⟩
  · cases hs

theorem Sound.autoDone {s s' : GatedSheet} {probe : ProxyProbe} (h : Sound s) (hs : s.autoDone probe = some s') :
    Sound s' := by
  unfold GatedSheet.autoDone at hs
  split at hs
  · rename_i creds hauto
    obtain rfl := Option.some.inj hs
    have hmarked := h.marked_auto hauto (by simp)
    exact ⟨fun _ => hmarked, fun _ _ => ⟨creds, h.auto creds hauto, rfl⟩, fun creds' htest => by cases htest⟩
  · cases hs

/-- A manual test takes the credentials of the form at its start. -/
theorem Sound.runManualTest {s : GatedSheet} (h : Sound s) : Sound s.runManualTest := by
  unfold GatedSheet.runManualTest
  split
  · exact h
  · split
    · exact h
    · split
      · refine ⟨fun _ => rfl, ?_, h.auto⟩
        intro hok
        cases hok
      · exact h

theorem Sound.manualBegin {s s' : GatedSheet} {i : Nat} (h : Sound s) (hs : s.manualBegin i = some s') : Sound s' := by
  unfold GatedSheet.manualBegin at hs
  split at hs
  · rename_i port hjob
    obtain rfl := Option.some.inj hs
    have hmarked := h.marked_manual hjob
    exact ⟨fun _ => hmarked, h.passed, h.auto⟩
  · cases hs

/-- The result of a manual test opens Save only when the form still has the credentials tested. -/
theorem Sound.manualDone {s s' : GatedSheet} {i : Nat} {probe : ProxyProbe} (h : Sound s)
    (hok : Untouched s (.manualDone i probe)) (hs : s.manualDone i probe = some s') : Sound s' := by
  unfold GatedSheet.manualDone at hs
  split at hs
  · rename_i creds hjob
    obtain rfl := Option.some.inj hs
    have hmarked := h.marked_manual hjob
    refine ⟨fun _ => hmarked, ?_, h.auto⟩
    intro hstatus hfilled
    obtain rfl := testText_ok (Option.some.inj hstatus)
    exact ⟨creds, hok creds hjob hfilled, rfl⟩
  · cases hs

/-- Every step under the condition keeps the invariant. -/
theorem Sound.step {s s' : GatedSheet} {a : GateAct} (h : Sound s) (hok : Untouched s a) (hs : s.step a = some s') :
    Sound s' := by
  cases a with
  | edit mProfiles drawn e =>
    obtain rfl := Option.some.inj hs
    exact h.recomposed fun hmark => SheetForm.apply_modified drawn mProfiles hmark e
  | runManualTest =>
    obtain rfl := Option.some.inj hs
    exact h.runManualTest
  | manualBegin i => exact h.manualBegin hs
  | manualDone i probe => exact h.manualDone hok hs
  | delayOver => exact h.delayOver hs
  | autoDone probe => exact h.autoDone hs

/-! ## Save -/

theorem sound {s : GatedSheet} (h : Reaches gate Untouched s) : Sound s := by
  refine h.invariant ?_ fun s a s' hs hok hstep => hs.step hok hstep
  rintro s ⟨form, rfl⟩
  exact Sound.opened form

/-- **Save stands on a test of what is in the form** in every run in which a manual test that ends well took what is
in the form. -/
theorem save_gate {s : GatedSheet} (h : Reaches gate Untouched s) : Gated s := (sound h).gated

instance (s : GatedSheet) (a : GateAct) : Decidable (Untouched s a) :=
  match a with
  | .manualDone i .ok =>
    match h : s.manual[i]? with
    | some (.testing creds) =>
      decidable_of_iff (s.form.allFilled = true → s.form.creds = some creds) (by simp [Untouched, h])
    | some (.launched port) => .isTrue (by simp [Untouched, h])
    | none => .isTrue (by simp [Untouched, h])
  | .manualDone _ .authFailed => .isTrue trivial
  | .manualDone _ .notSocks5 => .isTrue trivial
  | .manualDone _ .connectFailed => .isTrue trivial
  | .manualDone _ .unreachable => .isTrue trivial
  | .edit _ _ _ => .isTrue trivial
  | .runManualTest => .isTrue trivial
  | .manualBegin _ => .isTrue trivial
  | .delayOver => .isTrue trivial
  | .autoDone _ => .isTrue trivial

/-- A new sheet on which a connection string is pasted; its automatic test fails. -/
def pasteAndFail : List GateAct :=
  [.edit [] 0 (.paste "10.0.0.9:1080:bob:old".toList), .delayOver, .autoDone .unreachable]

def newSheet : GatedSheet := GatedSheet.opened (.opened none "custom".toList "Profile 1".toList)

theorem newSheet_reaches {ok : GatedSheet → GateAct → Prop} : Reaches gate ok newSheet := .start ⟨_, rfl⟩

/-- A manual test on the same credentials passes: Save is enabled, and stands on it. -/
theorem save_gate_retested : ∃ s : GatedSheet, s.allValid = true ∧ s.testStatus = some testOk ∧
    ∃ creds, s.form.creds = some creds ∧ s.tested = some creds := by
  have hrun : ((execWhere gate Untouched newSheet
      (pasteAndFail ++ [.runManualTest, .manualBegin 0, .manualDone 0 .ok])).map fun s =>
        (s.allValid, s.form.credsModified)) = some (true, true) := by decide +kernel
  obtain ⟨s, hs, hresult⟩ := Option.map_eq_some_iff.mp hrun
  obtain ⟨hvalid, hmarked⟩ := Prod.mk.inj hresult
  exact ⟨s, hvalid, save_gate (execWhere_reaches _ newSheet_reaches hs) hvalid (.inr hmarked)⟩

/-- The password is edited while the manual test runs: Save is enabled on a test of the old one. -/
theorem save_untested : ¬ ∀ s, Reachable gate s → Gated s := by
  intro h
  have hrun : ((exec gate newSheet (pasteAndFail ++ [.runManualTest, .manualBegin 0,
      .edit [] 0 (.password "new".toList), .manualDone 0 .ok])).map fun s =>
        (s.allValid, s.form.credsModified, s.form.creds.map Creds.password, s.tested.map Creds.password)) =
      some (true, true, some "new".toList, some "old".toList) := by decide +kernel
  obtain ⟨s, hs, hresult⟩ := Option.map_eq_some_iff.mp hrun
  obtain ⟨hvalid, hresult⟩ := Prod.mk.inj hresult
  obtain ⟨hmarked, hresult⟩ := Prod.mk.inj hresult
  obtain ⟨hform, htested⟩ := Prod.mk.inj hresult
  obtain ⟨_, creds, hcreds, htest⟩ := h s (exec_reaches _ newSheet_reaches hs) hvalid (.inr hmarked)
  rw [hcreds, Option.map_some] at hform
  rw [htest, Option.map_some] at htested
  exact absurd (hform.symm.trans htested) (by decide)

/-- The condition leaves nothing out: the first manual test that ends well on other credentials than the
form's opens Save, unless the name is blank. -/
theorem touched_opens {s s' : GatedSheet} {i : Nat} (h : Reaches gate Untouched s) (hname : trim s.form.name ≠ [])
    (htouched : ¬ Untouched s (.manualDone i .ok)) (hs : s.step (.manualDone i .ok) = some s') : ¬ Gated s' := by
  have hsound := sound h
  simp only [Untouched, not_forall] at htouched
  obtain ⟨creds, hjob, hfilled, hother⟩ := htouched
  have hs : s.manualDone i .ok = some s' := hs
  rw [GatedSheet.manualDone, hjob] at hs
  obtain rfl := Option.some.inj hs
  intro hgated
  have hmarked := hsound.marked_manual hjob
  have hvalid : s.form.allFieldsFilled = true := by
    rw [SheetForm.allFieldsFilled, hfilled, Bool.true_and, bne_iff_ne]
    exact hname
  have hall : GatedSheet.allValid { s with
      testStatus := some (testText .ok)
      tested := some creds
      testing := false
      manual := s.manual.eraseIdx i } = true := by
    rw [GatedSheet.allValid, Bool.and_eq_true, Bool.or_eq_true]
    exact ⟨hvalid, .inl (beq_iff_eq.mpr rfl)⟩
  obtain ⟨_, creds', hcreds, htested⟩ := hgated hall (.inr hmarked)
  obtain rfl := Option.some.inj htested
  exact hother hcreds

end KiloProxy.Ui
