import KiloProxy.Run.System
import KiloProxy.Store.Entries
import KiloProxy.Text.Listed

/-!
# `SplitTunnelingScreen`

The list of apps is stored as one text. The apps page keeps a toggle for every app it has
seen, filled from the stored list for the apps that are installed, and a tap writes the
toggles that are on. So the stored packages without a toggle are gone after a tap.
-/

namespace KiloProxy.Ui
set_option autoImplicit false
open KiloProxy.Text KiloProxy.Store KiloProxy.Run

def isPackageChar (c : Char) : Bool := isLetter c || c.isDigit || c == '_' || c == '.'

/-- A package name as the system hands it out. -/
structure PackageName where
  name : Str
  nonempty : name ≠ []
  chars : ∀ c ∈ name, isPackageChar c = true

/-- What `loadApps` asks of an installed application. -/
structure ApplicationInfo where
  packageName : PackageName
  flagInstalled : Bool
  launchIntent : Bool

/-- `prefAppList` is the text stored at `PREF_ADV_APP_LIST`, empty when there is none. -/
structure SplitTunnelingScreen where
  prefAppList : Str
  persistedList : List Str
  installedApps : List PackageName
  toggleStates : Entries Str Bool

namespace SplitTunnelingScreen

/-- The set that is stored. -/
def stored (s : SplitTunnelingScreen) : List Str := items '\n' s.prefAppList

/-- The screen as it is composed over a stored text. -/
def compose (prefAppList : Str) : SplitTunnelingScreen := ⟨prefAppList, items '\n' prefAppList, [], Entries.empty⟩

/-- `loadApps`; the order of the list is by label. -/
def loadApps (s : SplitTunnelingScreen) (apps : List ApplicationInfo) : SplitTunnelingScreen :=
  { s with
    installedApps := ((apps.filter (·.flagInstalled)).filter (·.launchIntent)).map (·.packageName) }

/-- `LaunchedEffect(installedApps)`: apps without a toggle get one. -/
def fillToggles (s : SplitTunnelingScreen) : SplitTunnelingScreen :=
  { s with
    toggleStates := s.installedApps.foldl (fun toggles app =>
      if toggles.contains app.name then toggles else toggles.put app.name (app.name ∈ s.persistedList)) s.toggleStates }

/-- `LaunchedEffect(persistedList)`: the toggles of the installed apps follow the stored list. -/
def syncToggles (s : SplitTunnelingScreen) : SplitTunnelingScreen :=
  { s with
    toggleStates := s.installedApps.foldl (fun toggles app =>
      toggles.put app.name (app.name ∈ s.persistedList)) s.toggleStates }

/-- `toggleStates.filterValues { it }.keys` -/
def selectedPkgs (toggles : Entries Str Bool) : List Str := (toggles.list.filter (·.2)).map Prod.fst

/-- `onSetApp`, and the listener that the write calls. `keys` are the selected packages in the
order in which the map lists them. -/
def onSetApp (s : SplitTunnelingScreen) (pkg : PackageName) (on : Bool) (keys : List Str) :
    Option SplitTunnelingScreen :=
  let toggles := s.toggleStates.put pkg.name on
  if keys.Perm (selectedPkgs toggles) then
    let text := ['\n'].intercalate keys
    some { s with toggleStates := toggles, prefAppList := text, persistedList := items '\n' text }
  else none

/-- What can happen to the screen. The effects run some time after what they depend on changed,
and a row may be tapped that an earlier list had. -/
inductive Action where
  | compose
  | loadApps (apps : List ApplicationInfo)
  | fillToggles
  | syncToggles
  | onSetApp (pkg : PackageName) (on : Bool) (keys : List Str)

def step (s : SplitTunnelingScreen) : Action → Option SplitTunnelingScreen
  | .compose => some (compose s.prefAppList)
  | .loadApps apps => some (s.loadApps apps)
  | .fillToggles => some s.fillToggles
  | .syncToggles => some s.syncToggles
  | .onSetApp pkg on keys => s.onSetApp pkg on keys

/-- Any stored text. -/
def system : System SplitTunnelingScreen Action where
  init s := s = compose s.prefAppList
  step := step

/-! ## What a tap should do -/

/-- A set after a tap: only the package comes or goes. -/
def tapped (list : List Str) : Action → List Str
  | .onSetApp pkg on _ => if on then pkg.name :: list else list.filter fun q => q ≠ pkg.name
  | _ => list

/-- The stored set changes as it should. -/
def Local (s : SplitTunnelingScreen) (a : Action) (s' : SplitTunnelingScreen) : Prop :=
  ∀ q, q ∈ s'.stored ↔ q ∈ tapped s.stored a

/-- Every stored package but the tapped one has a toggle. -/
def Covered (s : SplitTunnelingScreen) : Action → Prop
  | .onSetApp pkg _ _ => ∀ q ∈ s.stored, q ≠ pkg.name → s.toggleStates.contains q = true
  | _ => True

instance (s : SplitTunnelingScreen) (a : Action) : Decidable (Covered s a) := by
  cases a <;> unfold Covered <;> infer_instance

/-! ## The toggles agree with the stored list -/

theorem isPackageChar_lt {c : Char} (h : isPackageChar c = true) : c.toNat < 128 := by
  simp only [isPackageChar, Bool.or_eq_true, beq_iff_eq] at h
  obtain ((h | h) | rfl) | rfl := h
  · exact isLetter_lt h
  · exact asciiDigit_lt h
  · decide
  · decide

/-- A package name comes back from the stored text. -/
theorem package_item (pkg : PackageName) : Item '\n' pkg.name := by
  refine .of_chars pkg.nonempty fun c hc => ?_
  have hall : ∀ n < 128, isPackageChar (Char.ofNat n) = true →
      isWhitespace (Char.ofNat n) = false ∧ Char.ofNat n ≠ '\n' := by decide +kernel
  have hchar := pkg.chars c hc
  exact ascii_all (p := fun c => isPackageChar c = true → isWhitespace c = false ∧ c ≠ '\n') hall
    (isPackageChar_lt hchar) hchar

/-- A package with a toggle is on when it is in the list, and can be stored. -/
def Follows (list : List Str) (toggles : Entries Str Bool) : Prop :=
  ∀ q b, toggles.get q = some b → Item '\n' q ∧ (b = true ↔ q ∈ list)

theorem Follows.put {list : List Str} {toggles : Entries Str Bool} (h : Follows list toggles) (app : PackageName) :
    Follows list (toggles.put app.name (app.name ∈ list)) := by
  intro q b hq
  rw [Entries.get_put] at hq
  by_cases he : q = app.name
  · rw [he, Function.update_self] at hq
    obtain rfl := Option.some.inj hq
    rw [he]
    exact ⟨package_item app, decide_eq_true_iff⟩
  · rw [Function.update_of_ne he] at hq
    exact h q b hq

/-- The screen holds what is stored, and the toggles follow it. -/
structure Agrees (s : SplitTunnelingScreen) : Prop where
  persisted : s.persistedList = s.stored
  toggles : Follows s.stored s.toggleStates

theorem compose_agrees (text : Str) : Agrees (compose text) where
  persisted := rfl
  toggles := fun _ _ h => by cases h

theorem Agrees.fillToggles {s : SplitTunnelingScreen} (h : Agrees s) : Agrees s.fillToggles where
  persisted := h.persisted
  toggles := by
    refine List.foldlRecOn _ _ h.toggles fun toggles hfollows app _ => ?_
    rw [h.persisted]
    split
    · exact hfollows
    · exact hfollows.put app

theorem Agrees.syncToggles {s : SplitTunnelingScreen} (h : Agrees s) : Agrees s.syncToggles where
  persisted := h.persisted
  toggles := by
    refine List.foldlRecOn _ _ h.toggles fun toggles hfollows app _ => ?_
    rw [h.persisted]
    exact hfollows.put app

/-! ## A tap -/

theorem mem_selectedPkgs {toggles : Entries Str Bool} {q : Str} :
    q ∈ selectedPkgs toggles ↔ toggles.get q = some true := by
  rw [← Entries.mem_list_iff]
  constructor
  · intro h
    obtain ⟨e, he, rfl⟩ := List.mem_map.mp h
    obtain ⟨hmem, hon⟩ := List.mem_filter.mp he
    exact hon ▸ hmem
  · intro h
    exact List.mem_map.mpr ⟨(q, true), List.mem_filter.mpr ⟨h, rfl⟩, rfl⟩

/-- What is in the set after a tap: the package when it was switched on, of the others those
that were in it. -/
theorem mem_tapped {list : List Str} {pkg : PackageName} {on : Bool} {keys : List Str} {q : Str} :
    q ∈ tapped list (.onSetApp pkg on keys) ↔ if q = pkg.name then on = true else q ∈ list := by
  cases on with
  | true =>
    have hlist : tapped list (.onSetApp pkg true keys) = pkg.name :: list := rfl
    rw [hlist, List.mem_cons]
    split
    · rename_i he
      exact ⟨fun _ => rfl, fun _ => .inl he⟩
    · rename_i hne
      exact ⟨fun h => h.resolve_left hne, .inr⟩
  | false =>
    have hlist : tapped list (.onSetApp pkg false keys) = list.filter fun q => q ≠ pkg.name := rfl
    rw [hlist, List.mem_filter, decide_eq_true_iff]
    split
    · rename_i he
      exact ⟨fun h => absurd he h.2, fun h => absurd h Bool.false_ne_true⟩
    · rename_i hne
      exact ⟨fun h => h.1, fun h => ⟨h, hne⟩⟩

section Tap

variable {s s' : SplitTunnelingScreen} {pkg : PackageName} {on : Bool} {keys : List Str}

/-- A tap stores the toggles that are on. -/
theorem Agrees.onSetApp_stored (h : Agrees s) (hs : s.onSetApp pkg on keys = some s') :
    s'.toggleStates = s.toggleStates.put pkg.name on ∧ s'.persistedList = s'.stored ∧
      ∀ q, q ∈ s'.stored ↔ (s.toggleStates.put pkg.name on).get q = some true := by
  unfold onSetApp at hs
  simp only at hs
  split at hs
  · rename_i hperm
    obtain rfl := Option.some.inj hs
    have hitems : ∀ q ∈ keys, Item '\n' q := by
      intro q hq
      have hon := mem_selectedPkgs.mp (hperm.mem_iff.mp hq)
      rw [Entries.get_put] at hon
      by_cases he : q = pkg.name
      · rw [he]
        exact package_item pkg
      · rw [Function.update_of_ne he] at hon
        exact (h.toggles q true hon).1
    refine ⟨rfl, rfl, fun q => ?_⟩
    rw [stored, items_intercalate hitems, hperm.mem_iff, mem_selectedPkgs]
  · cases hs

/-- A tap keeps the toggles and the stored list in agreement. -/
theorem Agrees.onSetApp (h : Agrees s) (hs : s.onSetApp pkg on keys = some s') : Agrees s' := by
  obtain ⟨htoggles, hpersisted, hstored⟩ := h.onSetApp_stored hs
  refine ⟨hpersisted, fun q b hq => ?_⟩
  rw [htoggles] at hq
  constructor
  · rw [Entries.get_put] at hq
    by_cases he : q = pkg.name
    · rw [he]
      exact package_item pkg
    · rw [Function.update_of_ne he] at hq
      exact (h.toggles q b hq).1
  · rw [hstored, hq, Option.some.injEq]

/-- Every action keeps the toggles and the stored list in agreement. -/
theorem Agrees.step {a : Action} (h : Agrees s) (hs : system.step s a = some s') : Agrees s' := by
  cases a with
  | compose =>
    obtain rfl := Option.some.inj hs
    exact compose_agrees _
  | loadApps apps =>
    obtain rfl := Option.some.inj hs
    exact ⟨h.persisted, h.toggles⟩
  | fillToggles =>
    obtain rfl := Option.some.inj hs
    exact h.fillToggles
  | syncToggles =>
    obtain rfl := Option.some.inj hs
    exact h.syncToggles
  | onSetApp pkg on keys => exact h.onSetApp hs

/-- A tap is local exactly when it is covered. -/
theorem Agrees.local_iff (h : Agrees s) (hs : system.step s (.onSetApp pkg on keys) = some s') :
    Local s (.onSetApp pkg on keys) s' ↔ Covered s (.onSetApp pkg on keys) := by
  obtain ⟨_, _, hstored⟩ := h.onSetApp_stored hs
  have hlocal : ∀ q, (q ∈ s'.stored ↔ q ∈ tapped s.stored (.onSetApp pkg on keys)) ↔
      (q ≠ pkg.name → (s.toggleStates.get q = some true ↔ q ∈ s.stored)) := by
    intro q
    rw [hstored, mem_tapped, Entries.get_put]
    by_cases he : q = pkg.name
    · rw [he, Function.update_self, if_pos rfl, Option.some.injEq]
      exact ⟨fun _ hne => absurd rfl hne, fun _ => Iff.rfl⟩
    · rw [Function.update_of_ne he, if_neg he]
      exact ⟨fun hiff _ => hiff, fun hiff => hiff he⟩
  constructor
  · intro hl q hq hne
    rw [Entries.contains, ((hlocal q).mp (hl q) hne).mpr hq, Option.isSome_some]
  · intro hcovered q
    refine (hlocal q).mpr fun hne => ⟨fun hon => (h.toggles q true hon).2.mp rfl, fun hq => ?_⟩
    obtain ⟨b, hb⟩ := Option.isSome_iff_exists.mp (hcovered q hq hne)
    rw [hb, (h.toggles q b hb).2.mpr hq]

end Tap

/-- The toggles and the stored list agree in every reachable state. -/
theorem reachable_agrees {s : SplitTunnelingScreen} (h : Reachable system s) : Agrees s := by
  refine h.invariant (fun s hs => ?_) fun s a s' hs _ hstep => hs.step hstep
  have hinit : s = compose s.prefAppList := hs
  rw [hinit]
  exact compose_agrees _

/-! ## Runs -/

/-- A covered step changes the stored set as it should. -/
theorem covered_step {s s' : SplitTunnelingScreen} {a : Action} (h : Agrees s) (hcovered : Covered s a)
    (hs : system.step s a = some s') : Local s a s' := by
  cases a with
  | onSetApp pkg on keys => exact (h.local_iff hs).mpr hcovered
  | compose =>
    obtain rfl := Option.some.inj hs
    exact fun _ => Iff.rfl
  | loadApps apps =>
    obtain rfl := Option.some.inj hs
    exact fun _ => Iff.rfl
  | fillToggles =>
    obtain rfl := Option.some.inj hs
    exact fun _ => Iff.rfl
  | syncToggles =>
    obtain rfl := Option.some.inj hs
    exact fun _ => Iff.rfl

/-- Equal sets stay equal. -/
theorem tapped_congr {l m : List Str} (h : ∀ q, q ∈ l ↔ q ∈ m) (a : Action) (q : Str) :
    q ∈ tapped l a ↔ q ∈ tapped m a := by
  cases a with
  | onSetApp pkg on keys => rw [mem_tapped, mem_tapped, h q]
  | compose => exact h q
  | loadApps apps => exact h q
  | fillToggles => exact h q
  | syncToggles => exact h q

theorem foldl_tapped_congr {l m : List Str} (h : ∀ q, q ∈ l ↔ q ∈ m) (as : List Action) (q : Str) :
    q ∈ as.foldl tapped l ↔ q ∈ as.foldl tapped m := by
  induction as generalizing l m with
  | nil => exact h q
  | cons a as ih => exact ih (tapped_congr h a)

/-- Over covered taps the stored set is the one the taps make of the set at the start. -/
theorem covered_run {s t : SplitTunnelingScreen} {as : List Action} (h : Agrees s)
    (hrun : execWhere system Covered s as = some t) (q : Str) : q ∈ t.stored ↔ q ∈ as.foldl tapped s.stored := by
  induction as generalizing s with
  | nil =>
    obtain rfl := Option.some.inj hrun
    exact Iff.rfl
  | cons a as ih =>
    unfold execWhere at hrun
    split at hrun
    · rename_i hcovered
      obtain ⟨m, hm, hrest⟩ := Option.bind_eq_some_iff.mp hrun
      rw [ih (h.step hm) hrest, List.foldl_cons]
      exact foldl_tapped_congr (covered_step h hcovered hm) as q
    · cases hrun

/-- **A tap changes the stored list by its package alone** exactly when every other stored package
has a toggle; over runs of such taps the stored set is what the taps make of the first one. -/
theorem edits_local_iff {s : SplitTunnelingScreen} (hreach : Reachable system s) :
    (∀ pkg on keys s', system.step s (.onSetApp pkg on keys) = some s' →
      (Local s (.onSetApp pkg on keys) s' ↔ Covered s (.onSetApp pkg on keys))) ∧
    ∀ as t, execWhere system Covered s as = some t → ∀ q, q ∈ t.stored ↔ q ∈ as.foldl tapped s.stored := by
  have h := reachable_agrees hreach
  exact ⟨fun pkg on keys s' hs => h.local_iff hs, fun as t hrun q => covered_run h hrun q⟩

def shown : PackageName := ⟨"b.shown".toList, by decide, List.all_eq_true.mp (by decide)⟩
def added : PackageName := ⟨"c.added".toList, by decide, List.all_eq_true.mp (by decide)⟩

/-- The apps page over a stored text, with these two apps installed. -/
def appsPage (text : Str) : SplitTunnelingScreen :=
  ((compose text).loadApps [⟨shown, true, true⟩, ⟨added, true, true⟩]).fillToggles

theorem appsPage_reachable (text : Str) : Reachable system (appsPage text) := by
  have hstart : Reachable system (compose text) := .start rfl
  exact exec_reaches [.loadApps [⟨shown, true, true⟩, ⟨added, true, true⟩], .fillToggles] hstart rfl

/-- Both apps are selected. -/
def addTap : Action := .onSetApp added true ["b.shown".toList, "c.added".toList]

theorem edits_local_iff_shown : ∃ s', system.step (appsPage "b.shown".toList) addTap = some s' ∧
    Local (appsPage "b.shown".toList) addTap s' := by
  have hsome : (system.step (appsPage "b.shown".toList) addTap).isSome = true := by decide +kernel
  obtain ⟨s', hs'⟩ := Option.isSome_iff_exists.mp hsome
  have hcovered : Covered (appsPage "b.shown".toList) addTap := by decide +kernel
  exact ⟨s', hs', ((edits_local_iff (appsPage_reachable _)).1 _ _ _ _ hs').mpr hcovered⟩

/-- `a.kept` is stored and not installed, and gone when `c.added` is added. -/
theorem stored_package_dropped : ¬ ∀ s pkg on keys s', Reachable system s →
    system.step s (.onSetApp pkg on keys) = some s' → Local s (.onSetApp pkg on keys) s' := by
  intro h
  have hsome : (system.step (appsPage "a.kept\nb.shown".toList) addTap).isSome = true := by decide +kernel
  obtain ⟨s', hs'⟩ := Option.isSome_iff_exists.mp hsome
  have hreach := appsPage_reachable "a.kept\nb.shown".toList
  have hlocal := (reachable_agrees hreach).local_iff hs'
  have hnot : ¬ Covered (appsPage "a.kept\nb.shown".toList) addTap := by decide +kernel
  exact hnot (hlocal.mp (h _ _ _ _ _ hreach hs'))

end SplitTunnelingScreen
end KiloProxy.Ui
