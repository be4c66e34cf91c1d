import KiloProxy.Run.Search
import KiloProxy.Ui.ProxySheet
import KiloProxy.Util.NamesPersist

/-!
# `freshProfileName` and `firstFreeCopyName`

Both ask the registry for one numbered name after the other until it has none of that
name. Asking builds the profiles that are asked for, and leaves the list of names alone.
-/

namespace KiloProxy.Ui
set_option autoImplicit false
open KiloProxy.Text KiloProxy.Store KiloProxy.Run KiloProxy.Util

/-- The order in which the preferences are listed to a constructor. -/
structure IterationOrder where
  list : ProfileManager → List (Str × PrefValue)
  perm : ∀ pm, (list pm).Perm pm.pref.list

namespace ProxiesScreen

/-- `pm.getProfile(name) != null`, and what the call leaves. -/
def hasProfile (order : IterationOrder) (pm : ProfileManager) (name : Str) : Bool × ProfileManager :=
  (name ∈ pm.mProfiles, (pm.getProfile (order.list pm) name).getD pm)

/-- The template `$base $n` -/
def numbered (base : Str) (n : Nat) : Str := base ++ ' ' :: ofNat n

/-- The template `$srcName (copy $n)` -/
def numberedCopy (srcName : Str) (n : Nat) : Str := srcName ++ " (copy ".toList ++ ofNat n ++ [')']

/-- The locals of `freshProfileName`. -/
structure Numbering where
  n : Nat
  pm : ProfileManager

/-- `pm.getProfile("$base $n") != null` -/
def Numbering.test (order : IterationOrder) (base : Str) (s : Numbering) : Bool × Numbering :=
  let (taken, pm) := hasProfile order s.pm (numbered base s.n)
  (taken, { s with pm := pm })

/-- `n++` -/
def Numbering.body (s : Numbering) : Numbering := { s with n := s.n + 1 }

/-- Runs for at most `fuel` tests. -/
def freshProfileName (order : IterationOrder) (fuel : Nat) (pm : ProfileManager) (base : Str) :
    Option (Str × ProfileManager) :=
  (runWhile (Numbering.test order base) Numbering.body fuel ⟨1, pm⟩).map fun s => (numbered base s.n, s.pm)

/-- The locals of `firstFreeCopyName`. -/
structure Copying where
  newName : Str
  n : Nat
  pm : ProfileManager

/-- `pm.getProfile(newName) != null` -/
def Copying.test (order : IterationOrder) (s : Copying) : Bool × Copying :=
  let (taken, pm) := hasProfile order s.pm s.newName
  (taken, { s with pm := pm })

def Copying.body (srcName : Str) (s : Copying) : Copying :=
  { s with newName := numberedCopy srcName s.n, n := s.n + 1 }

/-- Runs for at most `fuel` tests. -/
def firstFreeCopyName (order : IterationOrder) (fuel : Nat) (pm : ProfileManager) (srcName : Str) :
    Option (Str × ProfileManager) :=
  (runWhile (Copying.test order) (Copying.body srcName) fuel ⟨srcName ++ " (copy)".toList, 2, pm⟩).map
    fun s => (s.newName, s.pm)

/-- The sequence `freshProfileName` tries. -/
def freshCandidate (base : Str) (k : Nat) : Str := numbered base (k + 1)

/-- The sequence `firstFreeCopyName` tries. -/
def copyCandidate (srcName : Str) : Nat → Str
  | 0 => srcName ++ " (copy)".toList
  | k + 1 => numberedCopy srcName (k + 2)

/-! ## The candidates -/

theorem numbered_injective (base : Str) : Function.Injective (numbered base) := by
  intro m n h
  have htail : ' ' :: ofNat m = ' ' :: ofNat n := List.append_cancel_left h
  exact ofNat_injective (List.cons.inj htail).2

theorem numberedCopy_injective (srcName : Str) : Function.Injective (numberedCopy srcName) := by
  intro m n h
  have htail : srcName ++ " (copy ".toList ++ ofNat m = srcName ++ " (copy ".toList ++ ofNat n :=
    List.append_cancel_right h
  exact ofNat_injective (List.append_cancel_left htail)

/-- The unnumbered copy has another character behind `copy`. -/
theorem copy_ne_numbered (srcName : Str) (n : Nat) : srcName ++ " (copy)".toList ≠ numberedCopy srcName n := by
  intro h
  unfold numberedCopy at h
  rw [List.append_assoc, List.append_assoc] at h
  have htail : " (copy".toList ++ [')'] = " (copy".toList ++ (' ' :: (ofNat n ++ [')'])) := List.append_cancel_left h
  have hhead := List.append_cancel_left htail
  exact absurd (List.cons.inj hhead).1 (by decide)

theorem freshCandidate_injective (base : Str) : Function.Injective (freshCandidate base) := by
  intro j k h
  exact Nat.succ_injective (numbered_injective base h)

/-- The candidates for a copy are all different. -/
theorem copyCandidate_injective (srcName : Str) : Function.Injective (copyCandidate srcName) := by
  intro j k h
  cases j with
  | zero =>
    cases k with
    | zero => rfl
    | succ k => exact absurd h (copy_ne_numbered srcName _)
  | succ j =>
    cases k with
    | zero => exact absurd h.symm (copy_ne_numbered srcName _)
    | succ k => exact congrArg (· - 1) (numberedCopy_injective srcName h)

/-- A candidate fits on a line when the text in front of the number does. -/
theorem freshCandidate_listable {base : Str} (h : '\n' ∉ base) (k : Nat) : Listable (freshCandidate base k) := by
  constructor
  · simp [freshCandidate, numbered]
  · simp only [freshCandidate, numbered, List.mem_append, List.mem_cons, not_or]
    exact ⟨h, by decide, not_mem_ofNat rfl _⟩

/-- The candidates for a copy can be listed when the source has no line break. -/
theorem copyCandidate_listable {srcName : Str} (h : '\n' ∉ srcName) (k : Nat) :
    Listable (copyCandidate srcName k) := by
  cases k with
  | zero =>
    constructor
    · simp [copyCandidate]
    · simp only [copyCandidate, List.mem_append, not_or]
      exact ⟨h, by decide⟩
  | succ k =>
    constructor
    · simp [copyCandidate, numberedCopy]
    · simp only [copyCandidate, numberedCopy, List.mem_append, not_or]
      exact ⟨⟨⟨h, by decide⟩, not_mem_ofNat rfl _⟩, by decide⟩

/-! ## The loops -/

/-- `s` comes of asking `pm` for profiles. -/
structure Asked (pm s : ProfileManager) : Prop where
  reach : Reachable ProfileManager.system s
  list : s.mProfiles = pm.mProfiles

theorem Asked.hasProfile {pm s : ProfileManager} (h : Asked pm s) (order : IterationOrder) (name : Str) :
    ∃ s', hasProfile order s name = (decide (name ∈ pm.mProfiles), s') ∧ Asked pm s' := by
  have hsome : ∃ s', s.getProfile (order.list s) name = some s' := by
    unfold ProfileManager.getProfile ProfileManager.factoryGetProfile
    split_ifs with _ _ hperm
    · exact ⟨_, rfl⟩
    · exact ⟨_, rfl⟩
    · exact absurd (order.perm s) hperm
    · exact ⟨_, rfl⟩
  obtain ⟨s', hs'⟩ := hsome
  refine ⟨s', ?_, h.reach.next (a := (.getProfile name, order.list s)) trivial hs', ?_⟩
  · rw [ProxiesScreen.hasProfile, hs', Option.getD_some, h.list]
  · exact (ProfileManager.getProfile_got hs').list.trans h.list

section Loops

variable {pm : ProfileManager} (order : IterationOrder) {k fuel : Nat} (hfuel : k < fuel)
  (hreach : Reachable ProfileManager.system pm)
include hfuel hreach

/-- The search of the sheet returns the first free candidate. -/
theorem freshProfileName_returns {base : Str} (hk : FirstFree pm.mProfiles (freshCandidate base) k) :
    ∃ pm', freshProfileName order fuel pm base = some (freshCandidate base k, pm') ∧ Asked pm pm' := by
  -- before turn `j` the number is `j + 1`
  have hrun : ∃ t, runWhile (Numbering.test order base) Numbering.body fuel ⟨1, pm⟩ = some t ∧
      numbered base t.n = freshCandidate base k ∧ Asked pm t.pm := by
    apply runWhile_exits (J := fun j (s : Numbering) => s.n = j + 1 ∧ Asked pm s.pm) ?turn ?exit hfuel ⟨rfl, hreach, rfl⟩
    case turn =>
      rintro j ⟨n, s⟩ hj ⟨rfl, hs⟩
      obtain ⟨s', hs', hasked⟩ := hs.hasProfile order (numbered base (j + 1))
      have htaken : numbered base (j + 1) ∈ pm.mProfiles := hk.earlier j hj
      exact ⟨⟨j + 1, s'⟩, by simp only [Numbering.test, hs', htaken, decide_true], rfl, hasked⟩
    case exit =>
      rintro ⟨n, s⟩ ⟨rfl, hs⟩
      obtain ⟨s', hs', hasked⟩ := hs.hasProfile order (numbered base (k + 1))
      have hfree : numbered base (k + 1) ∉ pm.mProfiles := hk.free
      exact ⟨⟨k + 1, s'⟩, by simp only [Numbering.test, hs', hfree, decide_false], rfl, hasked⟩
  obtain ⟨t, ht, hname, hasked⟩ := hrun
  exact ⟨t.pm, by rw [freshProfileName, ht, Option.map_some, hname], hasked⟩

/-- The search for a copy returns the first free candidate. -/
theorem firstFreeCopyName_returns {srcName : Str} (hk : FirstFree pm.mProfiles (copyCandidate srcName) k) :
    ∃ pm', firstFreeCopyName order fuel pm srcName = some (copyCandidate srcName k, pm') ∧ Asked pm pm' := by
  -- before turn `j` the name is the candidate of the turn, and the number that of the next
  have hrun : ∃ t, runWhile (Copying.test order) (Copying.body srcName) fuel ⟨srcName ++ " (copy)".toList, 2, pm⟩ =
      some t ∧ t.newName = copyCandidate srcName k ∧ Asked pm t.pm := by
    apply runWhile_exits (J := fun j (s : Copying) => s.newName = copyCandidate srcName j ∧ s.n = j + 2 ∧ Asked pm s.pm)
      ?turn ?exit hfuel ⟨rfl, rfl, hreach, rfl⟩
    case turn =>
      rintro j ⟨newName, n, s⟩ hj ⟨rfl, rfl, hs⟩
      obtain ⟨s', hs', hasked⟩ := hs.hasProfile order (copyCandidate srcName j)
      exact ⟨⟨copyCandidate srcName j, j + 2, s'⟩,
        by simp only [Copying.test, hs', hk.earlier j hj, decide_true], rfl, rfl, hasked⟩
    case exit =>
      rintro ⟨newName, n, s⟩ ⟨rfl, rfl, hs⟩
      obtain ⟨s', hs', hasked⟩ := hs.hasProfile order (copyCandidate srcName k)
      exact ⟨⟨copyCandidate srcName k, k + 2, s'⟩, by simp only [Copying.test, hs', hk.free, decide_false], rfl, hasked⟩
  obtain ⟨t, ht, hname, hasked⟩ := hrun
  exact ⟨t.pm, by rw [firstFreeCopyName, ht, Option.map_some, hname], hasked⟩

end Loops

/-- The search ends at a candidate that is the first one without a profile, with every
number of tests above its place; `addProfile` then takes that name when `line` holds. -/
def Ends (pm : ProfileManager) (candidate : Nat → Str) (line : Prop) (run : Nat → Option (Str × ProfileManager)) :
    Prop :=
  ∃ k, k ≤ pm.mProfiles.length ∧ FirstFree pm.mProfiles candidate k ∧ ∀ fuel, k < fuel →
    ∃ pm', run fuel = some (candidate k, pm') ∧ pm'.mProfiles = pm.mProfiles ∧
      (line → pm'.addProfileResult (candidate k) = .ok (some (candidate k)))

/-- A search that returns the first free one of different candidates ends, and its name can be added. -/
theorem Ends.of_returns {pm : ProfileManager} {candidate : Nat → Str} {line : Prop}
    {run : Nat → Option (Str × ProfileManager)} (hinj : Function.Injective candidate)
    (hline : line → ∀ k, Listable (candidate k))
    (hrun : ∀ k, FirstFree pm.mProfiles candidate k → ∀ fuel, k < fuel →
      ∃ pm', run fuel = some (candidate k, pm') ∧ Asked pm pm') : Ends pm candidate line run := by
  obtain ⟨k, hle, hfirst⟩ := exists_firstFree pm.mProfiles hinj
  refine ⟨k, hle, hfirst, fun fuel hfuel => ?_⟩
  obtain ⟨pm', hpm', hasked⟩ := hrun k hfirst fuel hfuel
  refine ⟨pm', hpm', hasked.list, fun h => ?_⟩
  have hnew : candidate k ∉ pm'.mProfiles := by
    rw [hasked.list]
    exact hfirst.free
  have hreloaded : ProfileManager.Reloaded pm' := ProfileManager.reachable_reloaded hasked.reach
  apply (ProfileManager.addProfileResult_listed hnew).mpr
  rw [hreloaded.register_names (hline h k) hnew]
  exact List.mem_append_right _ List.mem_cons_self

/-- **Both searches end**, for every list of names and every text in front of the number, at
the first name that is free, and `addProfile` takes it when the text fits on a line. The
texts they are called with do: the labels of the providers and the names of profiles. -/
theorem searches_end {pm : ProfileManager} (hreach : Reachable ProfileManager.system pm) (order : IterationOrder) :
    (∀ base, Ends pm (freshCandidate base) ('\n' ∉ base) fun fuel => freshProfileName order fuel pm base) ∧
      (∀ srcName, Ends pm (copyCandidate srcName) ('\n' ∉ srcName)
        fun fuel => firstFreeCopyName order fuel pm srcName) ∧
      (∀ t, '\n' ∉ ProxyProviders.label t) ∧ ∀ n ∈ pm.mProfiles, '\n' ∉ n := by
  refine ⟨fun base => ?_, fun srcName => ?_, fun t => ?_, fun n hn => ?_⟩
  · exact .of_returns (freshCandidate_injective base) freshCandidate_listable
      fun k hk fuel hfuel => freshProfileName_returns order hfuel hreach hk
  · exact .of_returns (copyCandidate_injective srcName) copyCandidate_listable
      fun k hk fuel hfuel => firstFreeCopyName_returns order hfuel hreach hk
  · cases t <;> decide
  · have hreloaded : ProfileManager.Reloaded pm := ProfileManager.reachable_reloaded hreach
    exact hreloaded.oneLine hn

/-- A store with the profile `OwlProxy 1`. -/
def owlStore : ProfileStore := Entries.empty.edit [(prefProfile, some (.string "OwlProxy 1".toList))]

theorem searches_end_second : ∃ pm',
    freshProfileName ⟨fun pm => pm.pref.list, fun _ => .refl _⟩ 2 (ProfileManager.opened owlStore) "OwlProxy".toList =
      some ("OwlProxy 2".toList, pm') ∧
    pm'.addProfileResult "OwlProxy 2".toList = .ok (some "OwlProxy 2".toList) := by
  have hsecond : FirstFree (ProfileManager.opened owlStore).mProfiles (freshCandidate "OwlProxy".toList) 1 := by
    refine ⟨by decide +kernel, fun j hj => ?_⟩
    obtain rfl := Nat.lt_one_iff.mp hj
    decide +kernel
  obtain ⟨k, _, hk, hrun⟩ := (searches_end (ProfileManager.opened_reachable owlStore)
    ⟨fun pm => pm.pref.list, fun _ => .refl _⟩).1 "OwlProxy".toList
  obtain rfl := hk.unique hsecond
  obtain ⟨pm', hpm', _, hadds⟩ := hrun 2 (by decide)
  exact ⟨pm', hpm', hadds (by decide)⟩

/-- A name with a line break is listed in two pieces, so that the new default is not found. -/
theorem line_break_not_added : ¬ ∀ pm order fuel base name pm', Reachable ProfileManager.system pm →
    freshProfileName order fuel pm base = some (name, pm') → pm'.addProfileResult name = .ok (some name) := by
  intro h
  have hrun : (freshProfileName ⟨fun pm => pm.pref.list, fun _ => .refl _⟩ 1 (ProfileManager.opened Entries.empty)
      "a\nb".toList).map (fun r => decide (r.2.addProfileResult r.1 = .error ())) = some true := by
    decide +kernel
  obtain ⟨⟨name, pm'⟩, hreturns, hthrows⟩ := Option.map_eq_some_iff.mp hrun
  have hadds := h _ _ _ _ name pm' (ProfileManager.opened_reachable Entries.empty) hreturns
  rw [of_decide_eq_true hthrows] at hadds
  cases hadds

end ProxiesScreen

/-- What the sheet fills in is the first free number. -/
theorem freshProfileName_firstFree (mProfiles : List Str) (base : Str) :
    ∃ k, FirstFree mProfiles (ProxiesScreen.freshCandidate base) k ∧
      freshProfileName mProfiles base = ProxiesScreen.freshCandidate base k := by
  cases hfind : (List.range mProfiles.length).find? fun k => ProxiesScreen.freshCandidate base k ∉ mProfiles with
  | some k =>
    obtain ⟨hfree, _, hearlier⟩ := List.find?_range_eq_some.mp hfind
    refine ⟨k, ⟨by simpa using hfree, fun j hj => by simpa using hearlier j hj⟩, ?_⟩
    exact congrArg (fun o => ProxiesScreen.freshCandidate base (o.getD mProfiles.length)) hfind
  | none =>
    -- the first free candidate is not among as many as there are names
    obtain ⟨k, hle, hk⟩ := exists_firstFree mProfiles (ProxiesScreen.freshCandidate_injective base)
    have hall := List.find?_range_eq_none.mp hfind
    obtain rfl : k = mProfiles.length := by
      by_contra hne
      exact absurd (hall k (Nat.lt_of_le_of_ne hle hne)) (by simpa using hk.free)
    refine ⟨mProfiles.length, hk, ?_⟩
    exact congrArg (fun o => ProxiesScreen.freshCandidate base (o.getD mProfiles.length)) hfind

end KiloProxy.Ui
