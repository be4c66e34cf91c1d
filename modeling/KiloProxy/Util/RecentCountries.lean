import KiloProxy.Store.Recent
import KiloProxy.Text.Listed
import KiloProxy.Util.Countries

/-!
# `recent_countries.txt`

The ten countries used last, as one line of codes between commas. Every use reads the file
and writes it again. No code has a comma or a blank, so what is written is read back, and the
file is the most recently used list of all uses, cut to ten.
-/

namespace KiloProxy.Util.Utility
set_option autoImplicit false
open KiloProxy.Text KiloProxy.Store

/-- The content of `recent_countries.txt`, if it exists. -/
abbrev RecentFile := Option Str

def getRecentCountries (file : RecentFile) : List Str :=
  match file with
  | none => []
  | some text => ((split ',' text).map trim).filter fun code => code ≠ []

/-- The file after `addRecentCountry`; the write succeeds. -/
def addRecentCountry (file : RecentFile) (code : Str) : RecentFile :=
  let normalized := uppercase (trim code)
  if normalized = [] then file
  else
    let existing := getRecentCountries file
    let updated := (normalized :: existing.filter fun c => c ≠ normalized).take 10
    some ([','].intercalate updated)

/-- The list is the ten codes used last, each once, the most recent first, as if it had been
cut only now. -/
structure TenMostRecent (used list : List Str) : Prop where
  listed : list = (mostRecent used).take 10
  cutOnce : list = (used.foldl touch []).take 10
  nodup : list.Nodup
  ordered : list.Pairwise (UsedAfter used)

/-! ## Codes -/

/-- An entry that is read as it was written. -/
structure Entry (code : Str) : Prop where
  nonempty : code ≠ []
  trimmed : trim code = code
  oneEntry : ',' ∉ code

theorem isLetter_of_upper {c : Char} (h : isUpperAscii (upperChar c) = true) : isLetter c = true := by
  unfold upperChar at h
  split at h
  · rename_i hlow
    rw [isLetter, hlow, Bool.or_true]
  · rw [isLetter, h, Bool.true_or]

theorem letter_entry {c : Char} (h : isLetter c = true) : isWhitespace c = false ∧ c ≠ ',' := by
  have hall : ∀ n < 128, isLetter (Char.ofNat n) = true →
      isWhitespace (Char.ofNat n) = false ∧ Char.ofNat n ≠ ',' := by decide +kernel
  exact ascii_all (p := fun c => isLetter c = true → isWhitespace c = false ∧ c ≠ ',') hall (isLetter_lt h) h

/-- A country's code in any letter case is two letters. -/
theorem letters_of_code {code : Str} (h : uppercase code ∈ Countries.codes) :
    code ≠ [] ∧ ∀ c ∈ code, isLetter c = true := by
  have hwell := Countries.codes_wellFormed _ h
  unfold uppercase at hwell
  cases code with
  | nil => cases hwell
  | cons a code => cases code with
    | nil => cases hwell
    | cons b code => cases code with
      | cons c code => cases hwell
      | nil =>
        obtain ⟨ha, hb⟩ := Bool.and_eq_true_iff.mp hwell
        refine ⟨List.cons_ne_nil _ _, fun c hc => ?_⟩
        obtain rfl | hc := List.mem_cons.mp hc
        · exact isLetter_of_upper ha
        · obtain rfl := List.mem_singleton.mp hc
          exact isLetter_of_upper hb

theorem entry_of_letters {code : Str} (hne : code ≠ []) (h : ∀ c ∈ code, isLetter c = true) : Entry code where
  nonempty := hne
  trimmed := trimBy_eq_self.mpr ⟨fun c hc => (letter_entry (h c (List.mem_of_mem_head? hc))).1,
    fun c hc => (letter_entry (h c (List.mem_of_mem_getLast? hc))).1⟩
  oneEntry := fun hmem => (letter_entry (h _ hmem)).2 rfl

/-- A code in any letter case is read as it was written, in upper case too. -/
theorem entry_of_code {code : Str} (h : uppercase code ∈ Countries.codes) : Entry code ∧ Entry (uppercase code) := by
  obtain ⟨hne, hletters⟩ := letters_of_code h
  rw [← uppercase_uppercase code] at h
  obtain ⟨hne', hletters'⟩ := letters_of_code h
  exact ⟨entry_of_letters hne hletters, entry_of_letters hne' hletters'⟩

/-! ## The file -/

/-- Entries come back as they were written. -/
theorem getRecentCountries_written {list : List Str} (h : ∀ code ∈ list, Entry code) :
    getRecentCountries (some ([','].intercalate list)) = list := by
  have hitems : ∀ code ∈ list, Item ',' code := fun code hcode =>
    ⟨(h code hcode).nonempty, (h code hcode).trimmed, (h code hcode).oneEntry⟩
  exact items_intercalate hitems

/-- One use on the list that the file holds. -/
theorem addRecentCountry_reads {file : RecentFile} {code : Str} (hcode : Entry code ∧ Entry (uppercase code))
    (hfile : ∀ c ∈ getRecentCountries file, Entry c) :
    getRecentCountries (addRecentCountry file code) = (touch (getRecentCountries file) (uppercase code)).take 10 := by
  unfold addRecentCountry
  rw [hcode.1.trimmed]
  simp only
  rw [if_neg hcode.2.nonempty, getRecentCountries_written]
  · rfl
  · intro c hc
    obtain rfl | hold := List.mem_cons.mp (List.mem_of_mem_take hc)
    · exact hcode.2
    · exact hfile c (List.mem_filter.mp hold).1

/-- The file after a history of uses. -/
def recorded (history : List Str) : RecentFile := history.foldl addRecentCountry none

/-- The file holds the list that every use cut. The induction is on the last use. -/
theorem recorded_reads {history : List Str} (h : ∀ code ∈ history, uppercase code ∈ Countries.codes) :
    getRecentCountries (recorded history) = (history.map uppercase).foldl (fun l c => (touch l c).take 10) [] ∧
      ∀ c ∈ getRecentCountries (recorded history), Entry c := by
  induction history using List.reverseRecOn with
  | nil => exact ⟨rfl, fun _ hc => by cases hc⟩
  | append_singleton history code ih =>
    obtain ⟨hlist, hentries⟩ := ih fun c hc => h c (List.mem_append_left _ hc)
    have hcode := entry_of_code (h code (List.mem_append_right _ List.mem_cons_self))
    have hread := addRecentCountry_reads hcode hentries
    have hlast : recorded (history ++ [code]) = addRecentCountry (recorded history) code := by
      rw [recorded, List.foldl_append]
      rfl
    rw [hlast, hread]
    constructor
    · rw [List.map_append, List.foldl_append, hlist]
      rfl
    · intro c hc
      obtain rfl | hold := List.mem_cons.mp (List.mem_of_mem_take hc)
      · exact hcode.2
      · exact hentries c (List.mem_filter.mp hold).1

/-- **The recent countries** are the ten used last. -/
theorem recents_most_recent {history : List Str} (h : ∀ code ∈ history, uppercase code ∈ Countries.codes) :
    TenMostRecent (history.map uppercase) (getRecentCountries (recorded history)) := by
  have hlisted : getRecentCountries (recorded history) = (mostRecent (history.map uppercase)).take 10 :=
    (recorded_reads h).1.trans (foldl_touch_take 10 _)
  rw [hlisted]
  exact ⟨rfl, by rw [foldl_touch], (nodup_mostRecent _).sublist (List.take_sublist _ _),
    (mostRecent_ordered _).sublist (List.take_sublist _ _)⟩

/-- Twelve uses of eleven countries, one of them in small letters. -/
theorem recents_most_recent_eleven :
    TenMostRecent (List.map String.toList ["DE", "US", "FR", "GB", "NL", "SE", "PL", "ES", "IT", "JP", "DE", "CH"])
      (getRecentCountries (recorded
        (List.map String.toList ["DE", "US", "FR", "GB", "NL", "SE", "PL", "ES", "IT", "JP", "de", "CH"]))) :=
  @recents_most_recent (List.map String.toList
    ["DE", "US", "FR", "GB", "NL", "SE", "PL", "ES", "IT", "JP", "de", "CH"]) (by decide +kernel)

end KiloProxy.Util.Utility
