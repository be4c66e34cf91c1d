import KiloProxy.Util.UpdateChecker

/-!
# What the cache holds between downloads

An honest server sends a prefix of the APK, or of its rest behind the offset that was
asked for. Then the one update file in the cache stays a prefix of the APK of the tag
requested last, through every attempt, exception, cancel and pause, and a call that
returns null leaves the whole APK. This needs that the file found under the name of the
tag is the tag's own: the sanitizing of `cacheFile` gives some different tags one name.
-/

namespace KiloProxy.Util.UpdateChecker
set_option autoImplicit false
open KiloProxy.Text KiloProxy.Run

/-- What the server sends in its body. -/
def Answer.body (a : Answer) : Bytes := a.chunks.flatMap Chunk.data

/-- A 200 body is a prefix of the APK, a 206 body one of what stands behind the offset. -/
def Answer.Honest (apk : Bytes) (offset : Nat) (a : Answer) : Prop :=
  (a.status = .ok httpOk → a.body <+: apk) ∧ (a.status = .ok httpPartial → a.body <+: apk.drop offset)

/-- The names of update files. -/
def isUpdate (name : Str) : Prop := isVersioned name = true ∨ name = updateApk

/-- The directory holds no update file but `file`, and that one is a prefix of the APK. -/
structure Holds (dir : CacheDir) (file : Str) (apk : Bytes) : Prop where
  others : ∀ name, isUpdate name → name ≠ file → dir name = none
  part : ∀ content, dir file = some content → content <+: apk

namespace Holds

variable {dir : CacheDir} {file : Str} {apk : Bytes}

/-- Only `file` changes. -/
theorem update (h : Holds dir file apk) {new : Option Bytes} (hnew : ∀ content, new = some content → content <+: apk) :
    Holds (Function.update dir file new) file apk := by
  refine ⟨fun name hname hne => ?_, fun content hc => hnew content ?_⟩
  · rw [Function.update_of_ne hne]
    exact h.others name hname hne
  · rwa [Function.update_self] at hc

theorem delete (h : Holds dir file apk) : Holds (dir.delete file) file apk :=
  h.update fun _ hc => by cases hc

theorem write (h : Holds dir file apk) {content : Bytes} (hc : content <+: apk) :
    Holds (dir.write file content) file apk :=
  h.update fun _ he => Option.some.inj he ▸ hc

end Holds

section Attempts

variable {dir : CacheDir} {file : Str} {apk : Bytes} {totalBytes : Nat}

/-- What is left in the directory, and what a null result says about it. -/
structure Left (file : Str) (apk : Bytes) (totalBytes : Nat) (dir : CacheDir) (returnsNull : Prop) : Prop where
  holds : Holds dir file apk
  complete : returnsNull → 0 < totalBytes → dir.length file = totalBytes

/-- The read loop appends what the server sends. -/
theorem receive_holds (chunks : List Chunk) (h : Holds dir file apk)
    (hbody : (dir file).getD [] ++ chunks.flatMap Chunk.data <+: apk) :
    Holds (receive dir file chunks).1 file apk := by
  induction chunks generalizing dir with
  | nil => exact h
  | cons c cs ih =>
    rw [List.flatMap_cons, ← List.append_assoc] at hbody
    simp only [receive]
    split_ifs
    · exact h.delete
    · exact h
    · apply ih (h.write ((List.prefix_append _ _).trans hbody))
      rw [CacheDir.write, Function.update_self]
      exact hbody

/-- What is streamed into the file is a further part of the body. -/
theorem stream_left {a : Answer} {append last : Bool} (h : Holds dir file apk)
    (hbody : (if append then (dir file).getD [] else []) ++ a.body <+: apk) :
    Left file apk totalBytes (stream dir file totalBytes last append a).1
      ((stream dir file totalBytes last append a).2 = .returned none) := by
  unfold stream
  cases a.opened with
  | error e => exact ⟨h, fun hr => by cases hr⟩
  | ok _ =>
    simp only
    obtain ⟨d, hd, hopen⟩ : ∃ d, d = (if append then dir else dir.write file []) ∧
        (Holds d file apk ∧ (d file).getD [] ++ a.body <+: apk) := by
      refine ⟨_, rfl, ?_⟩
      cases append with
      | true => exact ⟨h, hbody⟩
      | false =>
        refine ⟨h.write (List.nil_prefix), ?_⟩
        simpa [CacheDir.write] using hbody
    rw [← hd]
    have hreceived := receive_holds a.chunks hopen.1 hopen.2
    generalize receive d file a.chunks = r at hreceived ⊢
    obtain ⟨d', result⟩ := r
    cases result with
    | some result => exact ⟨hreceived, fun hr => by cases hr⟩
    | none =>
      cases a.ending with
      | error e => exact ⟨hreceived, fun hr => by cases hr⟩
      | ok _ =>
        simp only
        split_ifs with hsize hlast
        · exact ⟨hreceived.delete, fun hr => by cases hr⟩
        · exact ⟨hreceived.delete, fun hr => by cases hr⟩
        · refine ⟨hreceived, fun _ hpos => ?_⟩
          by_contra hne
          exact hsize ⟨hpos, hne⟩

theorem refuse_left {a : Answer} {last : Bool} (status : Nat) (h : Holds dir file apk) :
    Left file apk totalBytes (refuse dir last a status).1 ((refuse dir last a status).2 = .returned none) := by
  unfold refuse
  cases a.errorBody with
  | error e => exact ⟨h, fun hr => by cases hr⟩
  | ok _ => cases last <;> exact ⟨h, fun hr => by cases hr⟩

/-- An attempt starts complete, or with the length of what there is. -/
theorem resumeAt_none (h : resumeAt dir file totalBytes = none) : dir.length file = totalBytes := by
  unfold resumeAt at h
  unfold CacheDir.length
  split at h
  · cases h
  · rename_i content hc
    split_ifs at h with _ hlen
    rw [hc]
    exact hlen

/-- A resumed download starts behind the bytes that are there. -/
theorem resumeAt_some {d : CacheDir} {offset : Nat} (hd : Holds dir file apk)
    (h : resumeAt dir file totalBytes = some (d, offset)) :
    Holds d file apk ∧ (0 < offset → ∃ content, d file = some content ∧ content.length = offset) := by
  unfold resumeAt at h
  split at h
  · cases h
    exact ⟨hd, fun hpos => absurd hpos (by decide)⟩
  · rename_i content hc
    split_ifs at h
    · cases h
      exact ⟨hd, fun _ => ⟨content, hc, rfl⟩⟩
    · cases h
      exact ⟨hd.delete, fun hpos => absurd hpos (by decide)⟩
    · cases h
      exact ⟨hd, fun hpos => absurd hpos (by decide)⟩

/-- Behind a prefix of the right length the served rest fits on. -/
theorem resumed_prefix {content body : Bytes} (hpart : content <+: apk) (hbody : body <+: apk.drop content.length) :
    content ++ body <+: apk := by
  obtain ⟨rest, rfl⟩ := hpart
  rw [List.drop_left] at hbody
  exact (List.prefix_append_right_inj content).mpr hbody

/-- An answer leaves a part of the APK in the file. -/
theorem fetch_left (totalBytes : Nat) {a : Answer} {offset : Nat} (last : Bool) (h : Holds dir file apk) (honest : a.Honest apk offset)
    (hoffset : 0 < offset → ∃ content, dir file = some content ∧ content.length = offset) :
    Left file apk totalBytes (fetch dir file totalBytes last offset a).1
      ((fetch dir file totalBytes last offset a).2 = .returned none) := by
  unfold fetch
  cases hstatus : a.status with
  | error e => exact ⟨h, fun hr => by cases hr⟩
  | ok status =>
    have whole : status = httpOk → ([] : Bytes) ++ a.body <+: apk := by
      rintro rfl
      exact honest.1 hstatus
    simp only
    split_ifs with hresumed hpos hnot hnot
    · obtain ⟨hpos, rfl⟩ := hresumed
      obtain ⟨content, hc, rfl⟩ := hoffset hpos
      apply stream_left h
      rw [if_pos rfl, hc]
      exact resumed_prefix (h.part content hc) (honest.2 hstatus)
    · exact refuse_left status h.delete
    · exact stream_left h.delete (whole (by simpa using hnot))
    · exact refuse_left status h
    · exact stream_left h (whole (by simpa using hnot))

/-- An attempt leaves a part of the APK in the file. -/
theorem attempt_left (totalBytes : Nat) {serve : Nat → Answer} (last : Bool) (h : Holds dir file apk)
    (honest : ∀ offset, (serve offset).Honest apk offset) :
    Left file apk totalBytes (attempt dir file totalBytes last serve).1
      ((attempt dir file totalBytes last serve).2 = .returned none) := by
  unfold attempt
  cases hresume : resumeAt dir file totalBytes with
  | none => exact ⟨h, fun _ _ => resumeAt_none hresume⟩
  | some r =>
    obtain ⟨d, offset⟩ := r
    obtain ⟨hd, hoffset⟩ := resumeAt_some h hresume
    have hfetch := fetch_left totalBytes last hd (honest offset) hoffset
    simp only
    generalize fetch d file totalBytes last offset (serve offset) = r at hfetch ⊢
    obtain ⟨d', outcome⟩ := r
    cases outcome with
    | threw e =>
      simp only
      split
      · exact ⟨hfetch.holds.delete, fun hr => by cases hr⟩
      · exact ⟨hfetch.holds, fun hr => by cases hr⟩
    | returned result => exact hfetch
    | retry => exact hfetch

/-- All attempts together leave a part of the APK in the file. -/
theorem attempts_left {serve : Nat → Nat → Answer} (honest : ∀ i offset, (serve i offset).Honest apk offset) (n : Nat)
    (h : Holds dir file apk) (lastException : Thrown) :
    Left file apk totalBytes (attempts file totalBytes serve n dir lastException).1
      ((attempts file totalBytes serve n dir lastException).2 = none) := by
  induction n generalizing dir lastException with
  | zero => exact ⟨h, fun hr => by cases hr⟩
  | succ n ih =>
    have hattempt := attempt_left totalBytes (decide (n = 0)) h (honest (maxRetries - (n + 1)))
    simp only [attempts]
    generalize attempt dir file totalBytes (decide (n = 0)) (serve (maxRetries - (n + 1))) = r at hattempt ⊢
    obtain ⟨d, outcome⟩ := r
    cases outcome with
    | returned result =>
      refine ⟨hattempt.holds, fun hr hpos => hattempt.complete ?_ hpos⟩
      exact congrArg Outcome.returned hr
    | retry => exact ih hattempt.holds lastException
    | threw e => exact ih hattempt.holds e

end Attempts

/-! ## One call -/

section Calls

variable (isLetterOrDigit : Char → Bool) (apk : Str → Bytes)

/-- After the wipe only the file of the call may be left. -/
theorem wipeOthers_gone {dir : CacheDir} {file name : Str} (hname : isUpdate name) (hne : name ≠ file) :
    wipeOthers dir file name = none := by
  unfold wipeOthers
  split_ifs with hversioned hlegacy
  · rfl
  · rfl
  · rcases hname with hname | rfl
    · exact (hversioned ⟨hname, hne⟩).elim
    · exact (hlegacy ⟨rfl, hne.symm⟩).elim

theorem wipeOthers_kept {dir : CacheDir} {file : Str} : wipeOthers dir file file = dir file := by
  simp [wipeOthers]

/-- The cache holds one update file at most, a prefix of the APK of the tag requested last. -/
def Clean (s : Cache) : Prop :=
  ∀ name content, isUpdate name → s.dir name = some content →
    ∃ tag, s.tag = some tag ∧ name = cacheFile isLetterOrDigit tag ∧ content <+: apk tag

/-- A null result stands for the whole APK, when its size was the one asked for. -/
def Whole (s : Cache) : Prop :=
  s.returned = some none → ∃ tag, s.tag = some tag ∧
    (0 < s.totalBytes → s.totalBytes = (apk tag).length → s.dir (cacheFile isLetterOrDigit tag) = some (apk tag))

/-- The runs from a clean cache. -/
def system : System Cache Call where
  init s := Clean isLetterOrDigit apk s ∧ s.returned = none
  step := Cache.step isLetterOrDigit

/-- An honest server, and a tag whose file is not that of another tag before. -/
structure Fits (s : Cache) (c : Call) : Prop where
  honest : ∀ i offset, (c.serve i offset).Honest (apk c.tag) offset
  apart : c.https = true → ∀ tag, s.tag = some tag →
    cacheFile isLetterOrDigit c.tag = cacheFile isLetterOrDigit tag → c.tag = tag

variable {isLetterOrDigit apk}

/-- A prefix of full length is the whole. -/
theorem whole_of_length {dir : CacheDir} {file : Str} {content : Bytes} (h : Holds dir file content)
    (hpos : 0 < content.length) (hlen : dir.length file = content.length) : dir file = some content := by
  unfold CacheDir.length at hlen
  cases hfile : dir file with
  | none =>
    rw [hfile] at hlen
    exact absurd hlen hpos.ne
  | some old =>
    rw [hfile] at hlen
    rw [(h.part old hfile).eq_of_length hlen]

/-- A call over HTTPS starts from its own partial file, or from none. -/
theorem wiped_holds {s : Cache} {c : Call} (hclean : Clean isLetterOrDigit apk s)
    (hapart : ∀ tag, s.tag = some tag → cacheFile isLetterOrDigit c.tag = cacheFile isLetterOrDigit tag → c.tag = tag)
    (hname : isUpdate (cacheFile isLetterOrDigit c.tag)) :
    Holds (wipeOthers s.dir (cacheFile isLetterOrDigit c.tag)) (cacheFile isLetterOrDigit c.tag) (apk c.tag) := by
  refine ⟨fun name hupdate hne => wipeOthers_gone hupdate hne, fun content hc => ?_⟩
  rw [wipeOthers_kept] at hc
  obtain ⟨tag, htag, hsame, hprefix⟩ := hclean _ _ hname hc
  rwa [hapart tag htag hsame]

/-- The file of a tag is an update file. -/
theorem cacheFile_update (tag : Str) : isUpdate (cacheFile isLetterOrDigit tag) := by
  unfold cacheFile
  split
  · refine .inl ?_
    rw [isVersioned, startsWith_append, Bool.true_and, endsWith, List.isSuffixOf_iff_suffix]
    exact ⟨"update-".toList ++ safeTag isLetterOrDigit tag, by simp⟩
  · exact .inr rfl

/-- A call leaves the cache clean, and returns null only for the whole APK. -/
theorem step_clean {s s' : Cache} {c : Call} (hclean : Clean isLetterOrDigit apk s)
    (hfits : Fits isLetterOrDigit apk s c) (hstep : Cache.step isLetterOrDigit s c = some s') :
    Clean isLetterOrDigit apk s' ∧ Whole isLetterOrDigit apk s' := by
  simp only [Cache.step, Option.some.injEq] at hstep
  rw [← hstep]
  cases hhttps : c.https with
  | false =>
    have hrefused : downloadToCache isLetterOrDigit s.dir c = (s.dir, some "Update URL must use HTTPS".toList) := by
      simp [downloadToCache, hhttps]
    rw [hrefused]
    exact ⟨hclean, fun hnull => by cases hnull⟩
  | true =>
    have hstart := wiped_holds hclean (hfits.apart hhttps) (cacheFile_update c.tag)
    have hleft : Left (cacheFile isLetterOrDigit c.tag) (apk c.tag) c.totalBytes _ _ :=
      attempts_left hfits.honest maxRetries hstart none
    have hcall : downloadToCache isLetterOrDigit s.dir c = attempts (cacheFile isLetterOrDigit c.tag) c.totalBytes
        c.serve maxRetries (wipeOthers s.dir (cacheFile isLetterOrDigit c.tag)) none := by
      simp [downloadToCache, hhttps]
    rw [hcall]
    simp only [if_true]
    constructor
    · intro name content hupdate hc
      by_cases hname : name = cacheFile isLetterOrDigit c.tag
      · rw [hname] at hc
        exact ⟨c.tag, rfl, hname, hleft.holds.part content hc⟩
      · exact absurd ((hleft.holds.others name hupdate hname).symm.trans hc) (by simp)
    · intro hnull
      refine ⟨c.tag, rfl, fun hpos hsize => ?_⟩
      have hlen := hleft.complete (Option.some.inj hnull) hpos
      exact whole_of_length hleft.holds (hsize ▸ hpos) (hlen.trans hsize)

/-- **Download integrity.** In every run whose calls fit, the cache stays clean, and a
null result stands for the whole APK of the tag. -/
theorem runs_clean {s : Cache} (h : Reaches (system isLetterOrDigit apk) (Fits isLetterOrDigit apk) s) :
    Clean isLetterOrDigit apk s ∧ Whole isLetterOrDigit apk s := by
  refine h.invariant ?_ fun s c s' hs hfits hstep => step_clean hs.1 hfits hstep
  rintro s ⟨hclean, hreturned⟩
  refine ⟨hclean, fun hnull => ?_⟩
  rw [hreturned] at hnull
  cases hnull

end Calls

/-! ## Two tags of one file -/

/-- A served body without an exception or a flag. -/
def served (status : Nat) (data : Bytes) : Answer :=
  ⟨.ok status, .ok (), .ok (), [⟨data, false, false⟩], .ok (), false⟩

/-- A download of two bytes that is paused behind the first one. -/
def pausedCall : Call where
  url := "https://host/a.apk".toList
  tag := "v_1".toList
  totalBytes := 2
  serve _ _ := { served httpOk [1] with chunks := [⟨[1], false, false⟩, ⟨[2], false, true⟩] }

/-- A download of two other bytes, whose server honors a range. -/
def resumedCall : Call where
  url := "https://host/b.apk".toList
  tag := "v1".toList
  totalBytes := 2
  serve _ offset := if offset = 1 then served httpPartial [4] else served httpOk [3, 4]

/-- A call that is refused for its URL. -/
def plainCall : Call := { resumedCall with url := "http://host/c.apk".toList, tag := "v2".toList }

/-- The cache after a paused download of a release. -/
def pausedCache : Cache where
  dir := Function.update (fun _ => none) "update-v1.apk".toList (some [3])
  tag := some "v1".toList
  totalBytes := 2
  returned := none

theorem honest_ok {a : Answer} {apk : Bytes} {offset : Nat} (hstatus : a.status = .ok httpOk) (h : a.body <+: apk) :
    a.Honest apk offset := by
  refine ⟨fun _ => h, fun hpartial => ?_⟩
  have hsame : httpOk = httpPartial := Except.ok.inj (hstatus.symm.trans hpartial)
  exact absurd hsame (by decide)

theorem honest_partial {a : Answer} {apk : Bytes} {offset : Nat} (hstatus : a.status = .ok httpPartial)
    (h : a.body <+: apk.drop offset) : a.Honest apk offset := by
  refine ⟨fun hok => ?_, fun _ => h⟩
  have hsame : httpPartial = httpOk := Except.ok.inj (hstatus.symm.trans hok)
  exact absurd hsame (by decide)

theorem pausedCall_honest (i offset : Nat) : (pausedCall.serve i offset).Honest [1, 2] offset :=
  honest_ok rfl List.prefix_rfl

theorem resumedCall_honest (i offset : Nat) : (resumedCall.serve i offset).Honest [3, 4] offset := by
  have hserve : resumedCall.serve i offset =
      if offset = 1 then served httpPartial [4] else served httpOk [3, 4] := rfl
  rw [hserve]
  by_cases hone : offset = 1
  · have hrest : (served httpPartial [4]).body <+: ([3, 4] : Bytes).drop offset := by
      rw [hone]
      decide
    rw [if_pos hone]
    exact honest_partial rfl hrest
  · rw [if_neg hone]
    exact honest_ok rfl List.prefix_rfl

/-- The partial file of `v_1` is finished with bytes of `v1`; and a call without HTTPS
leaves the file of the tag before. -/
theorem tags_stitched :
    (∀ i offset, (pausedCall.serve i offset).Honest [1, 2] offset) ∧
      (∀ i offset, (resumedCall.serve i offset).Honest [3, 4] offset) ∧
      (downloadToCache Char.isAlphanum
          (downloadToCache Char.isAlphanum (fun _ => none) pausedCall).1 resumedCall).2 = none ∧
      (downloadToCache Char.isAlphanum
          (downloadToCache Char.isAlphanum (fun _ => none) pausedCall).1 resumedCall).1
        (cacheFile Char.isAlphanum resumedCall.tag) = some [1, 4] ∧
      (downloadToCache Char.isAlphanum pausedCache.dir plainCall).1 "update-v1.apk".toList = some [3] :=
  ⟨pausedCall_honest, resumedCall_honest, by decide +kernel, by decide +kernel, by decide +kernel⟩

/-- The cache after the paused download was taken up again. -/
def resumedCache : Cache where
  dir := (downloadToCache Char.isAlphanum pausedCache.dir resumedCall).1
  tag := some resumedCall.tag
  totalBytes := resumedCall.totalBytes
  returned := some (downloadToCache Char.isAlphanum pausedCache.dir resumedCall).2

theorem resumedCache_reached :
    Reaches (system Char.isAlphanum fun _ => [3, 4]) (Fits Char.isAlphanum fun _ => [3, 4]) resumedCache := by
  have hstart : (system Char.isAlphanum fun _ => [3, 4]).init pausedCache := by
    refine ⟨fun name content _ hc => ⟨"v1".toList, rfl, ?_⟩, rfl⟩
    have hfile : Function.update (fun _ => none) "update-v1.apk".toList (some [3]) name = some content := hc
    by_cases hname : name = "update-v1.apk".toList
    · rw [hname, Function.update_self] at hfile
      cases hfile
      exact ⟨hname.trans (by decide +kernel), ⟨[4], rfl⟩⟩
    · rw [Function.update_of_ne hname] at hfile
      cases hfile
  have hhttps : resumedCall.https = true := by decide +kernel
  refine .next (.start hstart) ⟨resumedCall_honest, fun _ tag htag _ => Option.some.inj htag⟩ ?_
  show Cache.step _ _ _ = _
  rw [Cache.step, hhttps]
  rfl

theorem runs_clean_resumed : resumedCache.returned = some none ∧
    Clean Char.isAlphanum (fun _ => [3, 4]) resumedCache ∧ Whole Char.isAlphanum (fun _ => [3, 4]) resumedCache :=
  ⟨by decide +kernel, runs_clean resumedCache_reached⟩

end KiloProxy.Util.UpdateChecker
