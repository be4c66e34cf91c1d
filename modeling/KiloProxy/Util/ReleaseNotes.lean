import KiloProxy.Text.Kotlin
import KiloProxy.Text.Lines

/-!
# `UpdateChecker.sanitizeNotes`

The text of a release as it is shown: every line loses what is not printable ASCII and the
blanks at its end, empty lines are cut to one, and the whole is trimmed. What comes out is
`Sanitized`, and a sanitized text is left as it is.
-/

namespace KiloProxy.Util.UpdateChecker
set_option autoImplicit false
open KiloProxy.Text

/-- `String.lines()`: a line ends at `\r\n`, `\n` or `\r`. -/
def lines : Str → List Str
  | [] => [[]]
  | '\r' :: '\n' :: s => [] :: lines s
  | c :: s => if c = '\r' ∨ c = '\n' then [] :: lines s else (lines s).modifyHead (c :: ·)

/-- What `[^\x20-\x7E\t]` does not match. -/
def isPlainText (c : Char) : Bool := (0x20 ≤ c.toNat && c.toNat ≤ 0x7E) || c == '\t'

/-- `trimEnd()` -/
def trimEnd (s : Str) : Str := s.rdropWhile isWhitespace

/-- `replace(Regex("\n{3,}"), "\n\n")` -/
def collapseBlankLines (s : Str) : Str := squeeze '\n' 2 0 s

def sanitizeNotes (raw : Str) : Str :=
  trim (collapseBlankLines (['\n'].intercalate ((lines raw).map fun line => trimEnd (line.filter isPlainText))))

/-- Text as it is shown. -/
structure Sanitized (s : Str) : Prop where
  plain : ∀ c ∈ s, isPlainText c = true ∨ c = '\n'
  lineEnds : ∀ line ∈ split '\n' s, ∀ c ∈ line.getLast?, isWhitespace c = false
  blankLines : ¬ ['\n', '\n', '\n'] <:+: s
  leading : ∀ c ∈ s.head?, isWhitespace c = false
  trailing : ∀ c ∈ s.getLast?, isWhitespace c = false

/-! ## Lines -/

theorem lines_ne_nil (s : Str) : lines s ≠ [] := by
  fun_induction lines s with
  | case1 => exact List.cons_ne_nil _ _
  | case2 s ih => exact List.cons_ne_nil _ _
  | case3 c s hcrlf hbreak ih => exact List.cons_ne_nil _ _
  | case4 c s hcrlf hbreak ih => simpa using ih

/-- Without a carriage return a line ends at a line feed. -/
theorem lines_eq_split {s : Str} (h : '\r' ∉ s) : lines s = split '\n' s := by
  fun_induction lines s with
  | case1 => rfl
  | case2 s ih => exact absurd List.mem_cons_self h
  | case3 c s hcrlf hbreak ih =>
    obtain ⟨hc, hs⟩ := not_or.mp (mt List.mem_cons.mpr h)
    obtain rfl := hbreak.resolve_left (Ne.symm hc)
    rw [ih hs, split, split, List.splitOn_cons_eq_if_modifyHead]
    rfl
  | case4 c s hcrlf hbreak ih =>
    obtain ⟨hc, hs⟩ := not_or.mp (mt List.mem_cons.mpr h)
    rw [ih hs, split, split, List.splitOn_cons_eq_if_modifyHead, if_neg]
    simpa using (not_or.mp hbreak).2

/-- A line as it is shown. -/
structure CleanLine (line : Str) : Prop where
  plain : ∀ c ∈ line, isPlainText c = true
  ending : ∀ c ∈ line.getLast?, isWhitespace c = false

namespace CleanLine

theorem notMem {line : Str} (h : CleanLine line) : '\n' ∉ line := fun hmem => by
  have hplain := h.plain _ hmem
  exact absurd hplain (by decide)

theorem made (line : Str) : CleanLine (trimEnd (line.filter isPlainText)) where
  plain := fun c hc => (List.mem_filter.mp ((List.rdropWhile_prefix _ _).subset hc)).2
  ending := by
    intro c hc
    obtain ⟨hne, rfl⟩ := List.mem_getLast?_eq_getLast hc
    exact Bool.eq_false_iff.mpr (List.rdropWhile_last_not _ _ hne)

theorem kept {line : Str} (h : CleanLine line) : trimEnd (line.filter isPlainText) = line := by
  rw [List.filter_eq_self.mpr h.plain, trimEnd, List.rdropWhile_eq_self_iff]
  intro hne
  rw [h.ending _ (List.getLast?_eq_getLast_of_ne_nil hne)]
  exact Bool.false_ne_true

end CleanLine

/-- Whitespace that a line can end in. -/
def isBlank (c : Char) : Bool := isWhitespace c && c != '\n'

theorem isBlank_break : isBlank '\n' = false := by decide

/-- In a line every whitespace is one that it can end in. -/
theorem isBlank_line {s line : Str} (h : line ∈ split '\n' s) {c : Char} (hc : c ∈ line.getLast?) :
    isBlank c = isWhitespace c := by
  have hne : c ≠ '\n' := fun he => not_mem_split h (he ▸ List.mem_of_mem_getLast? hc)
  rw [isBlank, bne_iff_ne.mpr hne, Bool.and_true]

/-- No blank stands at the end of a line. -/
theorem endsClean_iff {s : Str} : EndsClean '\n' isBlank false s ↔
    ∀ line ∈ split '\n' s, ∀ c ∈ line.getLast?, isWhitespace c = false := by
  rw [EndsClean.iff_pieces isBlank_break, and_iff_right fun _ => rfl]
  constructor
  · intro h line hline c hc
    rw [← isBlank_line hline hc]
    exact h line hline c hc
  · intro h line hline c hc
    rw [isBlank_line hline hc]
    exact h line hline c hc

/-! ## The whole text -/

/-- The lines of the release as they are shown. -/
def cleanLines (raw : Str) : List Str := (lines raw).map fun line => trimEnd (line.filter isPlainText)

theorem cleanLines_clean {raw line : Str} (h : line ∈ cleanLines raw) : CleanLine line := by
  obtain ⟨l, _, rfl⟩ := List.mem_map.mp h
  exact .made l

theorem split_joined (raw : Str) : split '\n' (['\n'].intercalate (cleanLines raw)) = cleanLines raw := by
  apply List.splitOn_intercalate '\n' fun line hline => (cleanLines_clean hline).notMem
  rw [cleanLines, ne_eq, List.map_eq_nil_iff]
  exact lines_ne_nil raw

/-- Before the last trim the lines are clean already. -/
theorem collapsed_clean (raw : Str) :
    EndsClean '\n' isBlank false (collapseBlankLines (['\n'].intercalate (cleanLines raw))) := by
  refine EndsClean.squeeze isBlank_break 2 (endsClean_iff.mpr ?_)
  rw [List.replicate_zero, List.nil_append, split_joined]
  exact fun line hline => (cleanLines_clean hline).ending

theorem collapsed_plain {raw : Str} {c : Char} (h : c ∈ collapseBlankLines (['\n'].intercalate (cleanLines raw))) :
    isPlainText c = true ∨ c = '\n' := by
  obtain hbreak | hmem := mem_squeeze h
  · exact .inr hbreak
  · obtain hbreak | ⟨line, hline, hc⟩ := mem_joined hmem
    · exact .inr hbreak
    · exact .inl ((cleanLines_clean hline).plain c hc)

/-- What comes out is sanitized. -/
theorem sanitizeNotes_sanitized (raw : Str) : Sanitized (sanitizeNotes raw) := by
  have hdef : sanitizeNotes raw = trim (collapseBlankLines (['\n'].intercalate (cleanLines raw))) := rfl
  have hclean := collapsed_clean raw
  have hplain := @collapsed_plain raw
  have hruns : RunsAtMost '\n' 2 0 (collapseBlankLines (['\n'].intercalate (cleanLines raw))) := RunsAtMost.squeeze
  rw [hdef]
  generalize collapseBlankLines (['\n'].intercalate (cleanLines raw)) = s at *
  obtain ⟨hlead, htrail⟩ := trimBy_eq_self.mp (trimBy_trimBy isWhitespace s)
  have hin : trim s <:+: s := trimBy_within isWhitespace s
  refine ⟨fun c hc => hplain (hin.subset hc), ?_, ?_, hlead, htrail⟩
  · obtain ⟨before, after, hcut⟩ := hin
    rw [← hcut, List.append_assoc] at hclean
    refine endsClean_iff.mp (hclean.right.left ?_)
    cases hlast : (trim s).getLast? with
    | none => rfl
    | some c =>
      show isBlank c = false
      rw [isBlank, htrail c hlast, Bool.false_and]
  · intro hrun
    exact RunsAtMost.iff_no_run.mp hruns (hrun.trans hin)

theorem Sanitized.cleanLine {s line : Str} (h : Sanitized s) (hline : line ∈ split '\n' s) : CleanLine line where
  plain := by
    intro c hc
    exact (h.plain c (mem_of_mem_piece hline hc)).resolve_right fun he => not_mem_split hline (he ▸ hc)
  ending := h.lineEnds line hline

/-- What is sanitized stays as it is. -/
theorem Sanitized.kept {s : Str} (h : Sanitized s) : sanitizeNotes s = s := by
  have hreturn : '\r' ∉ s := fun hmem => by
    obtain hplain | hbreak := h.plain _ hmem
    · exact absurd hplain (by decide)
    · exact absurd hbreak (by decide)
  have hlines : cleanLines s = split '\n' s := by
    rw [cleanLines, lines_eq_split hreturn, List.map_congr_left fun line hline => (h.cleanLine hline).kept, List.map_id']
  have hruns : RunsAtMost '\n' 2 0 s := RunsAtMost.iff_no_run.mpr h.blankLines
  calc sanitizeNotes s
    _ = trim (collapseBlankLines (['\n'].intercalate (cleanLines s))) := rfl
    _ = trim (collapseBlankLines s) := by rw [hlines, split, List.intercalate_splitOn]
    _ = trim s := by rw [collapseBlankLines, hruns.squeeze_eq, List.replicate_zero, List.nil_append]
    _ = s := trimBy_eq_self.mpr ⟨h.leading, h.trailing⟩

/-- **Sanitizing is a normal form.** -/
theorem notes_normal (raw : Str) : Sanitized (sanitizeNotes raw) ∧ sanitizeNotes (sanitizeNotes raw) = sanitizeNotes raw :=
  ⟨sanitizeNotes_sanitized raw, (sanitizeNotes_sanitized raw).kept⟩

end KiloProxy.Util.UpdateChecker
