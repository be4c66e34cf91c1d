import KiloProxy.Text.Kotlin

/-!
# A YAML mapping of sections, line by line

`scan` is the single-quoted scalar rule over any alphabet: past the opening quote a doubled
quote is one quote and a single quote ends the scalar. It reads exactly what `escape` wrote
(`scan_some_iff`). A document has sections of `key: value` lines, and a line ends at a break of
the YAML version that reads it. What is written this way reads back as it was (`readYaml_text`).
-/

namespace KiloProxy.Text.Yaml
set_option autoImplicit false
open KiloProxy.Text

/-! ## Single-quoted scalars -/

section SingleQuoted

variable {α : Type} [DecidableEq α] (q : α)

/-- Each quote doubled. -/
def escape (s : List α) : List α := s.flatMap fun c => if c = q then [q, q] else [c]

/-- The scalar behind an opening quote, and what follows its closing quote. -/
def scan : List α → Option (List α × List α)
  | [] => none
  | [c] => if c = q then some ([], []) else none
  | c :: d :: s =>
    if c = q then
      if d = q then (scan s).map fun r => (q :: r.1, r.2) else some ([], d :: s)
    else (scan (d :: s)).map fun r => (c :: r.1, r.2)

variable {q}

theorem escape_nil : escape q ([] : List α) = [] := rfl

theorem escape_append (s t : List α) : escape q (s ++ t) = escape q s ++ escape q t := List.flatMap_append

theorem escape_cons_quote (s : List α) : escape q (q :: s) = q :: q :: escape q s := by simp [escape]

theorem escape_cons_ne {c : α} (h : c ≠ q) (s : List α) : escape q (c :: s) = c :: escape q s := by
  simp [escape, h]

/-- Escaping adds no character and drops none. -/
theorem mem_escape {c : α} {s : List α} : c ∈ escape q s ↔ c ∈ s := by
  induction s with
  | nil => rfl
  | cons d s ih =>
    by_cases h : d = q
    · subst h
      rw [escape_cons_quote, List.mem_cons, List.mem_cons, List.mem_cons, ih, or_self_left]
    · rw [escape_cons_ne h, List.mem_cons, List.mem_cons, ih]

theorem escape_eq_self {s : List α} (h : q ∉ s) : escape q s = s := by
  induction s with
  | nil => rfl
  | cons c s ih =>
    rw [List.mem_cons, not_or] at h
    rw [escape_cons_ne (Ne.symm h.1), ih h.2]

/-- A doubled quote is read as one. -/
theorem scan_two_quotes (s : List α) : scan q (q :: q :: s) = (scan q s).map fun r => (q :: r.1, r.2) := by
  rw [scan, if_pos rfl, if_pos rfl]

/-- A single one ends the scalar. -/
theorem scan_quote {s : List α} (h : s.head? ≠ some q) : scan q (q :: s) = some ([], s) := by
  cases s with
  | nil => rw [scan, if_pos rfl]
  | cons d s =>
    have hd : d ≠ q := fun he => h (by rw [he]; rfl)
    rw [scan, if_pos rfl, if_neg hd]

theorem scan_ne {c : α} (h : c ≠ q) (s : List α) :
    scan q (c :: s) = (scan q s).map fun r => (c :: r.1, r.2) := by
  cases s with
  | nil => simp [scan, h]
  | cons d s => rw [scan, if_neg h]

/-- The scanner finds the closing quote behind an escaped text. -/
theorem scan_escape (s : List α) {rest : List α} (h : rest.head? ≠ some q) :
    scan q (escape q s ++ q :: rest) = some (s, rest) := by
  induction s with
  | nil => exact scan_quote h
  | cons c s ih =>
    by_cases hc : c = q
    · subst hc
      rw [escape_cons_quote, List.cons_append, List.cons_append, scan_two_quotes, ih]
      rfl
    · rw [escape_cons_ne hc, List.cons_append, scan_ne hc, ih]
      rfl

/-- What the scanner reads was escaped, and its closing quote is not doubled. -/
theorem scan_some_iff {t s rest : List α} :
    scan q t = some (s, rest) ↔ t = escape q s ++ q :: rest ∧ rest.head? ≠ some q := by
  constructor
  · intro h
    induction t using scan.induct q generalizing s rest with
    | case1 => cases h
    | case2 =>
      rw [scan_quote (by simp)] at h
      obtain ⟨rfl, rfl⟩ := Prod.mk.inj (Option.some.inj h)
      exact ⟨rfl, by simp⟩
    | case3 c hc =>
      rw [scan_ne hc] at h
      cases h
    | case4 t ih =>
      rw [scan_two_quotes] at h
      obtain ⟨⟨x, y⟩, hscan, he⟩ := Option.map_eq_some_iff.mp h
      obtain ⟨rfl, rfl⟩ := Prod.mk.inj he
      obtain ⟨rfl, hrest⟩ := ih hscan
      rw [escape_cons_quote]
      exact ⟨rfl, hrest⟩
    | case5 d t hd =>
      have hhead : (d :: t).head? ≠ some q := fun he => hd (Option.some.inj he)
      rw [scan_quote hhead] at h
      obtain ⟨rfl, rfl⟩ := Prod.mk.inj (Option.some.inj h)
      exact ⟨rfl, hhead⟩
    | case6 c d t hc ih =>
      rw [scan_ne hc] at h
      obtain ⟨⟨x, y⟩, hscan, he⟩ := Option.map_eq_some_iff.mp h
      obtain ⟨rfl, rfl⟩ := Prod.mk.inj he
      obtain ⟨ht, hrest⟩ := ih hscan
      rw [escape_cons_ne hc, ht]
      exact ⟨rfl, hrest⟩
  · rintro ⟨rfl, hrest⟩
    exact scan_escape s hrest

end SingleQuoted

/-! ## The reader -/

/-- YAML 1.1, which libyaml reads, has five line breaks; YAML 1.2 has two. -/
inductive Version where
  | v11
  | v12
deriving DecidableEq, Repr

/-- A character that ends a line. -/
def Version.isBreak : Version → Char → Bool
  | .v11, c => isLineTerminator c
  | .v12, c => c == '\n' || c == '\r'

/-- The characters a YAML text may hold. -/
def isPrintable (c : Char) : Bool :=
  let n := c.toNat
  n == 9 || n == 0xA || n == 0xD || (0x20 ≤ n && n ≤ 0x7E) || n == 0x85 || (0xA0 ≤ n && n ≤ 0xD7FF) ||
    (0xE000 ≤ n && n ≤ 0xFFFD) || 0x10000 ≤ n

def isKeyChar (c : Char) : Bool := c.isAlphanum || c == '-'

/-- The characters of a scalar without quotes. -/
def isPlainChar (c : Char) : Bool := c.isAlphanum || c == '-' || c == '.'

inductive Line where
  | section (key : Str)
  | entry (key value : Str)
deriving DecidableEq, Repr

/-- A single-quoted scalar with nothing behind it, or a plain one. -/
def readScalar : Str → Option Str
  | '\'' :: s => (scan '\'' s).bind fun r => if r.2 = [] then some r.1 else none
  | s => if s ≠ [] ∧ s.all isPlainChar then some s else none

/-- The key in front of a colon, and what follows the colon. -/
def readKey (s : Str) : Option (Str × Str) :=
  match s.takeWhile isKeyChar, s.dropWhile isKeyChar with
  | c :: key, ':' :: rest => some (c :: key, rest)
  | _, _ => none

/-- `key: value` under a section stands two blanks to the right. -/
def readLine : Str → Option Line
  | ' ' :: ' ' :: s =>
    (readKey s).bind fun r =>
      match r.2 with
      | ' ' :: value => (readScalar value).map (Line.entry r.1)
      | _ => none
  | s => (readKey s).bind fun r => if r.2 = [] then some (.section r.1) else none

/-- The sections with their entries, behind the entries of a section that began earlier. -/
def tree : List Line → List (Str × Str) × List (Str × List (Str × Str))
  | [] => ([], [])
  | .entry key value :: ls => ((key, value) :: (tree ls).1, (tree ls).2)
  | .section key :: ls => ([], (key, (tree ls).1) :: (tree ls).2)

/-- Read a document line by line; blank lines do not count. -/
def readYaml (v : Version) (text : Str) : Option (List (Str × List (Str × Str))) :=
  if text.all isPrintable then
    (((text.splitOnP v.isBreak).filter fun l => l != []).mapM readLine).bind fun ls =>
      if (tree ls).1 = [] then some (tree ls).2 else none
  else none

/-! ## Writing -/

/-- How a value is written. -/
inductive Scalar where
  | plain (s : Str)
  | quoted (s : Str)

def Scalar.value : Scalar → Str
  | .plain s => s
  | .quoted s => s

def Scalar.text : Scalar → Str
  | .plain s => s
  | .quoted s => '\'' :: (escape '\'' s ++ ['\''])

/-- Text that stands on one line. -/
def OnOneLine (v : Version) (s : Str) : Prop := ∀ c ∈ s, isPrintable c = true ∧ v.isBreak c = false

instance (v : Version) (s : Str) : Decidable (OnOneLine v s) :=
  List.decidableBAll (fun c => isPrintable c = true ∧ v.isBreak c = false) s

/-- A plain scalar has plain characters only; a quoted one is any text on one line. -/
def Scalar.Ok (v : Version) : Scalar → Prop
  | .plain s => s ≠ [] ∧ s.all isPlainChar
  | .quoted s => OnOneLine v s

instance (v : Version) (s : Scalar) : Decidable (s.Ok v) :=
  match s with
  | .plain s => inferInstanceAs (Decidable (s ≠ [] ∧ s.all isPlainChar))
  | .quoted s => inferInstanceAs (Decidable (OnOneLine v s))

/-- A key that is read back. -/
def KeyOk (key : Str) : Prop := key ≠ [] ∧ key.all isKeyChar

instance (key : Str) : Decidable (KeyOk key) := inferInstanceAs (Decidable (key ≠ [] ∧ key.all isKeyChar))

abbrev Section := Str × List (Str × Scalar)

def entryText (e : Str × Scalar) : Str := ' ' :: ' ' :: (e.1 ++ ':' :: ' ' :: e.2.text)

/-- The lines of a section. -/
def sectionLines (s : Section) : List Str := (s.1 ++ [':']) :: s.2.map entryText

def text (ss : List Section) : Str := (ss.flatMap sectionLines).flatMap (· ++ ['\n'])

/-- An entry whose key and value can be read back. -/
def EntryOk (v : Version) (e : Str × Scalar) : Prop := KeyOk e.1 ∧ e.2.Ok v

instance (v : Version) (e : Str × Scalar) : Decidable (EntryOk v e) :=
  inferInstanceAs (Decidable (KeyOk e.1 ∧ e.2.Ok v))

def SectionOk (v : Version) (s : Section) : Prop := KeyOk s.1 ∧ ∀ e ∈ s.2, EntryOk v e

theorem EntryOk.mk {v : Version} {key : Str} {s : Scalar} (hkey : KeyOk key) (hs : s.Ok v) : EntryOk v (key, s) :=
  ⟨hkey, hs⟩

theorem SectionOk.mk {v : Version} {key : Str} {es : List (Str × Scalar)} (hkey : KeyOk key)
    (hes : ∀ e ∈ es, EntryOk v e) : SectionOk v (key, es) := ⟨hkey, hes⟩

/-- What a section says. -/
def sectionValue (s : Section) : Str × List (Str × Str) := (s.1, s.2.map fun e => (e.1, e.2.value))

/-- The lines of a section as they are read. -/
def sectionRead (s : Section) : List Line := .section s.1 :: s.2.map fun e => .entry e.1 e.2.value

/-! ## Reading back -/

/-- A scalar is read back, in quotes or plain. -/
theorem readScalar_text {v : Version} {s : Scalar} (h : s.Ok v) : readScalar s.text = some s.value := by
  cases s with
  | plain s =>
    obtain ⟨hne, hall⟩ := h
    cases s with
    | nil => exact absurd rfl hne
    | cons c s =>
      have hc : c ≠ '\'' := by
        rintro rfl
        simp [isPlainChar] at hall
      unfold readScalar
      split
      · rename_i he
        exact absurd (List.cons.inj he).1 hc
      · rw [Scalar.text, if_pos ⟨hne, hall⟩]
        rfl
  | quoted s =>
    have hscan : scan '\'' (escape '\'' s ++ ['\'']) = some (s, []) := scan_some_iff.mpr ⟨rfl, by simp⟩
    rw [Scalar.text, readScalar, hscan]
    rfl

/-- A key is read up to its colon. -/
theorem readKey_append {key : Str} (h : KeyOk key) (rest : Str) : readKey (key ++ ':' :: rest) = some (key, rest) := by
  obtain ⟨hne, hall⟩ := h
  have hkey : ∀ c ∈ key, isKeyChar c = true := List.all_eq_true.mp hall
  have hcolon : ¬isKeyChar ':' = true := by decide
  unfold readKey
  rw [List.takeWhile_append_of_pos hkey, List.dropWhile_append_of_pos hkey, List.takeWhile_cons_of_neg hcolon,
    List.dropWhile_cons_of_neg hcolon, List.append_nil]
  cases key with
  | nil => exact absurd rfl hne
  | cons c key => rfl

/-- A line of an entry is read as the entry. -/
theorem readLine_entry {v : Version} {e : Str × Scalar} (hkey : KeyOk e.1) (hvalue : e.2.Ok v) :
    readLine (entryText e) = some (.entry e.1 e.2.value) := by
  rw [entryText, readLine, readKey_append hkey, Option.bind_some]
  simp only [readScalar_text hvalue, Option.map_some]

/-- A line of a key alone opens a section. -/
theorem readLine_section {key : Str} (h : KeyOk key) : readLine (key ++ [':']) = some (.section key) := by
  have hblank : ∀ s, key ++ [':'] ≠ ' ' :: ' ' :: s := by
    intro s he
    cases key with
    | nil => exact h.1 rfl
    | cons c key =>
      have hc : isKeyChar c = true := List.all_eq_true.mp h.2 c List.mem_cons_self
      rw [(List.cons.inj he).1] at hc
      exact absurd hc (by decide)
  unfold readLine
  split
  · rename_i he
    exact absurd he (hblank _)
  · rw [readKey_append h, Option.bind_some, if_pos rfl]

theorem mapM_entries {v : Version} {es : List (Str × Scalar)} (h : ∀ e ∈ es, EntryOk v e) :
    (es.map entryText).mapM readLine = some (es.map fun e => .entry e.1 e.2.value) := by
  induction es with
  | nil => rfl
  | cons e es ih =>
    obtain ⟨he, hes⟩ := List.forall_mem_cons.mp h
    rw [List.map_cons, List.mapM_cons, readLine_entry he.1 he.2, ih hes]
    rfl

theorem mapM_sections {v : Version} {ss : List Section} (h : ∀ s ∈ ss, SectionOk v s) :
    (ss.flatMap sectionLines).mapM readLine = some (ss.flatMap sectionRead) := by
  induction ss with
  | nil => rfl
  | cons s ss ih =>
    obtain ⟨hs, hss⟩ := List.forall_mem_cons.mp h
    rw [List.flatMap_cons, List.mapM_append, sectionLines, List.mapM_cons, readLine_section hs.1, mapM_entries hs.2,
      ih hss]
    rfl

/-- Entries belong to the section above them. -/
theorem tree_entries (es : List (Str × Scalar)) (ls : List Line) :
    tree (es.map (fun e => .entry e.1 e.2.value) ++ ls) =
      (es.map (fun e => (e.1, e.2.value)) ++ (tree ls).1, (tree ls).2) := by
  induction es with
  | nil => rfl
  | cons e es ih =>
    rw [List.map_cons, List.cons_append, tree, ih]
    rfl

/-- Sections are read one after another. -/
theorem tree_sections (ss : List Section) : tree (ss.flatMap sectionRead) = ([], ss.map sectionValue) := by
  induction ss with
  | nil => rfl
  | cons s ss ih =>
    rw [List.flatMap_cons, sectionRead, List.cons_append, tree, tree_entries, ih, List.append_nil]
    rfl

/-! ## One line each -/

theorem OnOneLine.append {v : Version} {s t : Str} (hs : OnOneLine v s) (ht : OnOneLine v t) : OnOneLine v (s ++ t) :=
  fun c hc => (List.mem_append.mp hc).elim (hs c) (ht c)

/-- A character from the blank to the tilde stands on a line. -/
theorem ascii_onOneLine {v : Version} {c : Char} (h : 0x20 ≤ c.toNat ∧ c.toNat ≤ 0x7E) :
    isPrintable c = true ∧ v.isBreak c = false := by
  have hcode : ∀ d : Char, d.toNat < 0x20 → c ≠ d := by
    rintro d hd rfl
    omega
  have hn : (c == '\n') = false := beq_false_of_ne (hcode '\n' (by decide))
  have hr : (c == '\r') = false := beq_false_of_ne (hcode '\r' (by decide))
  have hrange : (decide (0x20 ≤ c.toNat) && decide (c.toNat ≤ 0x7E)) = true := by simp [h]
  constructor
  · simp [isPrintable, hrange]
  · cases v with
    | v11 =>
      have hrest : c.toNat ≠ 0x85 ∧ c.toNat ≠ 0x2028 ∧ c.toNat ≠ 0x2029 := by omega
      simp [Version.isBreak, isLineTerminator, hn, hr, hrest]
    | v12 => simp [Version.isBreak, hn, hr]

theorem alphanum_ascii {c : Char} (h : c.isAlphanum = true) : 0x20 ≤ c.toNat ∧ c.toNat ≤ 0x7E := by
  have hrange : (c.val ≥ 'A'.val ∧ c.val ≤ 'Z'.val) ∨ (c.val ≥ 'a'.val ∧ c.val ≤ 'z'.val) ∨
      (c.val ≥ '0'.val ∧ c.val ≤ '9'.val) := by
    obtain halpha | hdigit := (Bool.or_eq_true _ _).mp h
    · obtain hupper | hlower := (Bool.or_eq_true _ _).mp halpha
      · exact .inl (of_decide_eq_true hupper)
      · exact .inr (.inl (by simpa using (Bool.and_eq_true _ _).mp hlower))
    · exact .inr (.inr (by simpa using (Bool.and_eq_true _ _).mp hdigit))
  simp only [ge_iff_le, UInt32.le_iff_toNat_le] at hrange
  have hval : c.toNat = c.val.toNat := rfl
  simp at hrange
  omega

theorem keyChar_ascii {c : Char} (h : isKeyChar c = true) : 0x20 ≤ c.toNat ∧ c.toNat ≤ 0x7E := by
  simp only [isKeyChar, Bool.or_eq_true, beq_iff_eq] at h
  obtain h | rfl := h
  · exact alphanum_ascii h
  · decide

theorem plainChar_ascii {c : Char} (h : isPlainChar c = true) : 0x20 ≤ c.toNat ∧ c.toNat ≤ 0x7E := by
  simp only [isPlainChar, Bool.or_eq_true, beq_iff_eq] at h
  obtain (h | rfl) | rfl := h
  · exact alphanum_ascii h
  · decide
  · decide

theorem KeyOk.onOneLine {v : Version} {key : Str} (h : KeyOk key) : OnOneLine v key :=
  fun c hc => ascii_onOneLine (keyChar_ascii (List.all_eq_true.mp h.2 c hc))

/-- A scalar that may be written stays on its line. -/
theorem Scalar.Ok.onOneLine {v : Version} {s : Scalar} (h : s.Ok v) : OnOneLine v s.text := by
  cases s with
  | plain s => exact fun c hc => ascii_onOneLine (plainChar_ascii (List.all_eq_true.mp h.2 c hc))
  | quoted s =>
    have hq : OnOneLine v ['\''] := by cases v <;> decide +kernel
    have hs : OnOneLine v (escape '\'' s) := fun c hc => h c (mem_escape.mp hc)
    exact hq.append (hs.append hq)

/-- Every line of a section that may be written is one line, and none is empty. -/
theorem SectionOk.onOneLine {v : Version} {s : Section} (h : SectionOk v s) :
    ∀ l ∈ sectionLines s, OnOneLine v l ∧ l ≠ [] := by
  have hcolon : OnOneLine v [':'] := by cases v <;> decide +kernel
  have hblanks : OnOneLine v [' ', ' '] := by cases v <;> decide +kernel
  have hgap : OnOneLine v [':', ' '] := by cases v <;> decide +kernel
  intro l hl
  obtain rfl | hl := List.mem_cons.mp hl
  · exact ⟨h.1.onOneLine.append hcolon, by simp⟩
  · obtain ⟨e, he, rfl⟩ := List.mem_map.mp hl
    obtain ⟨hkey, hvalue⟩ := h.2 e he
    exact ⟨hblanks.append (hkey.onOneLine.append (hgap.append hvalue.onOneLine)), by simp [entryText]⟩

/-- Lines behind each other come apart again; the text ends with an empty line. -/
theorem splitOnP_lines {v : Version} {ls : List Str} (h : ∀ l ∈ ls, OnOneLine v l) :
    (ls.flatMap (· ++ ['\n'])).splitOnP v.isBreak = ls ++ [[]] := by
  have hbreak : v.isBreak '\n' = true := by cases v <;> decide +kernel
  induction ls with
  | nil => rfl
  | cons l ls ih =>
    obtain ⟨hl, hls⟩ := List.forall_mem_cons.mp h
    have hno : ∀ c ∈ l, v.isBreak c = false := fun c hc => (hl c hc).2
    rw [List.flatMap_cons, List.append_assoc, List.cons_append, List.nil_append,
      List.splitOnP_append_cons_of_forall_mem hno _ hbreak, ih hls]
    rfl

/-- **What is written reads back**, key by key and value by value. -/
theorem readYaml_text (v : Version) {ss : List Section} (h : ∀ s ∈ ss, SectionOk v s) :
    readYaml v (text ss) = some (ss.map sectionValue) := by
  have hlines : ∀ l ∈ ss.flatMap sectionLines, OnOneLine v l ∧ l ≠ [] := by
    intro l hl
    obtain ⟨s, hs, hl⟩ := List.mem_flatMap.mp hl
    exact (h s hs).onOneLine l hl
  have hprint : (text ss).all isPrintable = true := by
    rw [List.all_eq_true]
    intro c hc
    obtain ⟨l, hl, hc⟩ := List.mem_flatMap.mp hc
    obtain hc | hc := List.mem_append.mp hc
    · exact ((hlines l hl).1 c hc).1
    · rw [List.mem_singleton.mp hc]
      decide
  have hsplit : (text ss).splitOnP v.isBreak = ss.flatMap sectionLines ++ [[]] :=
    splitOnP_lines fun l hl => (hlines l hl).1
  have hfull : (ss.flatMap sectionLines).filter (fun l => l != []) = ss.flatMap sectionLines :=
    List.filter_eq_self.mpr fun l hl => bne_iff_ne.mpr (hlines l hl).2
  have hempty : ([[]] : List Str).filter (fun l => l != []) = [] := rfl
  unfold readYaml
  rw [if_pos hprint, hsplit, List.filter_append, hfull, hempty, List.append_nil, mapM_sections h, Option.bind_some,
    tree_sections, if_pos rfl]

end KiloProxy.Text.Yaml
