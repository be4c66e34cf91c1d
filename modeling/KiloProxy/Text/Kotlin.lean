import Mathlib.Algebra.Order.Ring.Int
import Mathlib.Data.List.DropRight
import Mathlib.Data.List.Infix

/-!
# Kotlin strings as character lists

The string functions the app calls, over `Str := List Char`: splitting, trimming,
prefix tests, `toInt`, and the letter-case functions on the letters its comparisons
can see. `toInt` is `Integer.parseInt` and `toIntOrNull` in one: an optional sign,
at least one decimal digit of any script, and a 32-bit result.
-/

namespace KiloProxy.Text
set_option autoImplicit false

abbrev Str := List Char

instance : LawfulBEq Str := inferInstanceAs (LawfulBEq (List Char))

/-- `Long` arithmetic wraps around. -/
def long (n : Int) : Int := n.bmod (2 ^ 64)

/-- The values of a `Long`. -/
def InLong (n : Int) : Prop := -(2 ^ 63) ≤ n ∧ n < 2 ^ 63

instance (n : Int) : Decidable (InLong n) := by unfold InLong; infer_instance

theorem long_eq {n : Int} (h : InLong n) : long n = n := by
  unfold InLong at h
  unfold long
  apply Int.bmod_eq_of_le <;> omega

/-- The code points of the digit zero of each script in the basic plane. -/
def decimalZeros : List Nat :=
  [0x30, 0x660, 0x6F0, 0x7C0, 0x966, 0x9E6, 0xA66, 0xAE6, 0xB66, 0xBE6, 0xC66, 0xCE6, 0xD66,
   0xDE6, 0xE50, 0xED0, 0xF20, 0x1040, 0x1090, 0x17E0, 0x1810, 0x1946, 0x19D0, 0x1A80, 0x1A90,
   0x1B50, 0x1BB0, 0x1C40, 0x1C50, 0xA620, 0xA8D0, 0xA900, 0xA9D0, 0xA9F0, 0xAA50, 0xABF0, 0xFF10]

/-- `Character.digit(c, 10)`. -/
def digit (c : Char) : Option Nat :=
  decimalZeros.findSome? fun z => if z ≤ c.toNat ∧ c.toNat < z + 10 then some (c.toNat - z) else none

/-- `Char.isDigit()`. -/
def isDigit (c : Char) : Bool := (digit c).isSome

/-- The value of a run of digits read after `acc`. -/
def digits (acc : Nat) : Str → Option Nat
  | [] => some acc
  | c :: cs => (digit c).bind fun d => digits (acc * 10 + d) cs

/-- A nonempty run of digits. -/
def number (s : Str) : Option Nat := if s = [] then none else digits 0 s

/-- `String.toIntOrNull()`; `toInt()` throws exactly where this is `none`. -/
def toIntOrNull : Str → Option Int
  | '-' :: ds => (number ds).bind fun n => if n ≤ 2 ^ 31 then some (-(n : Int)) else none
  | '+' :: ds => (number ds).bind fun n => if n < 2 ^ 31 then some (n : Int) else none
  | ds => (number ds).bind fun n => if n < 2 ^ 31 then some (n : Int) else none

/-- `Char.isWhitespace()`: space separators, tabs and line breaks. -/
def isWhitespace (c : Char) : Bool :=
  let n := c.toNat
  (9 ≤ n && n ≤ 13) || (0x1C ≤ n && n ≤ 0x20) || n == 0xA0 || n == 0x1680 ||
    (0x2000 ≤ n && n ≤ 0x200A) || n == 0x2028 || n == 0x2029 || n == 0x202F || n == 0x205F || n == 0x3000

/-- Remove the characters satisfying `p` from both ends. -/
def trimBy (p : Char → Bool) (s : Str) : Str := (s.dropWhile p).rdropWhile p

/-- `String.trim()`. -/
def trim (s : Str) : Str := trimBy isWhitespace s

/-- `trim { it <= ' ' }`. -/
def trimControl (s : Str) : Str := trimBy (fun c => c.toNat ≤ 0x20) s

/-- `split(sep)` on a one-character separator; empty pieces are kept. -/
def split (sep : Char) (s : Str) : List Str := s.splitOn sep

/-- `startsWith`. -/
def startsWith (s pre : Str) : Bool := pre.isPrefixOf s

/-- `endsWith`. -/
def endsWith (s suf : Str) : Bool := suf.isSuffixOf s

/-- `removePrefix`. -/
def removePrefix (s pre : Str) : Str := if pre.isPrefixOf s then s.drop pre.length else s

/-- No piece of a split holds the separator. -/
theorem not_mem_split {c : Char} {s n : Str} (h : n ∈ split c s) : c ∉ n := by
  unfold split at h
  induction s generalizing n with
  | nil =>
    rw [List.splitOn_nil, List.mem_singleton] at h
    simp [h]
  | cons x s ih =>
    rw [List.splitOn_cons_eq_if_modifyHead] at h
    split at h
    · rcases List.mem_cons.mp h with rfl | h
      · exact List.not_mem_nil
      · exact ih h
    · rename_i hx
      obtain ⟨p, ps, hp⟩ := List.exists_cons_of_ne_nil (List.splitOn_ne_nil c s)
      rw [hp, List.modifyHead_cons] at h
      rcases List.mem_cons.mp h with rfl | h
      · have hpc : c ∉ p := ih (by rw [hp]; exact List.mem_cons_self)
        have hxc : x ≠ c := by simpa using hx
        simp [hpc, hxc.symm]
      · exact ih (by rw [hp]; exact List.mem_cons_of_mem _ h)

/-- Text that is trimmed already: it neither starts nor ends with such a character. -/
theorem trimBy_eq_self {p : Char → Bool} {s : Str} :
    trimBy p s = s ↔ (∀ c ∈ s.head?, p c = false) ∧ ∀ c ∈ s.getLast?, p c = false := by
  unfold trimBy
  constructor
  · intro h
    have hdrop : s.dropWhile p = s := by
      have hprefix := List.rdropWhile_prefix p (l := s.dropWhile p)
      rw [h] at hprefix
      exact (List.dropWhile_suffix p).eq_of_length_le hprefix.length_le
    rw [hdrop] at h
    constructor
    · intro c hc
      cases s with
      | nil => cases hc
      | cons d s =>
        cases hc
        have hnot := List.dropWhile_eq_self_iff.mp hdrop (by simp)
        exact Bool.eq_false_iff.mpr hnot
    · intro c hc
      obtain ⟨hne, rfl⟩ := List.mem_getLast?_eq_getLast hc
      simpa using List.rdropWhile_eq_self_iff.mp h hne
  · rintro ⟨hhead, hlast⟩
    have hdrop : s.dropWhile p = s := by
      cases s with
      | nil => rfl
      | cons c s => rw [List.dropWhile_cons_of_neg (by simp [hhead c rfl])]
    rw [hdrop, List.rdropWhile_eq_self_iff]
    intro hne
    simp [hlast _ (List.getLast?_eq_getLast_of_ne_nil hne)]

/-- Trimming twice is trimming once. -/
theorem trimBy_trimBy (p : Char → Bool) (s : Str) : trimBy p (trimBy p s) = trimBy p s := by
  rw [trimBy_eq_self]
  constructor
  · intro c hc
    obtain ⟨rest, hrest⟩ : trimBy p s <+: s.dropWhile p := List.rdropWhile_prefix p _
    have hhead := List.head?_dropWhile_not p s
    rw [← hrest, List.head?_append, Option.mem_def.mp hc, Option.some_or] at hhead
    exact hhead
  · intro c hc
    obtain ⟨hne, rfl⟩ := List.mem_getLast?_eq_getLast hc
    exact Bool.eq_false_iff.mpr (List.rdropWhile_last_not p _ hne)

theorem trimBy_within (p : Char → Bool) (s : Str) : trimBy p s <:+: s :=
  (List.rdropWhile_prefix p (s.dropWhile p)).isInfix.trans (List.dropWhile_suffix p).isInfix

theorem mem_of_mem_trimBy {p : Char → Bool} {c : Char} {s : Str} (h : c ∈ trimBy p s) : c ∈ s :=
  (trimBy_within p s).subset h

theorem startsWith_append (pre suf : Str) : startsWith (pre ++ suf) pre = true :=
  List.isPrefixOf_iff_prefix.mpr (List.prefix_append _ _)

theorem removePrefix_append (pre suf : Str) : removePrefix (pre ++ suf) pre = suf := by
  have h : pre.isPrefixOf (pre ++ suf) = true := startsWith_append pre suf
  rw [removePrefix, if_pos h, List.drop_left]

/-- `a in 'A'..'Z'`. -/
def isUpperAscii (c : Char) : Bool := 'A' ≤ c && c ≤ 'Z'

/-- `a in 'a'..'z'`. -/
def isLowerAscii (c : Char) : Bool := 'a' ≤ c && c ≤ 'z'

/-- The regex class `[a-zA-Z]`. -/
def isLetter (c : Char) : Bool := isUpperAscii c || isLowerAscii c

/-- `lowercase()` of one character. The capitals outside ASCII lower to characters
outside ASCII, which no comparison of the app can tell from the capital; the two that
do lower to an ASCII letter (the Kelvin sign and the dotted capital I) are listed. -/
def lowerChar (c : Char) : Str :=
  if isUpperAscii c then [Char.ofNat (c.toNat + 32)]
  else if c.toNat = 0x212A then ['k']
  else if c.toNat = 0x130 then ['i', Char.ofNat 0x307]
  else [c]

def lowercase (s : Str) : Str := s.flatMap lowerChar

/-- `uppercase()` on country codes and other ASCII text. -/
def upperChar (c : Char) : Char := if isLowerAscii c then Char.ofNat (c.toNat - 32) else c

def uppercase (s : Str) : Str := s.map upperChar

/-- What holds of the first 128 code points holds of an ASCII character. -/
theorem ascii_all {p : Char → Prop} (h : ∀ n < 128, p (Char.ofNat n)) {c : Char} (hc : c.toNat < 128) : p c := by
  have hn := h c.toNat hc
  rwa [Char.ofNat_toNat] at hn

theorem isLetter_lt {c : Char} (h : isLetter c = true) : c.toNat < 128 := by
  simp only [isLetter, isUpperAscii, isLowerAscii, Bool.or_eq_true, Bool.and_eq_true, decide_eq_true_eq,
    Char.le_def, UInt32.le_iff_toNat_le] at h
  have hn : c.toNat = c.val.toNat := rfl
  have hZ : ('Z' : Char).val.toNat = 90 := rfl
  have hz : ('z' : Char).val.toNat = 122 := rfl
  omega

theorem asciiDigit_lt {c : Char} (h : c.isDigit = true) : c.toNat < 128 := by
  simp only [Char.isDigit, Bool.and_eq_true, decide_eq_true_eq] at h
  have hle : c.toNat ≤ 57 := h.2
  omega

theorem isDigit_of_ascii {c : Char} (h : c.isDigit = true) : isDigit c = true := by
  have hall : ∀ n < 128, (Char.ofNat n).isDigit = true → isDigit (Char.ofNat n) = true := by decide +kernel
  exact ascii_all (p := fun c => c.isDigit = true → isDigit c = true) hall (asciiDigit_lt h) h

theorem not_whitespace_digit {c : Char} (h : c.isDigit = true) : isWhitespace c = false := by
  have hall : ∀ n < 128, (Char.ofNat n).isDigit = true → isWhitespace (Char.ofNat n) = false := by decide +kernel
  exact ascii_all (p := fun c => c.isDigit = true → isWhitespace c = false) hall (asciiDigit_lt h) h

/-- Upper case twice is upper case once. -/
theorem uppercase_uppercase (s : Str) : uppercase (uppercase s) = uppercase s := by
  have hall : ∀ n < 128, upperChar (upperChar (Char.ofNat n)) = upperChar (Char.ofNat n) := by decide +kernel
  have hchar : ∀ c, upperChar (upperChar c) = upperChar c := fun c => by
    by_cases hlow : isLowerAscii c = true
    · have hletter : isLetter c = true := by rw [isLetter, hlow, Bool.or_true]
      exact ascii_all (p := fun c => upperChar (upperChar c) = upperChar c) hall (isLetter_lt hletter)
    · rw [upperChar.eq_def c, if_neg hlow, upperChar, if_neg hlow]
  rw [uppercase, uppercase, List.map_map]
  exact List.map_congr_left fun c _ => hchar c

/-- Reading on after a prefix of digits. -/
theorem digits_append {s t : Str} {acc n : Nat} (h : digits acc s = some n) :
    digits acc (s ++ t) = digits n t := by
  induction s generalizing acc with
  | nil => cases h; rfl
  | cons c cs ih =>
    obtain ⟨d, hd, hrest⟩ := Option.bind_eq_some_iff.mp h
    simp only [List.cons_append, digits, hd, Option.bind_some]
    exact ih hrest

/-- What a string template prints for `n`. -/
def ofNat (n : Nat) : Str := Nat.toDigits 10 n

/-- What a string template prints for an `Int`. -/
def ofInt : Int → Str
  | .ofNat n => ofNat n
  | .negSucc n => '-' :: ofNat (n + 1)

/-- A character that `.` does not match. -/
def isLineTerminator (c : Char) : Bool :=
  c == '\n' || c == '\r' || c.toNat == 0x85 || c.toNat == 0x2028 || c.toNat == 0x2029

/-- What `^…(.*)$` sees of the input of a `find`: all of it, or all but a final line
terminator; nothing when a line terminator stands elsewhere. -/
def lineBody (s : Str) : Option Str :=
  let rest := s.dropWhile fun c => !isLineTerminator c
  if rest.length ≤ 1 ∨ rest = ['\r', '\n'] then some (s.takeWhile fun c => !isLineTerminator c) else none

/-- The whole input of `matches`, which must not hold a line terminator. -/
def wholeLine (s : Str) : Option Str := if s.all (fun c => !isLineTerminator c) then some s else none

theorem digit_digitChar (d : Nat) (h : d < 10) : digit d.digitChar = some d := by
  revert h; revert d
  decide

/-- A printed number is read back. -/
theorem digits_ofNat (n : Nat) : digits 0 (ofNat n) = some n := by
  induction n using Nat.strongRecOn with
  | ind n ih =>
    by_cases h : n < 10
    · rw [ofNat, Nat.toDigits_of_lt_base h]
      simp [digits, digit_digitChar n h]
    · have split : ofNat n = ofNat (n / 10) ++ [(n % 10).digitChar] :=
        Nat.toDigits_of_base_le (by decide) (by omega)
      rw [split, digits_append (ih (n / 10) (by omega))]
      have hd := digit_digitChar (n % 10) (by omega)
      simp only [digits, hd, Option.bind_some, Option.some.injEq]
      omega

/-- What is read as a number is digits. -/
theorem isDigit_of_digits {s : Str} {acc n : Nat} (h : digits acc s = some n) : ∀ c ∈ s, isDigit c = true := by
  induction s generalizing acc with
  | nil => intro c hc; cases hc
  | cons d s ih =>
    obtain ⟨v, hv, hrest⟩ := Option.bind_eq_some_iff.mp h
    intro c hc
    cases List.mem_cons.mp hc with
    | inl he => rw [he, isDigit, hv]; rfl
    | inr hin => exact ih hrest c hin

theorem isDigit_ofNat (n : Nat) : ∀ c ∈ ofNat n, isDigit c = true := isDigit_of_digits (digits_ofNat n)

theorem isDigit_line {c : Char} (h : isDigit c = true) : isLineTerminator c = false := by
  have hcode : ∀ d : Char, d.toNat = c.toNat → isDigit d = true := fun d hd => by
    have hsame : digit d = digit c := by unfold digit; rw [hd]
    rw [isDigit, hsame]
    exact h
  simp only [isLineTerminator, Bool.or_eq_false_iff, beq_eq_false_iff_ne, ne_eq]
  refine ⟨⟨⟨⟨?_, ?_⟩, fun he => ?_⟩, fun he => ?_⟩, fun he => ?_⟩
  · rintro rfl
    exact absurd h (by decide)
  · rintro rfl
    exact absurd h (by decide)
  · exact absurd (hcode (Char.ofNat 0x85) he.symm) (by decide)
  · exact absurd (hcode (Char.ofNat 0x2028) he.symm) (by decide)
  · exact absurd (hcode (Char.ofNat 0x2029) he.symm) (by decide)

theorem ofNat_ne_nil (n : Nat) : ofNat n ≠ [] := Nat.toDigits_ne_nil

/-- What is printed is in ASCII digits. -/
theorem ascii_ofNat {n : Nat} {c : Char} (h : c ∈ ofNat n) : c.isDigit = true :=
  Nat.isDigit_of_mem_toDigits (by decide) (by decide) h

theorem not_mem_ofNat {c : Char} (hc : c.isDigit = false) (n : Nat) : c ∉ ofNat n := fun h => by
  rw [ascii_ofNat h] at hc
  cases hc

/-- Different numbers are printed differently. -/
theorem ofNat_injective : Function.Injective ofNat := by
  intro m n h
  have hread := congrArg (fun ds => Nat.ofDigitChars 10 ds 0) h
  simpa only [ofNat, Nat.ofDigitChars_ten_toDigits] using hread

/-- Printing and reading back a 32-bit value. -/
theorem toIntOrNull_ofNat {n : Nat} (h : n < 2 ^ 31) : toIntOrNull (ofNat n) = some (n : Int) := by
  have hnum : number (ofNat n) = some n := by
    rw [number, if_neg (ofNat_ne_nil n), digits_ofNat]
  have hminus : '-' ∉ ofNat n := not_mem_ofNat rfl n
  have hplus : '+' ∉ ofNat n := not_mem_ofNat rfl n
  unfold toIntOrNull
  split
  · rename_i he; simp [he] at hminus
  · rename_i he; simp [he] at hplus
  · rw [hnum, Option.bind_some, if_pos h]

end KiloProxy.Text
