import KiloProxy.Net.Literal
import KiloProxy.Service.Configure

/-!
# `isNumericAddress` before Android 10

The fallback takes four numbers of up to three digits between dots, and every text with a
colon that is made of digits, the letters to `f`, colons and dots. All address literals are
among these; the others are the numbers above 255, digits of other scripts, and texts whose
colons and groups are not those of an IPv6 literal.
-/

namespace KiloProxy.Service
set_option autoImplicit false
open KiloProxy.Text KiloProxy.Net

/-- The regular expression. -/
def isQuad (value : Str) : Bool :=
  let p := split '.' value
  p.length == 4 && p.all upToThreeDigits

/-- The character test. -/
def isColonText (value : Str) : Bool :=
  value.contains ':' && value.all fun c => isDigit c || "abcdefABCDEF:.".toList.contains c

theorem isNumericFallback_eq (value : Str) : isNumericFallback value = (isQuad value || isColonText value) := rfl

/-- What should count as numeric; `zeros` is whether octets may have leading zeros. -/
def NumericLiteral (zeros : Bool) (value : Str) : Prop := IPv4Literal zeros value ∨ IPv6Literal zeros value

/-- An octet beside its length: in the digits of the first script, up to 255, and without leading
zeros where they are not allowed. -/
structure InRange (zeros : Bool) (o : Str) : Prop where
  digits : ∀ c ∈ o, c.isDigit = true
  value : Nat.ofDigitChars 10 o 0 ≤ 255
  leading : zeros = true ∨ ∀ rest, o = '0' :: rest → rest = []

/-- Of four short numbers every one is in range, and a text with colons has the form of a literal. -/
structure WellFormed (zeros : Bool) (value : Str) : Prop where
  quad : isQuad value = true → ∀ o ∈ split '.' value, InRange zeros o
  colons : isColonText value = true →
    ∃ front middle back, split ':' value = front :: (middle ++ [back]) ∧ ColonForm zeros front middle back

/-! ## The two tests -/

theorem regexDigit_of_ascii {c : Char} (h : c.isDigit = true) : regexDigit c = true := by
  rw [regexDigit, isDigit_of_ascii h, Bool.true_or]

theorem upToThreeDigits_iff {o : Str} :
    upToThreeDigits o = true ↔ (1 ≤ o.length ∧ o.length ≤ 3) ∧ ∀ c ∈ o, regexDigit c = true := by
  simp only [upToThreeDigits, Bool.and_eq_true, decide_eq_true_eq, List.all_eq_true]

/-- Three digits at most, in range, make an octet. -/
theorem octet_iff {zeros : Bool} {o : Str} : Octet zeros o ↔ upToThreeDigits o = true ∧ InRange zeros o := by
  rw [upToThreeDigits_iff]
  constructor
  · rintro ⟨hlen, hdigits, hvalue, hleading⟩
    exact ⟨⟨hlen, fun c hc => regexDigit_of_ascii (hdigits c hc)⟩, hdigits, hvalue, hleading⟩
  · rintro ⟨⟨hlen, _⟩, hdigits, hvalue, hleading⟩
    exact ⟨hlen, hdigits, hvalue, hleading⟩

theorem isQuad_iff {value : Str} :
    isQuad value = true ↔ (split '.' value).length = 4 ∧ ∀ o ∈ split '.' value, upToThreeDigits o = true := by
  simp only [isQuad, Bool.and_eq_true, beq_iff_eq, List.all_eq_true]

/-- IPv4 literals are the quads whose octets are in range. -/
theorem ipv4_iff {zeros : Bool} {value : Str} :
    IPv4Literal zeros value ↔ isQuad value = true ∧ ∀ o ∈ split '.' value, InRange zeros o := by
  rw [ipv4Literal_iff, isQuad_iff]
  constructor
  · rintro ⟨hlen, hos⟩
    exact ⟨⟨hlen, fun o ho => (octet_iff.mp (hos o ho)).1⟩, fun o ho => (octet_iff.mp (hos o ho)).2⟩
  · rintro ⟨⟨hlen, hshort⟩, hrange⟩
    exact ⟨hlen, fun o ho => octet_iff.mpr ⟨hshort o ho, hrange o ho⟩⟩

theorem isColonText_iff {value : Str} : isColonText value = true ↔
    ':' ∈ value ∧ ∀ c ∈ value, isDigit c = true ∨ c ∈ "abcdefABCDEF:.".toList := by
  simp only [isColonText, Bool.and_eq_true, List.contains_iff_mem, List.all_eq_true, Bool.or_eq_true]

/-- A hex digit passes the character test. -/
theorem hex_allowed {c : Char} (h : isHexDigit c = true) : isDigit c = true ∨ c ∈ "abcdefABCDEF:.".toList := by
  have hlt : c.toNat < 128 := by
    simp only [isHexDigit, Bool.or_eq_true, Bool.and_eq_true, decide_eq_true_eq] at h
    rcases h with (h | h) | h
    · exact asciiDigit_lt h
    · have hle : c.toNat ≤ 102 := h.2
      omega
    · have hle : c.toNat ≤ 70 := h.2
      omega
  have hall : ∀ n < 128, isHexDigit (Char.ofNat n) = true →
      isDigit (Char.ofNat n) = true ∨ Char.ofNat n ∈ "abcdefABCDEF:.".toList := by decide +kernel
  exact ascii_all (p := fun c => isHexDigit c = true → isDigit c = true ∨ c ∈ "abcdefABCDEF:.".toList) hall hlt h

/-- IPv6 literals pass it. -/
theorem ipv6_colonText {zeros : Bool} {value : Str} (h : IPv6Literal zeros value) : isColonText value = true := by
  obtain ⟨front, middle, back, hsplit, hform⟩ := ipv6Literal_iff.mp h
  have hvalue : value = [':'].intercalate (front :: (middle ++ [back])) := by
    rw [← hsplit]
    exact (intercalate_split ':' value).symm
  rw [isColonText_iff, hvalue]
  constructor
  · rw [List.intercalate_cons_of_ne_nil (by simp)]
    exact List.mem_append_left _ (List.mem_append_right _ List.mem_cons_self)
  · intro c hc
    rcases mem_intercalate hc with rfl | ⟨p, hp, hmem⟩
    · exact .inr (by decide)
    · -- a piece is a group, or the IPv4 literal at the end
      have hpiece : p = [] ∨ H16 p ∨ IPv4Literal zeros p := by
        rw [← List.cons_append, List.mem_append, List.mem_singleton] at hp
        rcases hp with hp | rfl
        · exact (hform.groups p hp).imp_right .inl
        · exact hform.last
      rcases hpiece with rfl | hgroup | hquad
      · cases hmem
      · exact hex_allowed (hgroup.hex c hmem)
      · rcases hquad.chars c hmem with hdigit | rfl
        · exact .inl (isDigit_of_ascii hdigit)
        · exact .inr (by decide)

/-- A quad has no colon. -/
theorem isQuad_not_colonText {value : Str} (hquad : isQuad value = true) : isColonText value = false := by
  have hcolon : ':' ∉ value := by
    intro hmem
    rw [← intercalate_split '.' value] at hmem
    rcases mem_intercalate hmem with he | ⟨p, hp, hc⟩
    · exact absurd he (by decide)
    · have hdigit := (upToThreeDigits_iff.mp ((isQuad_iff.mp hquad).2 p hp)).2 ':' hc
      exact absurd hdigit (by decide)
  rw [← Bool.not_eq_true, isColonText_iff]
  exact fun h => hcolon h.1

/-- Every address literal is taken. -/
theorem literal_accepted {zeros : Bool} {value : Str} (h : NumericLiteral zeros value) :
    isNumericFallback value = true := by
  rw [isNumericFallback_eq, Bool.or_eq_true]
  rcases h with h | h
  · exact .inl (ipv4_iff.mp h).1
  · exact .inr (ipv6_colonText h)

/-- A quad that is a literal is an IPv4 literal. -/
theorem quad_literal {zeros : Bool} {value : Str} (hquad : isQuad value = true) (h : NumericLiteral zeros value) :
    IPv4Literal zeros value := by
  rcases h with h | h
  · exact h
  · have hcolon := ipv6_colonText h
    rw [isQuad_not_colonText hquad] at hcolon
    cases hcolon

/-- A text with colons that is a literal is an IPv6 literal. -/
theorem colonText_literal {zeros : Bool} {value : Str} (hcolon : isColonText value = true)
    (h : NumericLiteral zeros value) : IPv6Literal zeros value := by
  rcases h with h | h
  · rw [isQuad_not_colonText (ipv4_iff.mp h).1] at hcolon
    cases hcolon
  · exact h

/-- **The fallback is right exactly on well-formed texts**, with or without leading zeros. -/
theorem fallback_exact_iff (zeros : Bool) (value : Str) :
    (isNumericFallback value = true ↔ NumericLiteral zeros value) ↔ WellFormed zeros value := by
  rw [isNumericFallback_eq, Bool.or_eq_true]
  constructor
  · intro h
    constructor
    · intro hquad
      exact (ipv4_iff.mp (quad_literal hquad (h.mp (.inl hquad)))).2
    · intro hcolon
      exact ipv6Literal_iff.mp (colonText_literal hcolon (h.mp (.inr hcolon)))
  · intro h
    constructor
    · rintro (hquad | hcolon)
      · exact .inl (ipv4_iff.mpr ⟨hquad, h.quad hquad⟩)
      · exact .inr (ipv6Literal_iff.mpr (h.colons hcolon))
    · intro hliteral
      have haccepted := literal_accepted hliteral
      rwa [isNumericFallback_eq, Bool.or_eq_true] at haccepted

/-- `999.1.1.1` is taken, whether or not leading zeros are allowed. -/
theorem octet_out_of_range : ¬ ∃ zeros, ∀ value, isNumericFallback value = true ↔ NumericLiteral zeros value := by
  rintro ⟨zeros, h⟩
  have hquad : isQuad "999.1.1.1".toList = true := by decide +kernel
  have haccepted : isNumericFallback "999.1.1.1".toList = true := by
    rw [isNumericFallback_eq, hquad, Bool.true_or]
  have hliteral := quad_literal hquad ((h _).mp haccepted)
  have hrange := (ipv4_iff.mp hliteral).2 "999".toList (by decide +kernel)
  exact absurd hrange.value (by decide)

end KiloProxy.Service
