import KiloProxy.Text.Kotlin
import Mathlib.Data.List.Nodup

/-!
# `Countries.kt`

The codes of the country table, in its order, and the lookup by code.
-/

namespace KiloProxy.Util.Countries
set_option autoImplicit false
open KiloProxy.Text

/-- The `code` of every entry of `Countries.ALL`. -/
def codes : List Str := List.map String.toList
  ["AF", "AX", "AL", "DZ", "AS", "AD", "AO", "AI", "AQ", "AG", "AR", "AM", "AW", "AU", "AT", "AZ", "BS", "BH",
   "BD", "BB", "BY", "BE", "BZ", "BJ", "BM", "BT", "BO", "BA", "BW", "BR", "BN", "BG", "BF", "BI", "CV", "KH",
   "CM", "CA", "KY", "CF", "TD", "CL", "CN", "CO", "KM", "CG", "CD", "CK", "CR", "CI", "HR", "CU", "CW", "CY",
   "CZ", "DK", "DJ", "DM", "DO", "EC", "EG", "SV", "GQ", "ER", "EE", "SZ", "ET", "FK", "FO", "FJ", "FI", "FR",
   "GF", "PF", "GA", "GM", "GE", "DE", "GH", "GI", "GR", "GL", "GD", "GP", "GU", "GT", "GG", "GN", "GW", "GY",
   "HT", "VA", "HN", "HK", "HU", "IS", "IN", "ID", "IR", "IQ", "IE", "IM", "IL", "IT", "JM", "JP", "JE", "JO",
   "KZ", "KE", "KI", "KP", "KR", "KW", "KG", "LA", "LV", "LB", "LS", "LR", "LY", "LI", "LT", "LU", "MO", "MG",
   "MW", "MY", "MV", "ML", "MT", "MH", "MQ", "MR", "MU", "YT", "MX", "FM", "MD", "MC", "MN", "ME", "MS", "MA",
   "MZ", "MM", "NA", "NR", "NP", "NL", "NC", "NZ", "NI", "NE", "NG", "NU", "NF", "MK", "MP", "NO", "OM", "PK",
   "PW", "PS", "PA", "PG", "PY", "PE", "PH", "PN", "PL", "PT", "PR", "QA", "RE", "RO", "RU", "RW", "BL", "SH",
   "KN", "LC", "MF", "PM", "VC", "WS", "SM", "ST", "SA", "SN", "RS", "SC", "SL", "SG", "SX", "SK", "SI", "SB",
   "SO", "ZA", "GS", "SS", "ES", "LK", "SD", "SR", "SJ", "SE", "CH", "SY", "TW", "TJ", "TZ", "TH", "TL", "TG",
   "TK", "TO", "TT", "TN", "TR", "TM", "TC", "TV", "UG", "UA", "AE", "GB", "US", "UY", "UZ", "VU", "VE", "VN",
   "VG", "VI", "WF", "EH", "YE", "ZM", "ZW", "XK"]

/-- A country code: two upper-case ASCII letters. -/
def isCode : Str → Bool
  | [a, b] => isUpperAscii a && isUpperAscii b
  | _ => false

theorem codes_wellFormed : ∀ c ∈ codes, isCode c = true := by decide +kernel

/-! ## No code is listed twice -/

/-- The number of a code, and the check of a list against the numbers that were `seen`, as bits. -/
def place (code : Str) : Nat := code.foldl (fun n c => 26 * n + (c.toNat - 65)) 0

def unseen : Nat → List Str → Bool
  | _, [] => true
  | seen, c :: cs => !seen.testBit (place c) && unseen (seen ||| 2 ^ place c) cs

/-- A list that passes has no number twice, and none that was seen before. -/
theorem nodup_of_unseen {cs : List Str} {seen : Nat} (h : unseen seen cs = true) :
    cs.Nodup ∧ ∀ c ∈ cs, seen.testBit (place c) = false := by
  induction cs generalizing seen with
  | nil => exact ⟨List.nodup_nil, fun c hc => absurd hc List.not_mem_nil⟩
  | cons c cs ih =>
    simp only [unseen, Bool.and_eq_true, Bool.not_eq_true'] at h
    obtain ⟨hnodup, hrest⟩ := ih h.2
    have hother : ∀ d ∈ cs, seen.testBit (place d) = false ∧ place c ≠ place d := by
      intro d hd
      have hbit := hrest d hd
      rw [Nat.testBit_or, Bool.or_eq_false_iff, Nat.testBit_two_pow] at hbit
      exact ⟨hbit.1, of_decide_eq_false hbit.2⟩
    refine ⟨List.nodup_cons.mpr ⟨fun hmem => (hother c hmem).2 rfl, hnodup⟩, fun d hd => ?_⟩
    rcases List.mem_cons.mp hd with rfl | hd
    · exact h.1
    · exact (hother d hd).1

theorem codes_nodup : codes.Nodup := by
  have h : unseen 0 codes = true := by decide +kernel
  exact (nodup_of_unseen h).1

/-! ## The table -/

/-- An entry of the table; its name and dialling code are only shown and searched. -/
@[ext] structure Country where
  code : Str
deriving DecidableEq, Repr

/-- `Countries.ALL` -/
def ALL : List Country := codes.map Country.mk

def fromCode (code : Str) : Option Country := ALL.find? fun c => c.code = uppercase code

theorem mem_all {c : Country} : c ∈ ALL ↔ c.code ∈ codes := by
  rw [ALL, List.mem_map]
  constructor
  · rintro ⟨code, hcode, rfl⟩
    exact hcode
  · exact fun h => ⟨c.code, h, rfl⟩

theorem all_nodup : ALL.Nodup := by
  have hinj : Function.Injective Country.mk := fun _ _ h => congrArg Country.code h
  exact codes_nodup.map hinj

/-- The entry found is the one of the code. -/
theorem fromCode_some_iff {code : Str} {c : Country} : fromCode code = some c ↔ c ∈ ALL ∧ c.code = uppercase code := by
  constructor
  · intro h
    exact ⟨List.mem_of_find?_eq_some h, by simpa using List.find?_some h⟩
  · rintro ⟨hmem, hcode⟩
    cases hfind : fromCode code with
    | none => exact absurd (decide_eq_true hcode) (List.find?_eq_none.mp hfind c hmem)
    | some d =>
      have hd : d.code = uppercase code := by simpa using List.find?_some hfind
      rw [Country.ext (hd.trans hcode.symm)]

/-- No code is blank. -/
theorem code_not_blank {code : Str} (h : code ∈ codes) : code.all isWhitespace = false := by
  revert h
  revert code
  decide +kernel

end KiloProxy.Util.Countries
