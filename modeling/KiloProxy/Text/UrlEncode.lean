import KiloProxy.Text.Kotlin

/-!
# `URLEncoder.encode(s, "UTF-8")`

Letters, digits and `- _ . *` stay, a blank becomes `+`, and every byte of the UTF-8
form of any other character becomes `%XX`. The encoding can be read back
(`urlEncode_injective`), and text of small letters and `_` only comes from itself. A text
with its own encoding behind it tells the text, whatever the separator
(`append_image_injective`).
-/

namespace KiloProxy.Text
set_option autoImplicit false

/-- An upper-case hexadecimal digit. -/
def hexDigit (n : Nat) : Char := if n < 10 then Char.ofNat (48 + n) else Char.ofNat (55 + n)

/-- `%XX` -/
def percentByte (b : UInt8) : Str := ['%', hexDigit (b.toNat / 16), hexDigit (b.toNat % 16)]

/-- The characters that are kept. -/
def isUnreserved (c : Char) : Bool :=
  isLetter c || c.isDigit || c == '-' || c == '_' || c == '.' || c == '*'

def encodeChar (c : Char) : Str :=
  if isUnreserved c then [c]
  else if c == ' ' then ['+']
  else (String.utf8EncodeChar c).flatMap percentByte

def urlEncode (s : Str) : Str := s.flatMap encodeChar

example : urlEncode "a_b c/é".toList = "a_b+c%2F%C3%A9".toList := by decide

theorem urlEncode_append (s t : Str) : urlEncode (s ++ t) = urlEncode s ++ urlEncode t := List.flatMap_append

theorem encodeChar_ne_nil (c : Char) : encodeChar c ≠ [] := by
  unfold encodeChar
  split
  · simp
  · split
    · simp
    · intro h
      obtain ⟨b, hb⟩ := List.exists_mem_of_ne_nil _ (String.utf8EncodeChar_ne_nil (c := c))
      have hnil := List.flatMap_eq_nil_iff.mp h b hb
      cases hnil

theorem urlEncode_cons (c : Char) (s : Str) : urlEncode (c :: s) = encodeChar c ++ urlEncode s := rfl

/-! ## Reading back -/

/-- The value of an upper-case hexadecimal digit. -/
def hexValue (c : Char) : Nat := if c.toNat < 58 then c.toNat - 48 else c.toNat - 55

theorem hexValue_hexDigit : ∀ n < 16, hexValue (hexDigit n) = n := by decide

/-- The bytes an encoded text stands for. -/
def decodeBytes : Str → List UInt8
  | '%' :: a :: b :: rest => UInt8.ofNat (16 * hexValue a + hexValue b) :: decodeBytes rest
  | c :: rest => (if c = '+' then 32 else c.val.toUInt8) :: decodeBytes rest
  | [] => []

/-- A byte written with a percent sign is decoded. -/
theorem decodeBytes_percent (b : UInt8) (rest : Str) : decodeBytes (percentByte b ++ rest) = b :: decodeBytes rest := by
  have hb : b.toNat < 256 := b.toNat_lt
  show UInt8.ofNat (16 * hexValue (hexDigit (b.toNat / 16)) + hexValue (hexDigit (b.toNat % 16))) :: _ = _
  rw [hexValue_hexDigit _ (by omega), hexValue_hexDigit _ (by omega), Nat.div_add_mod, UInt8.ofNat_toNat]
  rfl

theorem decodeBytes_percents (bs : List UInt8) (rest : Str) :
    decodeBytes (bs.flatMap percentByte ++ rest) = bs ++ decodeBytes rest := by
  induction bs with
  | nil => rfl
  | cons b bs ih => rw [List.flatMap_cons, List.append_assoc, decodeBytes_percent, ih, List.cons_append]

/-- What is kept is ASCII, and is not read as an escape. -/
theorem isUnreserved_ascii {c : Char} (h : isUnreserved c = true) : c.toNat < 128 ∧ c ≠ '%' ∧ c ≠ '+' := by
  simp only [isUnreserved, Bool.or_eq_true, beq_iff_eq] at h
  rcases h with ((((h | h) | rfl) | rfl) | rfl) | rfl
  · refine ⟨isLetter_lt h, ?_, ?_⟩ <;> rintro rfl <;> exact absurd h (by decide)
  · refine ⟨asciiDigit_lt h, ?_, ?_⟩ <;> rintro rfl <;> exact absurd h (by decide)
  · decide
  · decide
  · decide
  · decide

/-- One character reads back as its UTF-8 form. -/
theorem decodeBytes_encodeChar (c : Char) (rest : Str) :
    decodeBytes (encodeChar c ++ rest) = String.utf8EncodeChar c ++ decodeBytes rest := by
  unfold encodeChar
  split
  · rename_i h
    obtain ⟨hlt, hpercent, hplus⟩ := isUnreserved_ascii h
    have hsize : c.utf8Size = 1 := by
      have hval : c.val ≤ 0x7f := by
        rw [UInt32.le_iff_toNat_le]
        exact Nat.le_of_lt_succ hlt
      rw [Char.utf8Size]
      exact if_pos hval
    rw [String.utf8EncodeChar_eq_singleton hsize, List.singleton_append, List.singleton_append, decodeBytes, if_neg hplus]
    rintro a b r rfl _
    exact hpercent rfl
  · split
    · rename_i h
      obtain rfl : c = ' ' := by simpa using h
      rfl
    · exact decodeBytes_percents _ rest

/-- Decoding returns the bytes of the text. -/
theorem decodeBytes_urlEncode (s : Str) : decodeBytes (urlEncode s) = s.flatMap String.utf8EncodeChar := by
  induction s with
  | nil => rfl
  | cons c s ih => rw [urlEncode_cons, decodeBytes_encodeChar, ih, List.flatMap_cons]

/-- Distinct texts have distinct encodings. -/
theorem urlEncode_injective : Function.Injective urlEncode := by
  intro s t h
  have hutf : s.utf8Encode = t.utf8Encode := by
    rw [List.utf8Encode, List.utf8Encode, ← decodeBytes_urlEncode, ← decodeBytes_urlEncode, h]
  have hstring : String.ofList s = String.ofList t := by
    rw [← String.toByteArray_inj, String.toByteArray_ofList, String.toByteArray_ofList, hutf]
  exact String.ofList_injective hstring

/-- A small letter or `_`: no encoding but its own ends in it. -/
def isPlain (c : Char) : Bool := isLowerAscii c || c == '_'

theorem hexDigit_not_plain : ∀ n < 16, isPlain (hexDigit n) = false := by decide

theorem isUnreserved_of_plain {c : Char} (h : isPlain c = true) : isUnreserved c = true := by
  simp only [isPlain, Bool.or_eq_true] at h
  simp only [isUnreserved, isLetter, Bool.or_eq_true]
  tauto

/-- The last character of an encoding is plain only if it stands for itself. -/
theorem encodeChar_last {d c : Char} (hc : isPlain c = true) {w : Str} (h : encodeChar d = w ++ [c]) :
    d = c ∧ w = [] := by
  unfold encodeChar at h
  split at h
  · obtain ⟨rfl, hd⟩ := List.append_eq_singleton_iff.mp h.symm |>.resolve_right (by simp)
    exact ⟨by simpa using hd.symm, rfl⟩
  · split at h
    · obtain ⟨rfl, hd⟩ := List.append_eq_singleton_iff.mp h.symm |>.resolve_right (by simp)
      obtain rfl : c = '+' := by simpa using hd
      exact absurd hc (by decide)
    · obtain ⟨bs, b, hbs⟩ : ∃ bs b, String.utf8EncodeChar d = bs ++ [b] :=
        ⟨_, _, (List.dropLast_append_getLast String.utf8EncodeChar_ne_nil).symm⟩
      have hb : b.toNat % 16 < 16 := Nat.mod_lt _ (by decide)
      have hlast := congrArg List.getLast? h
      rw [hbs, List.flatMap_append, List.getLast?_append, List.getLast?_append] at hlast
      have he : hexDigit (b.toNat % 16) = c := by simpa [percentByte] using hlast
      rw [← he, hexDigit_not_plain _ hb] at hc
      cases hc

/-- A plain end of an encoding is the end of the text. -/
theorem urlEncode_suffix {s w p : Str} (hp : ∀ c ∈ p, isPlain c = true) (h : urlEncode s = w ++ p) :
    ∃ t, s = t ++ p ∧ urlEncode t = w := by
  induction p using List.reverseRecOn generalizing s with
  | nil => exact ⟨s, by simp, by simpa using h⟩
  | append_singleton p c ih =>
    rw [← List.append_assoc] at h
    rcases List.eq_nil_or_concat s with rfl | ⟨t, d, rfl⟩
    · simp [urlEncode] at h
    · rw [List.concat_eq_append, urlEncode_append] at h
      have hsingle : urlEncode [d] = encodeChar d := List.append_nil _
      rcases List.eq_nil_or_concat (encodeChar d) with hnil | ⟨v, x, hv⟩
      · exact absurd hnil (encodeChar_ne_nil d)
      · rw [List.concat_eq_append] at hv
        rw [hsingle, hv, ← List.append_assoc] at h
        obtain ⟨hrest, hx⟩ := List.append_inj' h rfl
        obtain rfl : x = c := by simpa using hx
        obtain ⟨rfl, rfl⟩ := encodeChar_last (hp x (by simp)) hv
        obtain ⟨t', ht, hw⟩ := ih (fun y hy => hp y (by simp [hy])) (by rw [← hrest, List.append_nil])
        exact ⟨t', by rw [List.concat_eq_append, ht, List.append_assoc], hw⟩

/-- Plain text stays as it is. -/
theorem urlEncode_plain {p : Str} (hp : ∀ c ∈ p, isPlain c = true) : urlEncode p = p := by
  induction p with
  | nil => rfl
  | cons c p ih =>
    rw [urlEncode_cons, ih fun y hy => hp y (List.mem_cons_of_mem _ hy), encodeChar,
      if_pos (isUnreserved_of_plain (hp c List.mem_cons_self))]
    rfl

/-! ## A text with its image behind it -/

section

variable {α β : Type} {f : List α → List α}

/-- More text has a longer image. -/
def Lengthens (f : List α → List β) : Prop := ∀ s t, t ≠ [] → (f s).length < (f (s ++ t)).length

/-- Joined with its own image, which grows with it, a text is told apart from its beginnings. -/
theorem eq_of_prefix_image (hf : Lengthens f) {sep : α} {s t : List α} (hpre : s <+: t)
    (h : s ++ sep :: f s = t ++ sep :: f t) : s = t := by
  obtain ⟨rest, rfl⟩ := hpre
  by_cases hrest : rest = []
  · rw [hrest, List.append_nil]
  · have hlonger := hf s rest hrest
    have hlength := congrArg List.length h
    simp only [List.length_append, List.length_cons] at hlength
    omega

/-- One of two texts that give the same key starts the other, so its image is the shorter
one too. -/
theorem append_image_injective (hf : Lengthens f) (sep : α) : Function.Injective fun s => s ++ sep :: f s := by
  intro s t h
  have h : s ++ sep :: f s = t ++ sep :: f t := h
  have ht : t <+: s ++ sep :: f s := h ▸ List.prefix_append t _
  obtain hst | hts := List.prefix_or_prefix_of_prefix (List.prefix_append s _) ht
  · exact eq_of_prefix_image hf hst h
  · exact (eq_of_prefix_image hf hts h.symm).symm

end

/-- Encoding never shortens. -/
theorem urlEncode_lengthens : Lengthens urlEncode := by
  intro s t ht
  obtain ⟨c, rest, rfl⟩ := List.exists_cons_of_ne_nil ht
  have hpos : 0 < (encodeChar c).length := List.length_pos_iff.mpr (encodeChar_ne_nil c)
  rw [urlEncode_append, urlEncode_cons, List.length_append, List.length_append]
  omega

end KiloProxy.Text
