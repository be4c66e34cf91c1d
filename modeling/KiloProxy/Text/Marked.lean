import Mathlib.Data.List.Basic

/-!
# A two-symbol token behind a marker

Over any alphabet: a list is read as `base ++ mark ++ [x, y] ++ tail` with `x` and `y`
of a class `p` and a tail that passes `ok`. `firstAt` and `lastAt` take the occurrence
with the shortest and the longest base, the way a lazy and a greedy group in front of
the marker do; `firstMark` and `lastMark` want a nonempty base. An occurrence sees no
further than its own length (`occurs_far`, `occurs_trailing`).
-/

namespace KiloProxy.Text
set_option autoImplicit false

section Marked

variable {α : Type} [DecidableEq α] (mark : List α) (p : α → Bool) (ok : List α → Bool)

/-- The token and the tail of a list that starts with one. -/
def tokenAt : List α → Option (List α × List α)
  | x :: y :: t => if p x && p y && ok t then some ([x, y], t) else none
  | _ => none

/-- The token and the tail of a list that starts with the marker. -/
def markAt (s : List α) : Option (List α × List α) :=
  if mark.isPrefixOf s then tokenAt p ok (s.drop mark.length) else none

/-- The occurrence with the shortest base: base, token, tail. -/
def firstAt : List α → Option (List α × List α × List α)
  | [] => none
  | c :: s =>
    match markAt mark p ok (c :: s) with
    | some q => some ([], q)
    | none => (firstAt s).map fun r => (c :: r.1, r.2)

/-- The occurrence with the longest base. -/
def lastAt : List α → Option (List α × List α × List α)
  | [] => none
  | c :: s =>
    match lastAt s with
    | some r => some (c :: r.1, r.2)
    | none => (markAt mark p ok (c :: s)).map fun q => ([], q)

/-- `(.+?)` in front of the marker. -/
def firstMark : List α → Option (List α × List α × List α)
  | [] => none
  | c :: s => (firstAt mark p ok s).map fun r => (c :: r.1, r.2)

/-- `(.+)` in front of the marker. -/
def lastMark : List α → Option (List α × List α × List α)
  | [] => none
  | c :: s => (lastAt mark p ok s).map fun r => (c :: r.1, r.2)

variable {mark p ok}

omit [DecidableEq α] in
/-- A token is two characters that pass, with a rest that does. -/
theorem tokenAt_some {s cc t : List α} :
    tokenAt p ok s = some (cc, t) ↔
      ∃ x y, cc = [x, y] ∧ s = x :: y :: t ∧ p x = true ∧ p y = true ∧ ok t = true := by
  unfold tokenAt
  split
  · rename_i x y r
    split
    · rename_i h
      simp only [Bool.and_eq_true] at h
      constructor
      · intro he; cases he; exact ⟨x, y, rfl, rfl, h.1.1, h.1.2, h.2⟩
      · rintro ⟨a, b, rfl, he, _⟩; cases he; rfl
    · rename_i h
      constructor
      · intro he; cases he
      · rintro ⟨a, b, rfl, he, ha, hb, ht⟩
        cases he
        exact absurd (by simp [ha, hb, ht]) h
  · rename_i hne
    constructor
    · intro he; cases he
    · rintro ⟨x, y, _, he, _⟩; exact (hne x y t he).elim

/-- Behind a marker stands a token. -/
theorem markAt_some {s cc t : List α} :
    markAt mark p ok s = some (cc, t) ↔
      ∃ x y, cc = [x, y] ∧ s = mark ++ x :: y :: t ∧ p x = true ∧ p y = true ∧ ok t = true := by
  unfold markAt
  split
  · rename_i h
    obtain ⟨r, rfl⟩ := List.isPrefixOf_iff_prefix.mp h
    rw [List.drop_left, tokenAt_some]
    simp only [List.append_cancel_left_eq]
  · rename_i h
    constructor
    · intro he; cases he
    · rintro ⟨x, y, _, rfl, _⟩
      exact absurd (List.isPrefixOf_iff_prefix.mpr (List.prefix_append mark _)) h

theorem markAt_here {x y : α} {t : List α} (hx : p x = true) (hy : p y = true) (ht : ok t = true) :
    markAt mark p ok (mark ++ x :: y :: t) = some ([x, y], t) :=
  markAt_some.mpr ⟨x, y, rfl, rfl, hx, hy, ht⟩

/-- An occurrence is longer than its marker. -/
theorem markAt_length {s : List α} (h : s.length < mark.length + 2) : markAt mark p ok s = none := by
  cases hs : markAt mark p ok s with
  | none => rfl
  | some q =>
    obtain ⟨cc, t⟩ := q
    obtain ⟨x, y, _, rfl, _⟩ := markAt_some.mp hs
    rw [List.length_append, List.length_cons, List.length_cons] at h
    omega

/-! ## The first occurrence -/

/-- Nothing starts in `b`: the first occurrence of `b ++ s` is that of `s`. -/
theorem firstAt_append {b s : List α}
    (h : ∀ b₁ b₂, b = b₁ ++ b₂ → b₂ ≠ [] → markAt mark p ok (b₂ ++ s) = none) :
    firstAt mark p ok (b ++ s) = (firstAt mark p ok s).map fun r => (b ++ r.1, r.2) := by
  induction b with
  | nil => cases hs : firstAt mark p ok s <;> simp [hs]
  | cons c b ih =>
    have hhere := h [] (c :: b) rfl (by simp)
    rw [List.cons_append] at hhere ⊢
    rw [firstAt, hhere, ih fun b₁ b₂ he hne => h (c :: b₁) b₂ (by rw [he]; rfl) hne]
    cases firstAt mark p ok s <;> rfl

/-- A marker at the start is the first. -/
theorem firstAt_here {s : List α} {q : List α × List α} (h : markAt mark p ok s = some q) :
    firstAt mark p ok s = some ([], q) := by
  cases s with
  | nil =>
    obtain ⟨x, y, _, he, _⟩ := markAt_some.mp h
    simp at he
  | cons c s => rw [firstAt, h]

/-- The first occurrence: where it is, and that none starts in front of it. -/
theorem firstAt_some {s b cc t : List α} (h : firstAt mark p ok s = some (b, cc, t)) :
    ∃ r, s = b ++ r ∧ markAt mark p ok r = some (cc, t) ∧
      ∀ b₁ b₂, b = b₁ ++ b₂ → b₂ ≠ [] → markAt mark p ok (b₂ ++ r) = none := by
  induction s generalizing b with
  | nil => cases h
  | cons c s ih =>
    rw [firstAt] at h
    split at h
    · rename_i q hq
      cases h
      exact ⟨c :: s, rfl, hq, fun b₁ b₂ he hne => absurd (List.append_eq_nil_iff.mp he.symm).2 hne⟩
    · rename_i hq
      obtain ⟨⟨b', q⟩, hr, he⟩ := Option.map_eq_some_iff.mp h
      cases he
      obtain ⟨r, rfl, hmark, hfirst⟩ := ih hr
      refine ⟨r, rfl, hmark, fun b₁ b₂ he hne => ?_⟩
      cases b₁ with
      | nil => rw [List.nil_append] at he; rw [← he]; exact hq
      | cons d b₁ => cases he; exact hfirst b₁ b₂ rfl hne

/-! ## The last occurrence -/

/-- The last marker of an end is the last of the whole. -/
theorem lastAt_append {s : List α} {r : List α × List α × List α} (b : List α)
    (h : lastAt mark p ok s = some r) : lastAt mark p ok (b ++ s) = some (b ++ r.1, r.2) := by
  induction b with
  | nil => simpa using h
  | cons c b ih => rw [List.cons_append, lastAt, ih]; rfl

/-- An occurrence behind which there is none is the last one. -/
theorem lastAt_here {c : α} {s : List α} {q : List α × List α} (h : markAt mark p ok (c :: s) = some q)
    (hlast : lastAt mark p ok s = none) : lastAt mark p ok (c :: s) = some ([], q) := by
  rw [lastAt, hlast, h]; rfl

/-- The last occurrence: where it is, and that there is none behind it. -/
theorem lastAt_some {s b cc t : List α} (h : lastAt mark p ok s = some (b, cc, t)) :
    ∃ c r, s = b ++ c :: r ∧ markAt mark p ok (c :: r) = some (cc, t) ∧ lastAt mark p ok r = none := by
  induction s generalizing b with
  | nil => cases h
  | cons c s ih =>
    rw [lastAt] at h
    split at h
    · rename_i r hr
      obtain ⟨b', q⟩ := r
      cases h
      obtain ⟨d, q, rfl, hmark, hlast⟩ := ih hr
      exact ⟨d, q, rfl, hmark, hlast⟩
    · rename_i hnone
      obtain ⟨q, hq, he⟩ := Option.map_eq_some_iff.mp h
      cases he
      exact ⟨c, s, rfl, hq, hnone⟩

/-- There is none where there is none here and none further on. -/
theorem lastAt_none_cons {c : α} {s : List α} :
    lastAt mark p ok (c :: s) = none ↔ lastAt mark p ok s = none ∧ markAt mark p ok (c :: s) = none := by
  rw [lastAt]
  cases lastAt mark p ok s <;> simp

/-- No occurrence in a list too short for one. -/
theorem lastAt_short {s : List α} (h : s.length < mark.length + 2) : lastAt mark p ok s = none := by
  induction s with
  | nil => rfl
  | cons c s ih =>
    have hs : s.length < mark.length + 2 := by simp at h; omega
    exact lastAt_none_cons.mpr ⟨ih hs, markAt_length h⟩

/-- Where there is no occurrence in `b ++ s` there is none in `s`. -/
theorem lastAt_none_right {b s : List α} (h : lastAt mark p ok (b ++ s) = none) : lastAt mark p ok s = none := by
  cases hs : lastAt mark p ok s with
  | none => rfl
  | some r => rw [lastAt_append b hs] at h; cases h

/-! ## Nonempty bases -/

/-- The groups of a greedy match. -/
theorem lastMark_some {s base cc t : List α} (h : lastMark mark p ok s = some (base, cc, t)) :
    ∃ c b x y, base = c :: b ∧ cc = [x, y] ∧ s = base ++ (mark ++ x :: y :: t) ∧ p x = true ∧ p y = true ∧
      lastAt mark p ok (b ++ (mark ++ x :: y :: t)) = some (b, [x, y], t) := by
  cases s with
  | nil => cases h
  | cons c s =>
    obtain ⟨⟨b, q⟩, hr, he⟩ := Option.map_eq_some_iff.mp h
    cases he
    obtain ⟨d, r, rfl, hmark, _⟩ := lastAt_some hr
    obtain ⟨x, y, rfl, hdr, hx, hy, _⟩ := markAt_some.mp hmark
    rw [hdr] at hr ⊢
    exact ⟨c, b, x, y, rfl, rfl, rfl, hx, hy, hr⟩

/-- A greedy match whose token ends the text. -/
theorem lastMark_end {c x y : α} {b : List α} (hne : mark ≠ []) (hx : p x = true) (hy : p y = true)
    (ht : ok [] = true) : lastMark mark p ok (c :: b ++ (mark ++ [x, y])) = some (c :: b, [x, y], []) := by
  have hmark : markAt mark p ok (mark ++ [x, y]) = some ([x, y], []) := markAt_here hx hy ht
  obtain ⟨m, rest, rfl⟩ := List.exists_cons_of_ne_nil hne
  have hlast := lastAt_here hmark (lastAt_short (by simp))
  have hall := lastAt_append b hlast
  rw [List.append_nil] at hall
  have hcons : lastMark (m :: rest) p ok (c :: (b ++ (m :: rest ++ [x, y]))) =
      (lastAt (m :: rest) p ok (b ++ (m :: rest ++ [x, y]))).map fun r => (c :: r.1, r.2) := rfl
  rw [List.cons_append, hcons]
  exact congrArg _ hall

/-- The groups of a lazy match. -/
theorem firstMark_some {s base cc t : List α} (h : firstMark mark p ok s = some (base, cc, t)) :
    ∃ c b x y, base = c :: b ∧ cc = [x, y] ∧ s = base ++ (mark ++ x :: y :: t) ∧ p x = true ∧ p y = true ∧
      ok t = true ∧ ∀ b₁ b₂, b = b₁ ++ b₂ → b₂ ≠ [] → markAt mark p ok (b₂ ++ (mark ++ x :: y :: t)) = none := by
  cases s with
  | nil => cases h
  | cons c s =>
    obtain ⟨⟨b, q⟩, hr, he⟩ := Option.map_eq_some_iff.mp h
    cases he
    obtain ⟨r, rfl, hmark, hfirst⟩ := firstAt_some hr
    obtain ⟨x, y, rfl, rfl, hx, hy, ht⟩ := markAt_some.mp hmark
    exact ⟨c, b, x, y, rfl, rfl, rfl, hx, hy, ht, hfirst⟩

/-- A lazy match at the first place where one starts. -/
theorem firstMark_eq {c x y : α} {b t : List α} (hx : p x = true) (hy : p y = true) (ht : ok t = true)
    (hfirst : ∀ b₁ b₂, b = b₁ ++ b₂ → b₂ ≠ [] → markAt mark p ok (b₂ ++ (mark ++ x :: y :: t)) = none) :
    firstMark mark p ok (c :: b ++ (mark ++ x :: y :: t)) = some (c :: b, [x, y], t) := by
  rw [List.cons_append, firstMark, firstAt_append hfirst, firstAt_here (markAt_here hx hy ht)]
  simp

/-- Where no token stands, none with a given tail does. -/
theorem markAt_none_of_any {s : List α} (h : markAt mark p (fun _ => true) s = none) : markAt mark p ok s = none := by
  cases hs : markAt mark p ok s with
  | none => rfl
  | some q =>
    obtain ⟨cc, t⟩ := q
    obtain ⟨x, y, _, rfl, hx, hy, _⟩ := markAt_some.mp hs
    rw [markAt_here hx hy rfl] at h
    cases h

/-- An occurrence does not see past its own length. -/
theorem markAt_none_far {l : List α} (hl : mark.length + 2 ≤ l.length) {z : List α} (z' : List α)
    (h : markAt mark p (fun _ => true) (l ++ z) = none) : markAt mark p (fun _ => true) (l ++ z') = none := by
  cases hs : markAt mark p (fun _ => true) (l ++ z') with
  | none => rfl
  | some q =>
    obtain ⟨cc, t⟩ := q
    obtain ⟨x, y, _, he, hx, hy, _⟩ := markAt_some.mp hs
    have hshort : mark ++ [x, y] ++ t = l ++ z' := by rw [he]; simp
    obtain ⟨d, hd, _⟩ | ⟨d, hd, _⟩ := List.append_eq_append_iff.mp hshort
    · rw [hd, List.append_assoc, List.append_assoc, List.cons_append, List.cons_append,
        markAt_here hx hy rfl] at h
      cases h
    · have hd' := congrArg List.length hd
      simp at hd'
      obtain rfl : d = [] := List.length_eq_zero_iff.mp (by omega)
      rw [List.append_nil] at hd
      rw [← hd, List.append_assoc, List.cons_append, List.cons_append, List.nil_append,
        markAt_here hx hy rfl] at h
      cases h

/-! ## Occurrences in a list of two parts -/

/-- Some token stands behind the marker. -/
def occurs (mark : List α) (p : α → Bool) (s : List α) : Bool := (lastAt mark p (fun _ => true) s).isSome

theorem occurs_cons (c : α) (s : List α) :
    occurs mark p (c :: s) = ((markAt mark p (fun _ => true) (c :: s)).isSome || occurs mark p s) := by
  unfold occurs
  rw [lastAt]
  cases lastAt mark p (fun _ => true) s <;> simp

theorem occurs_false_cons {c : α} {s : List α} :
    occurs mark p (c :: s) = false ↔ markAt mark p (fun _ => true) (c :: s) = none ∧ occurs mark p s = false := by
  rw [occurs_cons, Bool.or_eq_false_iff, Option.isSome_eq_false_iff, Option.isNone_iff_eq_none]

/-- What follows a middle part as long as the marker is not seen from two symbols in
front of that part on; `near` is the case of one symbol. -/
theorem occurs_far {l z z' : List α} (hlen : mark.length ≤ l.length)
    (near : ∀ c, markAt mark p (fun _ => true) (c :: (l ++ z)) = none →
      markAt mark p (fun _ => true) (c :: (l ++ z')) = none)
    {b : List α} (h : occurs mark p (b ++ (l ++ z)) = false) :
    occurs mark p (b ++ (l ++ z')) = occurs mark p (l ++ z') := by
  induction b with
  | nil => rfl
  | cons c b ih =>
    rw [List.cons_append] at h ⊢
    obtain ⟨hhere, hrest⟩ := occurs_false_cons.mp h
    have hfar : markAt mark p (fun _ => true) (c :: (b ++ (l ++ z'))) = none := by
      cases b with
      | nil => exact near c hhere
      | cons d b =>
        rw [show c :: (d :: b ++ (l ++ z)) = (c :: d :: b ++ l) ++ z by simp] at hhere
        rw [show c :: (d :: b ++ (l ++ z')) = (c :: d :: b ++ l) ++ z' by simp]
        exact markAt_none_far (by simp; omega) z' hhere
    rw [occurs_cons, hfar, ih hrest]
    rfl

/-- Whether a marker with its token stands in front of a text does not depend on the two letters that end it. -/
theorem markAt_trailing {m x y x' y' : α} {b : List α} (hm : p m = false) (hx' : p x' = true)
    (hy' : p y' = true) (h : (markAt mark p (fun _ => true) (b ++ [m, x, y])).isSome = true) :
    (markAt mark p (fun _ => true) (b ++ [m, x', y'])).isSome = true := by
  obtain ⟨⟨cc, t⟩, h⟩ := Option.isSome_iff_exists.mp h
  obtain ⟨v, w, rfl, he, hv, hw, _⟩ := markAt_some.mp h
  rcases List.append_eq_append_iff.mp he with ⟨c, rfl, hrest⟩ | ⟨d, rfl, hrest⟩
  · -- the marker ends in the trailing part: right in front of the two symbols
    match c, hrest with
    | [], hrest =>
      cases hrest
      rw [hm] at hv; cases hv
    | [c₀], hrest =>
      cases hrest
      have hhere : markAt (b ++ [m]) p (fun _ => true) (b ++ [m] ++ [x', y']) = some ([x', y'], []) :=
        markAt_here hx' hy' rfl
      rw [List.append_assoc] at hhere
      exact Option.isSome_iff_exists.mpr ⟨_, hhere⟩
    | c₀ :: c₁ :: c, hrest =>
      have hlen := congrArg List.length hrest
      simp at hlen
      omega
  · match d, hrest with
    | [], hrest =>
      cases hrest
      rw [hm] at hv; cases hv
    | [d₀], hrest =>
      cases hrest
      rw [hm] at hw; cases hw
    | d₀ :: d₁ :: d, hrest =>
      cases hrest
      rw [List.append_assoc, List.cons_append, List.cons_append, markAt_here hv hw rfl]
      rfl

/-- Whether the marker occurs does not depend on the two symbols of the class at the
end, when a symbol outside the class stands in front of them. -/
theorem occurs_trailing {m x y x' y' : α} (hne : mark ≠ []) (hm : p m = false) (hx : p x = true)
    (hy : p y = true) (hx' : p x' = true) (hy' : p y' = true) (b : List α) :
    occurs mark p (b ++ [m, x, y]) = occurs mark p (b ++ [m, x', y']) := by
  have hlen := List.length_pos_iff.mpr hne
  have short : ∀ z w, occurs mark p [z, w] = false := fun z w => by
    rw [occurs, lastAt_short (by simp; omega)]
    rfl
  have hmark : ∀ b, (markAt mark p (fun _ => true) (b ++ [m, x, y])).isSome =
      (markAt mark p (fun _ => true) (b ++ [m, x', y'])).isSome := fun b => by
    rw [Bool.eq_iff_iff]
    exact ⟨markAt_trailing hm hx' hy', markAt_trailing hm hx hy⟩
  induction b with
  | nil =>
    have hnil := hmark []
    rw [List.nil_append, List.nil_append] at hnil ⊢
    rw [occurs_cons m, occurs_cons m, hnil, short, short]
  | cons c b ih =>
    have hcons := hmark (c :: b)
    rw [List.cons_append, List.cons_append] at hcons ⊢
    rw [occurs_cons c, occurs_cons c, hcons, ih]

end Marked

end KiloProxy.Text
