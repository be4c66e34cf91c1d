import KiloProxy.Text.Marked

/-!
# Where a marker cannot start

`NoStart mark w s` says that no occurrence of the marker starts in `w` when `s` follows.
It splits over the parts of `w`; a part without the first symbol of the marker has no
start, and neither has a part that does not hold the marker less its last symbol, unless
two symbols or more of the marker reach into what follows (`noStart_of_stem`).
-/

namespace KiloProxy.Text
set_option autoImplicit false

section Starts

variable {α : Type}

def NoStart (mark w s : List α) : Prop := ∀ w₁ w₂, w = w₁ ++ w₂ → w₂ ≠ [] → ¬ mark <+: w₂ ++ s

theorem noStart_nil (mark s : List α) : NoStart mark [] s := by
  intro w₁ w₂ he hne
  exact absurd (List.append_eq_nil_iff.mp he.symm).2 hne

/-- No marker starts in a text when none starts at its first character or behind it. -/
theorem noStart_cons {mark w s : List α} {c : α} :
    NoStart mark (c :: w) s ↔ ¬ mark <+: c :: (w ++ s) ∧ NoStart mark w s := by
  constructor
  · intro h
    refine ⟨h [] (c :: w) rfl (by simp), fun w₁ w₂ he hne => ?_⟩
    exact h (c :: w₁) w₂ (by rw [he]; rfl) hne
  · rintro ⟨hhere, hrest⟩ w₁ w₂ he hne
    cases w₁ with
    | nil =>
      rw [List.nil_append] at he
      rw [← he]
      exact hhere
    | cons d w₁ => exact hrest w₁ w₂ (List.cons.inj he).2 hne

/-- No marker starts in a text when none starts in either part of it. -/
theorem noStart_append {mark w w' s : List α} :
    NoStart mark (w ++ w') s ↔ NoStart mark w (w' ++ s) ∧ NoStart mark w' s := by
  induction w with
  | nil => exact ⟨fun h => ⟨noStart_nil _ _, h⟩, fun h => h.2⟩
  | cons c w ih => rw [List.cons_append, noStart_cons, ih, noStart_cons, List.append_assoc, and_assoc]

/-- A part that does not hold the marker's first symbol. -/
theorem noStart_of_head {m : α} {mark w s : List α} (h : m ∉ w) : NoStart (m :: mark) w s := by
  rintro w₁ w₂ rfl hne ⟨t, ht⟩
  obtain ⟨c, w₂, rfl⟩ := List.exists_cons_of_ne_nil hne
  obtain ⟨rfl, _⟩ := List.cons.inj ht
  exact h (List.mem_append_right _ List.mem_cons_self)

/-- A part that does not hold the marker less its last symbol. -/
theorem noStart_of_stem {mark w s : List α} (hstem : ¬ mark.dropLast <:+: w)
    (hcross : ∀ q p, mark = q ++ p → q ≠ [] → 2 ≤ p.length → ¬ p <+: s) : NoStart mark w s := by
  rintro w₁ w₂ rfl hne ⟨t, ht⟩
  have hin : ∀ r, mark.dropLast <+: r → r <:+: w₁ ++ w₂ → False := fun r hr hw => hstem (hr.isInfix.trans hw)
  have hw₂ : w₂ <:+: w₁ ++ w₂ := (List.suffix_append w₁ w₂).isInfix
  rcases List.append_eq_append_iff.mp ht with ⟨r, hr, _⟩ | ⟨p, hp, hs⟩
  · rw [hr] at hw₂ hin
    exact hin _ ((List.dropLast_prefix mark).trans (List.prefix_append mark r)) hw₂
  · by_cases hlong : 2 ≤ p.length
    · exact hcross w₂ p hp hne hlong ⟨t, hs.symm⟩
    · match p, hlong with
      | [], _ =>
        rw [List.append_nil] at hp
        exact hin w₂ (hp ▸ List.dropLast_prefix mark) hw₂
      | [x], _ =>
        rw [hp, List.dropLast_concat] at hin
        exact hin w₂ (List.prefix_refl _) hw₂
      | _ :: _ :: _, hlong => exact absurd (by simp) hlong

/-- A part that does not hold the marker, not even with the symbol behind it. -/
theorem noStart_of_next {mark w s : List α} {a : α} (hin : ¬ mark <:+: w ++ [a])
    (hcross : ∀ q p, mark = q ++ p → q ≠ [] → 2 ≤ p.length → ¬ p <+: a :: s) : NoStart mark w (a :: s) := by
  rintro w₁ w₂ rfl hne ⟨t, ht⟩
  rcases List.append_eq_append_iff.mp ht with ⟨r, rfl, _⟩ | ⟨p, hp, hs⟩
  · exact hin ⟨w₁, r ++ [a], by simp⟩
  · match p, hs with
    | [], _ => exact hin ⟨w₁, [a], by rw [hp, List.append_nil]⟩
    | [x], hs =>
      obtain ⟨rfl, _⟩ := List.cons.inj hs
      exact hin ⟨w₁, [], by rw [hp, List.append_nil, List.append_assoc]⟩
    | x :: y :: p, hs => exact hcross w₂ (x :: y :: p) hp hne (by simp) ⟨t, hs.symm⟩

/-- A text without one of the marker's symbols. -/
theorem noStart_of_mem {mark w s : List α} {c : α} (hc : c ∈ mark) (h : c ∉ w ++ s) : NoStart mark w s := by
  rintro w₁ w₂ rfl _ hp
  apply h
  rw [List.append_assoc]
  exact List.mem_append_right _ (hp.subset hc)

/-- A marker in front of a text does not reach into it when the first character is in no marker. -/
theorem cross_of_head {mark s : List α} (h : ∀ c ∈ s.head?, c ∉ mark) :
    ∀ q p, mark = q ++ p → q ≠ [] → 2 ≤ p.length → ¬ p <+: s := by
  rintro q p rfl _ hlong ⟨t, rfl⟩
  cases p with
  | nil => simp at hlong
  | cons c p => exact h c rfl (List.mem_append_right q List.mem_cons_self)

/-- No end of the marker, of two symbols or more, begins with `x` and `y`. -/
def crossFree [DecidableEq α] (mark : List α) (x y : α) : Bool :=
  (List.range mark.length).all fun k => k == 0 || (mark.drop k).take 2 != [x, y]

/-- For two known characters this is checked once and for all. -/
theorem cross_of_crossFree [DecidableEq α] {mark s : List α} {x y : α} (h : crossFree mark x y = true) :
    ∀ q p, mark = q ++ p → q ≠ [] → 2 ≤ p.length → ¬ p <+: x :: y :: s := by
  rintro q p rfl hq hlong ⟨t, ht⟩
  match p, hlong with
  | a :: b :: p, _ =>
    rw [List.cons_append, List.cons_append] at ht
    obtain ⟨rfl, hb⟩ := List.cons.inj ht
    obtain ⟨rfl, _⟩ := List.cons.inj hb
    have hk := List.all_eq_true.mp h q.length (by simp)
    rw [List.drop_left, Bool.or_eq_true, beq_iff_eq, bne_iff_ne] at hk
    rcases hk with hk | hk
    · exact hq (List.length_eq_zero_iff.mp hk)
    · exact hk rfl

/-- With one more symbol behind the marker that is not `y`. -/
theorem cross_concat [DecidableEq α] {mark s : List α} {x y d : α} (h : crossFree mark x y = true) (hd : d ≠ y) :
    ∀ q p, mark ++ [d] = q ++ p → q ≠ [] → 2 ≤ p.length → ¬ p <+: x :: y :: s := by
  intro q p he hq hlong hp
  have hne : p ≠ [] := fun hnil => by
    rw [hnil] at hlong
    simp at hlong
  obtain ⟨r, e, rfl⟩ : ∃ r e, p = r ++ [e] := ⟨p.dropLast, p.getLast hne, (List.dropLast_append_getLast hne).symm⟩
  rw [← List.append_assoc] at he
  obtain ⟨hmark, hlast⟩ := List.append_inj' he rfl
  obtain ⟨rfl, _⟩ := List.cons.inj hlast
  by_cases htwo : 2 ≤ r.length
  · exact cross_of_crossFree h q r hmark hq htwo ((List.prefix_append r [d]).trans hp)
  · match r, htwo with
    | [], _ => simp at hlong
    | [a], _ =>
      obtain ⟨t, ht⟩ := hp
      exact hd (List.cons.inj (List.cons.inj ht).2).1
    | _ :: _ :: _, htwo => exact htwo (by simp)

/-! ## What follows from it -/

section Tokens

variable [DecidableEq α] {mark w s : List α} {p : α → Bool} {ok : List α → Bool}

theorem markAt_of_not_prefix (h : ¬ mark <+: s) : markAt mark p ok s = none := by
  rw [markAt, if_neg fun hp => h (List.isPrefixOf_iff_prefix.mp hp)]

/-- No token starts there either. -/
theorem NoStart.markAt (h : NoStart mark w s) {w₁ w₂ : List α} (he : w = w₁ ++ w₂) (hne : w₂ ≠ []) :
    markAt mark p ok (w₂ ++ s) = none := markAt_of_not_prefix (h w₁ w₂ he hne)

/-- Where none starts the search passes on to the rest. -/
theorem NoStart.lastAt (h : NoStart mark w s) (hs : lastAt mark p ok s = none) : lastAt mark p ok (w ++ s) = none := by
  induction w with
  | nil => exact hs
  | cons c w ih =>
    obtain ⟨hhere, hrest⟩ := noStart_cons.mp h
    exact lastAt_none_cons.mpr ⟨ih hrest, markAt_of_not_prefix hhere⟩

/-- Where none starts the test passes on to the rest. -/
theorem NoStart.occurs (h : NoStart mark w s) : occurs mark p (w ++ s) = occurs mark p s := by
  induction w with
  | nil => rfl
  | cons c w ih =>
    obtain ⟨hhere, hrest⟩ := noStart_cons.mp h
    rw [List.cons_append, occurs_cons, markAt_of_not_prefix hhere, ih hrest]
    rfl

/-- A token that has no room behind the marker. -/
theorem markAt_short_end (hstem : ¬ mark.dropLast <:+: w) (hne : mark ≠ []) (hs : s.length ≤ 3) :
    markAt mark p ok (w ++ s) = none := by
  cases hm : markAt mark p ok (w ++ s) with
  | none => rfl
  | some r =>
    obtain ⟨cc, t⟩ := r
    obtain ⟨x, y, _, he, _⟩ := markAt_some.mp hm
    -- at most the last symbol of the marker is outside `w`
    have hsplit : mark.dropLast ++ (mark.getLast hne :: x :: y :: t) = w ++ s := by
      rw [he, ← List.singleton_append, ← List.append_assoc, List.dropLast_append_getLast hne]
    rcases List.append_eq_append_iff.mp hsplit with ⟨r, hr, _⟩ | ⟨r, hr, hrest⟩
    · exact absurd (hr ▸ (List.prefix_append mark.dropLast r).isInfix) hstem
    · have hlen := congrArg List.length hrest
      simp only [List.length_append, List.length_cons] at hlen
      obtain rfl : r = [] := List.length_eq_zero_iff.mp (by omega)
      rw [List.append_nil] at hr
      exact absurd (hr ▸ List.infix_refl _) hstem

/-- Three characters behind a text without the stem of a marker do not make one. -/
theorem occurs_short_end (hstem : ¬ mark.dropLast <:+: w) (hlong : 2 ≤ mark.length) (hs : s.length ≤ 3) :
    occurs mark p (w ++ s) = false := by
  have hne : mark ≠ [] := fun he => by
    rw [he, List.length_nil] at hlong
    omega
  induction w with
  | nil =>
    rw [List.nil_append, Text.occurs, lastAt_short (by omega)]
    rfl
  | cons c w ih =>
    have hrest : ¬ mark.dropLast <:+: w := fun h => hstem (h.trans (List.suffix_cons c w).isInfix)
    exact occurs_false_cons.mpr ⟨markAt_short_end hstem hne hs, ih hrest⟩

end Tokens

end Starts

end KiloProxy.Text
