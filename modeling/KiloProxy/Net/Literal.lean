import KiloProxy.Text.Kotlin

/-!
# Address literals

The grammars of IPv4 literals, four octets between dots, and of IPv6 literals: groups of up
to four hex digits between colons, eight in all, the last two of which may be written as an
IPv4 literal, or fewer with a gap of two colons for the ones that are zero. Both are
decided by the pieces between the separators.
-/

namespace KiloProxy.Net
set_option autoImplicit false
open KiloProxy.Text

/-! ## IPv4 -/

/-- A number up to 255 in one to three digits; `zeros` is whether it may have leading zeros. -/
structure Octet (zeros : Bool) (o : Str) : Prop where
  length : 1 ≤ o.length ∧ o.length ≤ 3
  digits : ∀ c ∈ o, c.isDigit = true
  value : Nat.ofDigitChars 10 o 0 ≤ 255
  leading : zeros = true ∨ ∀ rest, o = '0' :: rest → rest = []

/-- Four octets between dots. -/
def IPv4Literal (zeros : Bool) (s : Str) : Prop :=
  ∃ os, os.length = 4 ∧ (∀ o ∈ os, Octet zeros o) ∧ s = ['.'].intercalate os

/-! ## IPv6 -/

def isHexDigit (c : Char) : Bool := c.isDigit || ('a' ≤ c && c ≤ 'f') || ('A' ≤ c && c ≤ 'F')

/-- A group of sixteen bits. -/
structure H16 (g : Str) : Prop where
  length : 1 ≤ g.length ∧ g.length ≤ 4
  hex : ∀ c ∈ g, isHexDigit c = true

/-- Groups for `n` times sixteen bits; an IPv4 literal may end them. -/
inductive Groups (zeros : Bool) : List Str → Nat → Prop where
  | nil : Groups zeros [] 0
  | quad {q : Str} : IPv4Literal zeros q → Groups zeros [q] 2
  | cons {g : Str} {gs : List Str} {n : Nat} : H16 g → Groups zeros gs n → Groups zeros (g :: gs) (n + 1)

/-- All eight groups, or some on either side of a gap for at least one. -/
inductive IPv6Literal (zeros : Bool) : Str → Prop where
  | full {gs : List Str} : Groups zeros gs 8 → IPv6Literal zeros ([':'].intercalate gs)
  | gap {ls rs : List Str} {n : Nat} : (∀ g ∈ ls, H16 g) → Groups zeros rs n → ls.length + n ≤ 7 →
    IPv6Literal zeros ([':'].intercalate ls ++ "::".toList ++ [':'].intercalate rs)

/-! ## Pieces -/

/-- Splitting loses nothing. -/
theorem intercalate_split (sep : Char) (s : Str) : [sep].intercalate (split sep s) = s := List.intercalate_splitOn sep

theorem mem_intercalate {sep : Char} {ps : List Str} {c : Char} (h : c ∈ [sep].intercalate ps) :
    c = sep ∨ ∃ p ∈ ps, c ∈ p := by
  induction ps with
  | nil => cases h
  | cons p ps ih =>
    cases ps with
    | nil => exact .inr ⟨p, List.mem_cons_self, by simpa using h⟩
    | cons q ps =>
      rw [List.intercalate_cons_cons, List.mem_append, List.mem_append, List.mem_singleton] at h
      rcases h with (h | h) | h
      · exact .inr ⟨p, List.mem_cons_self, h⟩
      · exact .inl h
      · exact (ih h).imp_right fun ⟨r, hr, hc⟩ => ⟨r, List.mem_cons_of_mem _ hr, hc⟩

theorem intercalate_append (sep : Char) {l m : List Str} (hl : l ≠ []) (hm : m ≠ []) :
    [sep].intercalate (l ++ m) = [sep].intercalate l ++ sep :: [sep].intercalate m := by
  induction l with
  | nil => exact absurd rfl hl
  | cons p l ih =>
    cases l with
    | nil => rw [List.singleton_append, List.intercalate_cons_of_ne_nil hm, List.intercalate_singleton,
        List.append_assoc, List.singleton_append]
    | cons q l =>
      rw [List.cons_append, List.cons_append, List.intercalate_cons_cons, ← List.cons_append, ih (by simp),
        List.intercalate_cons_cons]
      simp only [List.append_assoc]

/-- An octet is digits only. -/
theorem Octet.plain {zeros : Bool} {o : Str} (h : Octet zeros o) {c : Char} (hc : c.isDigit = false) : c ∉ o := by
  intro hmem
  rw [h.digits c hmem] at hc
  cases hc

/-- A group is hexadecimal digits only. -/
theorem H16.plain {g : Str} (h : H16 g) {c : Char} (hc : isHexDigit c = false) : c ∉ g := by
  intro hmem
  rw [h.hex c hmem] at hc
  cases hc

theorem H16.ne_nil {g : Str} (h : H16 g) : g ≠ [] := by
  rintro rfl
  exact absurd h.length.1 (by decide)

/-- The octets are the pieces between the dots. -/
theorem ipv4Literal_iff {zeros : Bool} {s : Str} :
    IPv4Literal zeros s ↔ (split '.' s).length = 4 ∧ ∀ o ∈ split '.' s, Octet zeros o := by
  constructor
  · rintro ⟨os, hlen, hos, rfl⟩
    have hsplit : split '.' (['.'].intercalate os) = os := by
      refine List.splitOn_intercalate '.' (fun o ho => (hos o ho).plain (by decide)) ?_
      rintro rfl
      cases hlen
    rw [hsplit]
    exact ⟨hlen, hos⟩
  · rintro ⟨hlen, hos⟩
    exact ⟨split '.' s, hlen, hos, (intercalate_split '.' s).symm⟩

theorem IPv4Literal.chars {zeros : Bool} {s : Str} (h : IPv4Literal zeros s) :
    ∀ c ∈ s, c.isDigit = true ∨ c = '.' := by
  obtain ⟨os, _, hos, rfl⟩ := h
  intro c hc
  rcases mem_intercalate hc with rfl | ⟨o, ho, hmem⟩
  · exact .inr rfl
  · exact .inl ((hos o ho).digits c hmem)

/-- An IPv4 literal has a dot, and so is no group of an IPv6 one. -/
theorem IPv4Literal.dot {zeros : Bool} {s : Str} (h : IPv4Literal zeros s) : '.' ∈ s := by
  obtain ⟨os, hlen, _, rfl⟩ := h
  match os, hlen with
  | [a, b, c, d], _ => simp [List.intercalate_cons_cons]

/-- What a dot adds to the width of the last group. -/
def dots (g : Str) : Nat := if '.' ∈ g then 1 else 0

/-- A group adds nothing to the number of pieces. -/
theorem H16.dots {g : Str} (h : H16 g) : dots g = 0 := if_neg (h.plain (by decide))

/-- An IPv4 literal stands for one group more. -/
theorem IPv4Literal.dots {zeros : Bool} {q : Str} (h : IPv4Literal zeros q) : dots q = 1 := if_pos h.dot

/-- Groups by their last one. -/
theorem groups_iff {zeros : Bool} {gs : List Str} {n : Nat} :
    Groups zeros gs n ↔ gs = [] ∧ n = 0 ∨ ∃ xs b, gs = xs ++ [b] ∧ (∀ x ∈ xs, H16 x) ∧
      (H16 b ∨ IPv4Literal zeros b) ∧ n = gs.length + dots b := by
  constructor
  · intro h
    induction h with
    | nil => exact .inl ⟨rfl, rfl⟩
    | quad hq => exact .inr ⟨[], _, rfl, fun x hx => absurd hx List.not_mem_nil, .inr hq, by rw [hq.dots]; rfl⟩
    | @cons g gs n hg _ ih =>
      rcases ih with ⟨rfl, rfl⟩ | ⟨xs, b, rfl, hxs, hb, rfl⟩
      · exact .inr ⟨[], g, rfl, fun x hx => absurd hx List.not_mem_nil, .inl hg, by rw [hg.dots]; rfl⟩
      · refine .inr ⟨g :: xs, b, rfl, fun x hx => ?_, hb, ?_⟩
        · rcases List.mem_cons.mp hx with rfl | hx
          · exact hg
          · exact hxs x hx
        · simp only [List.length_cons]
          omega
  · rintro (⟨rfl, rfl⟩ | ⟨xs, b, rfl, hxs, hb, rfl⟩)
    · exact .nil
    · induction xs with
      | nil =>
        rcases hb with hb | hb
        · rw [hb.dots]
          exact .cons hb .nil
        · rw [hb.dots]
          exact .quad hb
      | cons x xs ih =>
        have hrest := ih fun y hy => hxs y (List.mem_cons_of_mem _ hy)
        have hwidth : (x :: xs ++ [b]).length + dots b = (xs ++ [b]).length + dots b + 1 := by
          simp only [List.cons_append, List.length_cons]
          omega
        rw [hwidth]
        exact .cons (hxs x List.mem_cons_self) hrest

/-- Groups hold neither the separator nor anything else but digits and dots. -/
theorem Groups.plain {zeros : Bool} {gs : List Str} {n : Nat} (h : Groups zeros gs n) {c : Char}
    (hhex : isHexDigit c = false) (hdot : c ≠ '.') : ∀ g ∈ gs, c ∉ g := by
  have hdigit : c.isDigit ≠ true := by
    intro hd
    rw [isHexDigit, hd, Bool.true_or, Bool.true_or] at hhex
    cases hhex
  induction h with
  | nil => exact fun g hg => absurd hg List.not_mem_nil
  | quad hq =>
    intro g hg hc
    obtain rfl := List.mem_singleton.mp hg
    rcases hq.chars c hc with hd | hd
    · exact hdigit hd
    · exact hdot hd
  | cons hg' _ ih =>
    intro g hg
    rcases List.mem_cons.mp hg with rfl | hg
    · exact hg'.plain hhex
    · exact ih g hg

/-- The pieces on one side of a gap: nothing leaves an empty one. -/
def side (gs : List Str) : List Str := if gs = [] then [[]] else gs

theorem side_of_ne {gs : List Str} (h : gs ≠ []) : side gs = gs := if_neg h

theorem side_ne_nil (gs : List Str) : side gs ≠ [] := by
  unfold side
  split
  · exact List.cons_ne_nil _ _
  · assumption

/-- A side of a gap is written like its groups. -/
theorem intercalate_side (gs : List Str) : [':'].intercalate (side gs) = [':'].intercalate gs := by
  unfold side
  split
  · rename_i h
    rw [h]
    rfl
  · rfl

/-- The pieces of a text with a gap: an empty one between the two sides. -/
theorem intercalate_gap (ls rs : List Str) :
    [':'].intercalate ls ++ "::".toList ++ [':'].intercalate rs = [':'].intercalate (side ls ++ [] :: side rs) := by
  rw [intercalate_append ':' (side_ne_nil ls) (List.cons_ne_nil _ _),
    List.intercalate_cons_of_ne_nil (side_ne_nil rs), intercalate_side, intercalate_side]
  simp only [List.append_assoc, List.nil_append]
  rfl

/-- An IPv6 literal by the pieces between the colons. -/
theorem ipv6Literal_iff_pieces {zeros : Bool} {s : Str} :
    IPv6Literal zeros s ↔ Groups zeros (split ':' s) 8 ∨
      ∃ ls rs n, split ':' s = side ls ++ [] :: side rs ∧ (∀ g ∈ ls, H16 g) ∧ Groups zeros rs n ∧
        ls.length + n ≤ 7 := by
  have hcolon : isHexDigit ':' = false := by decide
  constructor
  · intro h
    cases h with
    | @full gs hgs =>
      have hne : gs ≠ [] := by
        rintro rfl
        cases hgs
      have hsplit : split ':' ([':'].intercalate gs) = gs :=
        List.splitOn_intercalate ':' (hgs.plain hcolon (by decide)) hne
      rw [hsplit]
      exact .inl hgs
    | @gap ls rs n hls hrs hle =>
      refine .inr ⟨ls, rs, n, ?_, hls, hrs, hle⟩
      rw [intercalate_gap]
      refine List.splitOn_intercalate ':' (fun p hp => ?_) (by simp)
      have hside : ∀ gs : List Str, (∀ g ∈ gs, ':' ∉ g) → ∀ g ∈ side gs, ':' ∉ g := by
        intro gs hgs g hg
        unfold side at hg
        split at hg
        · rw [List.mem_singleton.mp hg]
          exact List.not_mem_nil
        · exact hgs g hg
      rcases List.mem_append.mp hp with hp | hp
      · exact hside ls (fun g hg => (hls g hg).plain hcolon) p hp
      · rcases List.mem_cons.mp hp with rfl | hp
        · exact List.not_mem_nil
        · exact hside rs (hrs.plain hcolon (by decide)) p hp
  · rintro (h | ⟨ls, rs, n, hsplit, hls, hrs, hle⟩)
    · rw [← intercalate_split ':' s]
      exact .full h
    · rw [← intercalate_split ':' s]
      rw [hsplit, ← intercalate_gap]
      exact .gap hls hrs hle

/-! ## The form of the pieces -/

/-- The pieces that are not empty. -/
def nonempty (ps : List Str) : List Str := ps.filter fun p => p ≠ []

theorem nonempty_append (ps qs : List Str) : nonempty (ps ++ qs) = nonempty ps ++ nonempty qs := List.filter_append ..

theorem nonempty_gap (ps qs : List Str) : nonempty (ps ++ [] :: qs) = nonempty ps ++ nonempty qs := by
  rw [nonempty_append]
  rfl

theorem nonempty_eq {ps : List Str} (h : ∀ p ∈ ps, p ≠ []) : nonempty ps = ps :=
  List.filter_eq_self.mpr fun p hp => decide_eq_true (h p hp)

/-- What the first piece, the last one and those between them are in a literal: groups of hex
digits, an IPv4 literal only at the end; no colon alone at either end; one gap at most, and with
it fewer than eight groups, else eight. -/
structure ColonForm (zeros : Bool) (front : Str) (middle : List Str) (back : Str) : Prop where
  groups : ∀ p ∈ front :: middle, p = [] ∨ H16 p
  last : back = [] ∨ H16 back ∨ IPv4Literal zeros back
  frontGap : front = [] → middle.head? = some []
  backGap : back = [] → middle.getLast? = some []
  oneGap : middle.count [] ≤ 1
  width : if [] ∈ middle then (nonempty (front :: (middle ++ [back]))).length + dots back ≤ 7
    else (nonempty (front :: (middle ++ [back]))).length + dots back = 8

/-- One side of a gap from its groups. -/
theorem left_side {ls : List Str} (h : ∀ g ∈ ls, H16 g) :
    ∃ f l, side ls = f :: l ∧ (f = [] ∧ l = [] ∨ ∀ p ∈ f :: l, H16 p) ∧
      (nonempty (f :: l)).length = ls.length := by
  cases ls with
  | nil => exact ⟨[], [], rfl, .inl ⟨rfl, rfl⟩, rfl⟩
  | cons f l => exact ⟨f, l, rfl, .inr h, congrArg List.length (nonempty_eq fun p hp => (h p hp).ne_nil)⟩

/-- The pieces in front of a gap are groups. -/
theorem of_left_side {f : Str} {l : List Str} (h : f = [] ∧ l = [] ∨ ∀ p ∈ f :: l, H16 p) :
    ∃ ls, side ls = f :: l ∧ (∀ g ∈ ls, H16 g) ∧ (nonempty (f :: l)).length = ls.length := by
  rcases h with ⟨rfl, rfl⟩ | h
  · exact ⟨[], rfl, fun g hg => absurd hg List.not_mem_nil, rfl⟩
  · exact ⟨f :: l, rfl, h, congrArg List.length (nonempty_eq fun p hp => (h p hp).ne_nil)⟩

theorem last_ne_nil {zeros : Bool} {b : Str} (h : H16 b ∨ IPv4Literal zeros b) : b ≠ [] := by
  rcases h with h | h
  · exact h.ne_nil
  · rintro rfl
    exact absurd h.dot List.not_mem_nil

theorem nonempty_groups {zeros : Bool} {r : List Str} {b : Str} (hr : ∀ p ∈ r, H16 p)
    (hb : H16 b ∨ IPv4Literal zeros b) : nonempty (r ++ [b]) = r ++ [b] := by
  refine nonempty_eq fun p hp => ?_
  rcases List.mem_append.mp hp with hp | hp
  · exact (hr p hp).ne_nil
  · rw [List.mem_singleton.mp hp]
    exact last_ne_nil hb

/-- Behind a gap there is nothing, or groups with a last one that may be an IPv4 literal. -/
theorem right_side {zeros : Bool} {rs : List Str} {n : Nat} (h : Groups zeros rs n) :
    ∃ r b, side rs = r ++ [b] ∧ (b = [] ∧ r = [] ∨ (∀ p ∈ r, H16 p) ∧ (H16 b ∨ IPv4Literal zeros b)) ∧
      (nonempty (r ++ [b])).length + dots b = n := by
  rcases groups_iff.mp h with ⟨rfl, rfl⟩ | ⟨r, b, rfl, hr, hb, rfl⟩
  · exact ⟨[], [], rfl, .inl ⟨rfl, rfl⟩, rfl⟩
  · exact ⟨r, b, side_of_ne (by simp), .inr ⟨hr, hb⟩, by rw [nonempty_groups hr hb]⟩

/-- Groups, with a last one that may be an IPv4 literal, or nothing, make the side behind a gap. -/
theorem of_right_side {zeros : Bool} {r : List Str} {b : Str}
    (h : b = [] ∧ r = [] ∨ (∀ p ∈ r, H16 p) ∧ (H16 b ∨ IPv4Literal zeros b)) :
    ∃ rs, side rs = r ++ [b] ∧ Groups zeros rs ((nonempty (r ++ [b])).length + dots b) := by
  rcases h with ⟨rfl, rfl⟩ | ⟨hr, hb⟩
  · exact ⟨[], rfl, .nil⟩
  · refine ⟨r ++ [b], side_of_ne (by simp), groups_iff.mpr (.inr ⟨r, b, rfl, hr, hb, ?_⟩)⟩
    rw [nonempty_groups hr hb]

/-- The pieces of a gap, by the first, the last and those between. -/
theorem gap_pieces {front back f b : Str} {middle l r : List Str} :
    front :: (middle ++ [back]) = f :: l ++ [] :: (r ++ [b]) ↔ front = f ∧ middle = l ++ [] :: r ∧ back = b := by
  have hright : l ++ [] :: (r ++ [b]) = (l ++ [] :: r) ++ [b] := by simp
  rw [List.cons_append, List.cons.injEq, hright]
  constructor
  · rintro ⟨hfront, hrest⟩
    obtain ⟨hmiddle, hback⟩ := List.append_inj' hrest rfl
    exact ⟨hfront, hmiddle, (List.cons.inj hback).1⟩
  · rintro ⟨rfl, rfl, rfl⟩
    exact ⟨rfl, rfl⟩

/-- Eight groups have the form. -/
theorem ColonForm.of_full {zeros : Bool} {front back : Str} {middle : List Str}
    (h : Groups zeros (front :: (middle ++ [back])) 8) : ColonForm zeros front middle back := by
  rcases groups_iff.mp h with ⟨hnil, _⟩ | ⟨xs, b, hsplit, hxs, hb, hwidth⟩
  · cases hnil
  · obtain ⟨rfl, hb'⟩ := List.append_inj' (show (front :: middle) ++ [back] = xs ++ [b] from hsplit) rfl
    obtain rfl := (List.cons.inj hb').1
    have hmiddle : [] ∉ middle := fun hmem => (hxs [] (List.mem_cons_of_mem _ hmem)).ne_nil rfl
    have hall : nonempty (front :: (middle ++ [back])) = front :: (middle ++ [back]) := nonempty_groups hxs hb
    refine ⟨fun p hp => .inr (hxs p hp), .inr hb, fun he => ?_, fun he => absurd he (last_ne_nil hb), ?_, ?_⟩
    · exact absurd he (hxs front List.mem_cons_self).ne_nil
    · rw [List.count_eq_zero.mpr hmiddle]
      exact Nat.zero_le 1
    · rw [if_neg hmiddle, hall]
      exact hwidth.symm

/-- Seven groups at most, with one gap, have the form. -/
theorem ColonForm.of_gap {zeros : Bool} {front back : Str} {middle ls rs : List Str} {n : Nat}
    (hsplit : front :: (middle ++ [back]) = side ls ++ [] :: side rs) (hls : ∀ g ∈ ls, H16 g)
    (hrs : Groups zeros rs n) (hle : ls.length + n ≤ 7) : ColonForm zeros front middle back := by
  obtain ⟨f, l, hleft, hl, hlenl⟩ := left_side hls
  obtain ⟨r, b, hright, hr, hlenr⟩ := right_side hrs
  rw [hleft, hright] at hsplit
  obtain ⟨rfl, rfl, rfl⟩ := gap_pieces.mp hsplit
  have hcountl : l.count [] = 0 := by
    rcases hl with ⟨_, rfl⟩ | hl
    · rfl
    · exact List.count_eq_zero.mpr fun hmem => (hl [] (List.mem_cons_of_mem _ hmem)).ne_nil rfl
  have hcountr : r.count [] = 0 := by
    rcases hr with ⟨_, rfl⟩ | hr
    · rfl
    · exact List.count_eq_zero.mpr fun hmem => (hr.1 [] hmem).ne_nil rfl
  refine ⟨fun p hp => ?_, ?_, fun he => ?_, fun he => ?_, ?_, ?_⟩
  · rw [← List.cons_append] at hp
    rcases List.mem_append.mp hp with hp | hp
    · rcases hl with ⟨rfl, rfl⟩ | hl
      · exact .inl (List.mem_singleton.mp hp)
      · exact .inr (hl p hp)
    · rcases List.mem_cons.mp hp with rfl | hp
      · exact .inl rfl
      · rcases hr with ⟨_, rfl⟩ | hr
        · cases hp
        · exact .inr (hr.1 p hp)
  · exact hr.imp (fun h => h.1) fun h => h.2
  · rcases hl with ⟨_, rfl⟩ | hl
    · rfl
    · exact absurd he (hl front List.mem_cons_self).ne_nil
  · rcases hr with ⟨_, rfl⟩ | hr
    · exact List.getLast?_concat
    · exact absurd he (last_ne_nil hr.2)
  · rw [List.count_append, List.count_cons_self, hcountl, hcountr]
  · have hpieces : front :: (l ++ [] :: r ++ [back]) = (front :: l) ++ [] :: (r ++ [back]) := by simp
    rw [if_pos (List.mem_append_right l List.mem_cons_self), hpieces, nonempty_gap, List.length_append]
    omega

/-- Without an empty piece in the middle the form is eight groups. -/
theorem ColonForm.full {zeros : Bool} {front back : Str} {middle : List Str}
    (h : ColonForm zeros front middle back) (hmiddle : [] ∉ middle) :
    Groups zeros (front :: (middle ++ [back])) 8 := by
  have hfront : front ≠ [] := fun he => hmiddle (List.mem_of_mem_head? (h.frontGap he))
  have hback : back ≠ [] := fun he => hmiddle (List.mem_of_mem_getLast? (h.backGap he))
  have hgroups : ∀ p ∈ front :: middle, H16 p := by
    intro p hp
    refine (h.groups p hp).resolve_left ?_
    rintro rfl
    rcases List.mem_cons.mp hp with he | hp
    · exact hfront he.symm
    · exact hmiddle hp
  have hlast := h.last.resolve_left hback
  have hwidth := h.width
  rw [if_neg hmiddle] at hwidth
  have hall : nonempty (front :: (middle ++ [back])) = front :: (middle ++ [back]) := nonempty_groups hgroups hlast
  rw [hall] at hwidth
  exact groups_iff.mpr (.inr ⟨front :: middle, back, rfl, hgroups, hlast, hwidth.symm⟩)

/-- With an empty piece in the middle the form is groups on both sides of a gap, seven at most. -/
theorem ColonForm.gap {zeros : Bool} {front back : Str} {middle : List Str}
    (h : ColonForm zeros front middle back) (hmiddle : [] ∈ middle) :
    ∃ ls rs n, front :: (middle ++ [back]) = side ls ++ [] :: side rs ∧ (∀ g ∈ ls, H16 g) ∧ Groups zeros rs n ∧
      ls.length + n ≤ 7 := by
  obtain ⟨l, r, rfl⟩ := List.append_of_mem hmiddle
  -- no other piece in the middle is empty
  have hcount := h.oneGap
  rw [List.count_append, List.count_cons_self] at hcount
  have hl : [] ∉ l := List.count_eq_zero.mp (by omega)
  have hr : [] ∉ r := List.count_eq_zero.mp (by omega)
  have hleft : front = [] ∧ l = [] ∨ ∀ p ∈ front :: l, H16 p := by
    by_cases hfront : front = []
    · have hhead := h.frontGap hfront
      cases l with
      | nil => exact .inl ⟨hfront, rfl⟩
      | cons x l =>
        obtain rfl := Option.some.inj hhead
        exact absurd List.mem_cons_self hl
    · refine .inr fun p hp => ?_
      rcases List.mem_cons.mp hp with rfl | hp
      · exact (h.groups p List.mem_cons_self).resolve_left hfront
      · have hgroup := h.groups p (List.mem_cons_of_mem _ (List.mem_append_left _ hp))
        exact hgroup.resolve_left fun he => hl (he ▸ hp)
  have hright : back = [] ∧ r = [] ∨ (∀ p ∈ r, H16 p) ∧ (H16 back ∨ IPv4Literal zeros back) := by
    by_cases hback : back = []
    · have hlast := h.backGap hback
      rcases List.eq_nil_or_concat r with rfl | ⟨r, x, rfl⟩
      · exact .inl ⟨hback, rfl⟩
      · rw [List.concat_eq_append, ← List.cons_append, ← List.append_assoc, List.getLast?_concat] at hlast
        obtain rfl := Option.some.inj hlast
        exact absurd (by simp) hr
    · refine .inr ⟨fun p hp => ?_, h.last.resolve_left hback⟩
      have hmem : p ∈ l ++ [] :: r := List.mem_append_right _ (List.mem_cons_of_mem _ hp)
      exact (h.groups p (List.mem_cons_of_mem _ hmem)).resolve_left fun he => hr (he ▸ hp)
  obtain ⟨ls, hls, hlsgroups, hlslen⟩ := of_left_side hleft
  obtain ⟨rs, hrs, hrsgroups⟩ := of_right_side hright
  refine ⟨ls, rs, _, ?_, hlsgroups, hrsgroups, ?_⟩
  · rw [hls, hrs]
    exact gap_pieces.mpr ⟨rfl, rfl, rfl⟩
  · have hpieces : front :: (l ++ [] :: r ++ [back]) = (front :: l) ++ [] :: (r ++ [back]) := by simp
    have hwidth := h.width
    rw [if_pos hmiddle, hpieces, nonempty_gap, List.length_append] at hwidth
    omega

/-- **The grammar by the form of the pieces.** -/
theorem ipv6Literal_iff {zeros : Bool} {s : Str} : IPv6Literal zeros s ↔
    ∃ front middle back, split ':' s = front :: (middle ++ [back]) ∧ ColonForm zeros front middle back := by
  rw [ipv6Literal_iff_pieces]
  constructor
  · rintro (hfull | ⟨ls, rs, n, hsplit, hls, hrs, hle⟩)
    · rcases groups_iff.mp hfull with ⟨_, h⟩ | ⟨xs, back, hsplit, _, _, hwidth⟩
      · cases h
      · cases xs with
        | nil =>
          -- one group is too few
          rw [hsplit, List.nil_append, List.length_singleton, dots] at hwidth
          split at hwidth <;> omega
        | cons front middle =>
          rw [hsplit] at hfull
          exact ⟨front, middle, back, hsplit, .of_full hfull⟩
    · obtain ⟨f, l, hleft, _, _⟩ := left_side hls
      obtain ⟨r, b, hright, _, _⟩ := right_side hrs
      have hpieces : f :: (l ++ [] :: r ++ [b]) = side ls ++ [] :: side rs := by
        rw [hleft, hright]
        exact gap_pieces.mpr ⟨rfl, rfl, rfl⟩
      exact ⟨f, l ++ [] :: r, b, hsplit.trans hpieces.symm, .of_gap hpieces hls hrs hle⟩
  · rintro ⟨front, middle, back, hsplit, hform⟩
    rw [hsplit]
    by_cases hmiddle : [] ∈ middle
    · exact .inr (hform.gap hmiddle)
    · exact .inl (hform.full hmiddle)

end KiloProxy.Net
