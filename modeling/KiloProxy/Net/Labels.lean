import Mathlib.Data.List.Basic
import Mathlib.Data.List.TakeDrop
import Mathlib.Data.List.Infix

/-!
# Names as labels

A name is its labels, each written after a byte with its length, and a zero byte ends it. Two
labels are the same if they are but for the case of letters; how many labels two names have in
common at their ends is found from behind.

A `Name` carries that its labels have 1 to 63 bytes and that it fits in 256 bytes, as every
name does that a decoder lets through; the bounds on the number of labels and on the loops
over them follow from this.
-/

namespace KiloProxy.Net
set_option autoImplicit false

/-! ## In common -/

section InCommon

variable {β : Type} [DecidableEq β]

/-- How many elements two lists have in common at their beginnings. -/
def inCommon : List β → List β → Nat
  | x :: xs, y :: ys => if x = y then inCommon xs ys + 1 else 0
  | _, _ => 0

theorem inCommon_le (xs ys : List β) : inCommon xs ys ≤ xs.length ∧ inCommon xs ys ≤ ys.length := by
  fun_induction inCommon xs ys with
  | case1 x xs ys ih => exact ⟨Nat.succ_le_succ ih.1, Nat.succ_le_succ ih.2⟩
  | case2 => exact ⟨Nat.zero_le _, Nat.zero_le _⟩
  | case3 => exact ⟨Nat.zero_le _, Nat.zero_le _⟩

/-- The common beginning is common. -/
theorem take_inCommon (xs ys : List β) : xs.take (inCommon xs ys) = ys.take (inCommon xs ys) := by
  fun_induction inCommon xs ys with
  | case1 x xs ys ih => rw [List.take_succ_cons, List.take_succ_cons, ih]
  | case2 => rfl
  | case3 => rfl

/-- No longer beginning is common. -/
theorem le_inCommon {xs ys : List β} {n : Nat} (hx : n ≤ xs.length) (hy : n ≤ ys.length) (h : xs.take n = ys.take n) :
    n ≤ inCommon xs ys := by
  induction n generalizing xs ys with
  | zero => exact Nat.zero_le _
  | succ n ih =>
    cases xs with
    | nil => exact absurd hx (Nat.not_succ_le_zero _)
    | cons x xs =>
      cases ys with
      | nil => exact absurd hy (Nat.not_succ_le_zero _)
      | cons y ys =>
        obtain ⟨rfl, htake⟩ := List.cons.inj h
        rw [inCommon, if_pos rfl]
        exact Nat.succ_le_succ (ih (Nat.le_of_succ_le_succ hx) (Nat.le_of_succ_le_succ hy) htake)

end InCommon

/-! ## Names -/

/-- Labels with their lengths before them. -/
def encode (ls : List (List UInt8)) : List UInt8 := ls.flatMap fun l => UInt8.ofNat l.length :: l

@[simp] theorem encode_nil : encode [] = [] := rfl

@[simp] theorem encode_cons (l : List UInt8) (ls : List (List UInt8)) :
    encode (l :: ls) = UInt8.ofNat l.length :: (l ++ encode ls) := rfl

@[simp] theorem encode_append (ls ms : List (List UInt8)) : encode (ls ++ ms) = encode ls ++ encode ms :=
  List.flatMap_append

def IsLabel (l : List UInt8) : Prop := 0 < l.length ∧ l.length < 64

instance (l : List UInt8) : Decidable (IsLabel l) := inferInstanceAs (Decidable (_ ∧ _))

/-- The length byte of a label is not that of a pointer, and not the end. -/
theorem IsLabel.toNat {l : List UInt8} (h : IsLabel l) : (UInt8.ofNat l.length).toNat = l.length := by
  rw [UInt8.toNat_ofNat']
  exact Nat.mod_eq_of_lt (by have := h.2; omega)

/-- A name whose bytes, with the last one, are no more than 256. -/
structure Name where
  labels : List (List UInt8)
  valid : ∀ l ∈ labels, IsLabel l
  short : (encode labels).length < 256

def Name.bytes (n : Name) : List UInt8 := encode n.labels ++ [0]

/-- A label takes at least two bytes. -/
theorem length_le_encode {ls : List (List UInt8)} (h : ∀ l ∈ ls, IsLabel l) : 2 * ls.length ≤ (encode ls).length := by
  induction ls with
  | nil => exact Nat.le_refl 0
  | cons l ls ih =>
    have hl := (h l List.mem_cons_self).1
    have hrest := ih fun m hm => h m (List.mem_cons_of_mem _ hm)
    rw [encode_cons, List.length_cons, List.length_cons, List.length_append]
    omega

/-- So a name has less than 128 labels. -/
theorem Name.few (n : Name) : n.labels.length < 128 := by
  have h := length_le_encode n.valid
  have hshort := n.short
  omega

/-! ## Case -/

/-- `tolower`. -/
def tolower (b : UInt8) : UInt8 := if 65 ≤ b ∧ b ≤ 90 then b + 32 else b

/-- Labels but for the case of their letters. -/
def fold (ls : List (List UInt8)) : List (List UInt8) := ls.map fun l => l.map tolower

theorem fold_append (ls ms : List (List UInt8)) : fold (ls ++ ms) = fold ls ++ fold ms := List.map_append

theorem fold_drop (ls : List (List UInt8)) (n : Nat) : fold (ls.drop n) = (fold ls).drop n := List.map_drop

theorem length_fold (ls : List (List UInt8)) : (fold ls).length = ls.length := List.length_map _

/-- Names that are the same but for the case are of one length. -/
theorem length_encode_of_fold {ls ms : List (List UInt8)} (h : fold ls = fold ms) :
    (encode ls).length = (encode ms).length := by
  induction ls generalizing ms with
  | nil =>
    cases ms with
    | nil => rfl
    | cons m ms => cases h
  | cons l ls ih =>
    cases ms with
    | nil => cases h
    | cons m ms =>
      obtain ⟨hl, hls⟩ := List.cons.inj h
      have hlength : l.length = m.length := by
        have hmap := congrArg List.length hl
        rwa [List.length_map, List.length_map] at hmap
      rw [encode_cons, encode_cons, List.length_cons, List.length_cons, List.length_append, List.length_append, hlength,
        ih hls]

/-- How many labels two names have in common at their ends. -/
def inCommonEnd (ls ms : List (List UInt8)) : Nat := inCommon (fold ls).reverse (fold ms).reverse

theorem inCommonEnd_le (ls ms : List (List UInt8)) : inCommonEnd ls ms ≤ ls.length ∧ inCommonEnd ls ms ≤ ms.length := by
  have h := inCommon_le (fold ls).reverse (fold ms).reverse
  rwa [List.length_reverse, List.length_reverse, length_fold, length_fold] at h

/-- The last labels, as many as given. -/
def lastOf (n : Nat) (ls : List (List UInt8)) : List (List UInt8) := ls.drop (ls.length - n)

theorem fold_lastOf (ls : List (List UInt8)) (n : Nat) : fold (lastOf n ls) = ((fold ls).reverse.take n).reverse := by
  rw [lastOf, fold_drop, List.take_reverse, List.reverse_reverse, length_fold]

/-- The common end is the same but for case. -/
theorem fold_inCommonEnd (ls ms : List (List UInt8)) :
    fold (lastOf (inCommonEnd ls ms) ls) = fold (lastOf (inCommonEnd ls ms) ms) := by
  rw [fold_lastOf, fold_lastOf, inCommonEnd, take_inCommon]

/-- No longer end is the same but for case. -/
theorem le_inCommonEnd {ls ms : List (List UInt8)} {n : Nat} (hl : n ≤ ls.length) (hm : n ≤ ms.length)
    (h : fold (lastOf n ls) = fold (lastOf n ms)) : n ≤ inCommonEnd ls ms := by
  rw [fold_lastOf, fold_lastOf] at h
  refine le_inCommon ?_ ?_ (List.reverse_injective h)
  · rwa [List.length_reverse, length_fold]
  · rwa [List.length_reverse, length_fold]

end KiloProxy.Net
