import Mathlib.Data.List.Basic

/-!
# Fields behind a length byte

A field is written as its length in one byte, then its bytes. Reading it back takes as many
bytes as the length byte says, and a grammar may ask for a least length. A field reads back
only from its own text (`field_some_iff`), so a sequence of fields reads back exactly when
every one of them is long enough and fits its length byte (`fields_prefixed_iff`).
-/

namespace KiloProxy.Net
set_option autoImplicit false

/-- A field as it is written; the byte keeps the length modulo 256. -/
def prefixed (x : List UInt8) : List UInt8 := UInt8.ofNat x.length :: x

/-- Read a field of at least `least` bytes; with it comes the rest. -/
def field (least : Nat) : List UInt8 → Option (List UInt8 × List UInt8)
  | [] => none
  | n :: s => if least ≤ n.toNat ∧ n.toNat ≤ s.length then some (s.take n.toNat, s.drop n.toNat) else none

/-- Read `k` fields. -/
def fields (least : Nat) : Nat → List UInt8 → Option (List (List UInt8) × List UInt8)
  | 0, s => some ([], s)
  | k + 1, s => (field least s).bind fun r => (fields least k r.2).map fun q => (r.1 :: q.1, q.2)

/-- The length fits the byte and the grammar. -/
def Fits (least : Nat) (x : List UInt8) : Prop := least ≤ x.length ∧ x.length ≤ 255

instance (least : Nat) (x : List UInt8) : Decidable (Fits least x) :=
  inferInstanceAs (Decidable (least ≤ x.length ∧ x.length ≤ 255))

theorem toNat_length {x : List UInt8} (h : x.length ≤ 255) : (UInt8.ofNat x.length).toNat = x.length := by
  rw [UInt8.toNat_ofNat', Nat.mod_eq_of_lt (by omega)]

theorem field_cons (least : Nat) (n : UInt8) (s : List UInt8) : field least (n :: s) =
    if least ≤ n.toNat ∧ n.toNat ≤ s.length then some (s.take n.toNat, s.drop n.toNat) else none := rfl

/-- What is read as a field was written as one. -/
theorem field_some_iff {least : Nat} {s x rest : List UInt8} :
    field least s = some (x, rest) ↔ s = prefixed x ++ rest ∧ Fits least x := by
  constructor
  · intro h
    cases s with
    | nil => cases h
    | cons n s =>
      rw [field_cons] at h
      split at h
      · rename_i hlen
        obtain ⟨rfl, rfl⟩ := Prod.mk.inj (Option.some.inj h)
        have htake : (s.take n.toNat).length = n.toNat := by rw [List.length_take, Nat.min_eq_left hlen.2]
        have hbyte := n.toNat_lt
        refine ⟨?_, by rw [Fits, htake]; omega⟩
        rw [prefixed, htake, UInt8.ofNat_toNat, List.cons_append, List.take_append_drop]
      · cases h
  · rintro ⟨rfl, hleast, hmost⟩
    have hlen := toNat_length hmost
    have hall : least ≤ (UInt8.ofNat x.length).toNat ∧ (UInt8.ofNat x.length).toNat ≤ (x ++ rest).length := by
      rw [hlen, List.length_append]
      omega
    rw [prefixed, List.cons_append, field_cons, if_pos hall, hlen, List.take_left, List.drop_left]

/-- A written field that reads back as itself fits. -/
theorem field_prefixed {least : Nat} {x : List UInt8} (h : Fits least x) (rest : List UInt8) :
    field least (prefixed x ++ rest) = some (x, rest) := field_some_iff.mpr ⟨rfl, h⟩

/-- **Fields read back** exactly when each fits. The induction is on the fields written. -/
theorem fields_prefixed_iff (least : Nat) (xs : List (List UInt8)) (rest : List UInt8) :
    fields least xs.length (xs.flatMap prefixed ++ rest) = some (xs, rest) ↔ ∀ x ∈ xs, Fits least x := by
  induction xs with
  | nil => simp [fields]
  | cons x xs ih =>
    rw [List.flatMap_cons, List.append_assoc, List.length_cons, fields, List.forall_mem_cons, ← ih]
    constructor
    · intro h
      obtain ⟨⟨y, s⟩, hfield, hrest⟩ := Option.bind_eq_some_iff.mp h
      obtain ⟨⟨ys, t⟩, hfields, he⟩ := Option.map_eq_some_iff.mp hrest
      obtain ⟨hcons, rfl⟩ := Prod.mk.inj he
      obtain ⟨rfl, rfl⟩ := List.cons.inj hcons
      obtain ⟨htext, hfits⟩ := field_some_iff.mp hfield
      obtain rfl := List.append_cancel_left htext
      exact ⟨hfits, hfields⟩
    · rintro ⟨hfits, hfields⟩
      rw [field_prefixed hfits, Option.bind_some, hfields]
      rfl

end KiloProxy.Net
