import Mathlib.Data.Vector.Defs

/-!
# Fields of a fixed number of bytes

What a structure copied from the front of a byte string reads, and integers in network order.

A field of `n` bytes is a vector of that length, so a header of the wrong size cannot be
built, and a header that is written and read again is the same (`takeVector_append`).
-/

namespace KiloProxy.Net
set_option autoImplicit false

/-- `n` bytes from the front. -/
def takeVector (n : Nat) (s : List UInt8) : Option (List.Vector UInt8 n × List UInt8) :=
  if h : n ≤ s.length then some (⟨s.take n, by rw [List.length_take, Nat.min_eq_left h]⟩, s.drop n) else none

theorem takeVector_append {n : Nat} (v : List.Vector UInt8 n) (s : List UInt8) :
    takeVector n (v.toList ++ s) = some (v, s) := by
  have hlen : v.toList.length = n := v.toList_length
  unfold takeVector
  rw [dif_pos (by rw [List.length_append]; omega)]
  have htake : (⟨(v.toList ++ s).take n, by rw [List.take_left' hlen, hlen]⟩ : List.Vector UInt8 n) = v :=
    Subtype.ext (List.take_left' hlen)
  exact congrArg some (Prod.ext htake (List.drop_left' hlen))

/-- A field is read exactly where its bytes stand in front. -/
theorem takeVector_eq_some {n : Nat} {v : List.Vector UInt8 n} {s rest : List UInt8} :
    takeVector n s = some (v, rest) ↔ s = v.toList ++ rest := by
  refine ⟨fun h => ?_, fun h => h ▸ takeVector_append v rest⟩
  unfold takeVector at h
  split at h
  · obtain ⟨rfl, rfl⟩ := Prod.mk.inj (Option.some.inj h)
    exact (List.take_append_drop n s).symm
  · cases h

/-- `ntoh16`. -/
def ntoh16 (v : List.Vector UInt8 2) : Nat := (v.get 0).toNat * 256 + (v.get 1).toNat

/-- `hton16`. -/
def hton16 (n : Nat) : List.Vector UInt8 2 := ⟨[UInt8.ofNat (n / 256), UInt8.ofNat n], rfl⟩

/-- `hton32`. -/
def hton32 (n : Nat) : List.Vector UInt8 4 :=
  ⟨[UInt8.ofNat (n / 16777216), UInt8.ofNat (n / 65536), UInt8.ofNat (n / 256), UInt8.ofNat n], rfl⟩

/-- A number of two bytes is read back. -/
theorem ntoh16_hton16 {n : Nat} (h : n < 65536) : ntoh16 (hton16 n) = n := by
  show (UInt8.ofNat (n / 256)).toNat * 256 + (UInt8.ofNat n).toNat = n
  rw [UInt8.toNat_ofNat', UInt8.toNat_ofNat']
  omega

end KiloProxy.Net
