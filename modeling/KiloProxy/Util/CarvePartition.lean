import KiloProxy.Cidr.Partition
import KiloProxy.Util.CarveCoverage

/-!
# The carve loop partitions its block

For a block with zero host bits the loop of `excludeIpv4` emits one prefix of every longer
length, and these prefixes are the block without the target, each address once.
-/

namespace KiloProxy.Util.Routes
set_option autoImplicit false
open KiloProxy.Text KiloProxy.Cidr

/-- The addresses of the prefix `base/len`. -/
def addresses (c : Nat × Nat) : Set Nat := cell (c.1, 32 - c.2)

/-- A prefix that is longer than none, with zero host bits, of addresses of 32 bits. -/
structure WholeBlock (base len : Nat) : Prop where
  fits : base < 2 ^ 32
  short : len ≤ 31
  zero : base % 2 ^ (32 - len) = 0

namespace WholeBlock

variable {base len : Nat}

/-- All addresses of the block have its prefix. -/
theorem prefix_eq (h : WholeBlock base len) {a : Nat} (ha : a ∈ addresses (base, len)) :
    base / 2 ^ (32 - len) = a / 2 ^ (32 - len) := by
  obtain ⟨hle, hlt⟩ := mem_cell.mp ha
  have hlt : a < base + 2 ^ (32 - len) := hlt
  have hbase : base = 2 ^ (32 - len) * (base / 2 ^ (32 - len)) :=
    (Nat.mul_div_cancel' (Nat.dvd_of_mod_eq_zero h.zero)).symm
  have hoff : (a - base) / 2 ^ (32 - len) = 0 := Nat.div_eq_of_lt (by omega)
  have ha : a = 2 ^ (32 - len) * (base / 2 ^ (32 - len)) + (a - base) := by omega
  rw [ha, Nat.mul_add_div (Nat.two_pow_pos _), hoff, Nat.add_zero]

/-- No address of the block is past the last one. -/
theorem lt (h : WholeBlock base len) {a : Nat} (ha : a ∈ addresses (base, len)) : a < 2 ^ 32 := by
  have hcoarse := div_pow_eq_of_le (Nat.sub_le 32 len) (h.prefix_eq ha)
  rw [Nat.div_eq_of_lt h.fits] at hcoarse
  exact (Nat.div_eq_zero_iff_lt (Nat.two_pow_pos 32)).mp hcoarse.symm

end WholeBlock

/-- A block left behind by the halving loop is the prefix the source prints for it. -/
theorem addresses_printed {e j : Nat} (hj : j ≤ 32) : addresses (e, 32 - j) = cell (e, j) := by
  rw [addresses, Nat.sub_sub_self hj]

/-- `splitDown` emits the blocks of the halving loop. -/
theorem splitDown_cells (target base : Nat) {len : Nat} (hlen : len ≤ 32) :
    (splitDown target base len).map addresses = (bisect target (32 - len) base).map cell := by
  rw [splitDown_eq target base hlen, List.map_map]
  apply List.map_congr_left
  rintro ⟨e, j⟩ hmem
  have hsize : j < 32 - len := bisect_size_lt hmem
  exact addresses_printed (by omega)

/-- The lengths are `len + 1` to 32, in this order. -/
theorem splitDown_lengths (target base : Nat) {len : Nat} (hlen : len ≤ 32) :
    (splitDown target base len).map Prod.snd = List.range' (len + 1) (32 - len) := by
  rw [splitDown_eq target base hlen, List.map_map]
  have hsizes : (bisect target (32 - len) base).map (fun c => 32 - c.2) =
      ((List.range (32 - len)).reverse).map fun j => 32 - j := by
    rw [← bisect_sizes target (32 - len) base, List.map_map]
    rfl
  show (bisect target (32 - len) base).map (fun c => 32 - c.2) = _
  rw [hsizes]
  apply List.ext_getElem
  · simp
  · intro i hi _
    simp only [List.length_map, List.length_reverse, List.length_range] at hi
    simp only [List.getElem_map, List.getElem_reverse, List.getElem_range, List.length_range, List.getElem_range']
    omega

/-- Halves of a block are aligned. -/
theorem splitDown_zero {target base len : Nat} (h : WholeBlock base len) :
    ∀ c ∈ splitDown target base len, c.1 % 2 ^ (32 - c.2) = 0 := by
  rw [splitDown_eq target base (by have hshort := h.short; omega)]
  intro c hc
  obtain ⟨⟨e, j⟩, hmem, rfl⟩ := List.mem_map.mp hc
  have hsize : j < 32 - len := bisect_size_lt hmem
  have haligned : e % 2 ^ j = 0 := bisect_aligned h.zero _ hmem
  show e % 2 ^ (32 - (32 - j)) = 0
  rw [Nat.sub_sub_self (by omega), haligned]

/-- **The carve loop partitions its block**: it emits one prefix of each of the lengths
`len + 1` to 32, in this order, with zero host bits; the prefixes are the block without the
target, each address once, and their texts read back. -/
theorem carve_partitions {base len target : Nat} (h : WholeBlock base len) (ht : target ∈ addresses (base, len)) :
    excludeIpv4 [cidrText (base, len)] (longToIpv4 target) = (splitDown target base len).map cidrText ∧
      (splitDown target base len).map Prod.snd = List.range' (len + 1) (32 - len) ∧
      (∀ c ∈ splitDown target base len, c.1 % 2 ^ (32 - c.2) = 0) ∧
      CutOut target (addresses (base, len)) ((splitDown target base len).map addresses) ∧
      ∀ c ∈ splitDown target base len, ipv4ToLong (longToIpv4 c.1) = some c.1 := by
  have hlen : len ≤ 32 := by
    have hshort := h.short
    omega
  have hcut : CutOut target (addresses (base, len)) ((splitDown target base len).map addresses) := by
    rw [splitDown_cells target base hlen]
    exact bisect_cutOut ht
  refine ⟨?_, splitDown_lengths target base hlen, splitDown_zero h, hcut, fun c hc => ?_⟩
  · have hroute : routeBlock (cidrText (base, len)) = some (base % 2 ^ 32, len) := routeBlock_cidrText hlen
    rw [Nat.mod_eq_of_lt h.fits] at hroute
    have hcovers : subnetCovers base len target = true :=
      (subnetCovers_iff h.fits (h.lt ht) hlen).mpr (h.prefix_eq ht).symm
    rw [excludeIpv4_some (ipv4ToLong_longToIpv4 target), Nat.mod_eq_of_lt (h.lt ht), List.flatMap_singleton,
      excludeEntry_some hroute, if_neg (by have hshort := h.short; omega), hcovers]
    rfl
  · have hfirst : c.1 ∈ addresses c := by
      rw [addresses, mem_cell]
      have hpos := Nat.two_pow_pos (32 - c.2)
      omega
    have hin : c.1 ∈ addresses (base, len) := hcut.subset (List.mem_map_of_mem hc) hfirst
    rw [ipv4ToLong_longToIpv4, Nat.mod_eq_of_lt (h.lt hin)]

/-- The address space without its last address. -/
theorem carve_partitions_last :
    CutOut (2 ^ 32 - 1) (addresses (0, 0)) ((splitDown (2 ^ 32 - 1) 0 0).map addresses) :=
  have hblock : WholeBlock 0 0 := ⟨by decide, by decide, by decide⟩
  have hin : 2 ^ 32 - 1 ∈ addresses (0, 0) := mem_cell.mpr ⟨by decide, by decide⟩
  (carve_partitions hblock hin).2.2.2.1

end KiloProxy.Util.Routes
