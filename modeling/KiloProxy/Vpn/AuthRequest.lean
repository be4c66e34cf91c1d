import KiloProxy.Net.Prefixed
import KiloProxy.Vpn.SocksTester

/-!
# The authentication request

`probeProxy` writes the username/password request of RFC 1929 with the length of each field
cut to a byte. The array it fills is the version and the two fields behind their length
bytes, so it reads back exactly when both have between 1 and 255 bytes in UTF-8; the form
saves longer ones.
-/

namespace KiloProxy.Vpn.SocksTester
set_option autoImplicit false
open KiloProxy.Text KiloProxy.Net

/-- Two fields and nothing after them. -/
def bothFields : Option (List (List UInt8) × List UInt8) → Option (List UInt8 × List UInt8)
  | some ([uname, passwd], []) => some (uname, passwd)
  | _ => none

/-- The request by the grammar of RFC 1929: version 1, then `UNAME` and `PASSWD` of 1 to 255
bytes behind their lengths. -/
def decodeAuth : List UInt8 → Option (List UInt8 × List UInt8)
  | [] => none
  | version :: s => if version = 0x01 then bothFields (fields 1 2 s) else none

/-- What Save hands over for the two fields of the form: neither is empty, both are trimmed. -/
def Saves (user pass : Str) : Prop :=
  ∃ username password : Str, username ≠ [] ∧ password ≠ [] ∧ user = trim username ∧ pass = trim password

/-- `System.arraycopy(src, 0, dst, pos, src.size)` -/
def arraycopy (src dst : List UInt8) (pos : Nat) : List UInt8 := dst.take pos ++ src ++ dst.drop (pos + src.length)

/-- The array `authReq` of `probeProxy`, filled at the offsets of the source. -/
def authBuffer (user pass : Str) : List UInt8 :=
  let uBytes := utf8 user
  let pBytes := utf8 pass
  let authReq := List.replicate (3 + uBytes.length + pBytes.length) 0
  let authReq := authReq.set 0 0x01
  let authReq := authReq.set 1 (UInt8.ofNat uBytes.length)
  let authReq := arraycopy uBytes authReq 2
  let authReq := authReq.set (2 + uBytes.length) (UInt8.ofNat pBytes.length)
  arraycopy pBytes authReq (3 + uBytes.length)

/-- A copy replaces what it covers. -/
theorem arraycopy_append (src front : List UInt8) {old back : List UInt8} (h : old.length = src.length) {pos : Nat}
    (hpos : pos = front.length) : arraycopy src (front ++ (old ++ back)) pos = front ++ (src ++ back) := by
  have hdrop : (front ++ (old ++ back)).drop (pos + src.length) = back := by
    rw [hpos, ← h, ← List.append_assoc, ← List.length_append, List.drop_left]
  rw [arraycopy, hdrop, hpos, List.take_left, List.append_assoc]

theorem set_append (a b : UInt8) (front : List UInt8) {back : List UInt8} {pos : Nat} (hpos : pos = front.length) :
    (front ++ a :: back).set pos b = front ++ b :: back := by
  rw [hpos, List.set_append_right _ _ (Nat.le_refl _), Nat.sub_self, List.set_cons_zero]

/-- The two lengths and the two copies fill the array. -/
theorem authBuffer_eq (user pass : Str) : authBuffer user pass = authReq user pass := by
  unfold authBuffer authReq
  generalize utf8 user = x
  generalize utf8 pass = y
  have hzeros : List.replicate (3 + x.length + y.length) (0 : UInt8) =
      0 :: 0 :: (List.replicate x.length 0 ++ (0 :: List.replicate y.length 0)) := by
    rw [← List.replicate_succ, List.replicate_append_replicate, ← List.replicate_succ, ← List.replicate_succ]
    congr 1
    omega
  have huser : arraycopy x ([0x01, UInt8.ofNat x.length] ++
      (List.replicate x.length 0 ++ (0 :: List.replicate y.length 0))) 2 =
      [0x01, UInt8.ofNat x.length] ++ (x ++ (0 :: List.replicate y.length 0)) :=
    arraycopy_append x _ List.length_replicate rfl
  have hlength : (([0x01, UInt8.ofNat x.length] ++ x) ++ (0 :: List.replicate y.length 0)).set (2 + x.length)
      (UInt8.ofNat y.length) =
      ([0x01, UInt8.ofNat x.length] ++ x) ++ (UInt8.ofNat y.length :: List.replicate y.length 0) :=
    set_append 0 _ _ (by rw [List.length_append]; rfl)
  have hpass : arraycopy y (([0x01, UInt8.ofNat x.length] ++ x ++ [UInt8.ofNat y.length]) ++
      (List.replicate y.length 0 ++ [])) (3 + x.length) =
      ([0x01, UInt8.ofNat x.length] ++ x ++ [UInt8.ofNat y.length]) ++ (y ++ []) :=
    arraycopy_append y _ List.length_replicate (by simp; omega)
  simp only [List.append_nil, List.append_assoc, List.cons_append, List.nil_append] at huser hlength hpass
  simp only [hzeros, List.set_cons_zero, List.set_cons_succ]
  rw [huser, hlength, hpass]
  rfl

theorem authReq_eq (user pass : Str) : authReq user pass = 0x01 :: [utf8 user, utf8 pass].flatMap prefixed := by
  simp [authReq, prefixed]

/-- Both fields are read with nothing left over. -/
theorem bothFields_some_iff {r : Option (List (List UInt8) × List UInt8)} {uname passwd : List UInt8} :
    bothFields r = some (uname, passwd) ↔ r = some ([uname, passwd], []) := by
  constructor
  · intro h
    unfold bothFields at h
    split at h
    · cases h
      rfl
    · cases h
  · rintro rfl
    rfl

theorem decodeAuth_version (s : List UInt8) : decodeAuth (0x01 :: s) = bothFields (fields 1 2 s) := rfl

/-- **The request reads back** as the username and the password exactly when both have
between 1 and 255 bytes. -/
theorem authReq_reads_iff (user pass : Str) : decodeAuth (authBuffer user pass) = some (utf8 user, utf8 pass) ↔
    (1 ≤ (utf8 user).length ∧ (utf8 user).length ≤ 255) ∧ (1 ≤ (utf8 pass).length ∧ (utf8 pass).length ≤ 255) := by
  have hfields := fields_prefixed_iff 1 [utf8 user, utf8 pass] []
  rw [List.append_nil] at hfields
  rw [authBuffer_eq, authReq_eq, decodeAuth_version, bothFields_some_iff]
  refine hfields.trans ?_
  rw [List.forall_mem_cons, List.forall_mem_singleton]
  exact Iff.rfl

/-- A username of 256 bytes is sent with length 0. -/
theorem authReq_cut : ¬ ∀ user pass, Saves user pass →
    decodeAuth (authBuffer user pass) = some (utf8 user, utf8 pass) := by
  intro h
  have hsaved : Saves (List.replicate 256 'a') ['p'] :=
    ⟨List.replicate 256 'a', ['p'], by decide, by decide, by decide +kernel, by decide⟩
  exact absurd (h _ _ hsaved) (by decide +kernel)

end KiloProxy.Vpn.SocksTester
