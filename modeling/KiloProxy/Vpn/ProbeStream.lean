import KiloProxy.Vpn.SocksTester

/-!
# What the probe makes of a stream

On the bytes alone: the probe says OK when the stream opens with replies that report
success and holds all that is skipped behind them (`verdict_ok`), and finds the proxy
unreachable when the stream breaks off (`verdict_unreachable`). On the chunks: a stream
that does not break off gets another answer exactly when one of the replies of fixed size
is cut between two of them (`probe_segmentation_iff`).
-/

namespace KiloProxy.Vpn.SocksTester
set_option autoImplicit false
open KiloProxy.Text KiloProxy.Net

/-! ## How a stream opens -/

/-- A stream whose replies report success, up to the address: whether versions and method
are the expected ones, the type, and what follows. -/
structure Opening where
  expected : Bool
  addrType : UInt8
  tail : List UInt8
deriving DecidableEq

def replyOpening (expected : Bool) : List UInt8 → Option Opening
  | version :: status :: _ :: addrType :: t =>
    if status = 0x00 then some ⟨expected && version == 0x05, addrType, t⟩ else none
  | _ => none

def authOpening : List UInt8 → Option Opening
  | version :: status :: s => if status = 0x00 then replyOpening (version == 0x01) s else none
  | _ => none

def opening : List UInt8 → Option Opening
  | version :: method :: s =>
    if version = 0x05 ∧ method ≠ 0xff then if method = 0x02 then authOpening s else replyOpening false s else none
  | _ => none

/-- What follows `n` bytes. -/
def after (n : Nat) (s : List UInt8) : Option (List UInt8) := if n ≤ s.length then some (s.drop n) else none

/-- What follows a domain name and the port. -/
def afterName (domain : UInt8 → Nat) : List UInt8 → Option (List UInt8)
  | len :: t => after (domain len) t
  | [] => none

/-- What follows the address and the port, when a domain name with its port has the size
`domain`. -/
def Opening.rest (domain : UInt8 → Nat) (o : Opening) : Option (List UInt8) :=
  if o.addrType = 0x01 then after 6 o.tail
  else if o.addrType = 0x04 then after 18 o.tail
  else if o.addrType = 0x03 then afterName domain o.tail
  else none

/-- The size that the probe skips. -/
def skipped (len : UInt8) : Nat := (domainRemaining len).toNat

theorem skipBytes_ok {s r : List UInt8} {n : Nat} : skipBytes s n = (.ok, r) ↔ after n s = some r := by
  unfold skipBytes after
  split
  · simp
  · simp

theorem addressBytes_ok {addrType : UInt8} {s r : List UInt8} (expected : Bool) :
    addressBytes addrType s = (.ok, r) ↔ Opening.rest skipped ⟨expected, addrType, s⟩ = some r := by
  unfold addressBytes Opening.rest
  split
  · exact skipBytes_ok
  · split
    · exact skipBytes_ok
    · split
      · cases s with
        | nil => simp [afterName]
        | cons len t => exact skipBytes_ok
      · simp

theorem replyOpening_short {expected : Bool} {s : List UInt8} (h : s.length < 4) : replyOpening expected s = none := by
  unfold replyOpening
  split
  · simp only [List.length_cons] at h
    omega
  · rfl

theorem authOpening_short {s : List UInt8} (h : s.length < 2) : authOpening s = none := by
  unfold authOpening
  split
  · simp only [List.length_cons] at h
    omega
  · rfl

theorem opening_short {s : List UInt8} (h : s.length < 2) : opening s = none := by
  unfold opening
  split
  · simp only [List.length_cons] at h
    omega
  · rfl

theorem connectBytes_ok {s r : List UInt8} (expected : Bool) :
    connectBytes s = (.ok, r) ↔ ∃ o, replyOpening expected s = some o ∧ o.rest skipped = some r := by
  by_cases hlen : s.length < 4
  · rw [connectBytes_short hlen, replyOpening_short hlen]
    simp
  · obtain ⟨version, status, rsv, addrType, t, rfl⟩ := four_of_length (s := s) (by omega)
    rw [connectBytes, replyOpening]
    by_cases hstatus : status = 0x00
    · rw [if_neg (not_not_intro hstatus), if_pos hstatus, addressBytes_ok (expected && version == 0x05)]
      simp
    · rw [if_pos hstatus, if_neg hstatus]
      simp

theorem authBytes_ok {s r : List UInt8} :
    authBytes s = (.ok, r) ↔ ∃ o, authOpening s = some o ∧ o.rest skipped = some r := by
  by_cases hlen : s.length < 2
  · rw [authBytes_short hlen, authOpening_short hlen]
    simp
  · obtain ⟨version, status, t, rfl⟩ := two_of_length (s := s) (by omega)
    rw [authBytes, authOpening]
    by_cases hstatus : status = 0x00
    · rw [if_neg (not_not_intro hstatus), if_pos hstatus]
      exact connectBytes_ok _
    · rw [if_pos hstatus, if_neg hstatus]
      simp

/-- The probe says OK when the stream opens and holds what it skips. -/
theorem verdict_ok {s r : List UInt8} : verdict s = (.ok, r) ↔ ∃ o, opening s = some o ∧ o.rest skipped = some r := by
  by_cases hlen : s.length < 2
  · rw [verdict_short hlen, opening_short hlen]
    simp
  · obtain ⟨version, method, t, rfl⟩ := two_of_length (s := s) (by omega)
    rw [verdict, opening]
    by_cases hversion : version = 0x05
    · by_cases hmethod : method = 0xff
      · rw [if_neg (not_not_intro hversion), if_pos hmethod, if_neg fun h => h.2 hmethod]
        simp
      · have hgo : version = 0x05 ∧ method ≠ 0xff := ⟨hversion, hmethod⟩
        rw [if_neg (not_not_intro hversion), if_neg hmethod, if_pos hgo]
        by_cases hauth : method = 0x02
        · rw [if_pos hauth, if_pos hauth]
          exact authBytes_ok
        · rw [if_neg hauth, if_neg hauth]
          exact connectBytes_ok _
    · rw [if_pos hversion, if_neg fun h => hversion h.1]
      simp

/-! ## Streams that break off -/

/-- The stream ends inside a reply of fixed size, or inside what the probe skips. -/
def BreaksOff (s : List UInt8) : Prop :=
  (∃ r ∈ replies s, s.length < r.1 + r.2) ∨
    ∃ o, opening s = some o ∧ o.addrType ∈ [0x01, 0x03, 0x04] ∧ o.rest skipped = none

theorem skipBytes_unreachable {s : List UInt8} {n : Nat} : (skipBytes s n).1 = .unreachable ↔ after n s = none := by
  unfold skipBytes after
  split
  · simp
  · simp

theorem addressBytes_unreachable {addrType : UInt8} {s : List UInt8} (expected : Bool) :
    (addressBytes addrType s).1 = .unreachable ↔
      addrType ∈ [0x01, 0x03, 0x04] ∧ Opening.rest skipped ⟨expected, addrType, s⟩ = none := by
  unfold addressBytes Opening.rest
  by_cases h4 : addrType = 0x01
  · rw [if_pos h4, if_pos h4, skipBytes_unreachable]
    simp [h4]
  · by_cases h6 : addrType = 0x04
    · rw [if_neg h4, if_pos h6, if_neg h4, if_pos h6, skipBytes_unreachable]
      simp [h6]
    · by_cases h3 : addrType = 0x03
      · rw [if_neg h4, if_neg h6, if_pos h3, if_neg h4, if_neg h6, if_pos h3]
        cases s with
        | nil => simp [h3, afterName]
        | cons len t =>
          rw [skipBytes_unreachable]
          simp [h3, afterName, skipped]
      · rw [if_neg h4, if_neg h6, if_neg h3]
        simp [h4, h6, h3]

/-- From the connect reply on. -/
theorem connectBytes_unreachable {s : List UInt8} (expected : Bool) :
    (connectBytes s).1 = .unreachable ↔ s.length < 4 ∨
      ∃ o, replyOpening expected s = some o ∧ o.addrType ∈ [0x01, 0x03, 0x04] ∧ o.rest skipped = none := by
  by_cases hlen : s.length < 4
  · rw [connectBytes_short hlen]
    exact iff_of_true rfl (.inl hlen)
  · obtain ⟨version, status, rsv, addrType, t, rfl⟩ := four_of_length (s := s) (by omega)
    rw [connectBytes, replyOpening, or_iff_right hlen]
    by_cases hstatus : status = 0x00
    · rw [if_neg (not_not_intro hstatus), if_pos hstatus, addressBytes_unreachable (expected && version == 0x05)]
      simp
    · rw [if_pos hstatus, if_neg hstatus]
      simp

/-- From the authentication reply on. -/
theorem authBytes_unreachable {s : List UInt8} : (authBytes s).1 = .unreachable ↔
    s.length < 2 ∨ ((4, 4) ∈ authReplies s ∧ s.length < 6) ∨
      ∃ o, authOpening s = some o ∧ o.addrType ∈ [0x01, 0x03, 0x04] ∧ o.rest skipped = none := by
  by_cases hlen : s.length < 2
  · rw [authBytes_short hlen]
    exact iff_of_true rfl (.inl hlen)
  · obtain ⟨version, status, t, rfl⟩ := two_of_length (s := s) (by omega)
    rw [authBytes, authReplies, authOpening, or_iff_right hlen]
    by_cases hstatus : status = 0x00
    · rw [if_neg (not_not_intro hstatus), if_neg (not_not_intro hstatus), if_pos hstatus,
        connectBytes_unreachable (version == 0x01)]
      have hshort : t.length < 4 ↔ (4, 4) ∈ [((4 : Nat), (4 : Nat))] ∧ (version :: status :: t).length < 6 := by
        simp only [List.mem_singleton, true_and, List.length_cons]
        omega
      rw [hshort]
    · rw [if_pos hstatus, if_pos hstatus, if_neg hstatus]
      simp

theorem verdict_unreachable {s : List UInt8} : (verdict s).1 = .unreachable ↔ BreaksOff s := by
  unfold BreaksOff
  by_cases hlen : s.length < 2
  · rw [verdict_short hlen]
    obtain ⟨rs, hfirst⟩ := replies_first s
    rw [hfirst]
    exact iff_of_true rfl (.inl ⟨(0, 2), List.mem_cons_self, hlen⟩)
  · obtain ⟨version, method, t, rfl⟩ := two_of_length (s := s) (by omega)
    rw [verdict, replies, opening]
    have hfirst : ¬ (version :: method :: t).length < 0 + 2 := hlen
    by_cases hversion : version = 0x05
    · by_cases hmethod : method = 0xff
      · rw [if_neg (not_not_intro hversion), if_pos hmethod, if_pos (.inr hmethod), if_neg fun h => h.2 hmethod]
        simp
      · have hgo : version = 0x05 ∧ method ≠ 0xff := ⟨hversion, hmethod⟩
        have hstay : ¬ (version ≠ 0x05 ∨ method = 0xff) := not_or.mpr ⟨not_not_intro hversion, hmethod⟩
        rw [if_neg (not_not_intro hversion), if_neg hmethod, if_neg hstay, if_pos hgo]
        by_cases hauth : method = 0x02
        · rw [if_pos hauth, if_pos hauth, if_pos hauth, authBytes_unreachable, ← or_assoc]
          apply or_congr_left
          have hlater : ∀ r, r ∈ authReplies t ∧ (version :: method :: t).length < r.1 + r.2 ↔
              r = (4, 4) ∧ (4, 4) ∈ authReplies t ∧ t.length < 6 := by
            intro r
            constructor
            · rintro ⟨hr, hshort⟩
              obtain rfl := eq_of_mem_authReplies hr
              refine ⟨rfl, hr, ?_⟩
              simp only [List.length_cons] at hshort
              omega
            · rintro ⟨rfl, hr, hshort⟩
              refine ⟨hr, ?_⟩
              simp only [List.length_cons]
              omega
          simp only [List.mem_cons, or_and_right, exists_or, exists_eq_left, hfirst, false_or, hlater]
          apply or_congr
          · simp only [List.length_cons]
            omega
          · exact Iff.rfl
        · rw [if_neg hauth, if_neg hauth, if_neg hauth, connectBytes_unreachable false]
          apply or_congr_left
          simp only [List.mem_cons, List.not_mem_nil, or_false, or_and_right, exists_or, exists_eq_left,
            List.length_cons]
          omega
    · rw [if_pos hversion, if_pos (.inl hversion), if_neg fun h => hversion h.1]
      simp

/-! ## Two ways of arriving -/

/-- A reply that comes at once is cut only by the end of the stream. -/
theorem severed_atOnce {s : List UInt8} (h : Severed (atOnce s)) : (verdict s).1 = .unreachable := by
  obtain ⟨r, hr, cut⟩ := h
  rw [atOnce_flatten] at hr
  apply verdict_unreachable.mpr
  refine .inl ⟨r, hr, ?_⟩
  by_contra hroom
  exact atOnce_not_cut (by omega) cut

/-- The result in chunks: unreachable when a reply is cut, else what the bytes say. -/
theorem handshake_result {input : List (List UInt8)} (chunked : Chunked input) (user pass : Str) :
    (handshake ⟨input, []⟩ user pass).1 = if Severed input then .unreachable else (verdict input.flatten).1 := by
  obtain ⟨hcut, hwhole⟩ := handshake_cases (c := ⟨input, []⟩) chunked user pass
  split
  · rename_i hsevered
    exact hcut hsevered
  · rename_i hsevered
    exact (hwhole hsevered).result

/-- **Two segmentations of one stream get one answer** exactly when the stream breaks off
or cuts replies both ways or neither. -/
theorem probe_segmentation_iff {dial dial' : Str → Int → Option (List (List UInt8))} {server : Str} {port : Int}
    {username password : Option Str} {input input' : List (List UInt8)} (named : server ≠ [])
    (dialled : dial server port = some input) (dialled' : dial' server port = some input') (chunked : Chunked input)
    (chunked' : Chunked input') (same : input.flatten = input'.flatten) :
    (probeProxy dial (some server) port username password).1 = (probeProxy dial' (some server) port username password).1 ↔
      BreaksOff input.flatten ∨ (Severed input ↔ Severed input') := by
  rw [probeProxy_eq named dialled, probeProxy_eq named dialled', handshake_result chunked, handshake_result chunked',
    ← same, ← verdict_unreachable]
  by_cases hsevered : Severed input
  · by_cases hsevered' : Severed input'
    · simp [hsevered, hsevered']
    · simp [hsevered, hsevered', eq_comm]
  · by_cases hsevered' : Severed input'
    · simp [hsevered, hsevered']
    · simp [hsevered, hsevered']

/-- A proxy that answers well. -/
def goodAnswer : List UInt8 := [5, 2, 1, 0, 5, 0, 0, 1, 0, 0, 0, 0, 0, 80]

/-- The method reply in two chunks. -/
def methodCut : List (List UInt8) := [[5], [2, 1, 0, 5, 0, 0, 1, 0, 0, 0, 0, 0, 80]]

/-- Every reply in a chunk of its own, the address in two. -/
def replyByReply : List (List UInt8) := [[5, 2], [1, 0], [5, 0, 0, 1], [0, 0], [0, 0, 0, 80]]

theorem probe_segmentation_whole : (probeProxy (fun _ _ => some replyByReply) (some "p".toList) 1080 none none).1 =
    (probeProxy (fun _ _ => some (atOnce goodAnswer)) (some "p".toList) 1080 none none).1 := by
  apply (probe_segmentation_iff (by decide) rfl rfl (by decide +kernel) (atOnce_chunked _) (by decide +kernel)).mpr
  exact .inr (by decide +kernel)

/-- One stream, two answers. -/
theorem probe_cut_unreachable : ¬ ∀ (dial dial' : Str → Int → Option (List (List UInt8))) (server : Str) (port : Int)
    (username password : Option Str) (input input' : List (List UInt8)), server ≠ [] →
    dial server port = some input → dial' server port = some input' → Chunked input → Chunked input' →
    input.flatten = input'.flatten →
    (probeProxy dial (some server) port username password).1 =
      (probeProxy dial' (some server) port username password).1 := by
  intro h
  have hsame := h (fun _ _ => some methodCut) (fun _ _ => some replyByReply) "p".toList 1080 none none methodCut
    replyByReply (by decide) rfl rfl (by decide +kernel) (by decide +kernel) (by decide +kernel)
  exact absurd hsame (by decide +kernel)

end KiloProxy.Vpn.SocksTester
