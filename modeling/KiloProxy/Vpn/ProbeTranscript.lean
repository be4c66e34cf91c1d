import KiloProxy.Vpn.ProbeStream

/-!
# Which transcripts the probe accepts

A well-formed dialogue answers the offered method, authenticates, and ends with an
address and a port (`Accepted`). The probe looks at fewer bytes than that: it takes any
method but `ff`, any version of the later replies, and for a domain name it skips one
byte more than there is, or, the length byte being signed, hardly any. So it is right
exactly about the streams that are too short for it to go wrong and about those with an
IP address and the expected versions (`probe_faithful_iff`).
-/

namespace KiloProxy.Vpn.SocksTester
set_option autoImplicit false
open KiloProxy.Text KiloProxy.Net

/-! ## Well-formed dialogues -/

/-- The bound address of a reply, with its type. -/
inductive Address : List UInt8 → Prop where
  | ipv4 (a : List UInt8) : a.length = 4 → Address (0x01 :: a)
  | domain (len : UInt8) (a : List UInt8) : a.length = len.toNat → Address (0x03 :: len :: a)
  | ipv6 (a : List UInt8) : a.length = 16 → Address (0x04 :: a)

/-- The stream starts with a well-formed successful dialogue and goes on with `rest`. -/
inductive Accepted : List UInt8 → List UInt8 → Prop where
  | mk (method rsv : UInt8) (address port rest : List UInt8) : method ∈ offeredMethods → Address address →
      port.length = 2 → Accepted ([0x05, method, 0x01, 0x00, 0x05, 0x00, rsv] ++ address ++ port ++ rest) rest

/-- The probe says OK for the well-formed dialogues, and has read just these. -/
structure Faithful (p : ProxyProbe × Connection) (s : List UInt8) : Prop where
  accepts : p.1 = .ok ↔ ∃ rest, Accepted s rest
  consumed : p.1 = .ok → Accepted s p.2.input.flatten

/-! ## The dialogue on the bytes -/

/-- The size of a name and a port. -/
def nameAndPort (len : UInt8) : Nat := len.toNat + 2

theorem skipped_eq (len : UInt8) : skipped len = if len.toNat < 128 then len.toNat + 3 else len.toNat - 253 := by
  have hsigned : len.toInt8.toInt = if 2 * len.toNat < 2 ^ 8 then (len.toNat : Int) else (len.toNat : Int) - 2 ^ 8 :=
    BitVec.toInt_eq_toNat_cond len.toBitVec
  have hbyte : len.toNat < 256 := len.toNat_lt
  rw [skipped, domainRemaining, hsigned]
  split
  · rw [if_pos (by omega)]
    omega
  · rw [if_neg (by omega)]
    omega

theorem after_exists {n : Nat} {s : List UInt8} : (∃ r, after n s = some r) ↔ n ≤ s.length := by
  unfold after
  split
  · rename_i h
    exact iff_of_true ⟨_, rfl⟩ h
  · rename_i h
    exact iff_of_false nofun h

/-- An address of `n` bytes and a port. -/
theorem after_iff {n : Nat} {s r : List UInt8} :
    after (n + 2) s = some r ↔ ∃ a port, a.length = n ∧ port.length = 2 ∧ s = a ++ port ++ r := by
  unfold after
  constructor
  · intro h
    split at h
    · rename_i hroom
      obtain rfl := Option.some.inj h
      refine ⟨s.take n, (s.drop n).take 2, ?_, ?_, ?_⟩
      · rw [List.length_take]
        omega
      · rw [List.length_take, List.length_drop]
        omega
      · rw [List.append_assoc, ← List.drop_drop, List.take_append_drop, List.take_append_drop]
    · cases h
  · rintro ⟨a, port, ha, hport, rfl⟩
    have hlen : (a ++ port).length = n + 2 := by rw [List.length_append, ha, hport]
    rw [if_pos (by rw [List.length_append, hlen]; omega), ← hlen, List.drop_left]

theorem replyOpening_some {expected : Bool} {s : List UInt8} {o : Opening} (h : replyOpening expected s = some o) :
    ∃ version rsv, s = version :: 0x00 :: rsv :: o.addrType :: o.tail ∧ o.expected = (expected && version == 0x05) := by
  unfold replyOpening at h
  split at h
  · rename_i version status rsv addrType t
    split at h
    · rename_i hstatus
      obtain rfl := Option.some.inj h
      exact ⟨version, rsv, by rw [hstatus], rfl⟩
    · cases h
  · cases h

/-- The opening of a well-formed dialogue. -/
theorem opening_expected {s : List UInt8} {o : Opening} (h : opening s = some o) (expected : o.expected = true) :
    ∃ rsv, s = 0x05 :: 0x02 :: 0x01 :: 0x00 :: 0x05 :: 0x00 :: rsv :: o.addrType :: o.tail := by
  unfold opening at h
  split at h
  · rename_i version method t
    split at h
    · rename_i hgo
      split at h
      · rename_i hauth
        unfold authOpening at h
        split at h
        · rename_i authVersion status u
          split at h
          · rename_i hstatus
            obtain ⟨replyVersion, rsv, rfl, hexpected⟩ := replyOpening_some h
            rw [expected] at hexpected
            obtain ⟨hauthVersion, hreply⟩ := (Bool.and_eq_true _ _).mp hexpected.symm
            refine ⟨rsv, ?_⟩
            rw [hgo.1, hauth, hstatus, beq_iff_eq.mp hauthVersion, beq_iff_eq.mp hreply]
          · cases h
        · cases h
      · obtain ⟨_, _, _, hexpected⟩ := replyOpening_some h
        rw [expected, Bool.false_and] at hexpected
        cases hexpected
    · cases h
  · cases h

theorem accepted_iff {s r : List UInt8} :
    Accepted s r ↔ ∃ o, opening s = some o ∧ o.expected = true ∧ o.rest nameAndPort = some r := by
  constructor
  · rintro ⟨method, rsv, address, port, _, offered, addr, two⟩
    obtain rfl : method = 0x02 := List.mem_singleton.mp offered
    cases addr with
    | ipv4 a ha => exact ⟨⟨true, 0x01, a ++ port ++ r⟩, rfl, rfl, after_iff.mpr ⟨a, port, ha, two, rfl⟩⟩
    | domain len a ha => exact ⟨⟨true, 0x03, len :: (a ++ port ++ r)⟩, rfl, rfl, after_iff.mpr ⟨a, port, ha, two, rfl⟩⟩
    | ipv6 a ha => exact ⟨⟨true, 0x04, a ++ port ++ r⟩, rfl, rfl, after_iff.mpr ⟨a, port, ha, two, rfl⟩⟩
  · rintro ⟨o, hopening, expected, hrest⟩
    obtain ⟨rsv, rfl⟩ := opening_expected hopening expected
    unfold Opening.rest at hrest
    have hoffered : (0x02 : UInt8) ∈ offeredMethods := List.mem_cons_self
    split at hrest
    · rename_i htype
      obtain ⟨a, port, ha, two, htail⟩ := after_iff.mp hrest
      rw [htail, htype]
      exact .mk 0x02 rsv _ port r hoffered (.ipv4 a ha) two
    · split at hrest
      · rename_i htype
        obtain ⟨a, port, ha, two, htail⟩ := after_iff.mp hrest
        rw [htail, htype]
        exact .mk 0x02 rsv _ port r hoffered (.ipv6 a ha) two
      · split at hrest
        · rename_i htype
          cases htail : o.tail with
          | nil =>
            rw [htail, afterName] at hrest
            cases hrest
          | cons len t =>
            rw [htail, afterName] at hrest
            obtain ⟨a, port, ha, two, ht⟩ := after_iff.mp hrest
            rw [ht, htype]
            exact .mk 0x02 rsv _ port r hoffered (.domain len a ha) two
        · cases hrest

/-! ## When the probe is faithful -/

/-- What follows the opening is too short, or of a kind that is read as it is written. -/
structure Opening.Fits (o : Opening) : Prop where
  ipv4 : o.addrType = 0x01 → o.expected = true ∨ o.tail.length < 6
  ipv6 : o.addrType = 0x04 → o.expected = true ∨ o.tail.length < 18
  domain : o.addrType = 0x03 → ∀ len t, o.tail = len :: t →
    t.length < if len.toNat < 128 then if o.expected then len.toNat + 2 else len.toNat + 3 else len.toNat - 253

/-- The probe takes the opening for what it is, and past its end. -/
structure Opening.ReadRight (o : Opening) : Prop where
  accepts : (∃ r, o.rest skipped = some r) ↔ o.expected = true ∧ ∃ r, o.rest nameAndPort = some r
  consumed : ∀ r, o.rest skipped = some r → o.expected = true ∧ o.rest nameAndPort = some r

/-- An address of one size. -/
theorem readRight_of_size {o : Opening} {n : Nat} (h : ∀ domain, o.rest domain = after n o.tail) :
    o.ReadRight ↔ o.expected = true ∨ o.tail.length < n := by
  constructor
  · rintro ⟨haccepts, _⟩
    rw [h, h, after_exists] at haccepts
    by_cases hroom : n ≤ o.tail.length
    · exact .inl (haccepts.mp hroom).1
    · exact .inr (by omega)
  · intro hfits
    have hexpected : n ≤ o.tail.length → o.expected = true := fun hroom => hfits.resolve_right (by omega)
    constructor
    · rw [h, h, after_exists]
      exact ⟨fun hroom => ⟨hexpected hroom, hroom⟩, fun hr => hr.2⟩
    · intro r hr
      rw [h] at hr ⊢
      exact ⟨hexpected (after_exists.mp ⟨r, hr⟩), hr⟩

/-- A domain name: the probe never skips its size. -/
theorem readRight_domain {o : Opening} {len : UInt8} {t : List UInt8}
    (h : ∀ domain : UInt8 → Nat, o.rest domain = after (domain len) t) : o.ReadRight ↔
      t.length < if len.toNat < 128 then if o.expected then len.toNat + 2 else len.toNat + 3 else len.toNat - 253 := by
  have hskipped := skipped_eq len
  have hbyte : len.toNat < 256 := len.toNat_lt
  have hright : o.ReadRight ↔ t.length < skipped len ∧ ¬ (o.expected = true ∧ nameAndPort len ≤ t.length) := by
    constructor
    · rintro ⟨haccepts, hconsumed⟩
      have hshort : t.length < skipped len := by
        by_contra hroom
        have hsome : after (skipped len) t = some (t.drop (skipped len)) := if_pos (by omega)
        -- both sizes would leave as many bytes
        have hother := (hconsumed _ ((h skipped).trans hsome)).2
        rw [h] at hother
        have hnamed := after_exists.mp ⟨_, hother⟩
        rw [after, if_pos hnamed] at hother
        have hlength := congrArg List.length (Option.some.inj hother)
        rw [List.length_drop, List.length_drop] at hlength
        unfold nameAndPort at hnamed hlength
        split at hskipped
        · omega
        · omega
      refine ⟨hshort, fun hnamed => ?_⟩
      rw [h, h, after_exists, after_exists] at haccepts
      have hroom := haccepts.mpr hnamed
      omega
    · rintro ⟨hshort, hnamed⟩
      have hnone : ¬ ∃ r, o.rest skipped = some r := by
        rw [h, after_exists]
        omega
      constructor
      · refine iff_of_false hnone ?_
        rw [h, after_exists]
        exact hnamed
      · intro r hr
        exact absurd ⟨r, hr⟩ hnone
  rw [hright, hskipped, nameAndPort]
  cases o.expected with
  | true =>
    simp only [if_true, true_and]
    split
    · omega
    · omega
  | false =>
    simp only [Bool.false_eq_true, if_false, false_and, not_false_eq_true, and_true]

/-- Nothing is accepted, so nothing is read wrong. -/
theorem readRight_of_none {o : Opening} (hnone : ∀ domain r, o.rest domain ≠ some r) : o.ReadRight := by
  constructor
  · constructor
    · rintro ⟨r, hr⟩
      exact absurd hr (hnone _ r)
    · rintro ⟨_, r, hr⟩
      exact absurd hr (hnone _ r)
  · intro r hr
    exact absurd hr (hnone _ r)

theorem readRight_iff {o : Opening} : o.ReadRight ↔ o.Fits := by
  have hother : ∀ a b : UInt8, a ≠ b → o.addrType = a → o.addrType ≠ b := fun a b hne h h' => hne (h.symm.trans h')
  by_cases h4 : o.addrType = 0x01
  · rw [readRight_of_size (n := 6) fun domain => if_pos h4]
    constructor
    · intro h
      exact ⟨fun _ => h, fun h6 => absurd h6 (hother _ _ (by decide) h4), fun h3 => absurd h3 (hother _ _ (by decide) h4)⟩
    · exact fun h => h.ipv4 h4
  · by_cases h6 : o.addrType = 0x04
    · rw [readRight_of_size (n := 18) fun domain => by rw [Opening.rest, if_neg h4, if_pos h6]]
      constructor
      · intro h
        exact ⟨fun h => absurd h h4, fun _ => h, fun h3 => absurd h3 (hother _ _ (by decide) h6)⟩
      · exact fun h => h.ipv6 h6
    · by_cases h3 : o.addrType = 0x03
      · have hrest : ∀ domain : UInt8 → Nat, o.rest domain = afterName domain o.tail :=
          fun domain => by rw [Opening.rest, if_neg h4, if_neg h6, if_pos h3]
        cases htail : o.tail with
        | nil =>
          have hnone : ∀ domain r, o.rest domain ≠ some r := fun domain r => by
            rw [hrest, htail, afterName]
            exact (Option.some_ne_none r).symm
          constructor
          · intro _
            refine ⟨fun h => absurd h h4, fun h => absurd h h6, fun _ len t ht => ?_⟩
            rw [htail] at ht
            cases ht
          · exact fun _ => readRight_of_none hnone
        | cons len t =>
          have hafter : ∀ domain : UInt8 → Nat, o.rest domain = after (domain len) t := fun domain => by
            rw [hrest, htail, afterName]
          rw [readRight_domain hafter]
          constructor
          · intro h
            refine ⟨fun h => absurd h h4, fun h => absurd h h6, fun _ len' t' ht => ?_⟩
            rw [htail] at ht
            obtain ⟨rfl, rfl⟩ := List.cons.inj ht
            exact h
          · exact fun h => h.domain h3 len t htail
      · have hnone : ∀ domain r, o.rest domain ≠ some r := fun domain r => by
          rw [Opening.rest, if_neg h4, if_neg h6, if_neg h3]
          exact (Option.some_ne_none r).symm
        constructor
        · intro _
          exact ⟨fun h => absurd h h4, fun h => absurd h h6, fun h => absurd h h3⟩
        · exact fun _ => readRight_of_none hnone

/-! ## The probe -/

/-- What comes at once is read as the bytes say. -/
theorem handshake_atOnce (s : List UInt8) (user pass : Str) :
    (handshake ⟨atOnce s, []⟩ user pass).1 = (verdict s).1 ∧
      ((verdict s).1 = .ok → (handshake ⟨atOnce s, []⟩ user pass).2.input.flatten = (verdict s).2) := by
  obtain ⟨hcut, hwhole⟩ := handshake_cases (c := ⟨atOnce s, []⟩) (atOnce_chunked s) user pass
  by_cases hsevered : Severed (atOnce s)
  · have hunreachable := severed_atOnce hsevered
    refine ⟨(hcut hsevered).trans hunreachable.symm, fun hok => ?_⟩
    rw [hunreachable] at hok
    cases hok
  · have hagrees := hwhole hsevered
    rw [atOnce_flatten] at hagrees
    exact ⟨hagrees.result, hagrees.left⟩

theorem verdict_result_ok {s : List UInt8} : (verdict s).1 = .ok ↔ ∃ o, opening s = some o ∧ ∃ r, o.rest skipped = some r := by
  constructor
  · intro h
    obtain ⟨o, hopening, hrest⟩ := verdict_ok.mp (Prod.ext h rfl)
    exact ⟨o, hopening, _, hrest⟩
  · rintro ⟨o, hopening, r, hrest⟩
    exact congrArg Prod.fst (verdict_ok.mpr ⟨o, hopening, hrest⟩)

/-- **The probe is faithful to a stream** exactly when what follows its opening fits. -/
theorem probe_faithful_iff {dial : Str → Int → Option (List (List UInt8))} {server : Str} {port : Int}
    {username password : Option Str} {s : List UInt8} (named : server ≠ [])
    (dialled : dial server port = some (atOnce s)) :
    Faithful (probeProxy dial (some server) port username password) s ↔ ∀ o, opening s = some o → o.Fits := by
  rw [probeProxy_eq named dialled]
  obtain ⟨hresult, hleft⟩ := handshake_atOnce s (username.getD []) (password.getD [])
  cases hopening : opening s with
  | none =>
    have hno : (verdict s).1 ≠ .ok := by
      intro hok
      obtain ⟨o, ho, _⟩ := verdict_result_ok.mp hok
      rw [hopening] at ho
      cases ho
    refine iff_of_true ⟨?_, fun hok => absurd (hresult.symm.trans hok) hno⟩ nofun
    refine iff_of_false (fun hok => hno (hresult.symm.trans hok)) ?_
    rintro ⟨r, haccepted⟩
    obtain ⟨o, ho, _⟩ := accepted_iff.mp haccepted
    rw [hopening] at ho
    cases ho
  | some o =>
    have hok : (verdict s).1 = .ok ↔ ∃ r, o.rest skipped = some r := by
      rw [verdict_result_ok, hopening]
      simp
    have haccepted : ∀ r, Accepted s r ↔ o.expected = true ∧ o.rest nameAndPort = some r := by
      intro r
      rw [accepted_iff, hopening]
      simp
    have hfits : (∀ o', some o = some o' → o'.Fits) ↔ o.Fits := by simp
    rw [hfits, ← readRight_iff]
    constructor
    · rintro ⟨haccepts, hconsumed⟩
      constructor
      · rw [← hok, ← hresult, haccepts]
        simp only [haccepted, exists_and_left]
      · intro r hr
        rw [← haccepted]
        have hverdict : verdict s = (.ok, r) := verdict_ok.mpr ⟨o, hopening, hr⟩
        have hthis := hconsumed (by rw [hresult, hverdict])
        rw [hleft (by rw [hverdict]), hverdict] at hthis
        exact hthis
    · rintro ⟨haccepts, hconsumed⟩
      constructor
      · rw [hresult, hok, haccepts]
        simp only [haccepted, exists_and_left]
      · intro hthis
        have hverdict := hresult.symm.trans hthis
        rw [hleft hverdict, haccepted]
        apply hconsumed
        obtain ⟨o', ho', hrest⟩ := verdict_ok.mp (Prod.ext hverdict rfl)
        rw [hopening] at ho'
        obtain rfl := Option.some.inj ho'
        exact hrest

theorem probe_faithful_ipv4 :
    Faithful (probeProxy (fun _ _ => some (atOnce goodAnswer)) (some "p".toList) 1080 none none) goodAnswer := by
  apply (probe_faithful_iff (by decide) rfl).mpr
  intro o ho
  obtain rfl : o = ⟨true, 0x01, [0, 0, 0, 0, 0, 80]⟩ := (Option.some.inj ho).symm
  exact ⟨fun _ => .inl rfl, fun h => absurd h (by decide), fun h => absurd h (by decide)⟩

/-- A good answer with the domain name `a`. -/
def namedAnswer : List UInt8 := [5, 2, 1, 0, 5, 0, 0, 3, 1, 97, 0, 80]

/-- The probe waits for a byte behind the answer. -/
theorem probe_wants_more : ¬ ∀ (dial : Str → Int → Option (List (List UInt8))) (server : Str) (port : Int)
    (username password : Option Str) (s : List UInt8), server ≠ [] → dial server port = some (atOnce s) →
    Faithful (probeProxy dial (some server) port username password) s := by
  intro h
  have hfaithful := h (fun _ _ => some (atOnce namedAnswer)) "p".toList 1080 none none namedAnswer (by decide) rfl
  have haccepted : Accepted namedAnswer [] :=
    .mk 0x02 0 [0x03, 1, 97] [0, 80] [] (by decide) (.domain 1 [97] (by decide)) (by decide)
  exact absurd (hfaithful.accepts.mpr ⟨[], haccepted⟩) (by decide +kernel)

end KiloProxy.Vpn.SocksTester
