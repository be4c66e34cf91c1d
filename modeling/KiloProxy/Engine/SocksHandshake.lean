import KiloProxy.Engine.SocksDialogue
import KiloProxy.Vpn.SocksTester

/-!
# What the SOCKS client accepts

The dialogue read at the states that a run reaches, and compared with the probe of the app:
on the same bytes the probe accepts whatever the engine accepts, and leaves the same rest.

Each stage of the dialogue fixes what was consumed, what was sent and what the transcript
so far decides, so in any state reached the client has reported what `verdict` says of the
bytes it took. The probe reads the same transcript (`SocksTester.verdict`); what the engine
is stricter about is `Strict`.
-/

namespace KiloProxy.Engine.BSocksClient
set_option autoImplicit false
open KiloProxy.Run KiloProxy.Vpn

variable {authInfo : List AuthInfo} {destAddr : BAddr} {c : BSocksClient}

/-! ## The stages, read on the bytes -/

/-- A reply without its header is not decided yet. -/
theorem replyVerdict_short {s : List UInt8} (h : s.length < 4) : replyVerdict s = .more := by
  match s with
  | [] => rfl
  | [_] => rfl
  | [_, _] => rfl
  | [_, _, _] => rfl
  | _ :: _ :: _ :: _ :: s =>
    simp only [List.length_cons] at h
    omega

/-- One byte of the answer to the password decides nothing. -/
theorem passwordVerdict_short {s : List UInt8} (h : s.length < 2) : passwordVerdict s = .more := by
  match s with
  | [] => rfl
  | [_] => rfl
  | _ :: _ :: s =>
    simp only [List.length_cons] at h
    omega

/-- One byte of the answer to the greeting decides nothing. -/
theorem verdict_short {s : List UInt8} (h : s.length < 2) : verdict authInfo s = .more := by
  match s with
  | [] => rfl
  | [_] => rfl
  | _ :: _ :: s =>
    simp only [List.length_cons] at h
    omega

/-- When the password method is chosen the answer to the password comes next. -/
theorem verdict_password {method : UInt8} {username password s : List UInt8}
    (hfind : (authInfo.find? fun ai => ai.authType = method) = some (.password username password))
    (hvalid : validLengths username password) : verdict authInfo ([0x05, method] ++ s) = passwordVerdict s := by
  simp only [List.cons_append, List.nil_append, verdict, hfind, hvalid, ne_eq, not_true, if_false]

/-- A successful reply is read up to the end of its address. -/
theorem replyVerdict_success {rsv atyp : UInt8} {len : Nat} (hlen : addrLen atyp = some len) (s : List UInt8) :
    replyVerdict ([0x05, 0x00, rsv, atyp] ++ s) = if s.length < len then .more else .up (s.drop len) := by
  simp only [List.cons_append, List.nil_append, replyVerdict, hlen, ne_eq, not_true, if_false]

/-- Before the method is chosen only the greeting is owed. -/
theorem owed_short {s : List UInt8} (h : s.length < 2) : owed authInfo destAddr s = helloBytes authInfo := by
  match s with
  | [] => rfl
  | [_] => rfl
  | _ :: _ :: s =>
    simp only [List.length_cons] at h
    omega

/-- When the password method is chosen the password is owed next. -/
theorem owed_password {method : UInt8} {username password s : List UInt8}
    (hfind : (authInfo.find? fun ai => ai.authType = method) = some (.password username password))
    (hvalid : validLengths username password) (h : s.length < 2) :
    owed authInfo destAddr ([0x05, method] ++ s) = helloBytes authInfo ++ passwordBytes username password := by
  match s with
  | [] => simp only [List.append_nil, owed, hfind, hvalid, ne_eq, not_true, if_false]
  | [_] =>
    simp only [List.cons_append, List.nil_append, owed, hfind, hvalid, ne_eq, not_true, if_false, List.append_nil]
  | _ :: _ :: s =>
    simp only [List.length_cons] at h
    omega

/-- Only a client that is up has a dialogue that is done; and all that is owed is sent or being sent. -/
theorem Stage.reads (h : Stage authInfo destAddr c) :
    (verdict authInfo c.consumed = .more ∧ c.events = [] ∨ verdict authInfo c.consumed = .up [] ∧ c.events = [.up]) ∧
      (c.state ≠ .connecting → c.sent ++ c.sending.getD [] = owed authInfo destAddr c.consumed) ∧
      (c.state ≠ .connecting → c.state ≠ .up → c.sending ≠ none ∨ ∃ room ∈ c.receiving, 0 < room) := by
  cases h with
  | connecting hstate hevents _ _ _ hconsumed =>
    rw [hconsumed]
    exact ⟨.inl ⟨rfl, hevents⟩, fun hn => absurd hstate hn, fun hn => absurd hstate hn⟩
  | sendingHello _ hevents hs hconsumed =>
    rw [hconsumed, hs.sending, hs.sent]
    exact ⟨.inl ⟨rfl, hevents⟩, fun _ => rfl, fun _ _ => .inl (Option.some_ne_none _)⟩
  | sentHello part _ hevents hr hconsumed =>
    rw [hconsumed, hr.sending, hr.sent, Option.getD_none, List.append_nil, hr.receiving]
    exact ⟨.inl ⟨verdict_short hr.short, hevents⟩, fun _ => (owed_short hr.short).symm,
      fun _ _ => .inr ⟨_, rfl, Nat.sub_pos_of_lt hr.short⟩⟩
  | sendingPassword method username password _ hevents hs hfind hvalid hconsumed =>
    have howed : owed authInfo destAddr ([0x05, method] ++ []) = _ := owed_password hfind hvalid (by decide)
    have hverdict : verdict authInfo ([0x05, method] ++ []) = passwordVerdict [] := verdict_password hfind hvalid
    rw [List.append_nil] at howed hverdict
    rw [hconsumed, hs.sending, hs.sent]
    exact ⟨.inl ⟨hverdict, hevents⟩, fun _ => howed.symm, fun _ _ => .inl (Option.some_ne_none _)⟩
  | sentPassword method username password part _ hevents hr hfind hvalid hconsumed =>
    rw [hconsumed, hr.sending, hr.sent, Option.getD_none, List.append_nil, hr.receiving,
      verdict_password hfind hvalid, owed_password hfind hvalid hr.short]
    exact ⟨.inl ⟨passwordVerdict_short hr.short, hevents⟩, fun _ => rfl,
      fun _ _ => .inr ⟨_, rfl, Nat.sub_pos_of_lt hr.short⟩⟩
  | sendingRequest pre out _ hevents hs hpre hconsumed =>
    have hverdict := hpre.verdict_eq []
    have howed : owed authInfo destAddr (pre ++ []) = _ := hpre.owed_eq []
    rw [List.append_nil] at hverdict howed
    rw [hconsumed, hs.sending, hs.sent, hverdict, howed]
    exact ⟨.inl ⟨rfl, hevents⟩, fun _ => rfl, fun _ _ => .inl (Option.some_ne_none _)⟩
  | sentRequest pre out part _ hevents hr hpre hconsumed =>
    rw [hconsumed, hr.sending, hr.sent, Option.getD_none, List.append_nil, hr.receiving, hpre.verdict_eq, hpre.owed_eq]
    exact ⟨.inl ⟨replyVerdict_short hr.short, hevents⟩, fun _ => rfl,
      fun _ _ => .inr ⟨_, rfl, Nat.sub_pos_of_lt hr.short⟩⟩
  | receivedReplyHeader pre out part rsv atyp len _ hevents hr hlen hpre hconsumed =>
    rw [hconsumed, hr.sending, hr.sent, Option.getD_none, List.append_nil, hr.receiving, hpre.verdict_eq, hpre.owed_eq,
      replyVerdict_success hlen, if_pos hr.short]
    exact ⟨.inl ⟨rfl, hevents⟩, fun _ => rfl, fun _ _ => .inr ⟨_, rfl, Nat.sub_pos_of_lt hr.short⟩⟩
  | up pre out addr rsv atyp hstate hevents hsending _ hlen hpre hsent hconsumed =>
    rw [hconsumed, hsending, hsent, Option.getD_none, List.append_nil, hpre.verdict_eq, hpre.owed_eq,
      replyVerdict_success hlen, if_neg (Nat.lt_irrefl _), List.drop_length]
    exact ⟨.inr ⟨rfl, hevents⟩, fun _ => rfl, fun _ hn => absurd hstate hn⟩

/-! ## Whole runs -/

theorem init_sound : Sound authInfo destAddr (init authInfo destAddr) :=
  ⟨rfl, rfl, .inl (.connecting rfl rfl rfl rfl rfl rfl)⟩

/-- A refused dialogue has failed. -/
theorem Refused.failed (h : Refused authInfo destAddr c) : c.failed := by
  unfold BSocksClient.failed
  rw [h.events]
  exact .inl (List.mem_singleton_self _)

/-- A client that is called has not failed, so it is at some stage. -/
theorem Sound.stage_of_calls (h : Sound authInfo destAddr c) {a : Call} (hc : c.Calls a) : Stage authInfo destAddr c := by
  have hlive : ¬ c.failed := by
    cases a <;> exact hc.1
  rcases h.stage with hstage | hrefused | hfailed
  · exact hstage
  · exact absurd hrefused.failed hlive
  · exact absurd hfailed hlive

/-- In every reachable state the client is in a stage of the dialogue, was refused or has failed. -/
theorem reachable_sound (h : Reachable (system authInfo destAddr) c) : Sound authInfo destAddr c := by
  refine h.invariant (fun c hc => ?_) fun c a c' hs _ hstep => ?_
  · obtain rfl : c = init authInfo destAddr := hc
    exact init_sound
  · have hstep : (if c.Calls a then c.handle a else none) = some c' := hstep
    split at hstep
    · rename_i hc
      obtain ⟨d, hd, hauth, hdest, hstage⟩ := (hs.stage_of_calls hc).handle hs.auth hs.dest hc
      obtain rfl := Option.some.inj (hd.symm.trans hstep)
      exact ⟨hauth, hdest, hstage.imp id (Or.imp id And.left)⟩
    · cases hstep

/-- At some stage, or refused. -/
def Decided (authInfo : List AuthInfo) (destAddr : BAddr) (c : BSocksClient) : Prop :=
  Stage authInfo destAddr c ∨ Refused authInfo destAddr c

/-- On a connection that lasts the client is at a stage of the dialogue, or was refused. -/
theorem healthy_decided (h : Reaches (system authInfo destAddr) (fun _ a => Healthy a) c) :
    Decided authInfo destAddr c := by
  have hknown : ∀ c, Reaches (system authInfo destAddr) (fun _ a => Healthy a) c → Sound authInfo destAddr c :=
    fun c hc => reachable_sound hc.reachable
  refine h.invariant_of hknown (fun c hc => ?_) fun c a c' hs _ hhealthy hstep => ?_
  · obtain rfl : c = init authInfo destAddr := hc
    exact .inl (.connecting rfl rfl rfl rfl rfl rfl)
  · have hstep : (if c.Calls a then c.handle a else none) = some c' := hstep
    split at hstep
    · rename_i hc
      obtain ⟨d, hd, _, _, hstage⟩ := (hs.stage_of_calls hc).handle hs.auth hs.dest hc
      obtain rfl := Option.some.inj (hd.symm.trans hstep)
      rcases hstage with hst | hrefused | ⟨_, hsick⟩
      · exact .inl hst
      · exact .inr hrefused
      · exact absurd hhealthy hsick
    · cases hstep

/-- A server that takes the password; its replies come in pieces. -/
def dialogue : List Call :=
  [.connector false, .sendDone, .recvDone [5], .recvDone [2], .sendDone, .recvDone [1, 0], .sendDone, .recvDone [5, 0, 0],
    .recvDone [1], .recvDone [9, 9, 9, 9], .recvDone [0, 80]]

def offered : List AuthInfo := [.none, .password [117] [112, 119]]

def destination : BAddr := .ipv4 ⟨[1, 2, 3, 4], rfl⟩ ⟨[1, 187], rfl⟩

/-- The state after a run of calls of a connection that does not fail. -/
def ranTo (as : List Call) : BSocksClient :=
  (execWhere (system offered destination) (fun _ a => Healthy a) (init offered destination) as).getD (init offered destination)

theorem ranTo_reaches (as : List Call) : Reaches (system offered destination) (fun _ a => Healthy a) (ranTo as) := by
  unfold ranTo
  cases hrun : execWhere (system offered destination) (fun _ a => Healthy a) (init offered destination) as with
  | none => exact .start rfl
  | some c => exact execWhere_reaches as (.start rfl) hrun

/-- **The pieces do not matter.** On a connection that does not fail, the bytes received decide what is
reported: an error exactly when the dialogue is refused, and that it is up exactly when the dialogue is
done, with nothing taken of what follows it. What was sent, or is being sent, is what the bytes call for. -/
theorem handshake_exact (h : Reaches (system authInfo destAddr) (fun _ a => Healthy a) c)
    (hmethods : authInfo ≠ [] ∧ authInfo.length ≤ 255) :
    (match verdict authInfo c.consumed with
      | .more => c.events = []
      | .bad => c.events = [.error]
      | .up rest => rest = [] ∧ c.events = [.up]) ∧
      (c.state ≠ .connecting → c.sent ++ c.sending.getD [] = owed authInfo destAddr c.consumed) := by
  rcases healthy_decided h with hstage | hrefused
  · obtain ⟨hverdict, howed, _⟩ := hstage.reads
    refine ⟨?_, howed⟩
    rcases hverdict with ⟨hmore, hevents⟩ | ⟨hup, hevents⟩
    · rw [hmore]
      exact hevents
    · rw [hup]
      exact ⟨rfl, hevents⟩
  · rcases hrefused.bad with ⟨hbad, howed⟩ | hnone | hmany
    · rw [hbad]
      exact ⟨hrefused.events, fun _ => howed⟩
    · exact absurd hnone hmethods.1
    · omega

theorem handshake_exact_dialogue :
    (match verdict offered (ranTo dialogue).consumed with
      | .more => (ranTo dialogue).events = []
      | .bad => (ranTo dialogue).events = [.error]
      | .up rest => rest = [] ∧ (ranTo dialogue).events = [.up]) ∧
      ((ranTo dialogue).state ≠ .connecting →
        (ranTo dialogue).sent ++ (ranTo dialogue).sending.getD [] = owed offered destination (ranTo dialogue).consumed) :=
  handshake_exact (ranTo_reaches dialogue) (by decide)

/-- **No handler faults**: no interface is used while it is busy, no assertion fails and no reply is read
that is not there, whatever the connection does; and the client always waits for something. -/
theorem handshake_total (h : Reachable (system authInfo destAddr) c) :
    (∀ a, c.Calls a → ∃ c', c.handle a = some c') ∧
      (¬ c.failed → c.state ≠ .connecting → c.state ≠ .up → c.sending ≠ none ∨ ∃ room ∈ c.receiving, 0 < room) := by
  have hs := reachable_sound h
  constructor
  · intro a hc
    obtain ⟨c', hc', _⟩ := (hs.stage_of_calls hc).handle hs.auth hs.dest hc
    exact ⟨c', hc'⟩
  · intro hlive
    rcases hs.stage with hstage | hrefused | hfailed
    · exact hstage.reads.2.2
    · exact absurd hrefused.failed hlive
    · exact absurd hfailed hlive

theorem handshake_total_dialogue :
    (∀ a, (ranTo (dialogue.take 7)).Calls a → ∃ c', (ranTo (dialogue.take 7)).handle a = some c') ∧
      (¬ (ranTo (dialogue.take 7)).failed → (ranTo (dialogue.take 7)).state ≠ .connecting →
        (ranTo (dialogue.take 7)).state ≠ .up →
          (ranTo (dialogue.take 7)).sending ≠ none ∨ ∃ room ∈ (ranTo (dialogue.take 7)).receiving, 0 < room) :=
  handshake_total (ranTo_reaches (dialogue.take 7)).reachable

/-! ## The probe of the app -/

/-- A reply that the engine takes and the probe does not look at. -/
def StrictReply : List UInt8 → Prop
  | ver :: _ :: _ :: atyp :: _ => ver = 0x05 ∧ atyp ≠ 0x03
  | _ => False

/-- The versions behind the first are right, the method was offered, and the address is no name. -/
def Strict : List UInt8 → Prop
  | _ :: method :: s => method = 0x00 ∧ StrictReply s ∨ method = 0x02 ∧
    match s with
    | version :: _ :: s => version = 1 ∧ StrictReply s
    | _ => False
  | _ => False

/-- The probe skips bytes that are there. -/
theorem skipBytes_ok {s rest : List UInt8} {n : Nat} :
    SocksTester.skipBytes s n = (.ok, rest) ↔ n ≤ s.length ∧ s.drop n = rest := by
  unfold SocksTester.skipBytes
  split
  · rename_i hle
    simp [hle]
  · rename_i hlt
    simp [hlt]

/-- On replies the two differ in the version and in names alone. -/
theorem replyVerdict_up_iff {s rest : List UInt8} :
    replyVerdict s = .up rest ↔ SocksTester.connectBytes s = (.ok, rest) ∧ StrictReply s := by
  match s with
  | [] => simp [replyVerdict, StrictReply]
  | [_] => simp [replyVerdict, StrictReply]
  | [_, _] => simp [replyVerdict, StrictReply]
  | [_, _, _] => simp [replyVerdict, StrictReply]
  | ver :: rep :: rsv :: atyp :: s =>
    have hsplit : ∀ len, addrLen atyp = some len →
        ((if s.length < len then Verdict.more else .up (s.drop len)) = .up rest ↔
          SocksTester.skipBytes s len = (.ok, rest)) := by
      intro len _
      rw [skipBytes_ok]
      split
      · rename_i hlt
        constructor
        · intro hn
          cases hn
        · rintro ⟨hle, _⟩
          omega
      · rename_i hge
        rw [Verdict.up.injEq]
        exact ⟨fun he => ⟨Nat.le_of_not_lt hge, he⟩, And.right⟩
    unfold replyVerdict SocksTester.connectBytes SocksTester.addressBytes StrictReply
    by_cases hver : ver = 0x05
    · by_cases hrep : rep = 0x00
      · by_cases hfour : atyp = 0x01
        · subst hfour
          simp only [hver, hrep, ne_eq, not_true, if_false, if_true, true_and]
          rw [and_iff_left (by decide)]
          exact hsplit 6 rfl
        · by_cases hsix : atyp = 0x04
          · subst hsix
            simp only [hver, hrep, ne_eq, not_true, if_false, if_true, true_and,
              show ¬ ((4 : UInt8) = 1) from by decide]
            rw [and_iff_left (by decide)]
            exact hsplit 18 rfl
          · have hnone : addrLen atyp = none := by
              unfold addrLen
              rw [if_neg hfour, if_neg hsix]
            simp only [hver, hrep, hnone, hfour, hsix, ne_eq, not_true, if_false, true_and]
            constructor
            · intro hn
              cases hn
            · rintro ⟨hn, hname⟩
              rw [if_neg hname] at hn
              cases hn
      · simp [hrep, hver]
    · simp [hver]

/-- With credentials the engine accepts what the probe does, on strict replies. -/
theorem accepts_with_credentials {username password s rest : List UInt8} (hvalid : validLengths username password) :
    verdict [.none, .password username password] s = .up rest ↔
      SocksTester.verdict s = (.ok, rest) ∧ Strict s := by
  match s with
  | [] => simp [verdict, Strict]
  | [_] => simp [verdict, Strict]
  | ver :: method :: s =>
    unfold verdict SocksTester.verdict Strict
    by_cases hver : ver = 0x05
    · subst hver
      by_cases hnone : method = 0x00
      · subst hnone
        have hfind : ([.none, .password username password] : List AuthInfo).find? (fun ai => ai.authType = 0) =
            some .none := rfl
        simp only [hfind, ne_eq, not_true, if_false, true_and, show ¬ ((0 : UInt8) = 255) from by decide,
          show ¬ ((0 : UInt8) = 2) from by decide, false_and, or_false]
        exact replyVerdict_up_iff
      · by_cases hpass : method = 0x02
        · subst hpass
          have hfind : ([.none, .password username password] : List AuthInfo).find? (fun ai => ai.authType = 2) =
              some (.password username password) := rfl
          simp only [hfind, hvalid, ne_eq, not_true, if_false, if_true, true_and,
            show ¬ ((2 : UInt8) = 255) from by decide, show ¬ ((2 : UInt8) = 0) from by decide, false_and, false_or]
          match s with
          | [] => simp [passwordVerdict]
          | [_] => simp [passwordVerdict]
          | version :: status :: s =>
            unfold passwordVerdict SocksTester.authBytes
            by_cases hversion : version = 1
            · by_cases hstatus : status = 0
              · simp only [hversion, hstatus, ne_eq, not_true, if_false, true_and]
                exact replyVerdict_up_iff
              · simp [hversion, hstatus]
            · simp [hversion]
        · have hfind : ([.none, .password username password] : List AuthInfo).find? (fun ai => ai.authType = method) =
              none := by
            simp [AuthInfo.authType, Ne.symm hnone, Ne.symm hpass]
          simp [hfind, hnone, hpass]
    · simp [hver]

/-- Without credentials the engine accepts what the probe does, where the plain method was chosen. -/
theorem accepts_without_credentials {s rest : List UInt8} :
    verdict [.none] s = .up rest ↔ SocksTester.verdict s = (.ok, rest) ∧ Strict s ∧ s[1]? = some 0x00 := by
  match s with
  | [] => simp [verdict, Strict]
  | [_] => simp [verdict, Strict]
  | ver :: method :: s =>
    unfold verdict SocksTester.verdict Strict
    by_cases hver : ver = 0x05
    · subst hver
      by_cases hnone : method = 0x00
      · subst hnone
        have hfind : ([.none] : List AuthInfo).find? (fun ai => ai.authType = 0) = some .none := rfl
        simp only [hfind, ne_eq, not_true, if_false, true_and, show ¬ ((0 : UInt8) = 255) from by decide,
          show ¬ ((0 : UInt8) = 2) from by decide, false_and, or_false, List.getElem?_cons_succ,
          List.getElem?_cons_zero, and_true]
        exact replyVerdict_up_iff
      · have hfind : ([.none] : List AuthInfo).find? (fun ai => ai.authType = method) = none := by
          simp [AuthInfo.authType, Ne.symm hnone]
        simp [hfind, hnone]
    · simp [hver]

/-- **The engine and the probe of the app agree on a server.** What the engine accepts, the probe accepts,
and the same bytes follow; and the probe accepts more than that only where a version behind the first
is wrong, the method was not offered or the address is a name. Without credentials the engine offers the
plain method alone. -/
theorem accepts_iff_probe {username password s rest : List UInt8} (hvalid : validLengths username password) :
    (verdict [.none, .password username password] s = .up rest ↔
      SocksTester.verdict s = (.ok, rest) ∧ Strict s) ∧
    (verdict [.none] s = .up rest ↔ SocksTester.verdict s = (.ok, rest) ∧ Strict s ∧ s[1]? = some 0x00) :=
  ⟨accepts_with_credentials hvalid, accepts_without_credentials⟩

theorem accepts_iff_probe_dialogue :
    (verdict offered [5, 2, 1, 0, 5, 0, 0, 1, 9, 9, 9, 9, 0, 80, 7] = .up [7] ↔
      SocksTester.verdict [5, 2, 1, 0, 5, 0, 0, 1, 9, 9, 9, 9, 0, 80, 7] = (.ok, [7]) ∧
        Strict [5, 2, 1, 0, 5, 0, 0, 1, 9, 9, 9, 9, 0, 80, 7]) ∧
    (verdict [.none] [5, 2, 1, 0, 5, 0, 0, 1, 9, 9, 9, 9, 0, 80, 7] = .up [7] ↔
      SocksTester.verdict [5, 2, 1, 0, 5, 0, 0, 1, 9, 9, 9, 9, 0, 80, 7] = (.ok, [7]) ∧
        Strict [5, 2, 1, 0, 5, 0, 0, 1, 9, 9, 9, 9, 0, 80, 7] ∧
          [5, 2, 1, 0, 5, 0, 0, 1, 9, 9, 9, 9, 0, 80, (7 : UInt8)][1]? = some 0x00) :=
  accepts_iff_probe (by decide)

end KiloProxy.Engine.BSocksClient
