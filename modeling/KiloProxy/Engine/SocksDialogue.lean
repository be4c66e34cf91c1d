import KiloProxy.Engine.SocksClient

/-!
# The dialogue of the SOCKS client

What the client does is decided by the bytes that it got, however they were cut: `verdict`
says on the bytes alone whether the dialogue is not over, refused, or done, and `owed` what
has to be sent by then. A client that is up took exactly the dialogue, so the first byte
behind it belongs to the relay.
-/

namespace KiloProxy.Engine.BSocksClient
set_option autoImplicit false
open KiloProxy.Run

/-! ## The decision on the bytes -/

inductive Verdict where
  | more
  | bad
  | up (rest : List UInt8)
deriving DecidableEq

def replyVerdict : List UInt8 → Verdict
  | ver :: rep :: _ :: atyp :: s =>
    if ver ≠ 0x05 then .bad
    else if rep ≠ 0x00 then .bad
    else
      match addrLen atyp with
      | none => .bad
      | some len => if s.length < len then .more else .up (s.drop len)
  | _ => .more

def passwordVerdict : List UInt8 → Verdict
  | version :: status :: s => if version ≠ 1 then .bad else if status ≠ 0 then .bad else replyVerdict s
  | _ => .more

/-- The verdict on what the server sent. -/
def verdict (authInfo : List AuthInfo) : List UInt8 → Verdict
  | ver :: method :: s =>
    if ver ≠ 0x05 then .bad
    else
      match authInfo.find? fun ai => ai.authType = method with
      | none => .bad
      | some .none => replyVerdict s
      | some (.password username password) =>
        if ¬ validLengths username password then .bad else passwordVerdict s
  | _ => .more

/-- What the client has to have sent, or be sending. -/
def owed (authInfo : List AuthInfo) (destAddr : BAddr) : List UInt8 → List UInt8
  | ver :: method :: s =>
    helloBytes authInfo ++
      if ver ≠ 0x05 then []
      else
        match authInfo.find? fun ai => ai.authType = method with
        | none => []
        | some .none => requestBytes destAddr
        | some (.password username password) =>
          if ¬ validLengths username password then []
          else
            passwordBytes username password ++
              match s with
              | version :: status :: _ => if version ≠ 1 ∨ status ≠ 0 then [] else requestBytes destAddr
              | _ => []
  | _ => helloBytes authInfo

/-! ## The invariant -/

/-- `pre` ends the authentication, during which `out` was sent. -/
inductive Authenticated (authInfo : List AuthInfo) : List UInt8 → List UInt8 → Prop where
  | none (method : UInt8) : (authInfo.find? fun ai => ai.authType = method) = some .none →
      Authenticated authInfo [0x05, method] (helloBytes authInfo)
  | password (method : UInt8) (username password : List UInt8) :
      (authInfo.find? fun ai => ai.authType = method) = some (.password username password) →
      validLengths username password →
      Authenticated authInfo [0x05, method, 1, 0] (helloBytes authInfo ++ passwordBytes username password)

variable {authInfo : List AuthInfo} {destAddr : BAddr} {c : BSocksClient}

/-- After the authentication the verdict is the reply's. -/
theorem Authenticated.verdict_eq {pre out : List UInt8} (h : Authenticated authInfo pre out) (s : List UInt8) :
    verdict authInfo (pre ++ s) = replyVerdict s := by
  cases h with
  | none method hfind => simp only [List.cons_append, List.nil_append, verdict, hfind, ne_eq, not_true, if_false]
  | password method username password hfind hvalid =>
    simp only [List.cons_append, List.nil_append, verdict, hfind, hvalid, passwordVerdict, ne_eq, not_true, if_false]

/-- After the authentication the request is owed to the server. -/
theorem Authenticated.owed_eq {pre out : List UInt8} (h : Authenticated authInfo pre out) (s : List UInt8) :
    owed authInfo destAddr (pre ++ s) = out ++ requestBytes destAddr := by
  cases h with
  | none method hfind => simp only [List.cons_append, List.nil_append, owed, hfind, ne_eq, not_true, if_false]
  | password method username password hfind hvalid =>
    simp only [List.cons_append, List.nil_append, owed, hfind, hvalid, ne_eq, not_true, if_false, or_self,
      List.append_assoc]

/-- A message is being sent, when `before` was sent. -/
structure Sending (c : BSocksClient) (before message : List UInt8) : Prop where
  sending : c.sending = some message
  receiving : c.receiving = none
  sent : c.sent = before

/-- `part` of `total` bytes was received behind `head` in the buffer, when `out` was sent. -/
structure Receiving (c : BSocksClient) (out head part : List UInt8) (total : Nat) : Prop where
  sending : c.sending = none
  receiving : c.receiving = some (total - part.length)
  buffer : c.buffer = head ++ part
  len : c.recvLen = part.length
  asked : c.recvTotal = total
  short : part.length < total
  sent : c.sent = out

/-- Where the client is in the dialogue. -/
inductive Stage (authInfo : List AuthInfo) (destAddr : BAddr) (c : BSocksClient) : Prop where
  | connecting : c.state = .connecting → c.events = [] → c.sending = none → c.receiving = none → c.sent = [] →
      c.consumed = [] → Stage authInfo destAddr c
  | sendingHello : c.state = .sendingHello → c.events = [] → Sending c [] (helloBytes authInfo) → c.consumed = [] →
      Stage authInfo destAddr c
  | sentHello (part : List UInt8) : c.state = .sentHello → c.events = [] →
      Receiving c (helloBytes authInfo) [] part 2 → c.consumed = part → Stage authInfo destAddr c
  | sendingPassword (method : UInt8) (username password : List UInt8) : c.state = .sendingPassword → c.events = [] →
      Sending c (helloBytes authInfo) (passwordBytes username password) →
      (authInfo.find? fun ai => ai.authType = method) = some (.password username password) →
      validLengths username password → c.consumed = [0x05, method] → Stage authInfo destAddr c
  | sentPassword (method : UInt8) (username password part : List UInt8) : c.state = .sentPassword → c.events = [] →
      Receiving c (helloBytes authInfo ++ passwordBytes username password) [] part 2 →
      (authInfo.find? fun ai => ai.authType = method) = some (.password username password) →
      validLengths username password → c.consumed = [0x05, method] ++ part → Stage authInfo destAddr c
  | sendingRequest (pre out : List UInt8) : c.state = .sendingRequest → c.events = [] →
      Sending c out (requestBytes destAddr) → Authenticated authInfo pre out → c.consumed = pre →
      Stage authInfo destAddr c
  | sentRequest (pre out part : List UInt8) : c.state = .sentRequest → c.events = [] →
      Receiving c (out ++ requestBytes destAddr) [] part 4 → Authenticated authInfo pre out →
      c.consumed = pre ++ part → Stage authInfo destAddr c
  | receivedReplyHeader (pre out part : List UInt8) (rsv atyp : UInt8) (len : Nat) : c.state = .receivedReplyHeader →
      c.events = [] → Receiving c (out ++ requestBytes destAddr) [0x05, 0x00, rsv, atyp] part len →
      addrLen atyp = some len → Authenticated authInfo pre out →
      c.consumed = pre ++ ([0x05, 0x00, rsv, atyp] ++ part) → Stage authInfo destAddr c
  | up (pre out addr : List UInt8) (rsv atyp : UInt8) : c.state = .up → c.events = [.up] → c.sending = none →
      c.receiving = none → addrLen atyp = some addr.length → Authenticated authInfo pre out →
      c.sent = out ++ requestBytes destAddr → c.consumed = pre ++ ([0x05, 0x00, rsv, atyp] ++ addr) →
      Stage authInfo destAddr c

/-- Calls of a connection that does not fail. -/
def Healthy : Call → Prop
  | .connector isError => isError = false
  | .connection _ => False
  | .sendDone => True
  | .recvDone _ => True

instance : (a : Call) → Decidable (Healthy a)
  | .connector isError => inferInstanceAs (Decidable (isError = false))
  | .connection _ => inferInstanceAs (Decidable False)
  | .sendDone => inferInstanceAs (Decidable True)
  | .recvDone _ => inferInstanceAs (Decidable True)

/-- The server's reply was refused, or no method could be offered. -/
structure Refused (authInfo : List AuthInfo) (destAddr : BAddr) (c : BSocksClient) : Prop where
  events : c.events = [.error]
  bad : verdict authInfo c.consumed = .bad ∧ c.sent ++ c.sending.getD [] = owed authInfo destAddr c.consumed ∨
    authInfo = [] ∨ 255 < authInfo.length

/-- The invariant between calls. -/
structure Sound (authInfo : List AuthInfo) (destAddr : BAddr) (c : BSocksClient) : Prop where
  auth : c.authInfo = authInfo
  dest : c.destAddr = destAddr
  stage : Stage authInfo destAddr c ∨ Refused authInfo destAddr c ∨ c.failed

/-! ## Sending and receiving -/

theorem senderSend_eq (hidle : c.sending = none) (data : List UInt8) :
    c.senderSend data = some { c with sending := some data } := if_neg (not_not_intro hidle)

/-- A receive starts where none is pending. -/
theorem startReceive_eq (hidle : c.receiving = none) {total : Nat} (hpos : 0 < total) :
    c.startReceive total = some { c with recvLen := 0, recvTotal := total, receiving := some total } := by
  unfold startReceive
  rw [if_neg (by omega)]
  unfold doReceive
  rw [if_neg]
  · rfl
  · rintro (hn | hn)
    · dsimp only at hn
      omega
    · exact hn hidle

/-- `data` behind what was received. -/
def filled (c : BSocksClient) (data : List UInt8) : BSocksClient :=
  { c with
    receiving := none, recvLen := c.recvLen + data.length, buffer := c.buffer ++ data, consumed := c.consumed ++ data }

/-- A piece is added, or completes what was asked for. -/
theorem Receiving.recvDone {out head part data : List UInt8} {total : Nat} (h : Receiving c out head part total)
    (hc : c.Calls (.recvDone data)) :
    (∃ c', c.recvHandlerDone data = some c' ∧ Receiving c' out head (part ++ data) total ∧ c'.state = c.state ∧
        c'.events = c.events ∧ c'.consumed = c.consumed ++ data ∧ c'.authInfo = c.authInfo ∧ c'.destAddr = c.destAddr) ∨
      (part ++ data).length = total ∧ c.recvHandlerDone data = (c.filled data).received ∧
        (c.filled data).buffer = head ++ (part ++ data) := by
  obtain ⟨_, _, room, hroom, hle⟩ := hc
  have hshort := h.short
  have hlen := h.len
  have hasked := h.asked
  obtain rfl := Option.some.inj (h.receiving.symm.trans hroom)
  have hbuffer : c.buffer ++ data = head ++ (part ++ data) := by rw [h.buffer, List.append_assoc]
  have hsum : (part ++ data).length = part.length + data.length := List.length_append
  unfold recvHandlerDone
  rw [if_neg (by omega)]
  dsimp only
  split
  · rename_i hmore
    refine .inl ⟨{ c.filled data with receiving := some (c.recvTotal - (c.recvLen + data.length)) }, ?_, ?_,
      rfl, rfl, rfl, rfl, rfl⟩
    · unfold doReceive
      rw [if_neg]
      · rfl
      · rintro (hn | hn)
        · dsimp only at hn
          omega
        · exact hn rfl
    · refine ⟨h.sending, ?_, hbuffer, ?_, hasked, by omega, h.sent⟩
      · show some (c.recvTotal - (c.recvLen + data.length)) = some (total - (part ++ data).length)
        rw [hasked, hlen, hsum]
      · show c.recvLen + data.length = (part ++ data).length
        omega
  · rename_i hdone
    exact .inr ⟨by omega, rfl, hbuffer⟩

/-- What a call leaves: another stage, a refusal, or a failed connection. -/
def Outcome (authInfo : List AuthInfo) (destAddr : BAddr) (a : Call) (c : BSocksClient) : Prop :=
  c.authInfo = authInfo ∧ c.destAddr = destAddr ∧
    (Stage authInfo destAddr c ∨ Refused authInfo destAddr c ∨ c.failed ∧ ¬ Healthy a)

/-- The client waits in a new stage for what it sends. -/
theorem authFinished_stage {pre out : List UInt8} (hdest : c.destAddr = destAddr) (hauth : c.authInfo = authInfo)
    (hevents : c.events = []) (hsending : c.sending = none) (hreceiving : c.receiving = none) (hsent : c.sent = out)
    (hpre : Authenticated authInfo pre out) (hconsumed : c.consumed = pre) {a : Call} :
    ∃ c', c.authFinished = some c' ∧ Outcome authInfo destAddr a c' := by
  unfold authFinished
  rw [senderSend_eq hsending, Option.map_some]
  refine ⟨_, rfl, hauth, hdest, .inl (.sendingRequest pre out rfl hevents ⟨?_, hreceiving, hsent⟩ hpre hconsumed)⟩
  rw [← hdest]

/-- The reply is refused. -/
theorem refused_outcome (hdest : c.destAddr = destAddr) (hauth : c.authInfo = authInfo) (hevents : c.events = [])
    (hsending : c.sending = none) (hbad : verdict authInfo c.consumed = .bad)
    (hsent : c.sent = owed authInfo destAddr c.consumed) {a : Call} :
    Outcome authInfo destAddr a (c.reportError .error) := by
  refine ⟨hauth, hdest, .inr (.inl ⟨?_, .inl ⟨hbad, ?_⟩⟩)⟩
  · show c.events ++ [.error] = [.error]
    rw [hevents, List.nil_append]
  · show c.sent ++ c.sending.getD [] = _
    rw [hsending, Option.getD_none, List.append_nil]
    exact hsent

theorem exists_pair {s : List UInt8} (h : s.length = 2) : ∃ a b, s = [a, b] := by
  match s, h with
  | [a, b], _ => exact ⟨a, b, rfl⟩

theorem exists_four {s : List UInt8} (h : s.length = 4) : ∃ a b x d, s = [a, b, x, d] := by
  match s, h with
  | [a, b, x, d], _ => exact ⟨a, b, x, d, rfl⟩

/-! ## The replies -/

/-- The method reply. -/
theorem received_hello {ver method : UInt8} {a : Call} (hauth : c.authInfo = authInfo) (hdest : c.destAddr = destAddr)
    (hstate : c.state = .sentHello) (hevents : c.events = []) (hsending : c.sending = none)
    (hreceiving : c.receiving = none) (hsent : c.sent = helloBytes authInfo) (hbuffer : c.buffer = [ver, method])
    (hconsumed : c.consumed = [ver, method]) : ∃ c', c.received = some c' ∧ Outcome authInfo destAddr a c' := by
  unfold received
  rw [hstate, hbuffer]
  dsimp only
  rw [hauth]
  by_cases hver : ver = 0x05
  · subst hver
    rw [if_neg (not_not_intro rfl)]
    cases hfind : authInfo.find? fun ai => ai.authType = method with
    | none =>
      refine ⟨_, rfl, refused_outcome hdest hauth hevents hsending ?_ ?_⟩
      · rw [hconsumed]
        simp only [verdict, hfind, ne_eq, not_true, if_false]
      · rw [hconsumed, hsent]
        simp only [owed, hfind, ne_eq, not_true, if_false, List.append_nil]
    | some ai =>
      cases ai with
      | none => exact authFinished_stage hdest hauth hevents hsending hreceiving hsent (.none method hfind) hconsumed
      | password username password =>
        dsimp only
        by_cases hvalid : validLengths username password
        · rw [if_neg (not_not_intro hvalid), senderSend_eq hsending, Option.map_some]
          exact ⟨_, rfl, hauth, hdest,
            .inl (.sendingPassword method username password rfl hevents ⟨rfl, hreceiving, hsent⟩ hfind hvalid hconsumed)⟩
        · rw [if_pos hvalid]
          refine ⟨_, rfl, refused_outcome hdest hauth hevents hsending ?_ ?_⟩
          · rw [hconsumed]
            simp only [verdict, hfind, hvalid, ne_eq, not_true, if_false, not_false_eq_true, if_true]
          · rw [hconsumed, hsent]
            simp only [owed, hfind, hvalid, ne_eq, not_true, if_false, not_false_eq_true, if_true, List.append_nil]
  · rw [if_pos hver]
    refine ⟨_, rfl, refused_outcome hdest hauth hevents hsending ?_ ?_⟩
    · rw [hconsumed]
      simp only [verdict, ne_eq, hver, not_false_eq_true, if_true]
    · rw [hconsumed, hsent]
      simp only [owed, ne_eq, hver, not_false_eq_true, if_true, List.append_nil]

/-- The password reply. -/
theorem received_password {method version status : UInt8} {username password : List UInt8} {a : Call}
    (hauth : c.authInfo = authInfo) (hdest : c.destAddr = destAddr) (hstate : c.state = .sentPassword)
    (hevents : c.events = []) (hsending : c.sending = none) (hreceiving : c.receiving = none)
    (hsent : c.sent = helloBytes authInfo ++ passwordBytes username password)
    (hfind : (authInfo.find? fun ai => ai.authType = method) = some (.password username password))
    (hvalid : validLengths username password) (hbuffer : c.buffer = [version, status])
    (hconsumed : c.consumed = [0x05, method, version, status]) :
    ∃ c', c.received = some c' ∧ Outcome authInfo destAddr a c' := by
  unfold received
  rw [hstate, hbuffer]
  dsimp only
  by_cases hversion : version = 1
  · subst hversion
    rw [if_neg (not_not_intro rfl)]
    by_cases hstatus : status = 0
    · subst hstatus
      rw [if_neg (not_not_intro rfl)]
      exact authFinished_stage hdest hauth hevents hsending hreceiving hsent
        (.password method username password hfind hvalid) hconsumed
    · rw [if_pos hstatus]
      refine ⟨_, rfl, refused_outcome hdest hauth hevents hsending ?_ ?_⟩
      · rw [hconsumed]
        simp only [verdict, hfind, hvalid, passwordVerdict, hstatus, ne_eq, not_true, if_false, not_false_eq_true, if_true]
      · rw [hconsumed, hsent]
        simp only [owed, hfind, hvalid, hstatus, ne_eq, not_true, if_false, not_false_eq_true, or_true, if_true,
          List.append_nil]
  · rw [if_pos hversion]
    refine ⟨_, rfl, refused_outcome hdest hauth hevents hsending ?_ ?_⟩
    · rw [hconsumed]
      simp only [verdict, hfind, hvalid, passwordVerdict, hversion, ne_eq, not_true, if_false, not_false_eq_true, if_true]
    · rw [hconsumed, hsent]
      simp only [owed, hfind, hvalid, hversion, ne_eq, not_true, if_false, not_false_eq_true, true_or, if_true,
        List.append_nil]

/-- The head of the reply to the request. -/
theorem received_reply {pre out : List UInt8} {ver rep rsv atyp : UInt8} {a : Call} (hauth : c.authInfo = authInfo)
    (hdest : c.destAddr = destAddr) (hstate : c.state = .sentRequest) (hevents : c.events = [])
    (hsending : c.sending = none) (hreceiving : c.receiving = none) (hsent : c.sent = out ++ requestBytes destAddr)
    (hpre : Authenticated authInfo pre out) (hbuffer : c.buffer = [ver, rep, rsv, atyp])
    (hconsumed : c.consumed = pre ++ [ver, rep, rsv, atyp]) :
    ∃ c', c.received = some c' ∧ Outcome authInfo destAddr a c' := by
  have hbad : replyVerdict [ver, rep, rsv, atyp] = .bad →
      Outcome authInfo destAddr a (c.reportError .error) := fun hreply =>
    refused_outcome hdest hauth hevents hsending (by rw [hconsumed, hpre.verdict_eq, hreply])
      (by rw [hconsumed, hpre.owed_eq, hsent])
  unfold received
  rw [hstate, hbuffer]
  dsimp only
  by_cases hver : ver = 0x05
  · subst hver
    rw [if_neg (not_not_intro rfl)]
    by_cases hrep : rep = 0x00
    · subst hrep
      rw [if_neg (not_not_intro rfl)]
      cases hlen : addrLen atyp with
      | none =>
        exact ⟨_, rfl, hbad (by simp only [replyVerdict, hlen, ne_eq, not_true, if_false])⟩
      | some len =>
        have hpos : 0 < len := by
          unfold addrLen at hlen
          split at hlen
          · obtain rfl := Option.some.inj hlen
            decide
          · split at hlen
            · obtain rfl := Option.some.inj hlen
              decide
            · cases hlen
        dsimp only
        rw [startReceive_eq hreceiving hpos, Option.map_some]
        refine ⟨_, rfl, hauth, hdest, .inl (.receivedReplyHeader pre out [] rsv atyp len rfl hevents
          ⟨hsending, rfl, ?_, rfl, rfl, hpos, hsent⟩ hlen hpre ?_)⟩
        · rw [List.append_nil]
          exact hbuffer
        · rw [List.append_nil]
          exact hconsumed
    · rw [if_pos hrep]
      exact ⟨_, rfl, hbad (by simp only [replyVerdict, hrep, ne_eq, not_true, if_false, not_false_eq_true, if_true])⟩
  · rw [if_pos hver]
    exact ⟨_, rfl, hbad (by simp only [replyVerdict, hver, ne_eq, not_false_eq_true, if_true])⟩

/-! ## One call -/

/-- What the connector reports takes the dialogue to the greeting, or ends it. -/
theorem Stage.connector (h : Stage authInfo destAddr c) (hauth : c.authInfo = authInfo) (hdest : c.destAddr = destAddr)
    {isError : Bool} (hc : c.Calls (.connector isError)) :
    ∃ c', c.handle (.connector isError) = some c' ∧ Outcome authInfo destAddr (.connector isError) c' := by
  obtain ⟨_, hstate⟩ := hc
  have hevents : c.events = [] ∧ c.sending = none ∧ c.receiving = none ∧ c.sent = [] ∧ c.consumed = [] := by
    cases h with
    | connecting _ he hs hr ht hn => exact ⟨he, hs, hr, ht, hn⟩
    | sendingHello hs => exact absurd (hstate.symm.trans hs) (by decide)
    | sentHello _ hs => exact absurd (hstate.symm.trans hs) (by decide)
    | sendingPassword _ _ _ hs => exact absurd (hstate.symm.trans hs) (by decide)
    | sentPassword _ _ _ _ hs => exact absurd (hstate.symm.trans hs) (by decide)
    | sendingRequest _ _ hs => exact absurd (hstate.symm.trans hs) (by decide)
    | sentRequest _ _ _ hs => exact absurd (hstate.symm.trans hs) (by decide)
    | receivedReplyHeader _ _ _ _ _ _ hs => exact absurd (hstate.symm.trans hs) (by decide)
    | up _ _ _ _ _ hs => exact absurd (hstate.symm.trans hs) (by decide)
  obtain ⟨hevents, hsending, hreceiving, hsent, hconsumed⟩ := hevents
  show ∃ c', c.connectorHandler isError = some c' ∧ _
  unfold connectorHandler
  rw [if_neg (not_not_intro hstate), hauth]
  have herror : c.events ++ [Event.error] = [.error] := by rw [hevents, List.nil_append]
  split
  · rename_i hbad
    refine ⟨_, rfl, hauth, hdest, .inr ?_⟩
    rcases hbad with hfail | hnone | hmany
    · refine .inr ⟨.inl ?_, fun hh => ?_⟩
      · show Event.error ∈ c.events ++ [.error]
        rw [herror]
        exact List.mem_singleton_self _
      · have hh : isError = false := hh
        rw [hh] at hfail
        cases hfail
    · exact .inl ⟨herror, .inr (.inl hnone)⟩
    · exact .inl ⟨herror, .inr (.inr hmany)⟩
  · rw [senderSend_eq hsending, Option.map_some]
    exact ⟨_, rfl, hauth, hdest, .inl (.sendingHello rfl hevents ⟨rfl, hreceiving, hsent⟩ hconsumed)⟩

/-- When the connection ends the dialogue does, in every stage. -/
theorem connection_outcome (hauth : c.authInfo = authInfo) (hdest : c.destAddr = destAddr) {recvClosed : Bool}
    (hc : c.Calls (.connection recvClosed)) :
    ∃ c', c.handle (.connection recvClosed) = some c' ∧ Outcome authInfo destAddr (.connection recvClosed) c' := by
  obtain ⟨_, hstate⟩ := hc
  show ∃ c', c.connectionHandler recvClosed = some c' ∧ _
  unfold connectionHandler
  rw [if_neg hstate]
  split
  · refine ⟨_, rfl, hauth, hdest, .inr (.inr ⟨.inr ?_, id⟩)⟩
    exact List.mem_append_right _ (List.mem_singleton_self _)
  · refine ⟨_, rfl, hauth, hdest, .inr (.inr ⟨.inl ?_, id⟩)⟩
    exact List.mem_append_right _ (List.mem_singleton_self _)

/-- A sent message is followed by the wait for its answer. -/
theorem Stage.sendDone (h : Stage authInfo destAddr c) (hauth : c.authInfo = authInfo) (hdest : c.destAddr = destAddr)
    (hc : c.Calls .sendDone) : ∃ c', c.handle .sendDone = some c' ∧ Outcome authInfo destAddr .sendDone c' := by
  obtain ⟨_, hne⟩ := hc
  show ∃ c', c.sendHandlerDone = some c' ∧ _
  unfold sendHandlerDone
  cases h with
  | connecting _ _ hs => exact absurd hs hne
  | sentHello _ _ _ hr => exact absurd hr.sending hne
  | sentPassword _ _ _ _ _ _ hr => exact absurd hr.sending hne
  | sentRequest _ _ _ _ _ hr => exact absurd hr.sending hne
  | receivedReplyHeader _ _ _ _ _ _ _ _ hr => exact absurd hr.sending hne
  | up _ _ _ _ _ _ _ hs => exact absurd hs hne
  | sendingHello hstate hevents hs hconsumed =>
    have hst : (c.wentOut (helloBytes authInfo)).state = _ := hstate
    have hidle : (c.wentOut (helloBytes authInfo)).receiving = none := hs.receiving
    rw [hs.sending, Option.bind_some]
    dsimp only
    rw [hst]
    dsimp only
    rw [startReceive_eq hidle (by decide), Option.map_some]
    refine ⟨_, rfl, hauth, hdest, .inl (.sentHello [] rfl hevents ⟨rfl, rfl, rfl, rfl, rfl, by decide, ?_⟩ hconsumed)⟩
    show c.sent ++ helloBytes authInfo = helloBytes authInfo
    rw [hs.sent, List.nil_append]
  | sendingPassword method username password hstate hevents hs hfind hvalid hconsumed =>
    have hst : (c.wentOut (passwordBytes username password)).state = _ := hstate
    have hidle : (c.wentOut (passwordBytes username password)).receiving = none := hs.receiving
    rw [hs.sending, Option.bind_some]
    dsimp only
    rw [hst]
    dsimp only
    rw [startReceive_eq hidle (by decide), Option.map_some]
    refine ⟨_, rfl, hauth, hdest, .inl (.sentPassword method username password [] rfl hevents
      ⟨rfl, rfl, rfl, rfl, rfl, by decide, ?_⟩ hfind hvalid hconsumed)⟩
    show c.sent ++ passwordBytes username password = _
    rw [hs.sent]
  | sendingRequest pre out hstate hevents hs hpre hconsumed =>
    have hst : (c.wentOut (requestBytes destAddr)).state = _ := hstate
    have hidle : (c.wentOut (requestBytes destAddr)).receiving = none := hs.receiving
    rw [hs.sending, Option.bind_some]
    dsimp only
    rw [hst]
    dsimp only
    rw [startReceive_eq hidle (by decide), Option.map_some]
    refine ⟨_, rfl, hauth, hdest, .inl (.sentRequest pre out [] rfl hevents
      ⟨rfl, rfl, rfl, rfl, rfl, by decide, ?_⟩ hpre ?_)⟩
    · show c.sent ++ requestBytes destAddr = _
      rw [hs.sent]
    · rw [List.append_nil]
      exact hconsumed

/-- Bytes that arrive go on to the next message as soon as the answer is whole, and the reply decides. -/
theorem Stage.recvDone (h : Stage authInfo destAddr c) (hauth : c.authInfo = authInfo) (hdest : c.destAddr = destAddr)
    {data : List UInt8} (hc : c.Calls (.recvDone data)) :
    ∃ c', c.handle (.recvDone data) = some c' ∧ Outcome authInfo destAddr (.recvDone data) c' := by
  have hroom : ∃ room, c.receiving = some room := by
    obtain ⟨_, _, room, hr, _⟩ := hc
    exact ⟨room, hr⟩
  obtain ⟨room, hroom⟩ := hroom
  have hnever : c.receiving = none → False := fun hn => by
    rw [hn] at hroom
    cases hroom
  show ∃ c', c.recvHandlerDone data = some c' ∧ _
  cases h with
  | connecting _ _ _ hr => exact (hnever hr).elim
  | sendingHello _ _ hs => exact (hnever hs.receiving).elim
  | sendingPassword _ _ _ _ _ hs => exact (hnever hs.receiving).elim
  | sendingRequest _ _ _ _ hs => exact (hnever hs.receiving).elim
  | up _ _ _ _ _ _ _ _ hr => exact (hnever hr).elim
  | sentHello part hstate hevents hr hconsumed =>
    rcases hr.recvDone hc with ⟨c', hc', hr', hs', he', hn', ha', hd'⟩ | ⟨hfull, hc', hbuffer⟩
    · exact ⟨c', hc', ha'.trans hauth, hd'.trans hdest,
        .inl (.sentHello (part ++ data) (hs'.trans hstate) (he'.trans hevents) hr' (by rw [hn', hconsumed]))⟩
    · obtain ⟨ver, method, hpair⟩ := exists_pair hfull
      rw [List.nil_append, hpair] at hbuffer
      rw [hc']
      refine received_hello hauth hdest hstate hevents hr.sending rfl hr.sent hbuffer ?_
      show c.consumed ++ data = _
      rw [hconsumed, hpair]
  | sentPassword method username password part hstate hevents hr hfind hvalid hconsumed =>
    rcases hr.recvDone hc with ⟨c', hc', hr', hs', he', hn', ha', hd'⟩ | ⟨hfull, hc', hbuffer⟩
    · exact ⟨c', hc', ha'.trans hauth, hd'.trans hdest, .inl (.sentPassword method username password (part ++ data)
        (hs'.trans hstate) (he'.trans hevents) hr' hfind hvalid (by rw [hn', hconsumed, List.append_assoc]))⟩
    · obtain ⟨version, status, hpair⟩ := exists_pair hfull
      rw [List.nil_append, hpair] at hbuffer
      rw [hc']
      refine received_password hauth hdest hstate hevents hr.sending rfl hr.sent hfind hvalid hbuffer ?_
      show c.consumed ++ data = _
      rw [hconsumed, List.append_assoc, hpair]
      rfl
  | sentRequest pre out part hstate hevents hr hpre hconsumed =>
    rcases hr.recvDone hc with ⟨c', hc', hr', hs', he', hn', ha', hd'⟩ | ⟨hfull, hc', hbuffer⟩
    · exact ⟨c', hc', ha'.trans hauth, hd'.trans hdest, .inl (.sentRequest pre out (part ++ data) (hs'.trans hstate)
        (he'.trans hevents) hr' hpre (by rw [hn', hconsumed, List.append_assoc]))⟩
    · obtain ⟨ver, rep, rsv, atyp, hfour⟩ := exists_four hfull
      rw [List.nil_append, hfour] at hbuffer
      rw [hc']
      refine received_reply hauth hdest hstate hevents hr.sending rfl hr.sent hpre hbuffer ?_
      show c.consumed ++ data = _
      rw [hconsumed, List.append_assoc, hfour]
  | receivedReplyHeader pre out part rsv atyp len hstate hevents hr hlen hpre hconsumed =>
    have hall : c.consumed ++ data = pre ++ ([0x05, 0x00, rsv, atyp] ++ (part ++ data)) := by
      rw [hconsumed, List.append_assoc, List.append_assoc]
    rcases hr.recvDone hc with ⟨c', hc', hr', hs', he', hn', ha', hd'⟩ | ⟨hfull, hc', hbuffer⟩
    · exact ⟨c', hc', ha'.trans hauth, hd'.trans hdest, .inl (.receivedReplyHeader pre out (part ++ data) rsv atyp len
        (hs'.trans hstate) (he'.trans hevents) hr' hlen hpre (hn'.trans hall))⟩
    · have hup : (c.filled data).received =
          some { c.filled data with state := .up, buffer := [], events := c.events ++ [.up] } := by
        have hst : (c.filled data).state = .receivedReplyHeader := hstate
        unfold received
        rw [hst]
        rfl
      rw [hc', hup]
      refine ⟨_, rfl, hauth, hdest, .inl (.up pre out (part ++ data) rsv atyp rfl ?_ hr.sending rfl ?_ hpre hr.sent hall)⟩
      · show c.events ++ [.up] = [.up]
        rw [hevents, List.nil_append]
      · rw [hfull]
        exact hlen

/-- **Every call has a result** that is another stage of the dialogue, or ends it. -/
theorem Stage.handle (h : Stage authInfo destAddr c) (hauth : c.authInfo = authInfo) (hdest : c.destAddr = destAddr)
    {a : Call} (hc : c.Calls a) : ∃ c', c.handle a = some c' ∧ Outcome authInfo destAddr a c' := by
  cases a with
  | connector isError => exact h.connector hauth hdest hc
  | connection recvClosed => exact connection_outcome hauth hdest hc
  | sendDone => exact h.sendDone hauth hdest hc
  | recvDone data => exact h.recvDone hauth hdest hc

end KiloProxy.Engine.BSocksClient
