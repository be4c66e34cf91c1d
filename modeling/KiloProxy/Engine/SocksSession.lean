import KiloProxy.Engine.SocksHandshake
import KiloProxy.Engine.SocksUdpGwClient
import KiloProxy.Engine.UdpGwRuns

/-!
# Sessions of the UDP gateway client

Whatever the server, the connection and the timer do, no assertion fails, and the session is
in one of three states: being set up, up with the gateway client connected, or waiting.

The invariant keeps the SOCKS client and the gateway client at states of their own systems,
so what was proved of their runs is used as it stands: a call of the session is a call of
one of them, and what the SOCKS client reports decides whether the session goes up, or
waits.
-/

namespace KiloProxy.Engine
set_option autoImplicit false
open KiloProxy.Run

/-! ## What the SOCKS client reports -/

namespace BSocksClient

variable {c c' : BSocksClient}

/-- Nothing more is reported, or one event. -/
def Reports (c c' : BSocksClient) : Prop := c'.events = c.events ∨ ∃ e, c'.events = c.events ++ [e]

theorem Reports.same (h : c'.events = c.events) : Reports c c' := .inl h

theorem reports_error (c : BSocksClient) (e : Event) : Reports c (c.reportError e) := .inr ⟨e, rfl⟩

theorem senderSend_events {data : List UInt8} (h : c.senderSend data = some c') : c'.events = c.events := by
  unfold senderSend at h
  split at h
  · cases h
  · rw [← Option.some.inj h]

theorem doReceive_events (h : c.doReceive = some c') : c'.events = c.events := by
  unfold doReceive at h
  split at h
  · cases h
  · rw [← Option.some.inj h]

theorem startReceive_events {total : Nat} (h : c.startReceive total = some c') : c'.events = c.events := by
  unfold startReceive at h
  split at h
  · cases h
  · have hsame := doReceive_events h
    exact hsame

/-- What is changed afterwards are not the events. -/
theorem map_events {x : Option BSocksClient} {f : BSocksClient → BSocksClient} (h : x.map f = some c')
    (hx : ∀ d, x = some d → d.events = c.events) (hf : ∀ d, (f d).events = d.events) : c'.events = c.events := by
  obtain ⟨d, hd, rfl⟩ := Option.map_eq_some_iff.mp h
  exact (hf d).trans (hx d hd)

theorem authFinished_events (h : c.authFinished = some c') : c'.events = c.events :=
  map_events h (fun _ => senderSend_events) fun _ => rfl

/-- What arrives makes the client report at most one event. -/
theorem received_reports (h : c.received = some c') : Reports c c' := by
  unfold received at h
  split at h
  · split at h
    · exact Option.some.inj h ▸ reports_error c _
    · split at h
      · exact Option.some.inj h ▸ reports_error c _
      · exact .same (authFinished_events h)
      · split at h
        · exact Option.some.inj h ▸ reports_error c _
        · exact .same (map_events h (fun _ => senderSend_events) fun _ => rfl)
  · split at h
    · exact Option.some.inj h ▸ reports_error c _
    · split at h
      · exact Option.some.inj h ▸ reports_error c _
      · exact .same (authFinished_events h)
  · split at h
    · exact Option.some.inj h ▸ reports_error c _
    · split at h
      · exact Option.some.inj h ▸ reports_error c _
      · split at h
        · exact Option.some.inj h ▸ reports_error c _
        · exact .same (map_events h (fun _ => startReceive_events) fun _ => rfl)
  · exact Option.some.inj h ▸ .inr ⟨.up, rfl⟩
  · cases h

/-- Every call makes the client report at most one event. -/
theorem handle_reports {a : Call} (h : c.handle a = some c') : Reports c c' := by
  cases a with
  | connector isError =>
    have h : c.connectorHandler isError = some c' := h
    unfold connectorHandler at h
    split at h
    · cases h
    · split at h
      · exact Option.some.inj h ▸ reports_error c _
      · exact .same (map_events h (fun _ => senderSend_events) fun _ => rfl)
  | connection recvClosed =>
    have h : c.connectionHandler recvClosed = some c' := h
    unfold connectionHandler at h
    split at h
    · cases h
    · split at h
      · exact Option.some.inj h ▸ reports_error c _
      · exact Option.some.inj h ▸ reports_error c _
  | sendDone =>
    obtain ⟨data, _, h⟩ := Option.bind_eq_some_iff.mp (show c.sendHandlerDone = some c' from h)
    dsimp only at h
    split at h
    · exact .same (map_events h (fun _ => startReceive_events) fun _ => rfl)
    · exact .same (map_events h (fun _ => startReceive_events) fun _ => rfl)
    · exact .same (map_events h (fun _ => startReceive_events) fun _ => rfl)
    · cases h
  | recvDone data =>
    have h : c.recvHandlerDone data = some c' := h
    unfold recvHandlerDone at h
    split at h
    · cases h
    · dsimp only at h
      split at h
      · have hsame := doReceive_events h
        exact .same hsame
      · have hreports := received_reports h
        exact hreports

end BSocksClient

namespace SocksUdpGwClient

variable {authInfo : List AuthInfo} {addr : BAddr} {udpMtu maxConnections : Nat} {o o' : SocksUdpGwClient}
  {c c' : BSocksClient} {ok : Bool}

/-! ## The invariant -/

/-- What a SOCKS client that is there has reported. -/
def reported (up : Bool) : List BSocksClient.Event := if up then [.up] else []

/-- Between calls: the timer runs exactly without a SOCKS client, and the gateway client has a server exactly
while one is up. -/
structure Sound (authInfo : List AuthInfo) (addr : BAddr) (udpMtu maxConnections : Nat) (o : SocksUdpGwClient) : Prop where
  auth : o.authInfo = authInfo
  remote : o.remoteUdpgwAddr = addr
  timer : o.reconnectTimer = o.socksClient.isNone
  server : o.haveServer = (o.socksClient.isSome && o.socksUp)
  socks : ∀ c ∈ o.socksClient, Reachable (BSocksClient.system authInfo addr) c ∧ c.events = reported o.socksUp
  udpgw : Reachable (UdpGwClient.system udpMtu maxConnections) o.udpgwClient

/-- No SOCKS client, and the timer runs. -/
def waiting (o : SocksUdpGwClient) : SocksUdpGwClient :=
  { o with socksClient := none, reconnectTimer := true, haveServer := false }

/-- Waiting for the reconnect timer keeps the session sound. -/
theorem Sound.waiting (h : Sound authInfo addr udpMtu maxConnections o) :
    Sound authInfo addr udpMtu maxConnections o.waiting :=
  ⟨h.auth, h.remote, rfl, rfl, fun _ hc => absurd hc (by simp [SocksUdpGwClient.waiting]), h.udpgw⟩

/-- Freeing the SOCKS client takes the server from the gateway client. -/
theorem freeSocks_eq (hsome : o.socksClient.isSome) (hserver : o.haveServer = o.socksUp) :
    o.freeSocks.map setReconnectTimer = some o.waiting := by
  unfold freeSocks
  rw [if_neg (by rw [Option.isNone_iff_eq_none, ← Option.not_isSome_iff_eq_none]; exact not_not_intro hsome)]
  cases hup : o.socksUp with
  | true =>
    rw [hup] at hserver
    unfold disconnectServer
    rw [if_pos rfl, if_neg (by simp [hserver])]
    rfl
  | false =>
    rw [hup] at hserver
    rw [if_neg Bool.false_ne_true]
    unfold SocksUdpGwClient.waiting
    rw [← hserver]
    rfl

/-- A SOCKS client is tried. -/
theorem Sound.tryConnect (h : Sound authInfo addr udpMtu maxConnections o) (hnone : o.socksClient = none) (ok : Bool) :
    ∃ o', SocksUdpGwClient.tryConnect { o with reconnectTimer := false } ok = some o' ∧
      Sound authInfo addr udpMtu maxConnections o' := by
  have hserver := h.server
  rw [hnone] at hserver
  unfold SocksUdpGwClient.tryConnect
  rw [if_neg (by simp [hnone])]
  cases ok with
  | true =>
    refine ⟨_, if_pos rfl, h.auth, h.remote, rfl, hserver, fun c hc => ?_, h.udpgw⟩
    obtain rfl := Option.some.inj hc
    exact ⟨.start (by rw [h.auth, h.remote]; rfl), rfl⟩
  | false =>
    refine ⟨_, if_neg Bool.false_ne_true, h.auth, h.remote, ?_, h.server, h.socks, h.udpgw⟩
    show true = o.socksClient.isNone
    rw [hnone]
    rfl

/-- The SOCKS client is up only once. -/
theorem up_once (h : Reachable (BSocksClient.system authInfo addr) c) : c.events ≠ [.up, .up] := by
  intro hevents
  rcases (BSocksClient.reachable_sound h).stage with hstage | hrefused | hfailed
  · rcases hstage.reads.1 with ⟨_, he⟩ | ⟨_, he⟩
    · rw [hevents] at he
      cases he
    · rw [hevents] at he
      cases he
  · have he := hrefused.events
    rw [hevents] at he
    cases he
  · unfold BSocksClient.failed at hfailed
    rw [hevents] at hfailed
    simp at hfailed

/-- A SOCKS client that did not fail takes every call, and is reached by it. -/
theorem socks_handle {a : BSocksClient.Call} (h : Reachable (BSocksClient.system authInfo addr) c) (hc : c.Calls a) :
    ∃ c', c.handle a = some c' ∧ Reachable (BSocksClient.system authInfo addr) c' := by
  have hs := BSocksClient.reachable_sound h
  obtain ⟨c', hc', _⟩ := (hs.stage_of_calls hc).handle hs.auth hs.dest hc
  exact ⟨c', hc', .next h trivial ((if_pos hc).trans hc')⟩

/-- The handler of an error waits for the next try. -/
theorem Sound.failed (h : Sound authInfo addr udpMtu maxConnections o) (hsome : o.socksClient.isSome) :
    o.freeSocks.map setReconnectTimer = some o.waiting := by
  have hserver := h.server
  rw [hsome, Bool.true_and] at hserver
  exact freeSocks_eq hsome hserver

/-- The SOCKS client made a call, and reports no more than before. -/
def called (o : SocksUdpGwClient) (c' : BSocksClient) : SocksUdpGwClient := { o with socksClient := some c' }

/-- The handler of what the SOCKS client reports. -/
theorem Sound.socksClientHandler {e : BSocksClient.Event} (h : Sound authInfo addr udpMtu maxConnections o)
    (hsome : o.socksClient.isSome) (hreach : Reachable (BSocksClient.system authInfo addr) c')
    (hevents : c'.events = reported o.socksUp ++ [e]) (ok : Bool) :
    ∃ o', (o.called c').socksClientHandler e ok = some o' ∧ Sound authInfo addr udpMtu maxConnections o' := by
  have hserver := h.server
  have htimer := h.timer
  rw [hsome, Bool.true_and] at hserver
  have hfree : (o.called c').freeSocks.map setReconnectTimer = some o.waiting := freeSocks_eq rfl hserver
  unfold SocksUdpGwClient.socksClientHandler
  rw [if_neg (show ¬ (o.called c').socksClient.isNone from Bool.false_ne_true)]
  cases e with
  | error => exact ⟨_, hfree, h.waiting⟩
  | errorClosed => exact ⟨_, hfree, h.waiting⟩
  | up =>
    have hup : o.socksUp = false := by
      cases hup : o.socksUp with
      | false => rfl
      | true =>
        rw [hup] at hevents
        exact absurd hevents (up_once hreach)
    rw [hup] at hserver hevents
    have hconnect : (o.called c').connectServer ok = some { o.called c' with haveServer := ok } :=
      if_neg (by show ¬ o.haveServer = true; rw [hserver]; exact Bool.false_ne_true)
    dsimp only
    rw [if_neg (show ¬ (o.called c').socksUp = true by show ¬ o.socksUp = true; rw [hup]; exact Bool.false_ne_true),
      hconnect, Option.bind_some]
    cases ok with
    | true =>
      refine ⟨_, if_pos rfl, h.auth, h.remote, ?_, rfl, fun d hd => ?_, h.udpgw⟩
      · exact htimer.trans (by rw [← Option.not_isSome, hsome]; rfl)
      · obtain rfl := Option.some.inj hd
        exact ⟨hreach, hevents⟩
    | false =>
      have hfree : freeSocks { o.called c' with haveServer := false } = (o.called c').freeSocks := by
        rw [← hserver]
        rfl
      rw [if_neg Bool.false_ne_true, hfree]
      exact ⟨_, freeSocks_eq rfl (hserver.trans hup.symm), h.waiting⟩

/-- Every call the environment may make succeeds and keeps the session sound. -/
theorem Sound.handle (h : Sound authInfo addr udpMtu maxConnections o) (hpos : 0 < maxConnections) {a : Call}
    (hc : o.Calls a) : ∃ o', o.handle a = some o' ∧ Sound authInfo addr udpMtu maxConnections o' := by
  cases a with
  | socks a ok =>
    obtain ⟨c, hsome, hc⟩ := hc
    obtain ⟨hreach, hevents⟩ := h.socks c hsome
    obtain ⟨c', hc', hreach'⟩ := socks_handle hreach hc
    show ∃ o', o.socks a ok = some o' ∧ _
    unfold SocksUdpGwClient.socks
    rw [show o.socksClient = some c from hsome, Option.bind_some, hc', Option.bind_some]
    rcases BSocksClient.handle_reports hc' with hsame | ⟨e, he⟩
    · refine ⟨o.called c', by rw [hsame, List.drop_length]; rfl, h.auth, h.remote, ?_, ?_, fun d hd => ?_, h.udpgw⟩
      · exact h.timer.trans (by rw [show o.socksClient = some c from hsome]; rfl)
      · exact h.server.trans (by rw [show o.socksClient = some c from hsome]; rfl)
      · obtain rfl := Option.some.inj hd
        exact ⟨hreach', hsame.trans hevents⟩
    · rw [he, List.drop_left]
      exact h.socksClientHandler (by rw [show o.socksClient = some c from hsome]; rfl) hreach' (hevents ▸ he) ok
  | serverError =>
    have hserver := h.server
    rw [show o.haveServer = true from hc] at hserver
    have hboth := Bool.and_eq_true_iff.mp hserver.symm
    show ∃ o', o.udpgwHandlerServererror = some o' ∧ _
    unfold udpgwHandlerServererror
    rw [if_neg, h.failed hboth.1]
    · exact ⟨_, rfl, h.waiting⟩
    · rintro (hnone | hdown)
      · rw [← Option.not_isSome, hboth.1] at hnone
        cases hnone
      · exact hdown hboth.2
  | timer ok =>
    have htimer := h.timer
    rw [show o.reconnectTimer = true from hc] at htimer
    have hnone : o.socksClient = none := Option.isNone_iff_eq_none.mp htimer.symm
    show ∃ o', o.reconnectTimerHandler ok = some o' ∧ _
    unfold reconnectTimerHandler
    rw [if_neg (by simp [hnone])]
    exact h.tryConnect hnone ok
  | udpgw a =>
    have hc : o.udpgwClient.Calls a := by
      cases a with
      | receive packet => exact hc.2
      | submit conaddr isDns data room => exact hc
      | firstJob conid room => exact hc
    obtain ⟨udpgw, hudpgw, _⟩ := (UdpGwClient.reachable_correct hpos h.udpgw).handle hc (.inl trivial)
    refine ⟨{ o with udpgwClient := udpgw }, Option.map_eq_some_iff.mpr ⟨udpgw, hudpgw, rfl⟩, h.auth, h.remote, h.timer,
      h.server, h.socks, ?_⟩
    exact .next h.udpgw trivial ((if_pos hc).trans hudpgw)

/-! ## Whole runs -/

/-- The invariant of every reachable session. -/
theorem reachable_sound (hpos : 0 < maxConnections) (h : Reachable (system authInfo addr udpMtu maxConnections) o) :
    Sound authInfo addr udpMtu maxConnections o := by
  refine h.invariant (fun o ho => ?_) fun o a o' hs _ hstep => ?_
  · obtain ⟨ok, ho⟩ := ho
    unfold init SocksUdpGwClient.tryConnect at ho
    rw [if_neg (by simp)] at ho
    cases ok with
    | true =>
      rw [if_pos rfl] at ho
      obtain rfl := Option.some.inj ho
      refine ⟨rfl, rfl, rfl, rfl, fun c hc => ?_, .start rfl⟩
      obtain rfl := Option.some.inj hc
      exact ⟨.start rfl, rfl⟩
    | false =>
      rw [if_neg Bool.false_ne_true] at ho
      obtain rfl := Option.some.inj ho
      exact ⟨rfl, rfl, rfl, rfl, fun c hc => absurd hc (by simp [setReconnectTimer]), .start rfl⟩
  · have hstep : (if o.Calls a then o.handle a else none) = some o' := hstep
    split at hstep
    · rename_i hc
      obtain ⟨r, hr, hsr⟩ := hs.handle hpos hc
      obtain rfl := Option.some.inj (hr.symm.trans hstep)
      exact hsr
    · cases hstep

/-- A server that takes the password, and then fails; and a second try. -/
def failing : List Call :=
  BSocksClient.dialogue.map (fun a => .socks a true) ++
    [.udpgw (.submit UdpGwClient.firstFlow true [1, 2] true), .udpgw (.firstJob 0 true), .serverError, .timer true]

/-- The state after a run, from a first try that was set up. -/
def ranTo (as : List Call) : Option SocksUdpGwClient :=
  (init BSocksClient.offered BSocksClient.destination 16 1 true).bind fun o =>
    exec (system BSocksClient.offered BSocksClient.destination 16 1) o as

theorem ranTo_reachable {as : List Call} (h : ranTo as = some o) :
    Reachable (system BSocksClient.offered BSocksClient.destination 16 1) o := by
  obtain ⟨o₁, ho₁, hrun⟩ := Option.bind_eq_some_iff.mp h
  exact exec_reaches as (.start ⟨true, ho₁⟩) hrun

/-- **The session always goes on.** No assertion fails in any handler; the timer runs exactly when there is no
SOCKS client; one that is there has not failed, and the gateway client has a server exactly when it is up. -/
theorem session_total (hpos : 0 < maxConnections) (h : Reachable (system authInfo addr udpMtu maxConnections) o) :
    (∀ a, o.Calls a → ∃ o', o.handle a = some o') ∧ (o.reconnectTimer ↔ o.socksClient = none) ∧
      (∀ c ∈ o.socksClient, ¬ c.failed) ∧ (o.haveServer ↔ ∃ c ∈ o.socksClient, .up ∈ c.events) := by
  have hs := reachable_sound hpos h
  refine ⟨fun a hc => ?_, ?_, fun c hsome => ?_, ?_⟩
  · obtain ⟨o', ho', _⟩ := hs.handle hpos hc
    exact ⟨o', ho'⟩
  · rw [hs.timer, Option.isNone_iff_eq_none]
  · have hevents := (hs.socks c hsome).2
    unfold BSocksClient.failed
    rw [hevents]
    cases o.socksUp <;> decide
  · rw [hs.server, Bool.and_eq_true_iff]
    constructor
    · rintro ⟨hsome, hup⟩
      obtain ⟨c, hc⟩ := Option.isSome_iff_exists.mp hsome
      refine ⟨c, hc, ?_⟩
      rw [(hs.socks c hc).2, hup]
      exact List.mem_cons_self
    · rintro ⟨c, hc, hup⟩
      refine ⟨Option.isSome_iff_exists.mpr ⟨c, hc⟩, ?_⟩
      rw [(hs.socks c hc).2] at hup
      cases hs : o.socksUp with
      | true => rfl
      | false =>
        rw [hs] at hup
        cases hup

theorem session_total_failing :
    ∃ o, ranTo failing = some o ∧ (∀ a, o.Calls a → ∃ o', o.handle a = some o') ∧
      (o.reconnectTimer ↔ o.socksClient = none) ∧ (∀ c ∈ o.socksClient, ¬ c.failed) ∧
        (o.haveServer ↔ ∃ c ∈ o.socksClient, .up ∈ c.events) := by
  obtain ⟨o, ho⟩ : ∃ o, ranTo failing = some o := Option.isSome_iff_exists.mp (by decide)
  exact ⟨o, ho, session_total (by decide) (ranTo_reachable ho)⟩

end SocksUdpGwClient
end KiloProxy.Engine
