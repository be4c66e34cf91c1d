import KiloProxy.Engine.TcpClient

/-!
# The relay over whole runs

Whatever order lwIP and the SOCKS connection call the relay in, no assertion fails and
nothing freed is touched; the bytes go through in order, none lost and none twice; and a
side that goes down first is outlived by the other exactly until what it left is delivered.
`Mid` holds inside the handlers as well, `Sound` between them.
-/

namespace KiloProxy.Engine.TcpClient
set_option autoImplicit false
open KiloProxy.Run

/-- The bytes received from SOCKS that lwIP did not take yet. -/
def held (c : TcpClient) : List UInt8 :=
  if c.socksRecvBufUsed = -1 then [] else c.socksRecvBuf.drop c.socksRecvBufSent

/-- What holds at every point where a side may go down. -/
structure Mid (c : TcpClient) : Prop where
  closed : c.clientClosed ↔ c.pcb = none
  recvSet : ∀ p ∈ c.pcb, p.recvFunc = true ↔ c.socksClosed = false
  sentSet : ∀ p ∈ c.pcb, p.sentFunc = true ↔ c.socksUp = true
  quiet : c.socksClosed ∨ ¬ c.socksUp → c.socksSend = none ∧ c.socksRecv = false
  sendLen : ∀ len ∈ c.socksSend, 0 < len ∧ len ≤ c.buf.length
  recvFree : c.socksRecv → c.socksRecvBufUsed = -1
  up : c.passed.fromApp = c.passed.toSocks ++ c.buf
  room : c.buf.length ≤ tcpWnd
  down : c.passed.toApp <+: c.passed.fromSocks
  early : ¬ c.socksUp → c.passed.fromSocks = [] ∧ c.passed.acked = 0 ∧ c.socksRecvTcpPending = 0 ∧
    c.socksRecvBufUsed = -1
  lostUp : c.socksClosed → c.passed.socksLost ∨ c.buf = []
  lostDown : c.clientClosed → c.passed.appLost ∨ c.socksClosed ∧
    c.passed.toApp = c.passed.fromSocks ∧ c.passed.acked = c.passed.toApp.length

/-- A full buffer waits for an acknowledgement. -/
structure Waits (c : TcpClient) : Prop where
  used : c.socksRecvBufUsed = c.socksRecvBuf.length
  sent : c.socksRecvBufSent < c.socksRecvBuf.length
  waiting : c.socksRecvWaiting
  pending : 0 < c.socksRecvTcpPending

/-- The connection to the app is open. -/
structure Open (c : TcpClient) : Prop where
  window : c.passed.recved = c.passed.toSocks.length
  pending : c.passed.acked + c.socksRecvTcpPending = c.passed.toApp.length
  down : c.passed.fromSocks = c.passed.toApp ++ c.held
  held : c.socksRecvBufUsed = -1 ∨ c.Waits
  receiving : c.socksUp → ¬ c.socksClosed → c.socksRecvBufUsed = -1 → c.socksRecv

/-- The invariant between calls. -/
structure Sound (c : TcpClient) : Prop extends Mid c where
  both : c.freed ↔ c.clientClosed ∧ c.socksClosed
  sending : c.socksUp → ¬ c.socksClosed → c.buf ≠ [] → c.socksSend ≠ none
  closing : c.clientClosed → ¬ c.socksClosed → c.buf ≠ []
  lingering : c.socksClosed → ¬ c.clientClosed → c.socksUp ∧ 0 < c.socksRecvTcpPending
  isOpen : ¬ c.clientClosed → Open c

/-! ## A side goes down -/

/-- Both sides are down and the client is freed. -/
def gone (c : TcpClient) : TcpClient :=
  { c with pcb := none, clientClosed := true, socksSend := none, socksRecv := false, socksClosed := true, freed := true }

/-- With both sides closed and nothing left to pass the relay may go. -/
theorem Mid.gone {c : TcpClient} (h : Mid c) (hup : c.passed.socksLost ∨ c.buf = [])
    (hdown : c.passed.appLost ∨ c.passed.toApp = c.passed.fromSocks ∧ c.passed.acked = c.passed.toApp.length) :
    Sound c.gone where
  closed := by simp [TcpClient.gone]
  recvSet := fun p hp => by cases hp
  sentSet := fun p hp => by cases hp
  quiet := fun _ => ⟨rfl, rfl⟩
  sendLen := fun len hl => by cases hl
  recvFree := fun hr => by cases hr
  up := h.up
  room := h.room
  down := h.down
  early := h.early
  lostUp := fun _ => hup
  lostDown := fun _ => hdown.imp id fun hd => ⟨rfl, hd⟩
  both := by simp [TcpClient.gone]
  sending := fun _ hopen => absurd rfl hopen
  closing := fun _ hopen => absurd rfl hopen
  lingering := fun _ hopen => absurd rfl hopen
  isOpen := fun hopen => absurd rfl hopen

/-- `client_free_client` keeps SOCKS when there is data for it. -/
theorem clientFreeClient_eq {c : TcpClient} (h : Mid c) (hopen : c.clientClosed = false) (hlive : c.freed = false) :
    c.clientFreeClient =
      some (if c.buf ≠ [] ∧ c.socksClosed = false then { c with pcb := none, clientClosed := true } else c.gone) := by
  have hpcb : c.pcb ≠ none := fun hnone => by simp [h.closed.mpr hnone] at hopen
  unfold clientFreeClient freeClient handleFreedClient
  simp only [hopen, hpcb, Bool.false_eq_true, or_self, if_false]
  by_cases hsocks : c.socksClosed
  · obtain ⟨hsend, hrecv⟩ := h.quiet (.inl hsocks)
    simp [hsocks, clientDealloc, hlive, TcpClient.gone, hsend, hrecv]
  · by_cases hbuf : c.buf = []
    · simp [hsocks, hbuf, clientFreeSocks, clientDealloc, hlive, TcpClient.gone]
    · simp [hsocks, hbuf]

/-- `client_free_socks` keeps the client when there is data for it. -/
theorem clientFreeSocks_eq {c : TcpClient} (h : Mid c) (hopen : c.socksClosed = false) (hlive : c.freed = false) :
    c.clientFreeSocks =
      some (if c.socksUp ∧ (0 ≤ c.socksRecvBufUsed ∨ 0 < c.socksRecvTcpPending) ∧ c.clientClosed = false then
        { c with
          pcb := c.pcb.map fun p => { p with recvFunc := false }, socksSend := none, socksRecv := false,
          socksClosed := true }
      else c.gone) := by
  unfold clientFreeSocks
  by_cases hclosed : c.clientClosed
  · have hnone := h.closed.mp hclosed
    simp [hopen, hclosed, clientDealloc, hlive, TcpClient.gone, hnone]
  · have hpcb : c.pcb ≠ none := fun hnone => hclosed (h.closed.mpr hnone)
    obtain ⟨p, hp⟩ := Option.ne_none_iff_exists'.mp hpcb
    by_cases hup : c.socksUp
    · by_cases hmore : 0 ≤ c.socksRecvBufUsed ∨ 0 < c.socksRecvTcpPending
      · simp [hopen, hclosed, hup, hmore, hp]
      · simp [hopen, hclosed, hup, hmore, hp, freeClient, handleFreedClient, clientDealloc, hlive, TcpClient.gone]
    · simp [hopen, hclosed, hup, hp, freeClient, handleFreedClient, clientDealloc, hlive, TcpClient.gone]

/-- The client goes down: its data was delivered, or it was lost. -/
theorem Mid.freeClient {c : TcpClient} (h : Mid c) (hopen : c.clientClosed = false) (hlive : c.freed = false)
    (hsending : c.socksUp → ¬ c.socksClosed → c.buf ≠ [] → c.socksSend ≠ none)
    (hdown : c.passed.appLost ∨ c.socksClosed ∧
      c.passed.toApp = c.passed.fromSocks ∧ c.passed.acked = c.passed.toApp.length) :
    ∃ c', c.clientFreeClient = some c' ∧ Sound c' := by
  rw [clientFreeClient_eq h hopen hlive]
  refine ⟨_, rfl, ?_⟩
  split
  · rename_i hmore
    obtain ⟨hbuf, hsocks⟩ := hmore
    exact {
      closed := by simp
      recvSet := fun p hp => by cases hp
      sentSet := fun p hp => by cases hp
      quiet := h.quiet
      sendLen := h.sendLen
      recvFree := h.recvFree
      up := h.up
      room := h.room
      down := h.down
      early := h.early
      lostUp := h.lostUp
      lostDown := fun _ => hdown
      both := by simp [hlive, hsocks]
      sending := hsending
      closing := fun _ _ => hbuf
      lingering := fun _ hn => absurd rfl hn
      isOpen := fun hn => absurd rfl hn }
  · rename_i hmore
    refine h.gone ?_ (hdown.imp id And.right)
    by_cases hsocks : c.socksClosed
    · exact h.lostUp hsocks
    · exact .inr (by_contra fun hbuf => hmore ⟨hbuf, Bool.not_eq_true _ ▸ hsocks⟩)

/-- A lost application side asks for nothing more to be delivered there. -/
theorem Mid.loseApp {c : TcpClient} (h : Mid c) : Mid c.loseApp := { h with lostDown := fun _ => .inl rfl }

/-- A lost SOCKS side asks for nothing more to be delivered there. -/
theorem Mid.loseSocks {c : TcpClient} (h : Mid c) : Mid c.loseSocks := { h with lostUp := fun _ => .inl rfl }

/-- An aborted client counts as lost. -/
theorem Mid.abort {c : TcpClient} (h : Mid c) (hopen : c.clientClosed = false) (hlive : c.freed = false)
    (hsending : c.socksUp → ¬ c.socksClosed → c.buf ≠ [] → c.socksSend ≠ none) :
    ∃ c', c.clientAbortClient = some c' ∧ Sound c' :=
  h.loseApp.freeClient hopen hlive hsending (.inl rfl)

/-- A relay with an open side is not freed. -/
theorem Sound.live {c : TcpClient} (h : Sound c) (hopen : c.clientClosed = false ∨ c.socksClosed = false) :
    c.freed = false := by
  cases hfreed : c.freed with
  | false => rfl
  | true =>
    obtain ⟨hclient, hsocks⟩ := h.both.mp hfreed
    rcases hopen with hopen | hopen
    · rw [hopen] at hclient
      cases hclient
    · rw [hopen] at hsocks
      cases hsocks

/-- A pcb belongs to a client that is not closed. -/
theorem Mid.clientOpen {c : TcpClient} (h : Mid c) {p : Pcb} (hp : p ∈ c.pcb) : c.clientClosed = false := by
  cases hclosed : c.clientClosed with
  | false => rfl
  | true =>
    rw [h.closed.mp hclosed] at hp
    cases hp

/-! ## From the app to SOCKS -/

/-- The data goes into a buffer that has room for it. -/
theorem Sound.stored {c : TcpClient} (h : Sound c) {p : List UInt8} (hopen : c.clientClosed = false)
    (hsocks : c.socksClosed = false) (hroom : c.buf.length + p.length ≤ tcpWnd) :
    Mid (c.stored p) ∧ Open (c.stored p) := by
  have hrest := h.isOpen (by simp [hopen])
  constructor
  · exact { h.toMid with
      sendLen := by
        intro len hl
        obtain ⟨hpos, hle⟩ := h.sendLen len hl
        refine ⟨hpos, ?_⟩
        show len ≤ (c.buf ++ p).length
        rw [List.length_append]
        omega
      up := by
        show c.passed.fromApp ++ p = c.passed.toSocks ++ (c.buf ++ p)
        rw [h.up, List.append_assoc]
      room := by
        show (c.buf ++ p).length ≤ tcpWnd
        rw [List.length_append]
        exact hroom
      lostUp := fun hclosed => absurd (hsocks.symm.trans hclosed) Bool.false_ne_true }
  · exact { hrest with held := hrest.held.imp id fun hw => { hw with } }

/-- The window that lwIP was given is what is left of the buffer. -/
theorem Sound.recv {c : TcpClient} (h : Sound c) {p : List UInt8} (hc : c.Calls (.recv (some p))) :
    ∃ c', c.clientRecvFunc (some p) = some (.ok, c') ∧ Sound c' ∧
      c'.passed.fromApp = c.passed.fromApp ++ p := by
  obtain ⟨⟨pcb, hpcb, hset⟩, hne, hwindow⟩ := hc
  have hopen := h.clientOpen hpcb
  have hsocks := (h.recvSet pcb hpcb).mp hset
  have hroom : c.buf.length + p.length ≤ tcpWnd := by
    rw [h.up, List.length_append, (h.isOpen (by simp [hopen])).window] at hwindow
    omega
  obtain ⟨hmid, hlater⟩ := h.stored hopen hsocks hroom
  dsimp only [clientRecvFunc]
  rw [if_neg (by simp [hopen, hne]), if_neg (by omega)]
  by_cases hstart : (c.stored p).buf.length = p.length ∧ c.socksUp
  · obtain ⟨hlen, hup⟩ := hstart
    have hempty : c.buf = [] := by
      have hsum : (c.buf ++ p).length = p.length := hlen
      rw [List.length_append] at hsum
      exact List.length_eq_zero_iff.mp (by omega)
    have hidle : c.socksSend = none := by
      cases hsend : c.socksSend with
      | none => rfl
      | some len =>
        obtain ⟨hpos, hle⟩ := h.sendLen len hsend
        rw [hempty, List.length_nil] at hle
        omega
    have hfull : (c.stored p).buf ≠ [] := fun hnil => hne (List.append_eq_nil_iff.mp hnil).2
    refine ⟨{ c.stored p with socksSend := some (c.stored p).buf.length }, ?_, ?_, rfl⟩
    · rw [if_pos ⟨hlen, hup⟩]
      unfold clientSendToSocks
      rw [if_neg]
      · rfl
      · rintro (hc | hc | hc | hc)
        · exact absurd (hsocks.symm.trans hc) Bool.false_ne_true
        · exact hc hup
        · exact hfull hc
        · exact hc hidle
    · exact { hmid with
        quiet := fun hq => by
          rcases hq with hq | hq
          · exact absurd (hsocks.symm.trans hq) Bool.false_ne_true
          · exact absurd hup hq
        sendLen := by
          intro len hl
          obtain rfl := Option.some.inj hl
          exact ⟨List.length_pos_iff.mpr hfull, Nat.le_refl _⟩
        both := h.both
        sending := fun _ _ _ => Option.some_ne_none _
        closing := fun hclosed => absurd (hopen.symm.trans hclosed) Bool.false_ne_true
        lingering := fun hclosed => absurd (hsocks.symm.trans hclosed) Bool.false_ne_true
        isOpen := fun _ => { hlater with held := hlater.held.imp id fun hw => { hw with } } }
  · refine ⟨c.stored p, if_neg hstart, ?_, rfl⟩
    exact { hmid with
      both := h.both
      sending := by
        intro hup hsc _
        apply h.sending hup hsc
        intro hnil
        refine hstart ⟨?_, hup⟩
        show (c.buf ++ p).length = p.length
        rw [hnil, List.nil_append]
      closing := fun hclosed => absurd (hopen.symm.trans hclosed) Bool.false_ne_true
      lingering := fun hclosed => absurd (hsocks.symm.trans hclosed) Bool.false_ne_true
      isOpen := fun _ => hlater }

/-- The app closes. -/
theorem Sound.recvClosed {c : TcpClient} (h : Sound c) (hc : c.Calls (.recv none)) :
    ∃ c', c.clientRecvFunc none = some (.abrt, c') ∧ Sound c' := by
  obtain ⟨pcb, hpcb, _⟩ := hc
  have hopen := h.clientOpen hpcb
  obtain ⟨c', hc', hs⟩ := h.loseApp.freeClient hopen (h.live (.inl hopen)) h.sending (.inl rfl)
  refine ⟨c', ?_, hs⟩
  dsimp only [clientRecvFunc]
  rw [if_neg (by simp [hopen]), hc', Option.map_some]

/-- A send that is going on, and what it is about. -/
theorem Sound.busy {c : TcpClient} (h : Sound c) {len : Nat} (hlen : len ∈ c.socksSend) :
    c.socksClosed = false ∧ c.socksUp = true := by
  by_contra hnot
  rw [(h.quiet (by simpa [or_iff_not_and_not] using hnot)).1] at hlen
  cases hlen

/-- What is left of the buffer. -/
theorem Sound.removed {c : TcpClient} (h : Sound c) {dataLen : Nat} (hsocks : c.socksClosed = false)
    (hle : dataLen ≤ c.buf.length) :
    Mid (c.removed dataLen) ∧ (c.clientClosed = false → Open (c.removed dataLen)) := by
  constructor
  · exact { h.toMid with
      quiet := fun hq => ⟨rfl, (h.quiet hq).2⟩
      sendLen := fun _ hl => by cases hl
      up := by
        show c.passed.fromApp = (c.passed.toSocks ++ c.buf.take dataLen) ++ c.buf.drop dataLen
        rw [List.append_assoc, List.take_append_drop, h.up]
      room := by
        have hroom := h.room
        show (c.buf.drop dataLen).length ≤ tcpWnd
        rw [List.length_drop]
        omega
      lostUp := fun hclosed => absurd (hsocks.symm.trans hclosed) Bool.false_ne_true }
  · intro hopen
    have hrest := h.isOpen (by simp [hopen])
    exact { hrest with
      window := by
        have hw := hrest.window
        show (if c.clientClosed then c.passed.recved else c.passed.recved + dataLen) =
          (c.passed.toSocks ++ c.buf.take dataLen).length
        rw [hopen, List.length_append, List.length_take, Nat.min_eq_left hle]
        simp only [Bool.false_eq_true, if_false]
        omega
      held := hrest.held.imp id fun hw => { hw with } }

/-- The SOCKS side took a part of the buffer. -/
theorem Sound.sendDone {c : TcpClient} (h : Sound c) {dataLen : Nat} (hc : c.Calls (.sendDone dataLen)) :
    ∃ c', c.clientSocksSendHandlerDone dataLen = some c' ∧ Sound c' := by
  obtain ⟨hpos, len, hlen, hle⟩ := hc
  obtain ⟨hsocks, hup⟩ := h.busy hlen
  obtain ⟨_, hfits⟩ := h.sendLen len hlen
  have hfull : c.buf ≠ [] := by
    rintro hnil
    rw [hnil, List.length_nil] at hfits
    omega
  obtain ⟨hmid, hlater⟩ := h.removed hsocks (hle.trans hfits)
  unfold clientSocksSendHandlerDone
  rw [if_neg]
  swap
  · rintro (hc | hc | hc | hc | hc | ⟨hc, hnone⟩)
    · exact absurd (hsocks.symm.trans hc) Bool.false_ne_true
    · exact hc hup
    · exact hfull hc
    · omega
    · omega
    · exact hc (h.closed.mpr hnone)
  by_cases hmore : (c.removed dataLen).buf = []
  · by_cases hclosed : c.clientClosed
    · refine ⟨(c.removed dataLen).gone, ?_, hmid.gone (.inr hmore) ((hmid.lostDown hclosed).imp id And.right)⟩
      have hfree := clientFreeSocks_eq hmid hsocks (h.live (.inr hsocks))
      rw [if_neg (fun hw => absurd (hclosed.symm.trans hw.2.2) (by decide))] at hfree
      show (if (c.removed dataLen).buf ≠ [] then _ else if c.clientClosed then _ else _) = _
      rw [if_neg (fun hne => hne hmore), if_pos hclosed, hfree]
    · refine ⟨c.removed dataLen, ?_, ?_⟩
      · show (if (c.removed dataLen).buf ≠ [] then _ else if c.clientClosed then _ else _) = _
        rw [if_neg (fun hne => hne hmore), if_neg hclosed]
      · exact { hmid with
          both := h.both
          sending := fun _ _ hne => absurd hmore hne
          closing := fun hclosed' => absurd hclosed' hclosed
          lingering := fun hclosed' => absurd (hsocks.symm.trans hclosed') Bool.false_ne_true
          isOpen := fun hn => hlater (Bool.not_eq_true _ ▸ hn) }
  · refine ⟨{ c.removed dataLen with socksSend := some (c.removed dataLen).buf.length }, if_pos hmore, ?_⟩
    exact { hmid with
      quiet := fun hq => by
        rcases hq with hq | hq
        · exact absurd (hsocks.symm.trans hq) Bool.false_ne_true
        · exact absurd hup hq
      sendLen := by
        intro l hl
        obtain rfl := Option.some.inj hl
        exact ⟨List.length_pos_iff.mpr hmore, Nat.le_refl _⟩
      both := h.both
      sending := fun _ _ _ => Option.some_ne_none _
      closing := fun _ _ => hmore
      lingering := fun hclosed' => absurd (hsocks.symm.trans hclosed') Bool.false_ne_true
      isOpen := fun hn => by
        have hl := hlater (Bool.not_eq_true _ ▸ hn)
        exact { hl with held := hl.held.imp id fun hw => { hw with } } }

/-! ## From SOCKS to the app -/

/-- The loop has a buffer to hand over. -/
structure Handing (c : TcpClient) : Prop extends Mid c where
  isOpen : c.clientClosed = false
  live : c.freed = false
  isUp : c.socksUp
  sending : c.socksUp → ¬ c.socksClosed → c.buf ≠ [] → c.socksSend ≠ none
  window : c.passed.recved = c.passed.toSocks.length
  pending : c.passed.acked + c.socksRecvTcpPending = c.passed.toApp.length
  used : c.socksRecvBufUsed = c.socksRecvBuf.length
  sent : c.socksRecvBufSent ≤ c.socksRecvBuf.length
  data : c.passed.fromSocks = c.passed.toApp ++ c.socksRecvBuf.drop c.socksRecvBufSent
  idle : c.socksRecv = false

/-- What the loop leaves: it moved on over what it wrote. -/
structure Moved (c c' : TcpClient) : Prop where
  sent : c.socksRecvBufSent ≤ c'.socksRecvBufSent
  pending : c'.socksRecvTcpPending + c.socksRecvBufSent = c.socksRecvTcpPending + c'.socksRecvBufSent
  buf : c'.socksRecvBuf = c.socksRecvBuf
  closed : c'.socksClosed = c.socksClosed

/-- A turn of writing hands over the next bytes, none twice. -/
theorem Handing.written {c : TcpClient} (h : Handing c) {toWrite : Nat}
    (hle : toWrite ≤ c.socksRecvBuf.length - c.socksRecvBufSent) : Handing (c.written toWrite) ∧ Moved c (c.written toWrite) := by
  have hsent := h.sent
  constructor
  · have hdata : c.passed.fromSocks = (c.passed.toApp ++ (c.socksRecvBuf.drop c.socksRecvBufSent).take toWrite) ++
        c.socksRecvBuf.drop (c.socksRecvBufSent + toWrite) := by
      rw [List.append_assoc, ← List.drop_drop, List.take_append_drop, h.data]
    exact { h with
      down := ⟨_, hdata.symm⟩
      early := fun hn => absurd h.isUp hn
      lostDown := fun hclosed => absurd (h.isOpen.symm.trans hclosed) Bool.false_ne_true
      pending := by
        have hp := h.pending
        show c.passed.acked + (c.socksRecvTcpPending + toWrite) =
          (c.passed.toApp ++ (c.socksRecvBuf.drop c.socksRecvBufSent).take toWrite).length
        rw [List.length_append, List.length_take, List.length_drop, Nat.min_eq_left hle]
        omega
      sent := by
        show c.socksRecvBufSent + toWrite ≤ c.socksRecvBuf.length
        omega
      data := hdata }
  · exact ⟨Nat.le_add_right _ _, by simp only [TcpClient.written]; omega, rfl, rfl⟩

/-- The loop ends with the client aborted or still handing over. -/
theorem Handing.writeOut {c : TcpClient} (h : Handing c) (turns : List Turn) :
    ∃ r, c.writeOut turns = some r ∧ (r.1 = true ∧ Sound r.2 ∨ r.1 = false ∧ Handing r.2 ∧ Moved c r.2) := by
  have hstay : Moved c c := ⟨Nat.le_refl _, rfl, rfl, rfl⟩
  induction turns generalizing c with
  | nil => exact ⟨_, rfl, .inr ⟨rfl, h, hstay⟩⟩
  | cons t ts ih =>
    unfold TcpClient.writeOut
    dsimp only
    split
    · exact ⟨_, rfl, .inr ⟨rfl, h, hstay⟩⟩
    · cases t.err with
      | mem => exact ⟨_, rfl, .inr ⟨rfl, h, hstay⟩⟩
      | ok =>
        have hused : c.socksRecvBufUsed.toNat = c.socksRecvBuf.length := by
          rw [h.used]
          rfl
        have hle : min (c.socksRecvBufUsed.toNat - c.socksRecvBufSent) t.sndbuf ≤
            c.socksRecvBuf.length - c.socksRecvBufSent := by
          rw [hused]
          exact Nat.min_le_left _ _
        obtain ⟨hnext, hmoved⟩ := h.written hle
        dsimp only
        split
        · obtain ⟨r, hr, hcase⟩ := ih hnext ⟨Nat.le_refl _, rfl, rfl, rfl⟩
          refine ⟨r, hr, hcase.imp id ?_⟩
          rintro ⟨hgo, hhand, hm⟩
          have hs := hmoved.sent
          have hp := hmoved.pending
          have hs' := hm.sent
          have hp' := hm.pending
          exact ⟨hgo, hhand, by omega, by omega, hm.buf.trans hmoved.buf, hm.closed.trans hmoved.closed⟩
        · exact ⟨_, rfl, .inr ⟨rfl, hnext, hmoved⟩⟩
      | abrt =>
        obtain ⟨c', hc', hs⟩ := h.abort h.isOpen h.live h.sending
        exact ⟨(true, c'), by simp only [hc', Option.map_some], .inl ⟨rfl, hs⟩⟩
      | other =>
        obtain ⟨c', hc', hs⟩ := h.abort h.isOpen h.live h.sending
        exact ⟨(true, c'), by simp only [hc', Option.map_some], .inl ⟨rfl, hs⟩⟩

/-- Data was handed over and nothing is received; more of it may be waiting. -/
structure Queued (c : TcpClient) : Prop extends Mid c where
  isOpen : c.clientClosed = false
  live : c.freed = false
  isUp : c.socksUp
  sending : c.socksUp → ¬ c.socksClosed → c.buf ≠ [] → c.socksSend ≠ none
  window : c.passed.recved = c.passed.toSocks.length
  pending : c.passed.acked + c.socksRecvTcpPending = c.passed.toApp.length
  data : c.passed.fromSocks = c.passed.toApp ++ c.held
  held : c.socksRecvBufUsed = -1 ∨ c.Waits
  unacked : 0 < c.socksRecvTcpPending
  idle : c.socksRecv = false

/-- Handing over aborts the client or leaves data unacknowledged. -/
theorem Handing.sendOut {c : TcpClient} (h : Handing c) (hmore : c.socksRecvBufSent < c.socksRecvBuf.length)
    (hfree : c.socksRecvWaiting = false) (turns : List Turn) (output : Err) :
    ∃ r, c.clientSocksRecvSendOut turns output = some r ∧
      (r.1 = true ∧ Sound r.2 ∨ r.1 = false ∧ Queued r.2 ∧ r.2.socksClosed = c.socksClosed) := by
  have hpcb : c.pcb ≠ none := fun hnone =>
    absurd (h.isOpen.symm.trans (h.closed.mpr hnone)) Bool.false_ne_true
  have hused := h.used
  unfold clientSocksRecvSendOut
  rw [if_neg]
  swap
  · rintro (hc | hc | hc | hc | hc | hc)
    · exact absurd (h.isOpen.symm.trans hc) Bool.false_ne_true
    · exact hpcb hc
    · exact hc h.isUp
    · omega
    · omega
    · exact absurd (hfree.symm.trans hc) Bool.false_ne_true
  obtain ⟨⟨aborted, d⟩, hr, hcase⟩ := h.writeOut turns
  rw [hr, Option.bind_some]
  dsimp only
  rcases hcase with ⟨rfl, hs⟩ | ⟨rfl, hd, hm⟩
  · exact ⟨(true, d), rfl, .inl ⟨rfl, hs⟩⟩
  have hd' : Handing d := hd
  have habort : ∃ r, (d.clientAbortClient.map fun c => (true, c)) = some r ∧
      (r.1 = true ∧ Sound r.2 ∨ r.1 = false ∧ Queued r.2 ∧ r.2.socksClosed = c.socksClosed) := by
    obtain ⟨c', hc', hs⟩ := hd'.abort hd'.isOpen hd'.live hd'.sending
    exact ⟨(true, c'), by rw [hc', Option.map_some], .inl ⟨rfl, hs⟩⟩
  rw [if_neg Bool.false_ne_true]
  have hduse := hd'.used
  split
  · exact habort
  · split
    · rename_i hleft
      split
      · exact habort
      · -- the rest waits for an acknowledgement
        rename_i hunacked
        refine ⟨_, rfl, .inr ⟨rfl, ?_, hm.closed⟩⟩
        have hwaits : Waits { d with socksRecvWaiting := true } :=
          ⟨hduse, show d.socksRecvBufSent < d.socksRecvBuf.length by omega, rfl, Nat.pos_of_ne_zero hunacked⟩
        exact { hd' with
          data := by
            show d.passed.fromSocks = d.passed.toApp ++
              (if d.socksRecvBufUsed = -1 then [] else d.socksRecvBuf.drop d.socksRecvBufSent)
            rw [if_neg (by omega)]
            exact hd'.data
          held := .inr hwaits
          unacked := Nat.pos_of_ne_zero hunacked }
    · -- everything was queued
      rename_i hall
      have hpending : d.socksRecvTcpPending + c.socksRecvBufSent = c.socksRecvTcpPending + d.socksRecvBufSent :=
        hm.pending
      have hbuf : d.socksRecvBuf = c.socksRecvBuf := hm.buf
      have hend : d.socksRecvBufSent = d.socksRecvBuf.length := by
        have hle := hd'.sent
        omega
      have hwrote : 0 < d.socksRecvTcpPending := by
        rw [hbuf] at hend
        omega
      refine ⟨_, rfl, .inr ⟨rfl, ?_, hm.closed⟩⟩
      exact { hd' with
        recvFree := fun hr => absurd (hd'.idle.symm.trans hr) Bool.false_ne_true
        early := fun hn => absurd hd'.isUp hn
        data := by
          have hdata := hd'.data
          rw [hend, List.drop_length] at hdata
          exact hdata
        held := .inl rfl
        unacked := hwrote }

/-- When the next receive is started the relay is sound again. -/
theorem Queued.sound {c : TcpClient} (h : Queued c)
    (hreceiving : c.socksUp → ¬ c.socksClosed → c.socksRecvBufUsed = -1 → c.socksRecv) : Sound c :=
  { h.toMid with
    both := by simp [h.live, h.isOpen]
    sending := h.sending
    closing := fun hclosed => absurd (h.isOpen.symm.trans hclosed) Bool.false_ne_true
    lingering := fun _ _ => ⟨h.isUp, h.unacked⟩
    isOpen := fun _ => ⟨h.window, h.pending, h.data, h.held, hreceiving⟩ }

/-- Everything was queued, and SOCKS is asked for more. -/
theorem Queued.initiate {c : TcpClient} (h : Queued c) (hsocks : c.socksClosed = false)
    (hempty : c.socksRecvBufUsed = -1) : ∃ c', c.clientSocksRecvInitiate = some c' ∧ Sound c' := by
  refine ⟨{ c with socksRecv := true }, ?_, ?_⟩
  · unfold clientSocksRecvInitiate
    rw [if_neg (by simp [h.isOpen, hsocks, h.isUp, hempty, h.idle])]
  · exact { h.toMid with
      quiet := fun hq => by
        rcases hq with hq | hq
        · exact absurd (hsocks.symm.trans hq) Bool.false_ne_true
        · exact absurd h.isUp hq
      recvFree := fun _ => hempty
      both := by simp [h.live, h.isOpen]
      sending := h.sending
      closing := fun hclosed => absurd (h.isOpen.symm.trans hclosed) Bool.false_ne_true
      lingering := fun hclosed => absurd (hsocks.symm.trans hclosed) Bool.false_ne_true
      isOpen := fun _ => ⟨h.window, h.pending, h.data, h.held.imp id fun hw => { hw with }, fun _ _ _ => rfl⟩ }

/-- The SOCKS side received something. -/
theorem Sound.recvDone {c : TcpClient} (h : Sound c) {data : List UInt8} {turns : List Turn} {output : Err}
    (hc : c.Calls (.recvDone data turns output)) :
    ∃ c', c.clientSocksRecvHandlerDone data turns output = some c' ∧ Sound c' := by
  obtain ⟨hrecv, hne, hsize⟩ := hc
  have hempty := h.recvFree hrecv
  obtain ⟨hsocks, hup⟩ : c.socksClosed = false ∧ c.socksUp = true := by
    by_contra hnot
    rw [(h.quiet (by simpa [or_iff_not_and_not] using hnot)).2] at hrecv
    cases hrecv
  have hdown : c.passed.toApp <+: c.passed.fromSocks ++ data := h.down.trans (List.prefix_append _ _)
  unfold clientSocksRecvHandlerDone
  rw [if_neg (by simp [hne, hsocks, hup, hempty, Nat.not_lt.mpr hsize])]
  dsimp only
  by_cases hclosed : c.clientClosed
  · -- what a closed client is sent is dropped
    refine ⟨c.fetched data, if_pos hclosed, ?_⟩
    exact { h with
      quiet := fun hq => ⟨(h.quiet hq).1, rfl⟩
      recvFree := fun hr => by cases hr
      down := hdown
      early := fun hn => absurd hup hn
      lostDown := fun _ => (h.lostDown hclosed).imp id fun hd => absurd (hsocks.symm.trans hd.1) Bool.false_ne_true
      isOpen := fun hn => absurd hclosed hn }
  · have hopen : c.clientClosed = false := Bool.not_eq_true _ ▸ hclosed
    have hrest := h.isOpen hclosed
    have hsame : c.passed.fromSocks = c.passed.toApp := by
      have hd := hrest.down
      unfold TcpClient.held at hd
      rw [if_pos hempty, List.append_nil] at hd
      exact hd
    rw [if_neg (show ¬ (c.fetched data).clientClosed = true from hclosed)]
    have hhand : Handing ((c.fetched data).filled data) :=
      { h.toMid with
        quiet := fun hq => ⟨(h.quiet hq).1, rfl⟩
        recvFree := fun hr => by cases hr
        down := hdown
        early := fun hn => absurd hup hn
        lostDown := fun hc => absurd hc hclosed
        isOpen := hopen
        live := h.live (.inl hopen)
        isUp := hup
        sending := h.sending
        window := hrest.window
        pending := hrest.pending
        used := rfl
        sent := Nat.zero_le _
        data := by
          show c.passed.fromSocks ++ data = c.passed.toApp ++ data.drop 0
          rw [hsame, List.drop_zero]
        idle := rfl }
    obtain ⟨⟨aborted, d⟩, hr, hcase⟩ := hhand.sendOut (List.length_pos_iff.mpr hne) rfl turns output
    rw [hr, Option.bind_some]
    dsimp only
    rcases hcase with ⟨rfl, hs⟩ | ⟨rfl, hq, hsc⟩
    · exact ⟨d, rfl, hs⟩
    · have hq' : Queued d := hq
      rw [if_neg Bool.false_ne_true]
      by_cases hall : d.socksRecvBufUsed = -1
      · rw [if_pos hall]
        exact hq'.initiate (hsc.trans hsocks) hall
      · rw [if_neg hall]
        exact ⟨d, rfl, hq'.sound fun _ _ he => absurd he hall⟩

/-- A buffer in use waits, an unused one is marked so. -/
theorem Open.waits {c : TcpClient} (h : Open c) (hused : 0 ≤ c.socksRecvBufUsed) : c.Waits :=
  h.held.resolve_left fun hfree => by omega

/-- An acknowledgement counts bytes the application took. -/
theorem Sound.acknowledged {c : TcpClient} (h : Sound c) {len : Nat} (hopen : c.clientClosed = false)
    (hup : c.socksUp = true) : Mid (c.acknowledged len) :=
  { h.toMid with
    early := fun hn => absurd hup hn
    lostDown := fun hclosed => absurd (hopen.symm.trans hclosed) Bool.false_ne_true }

/-- The app acknowledged data. -/
theorem Sound.sent {c : TcpClient} (h : Sound c) {len : Nat} {turns : List Turn} {output : Err}
    (hc : c.Calls (.sent len turns output)) :
    ∃ r, c.clientSentFunc len turns output = some r ∧ Sound r.2 := by
  obtain ⟨⟨pcb, hpcb, hset⟩, hpos, hacked⟩ := hc
  have hopen := h.clientOpen hpcb
  have hup := (h.sentSet pcb hpcb).mp hset
  have hrest := h.isOpen (by simp [hopen])
  have hpending := hrest.pending
  have hlive := h.live (.inl hopen)
  have hmid : Mid (c.acknowledged len) := h.acknowledged hopen hup
  have hexact : c.passed.acked + len + (c.socksRecvTcpPending - len) = c.passed.toApp.length := by omega
  have hlong : ¬ c.socksRecvTcpPending < len := by omega
  unfold clientSentFunc
  rw [if_neg (by simp [hopen, hup, Nat.ne_of_gt hpos, hlong])]
  dsimp only
  by_cases hused : 0 < c.socksRecvBufUsed
  · -- the rest of the buffer is handed over
    have hwaits := hrest.waits (Int.le_of_lt hused)
    have hu := hwaits.used
    have hs := hwaits.sent
    have hidle : c.socksRecv = false := by
      cases hr : c.socksRecv with
      | false => rfl
      | true =>
        have hfree := h.recvFree hr
        omega
    have hhand : Handing (c.acknowledged len).resumed :=
      { hmid with
        isOpen := hopen
        live := hlive
        isUp := hup
        sending := h.sending
        window := hrest.window
        pending := hexact
        used := hu
        sent := Nat.le_of_lt hs
        data := by
          have hd := hrest.down
          unfold TcpClient.held at hd
          rw [if_neg (by omega)] at hd
          exact hd
        idle := hidle }
    rw [if_pos (show 0 < (c.acknowledged len).socksRecvBufUsed from hused), if_neg]
    swap
    · rintro (hn | hn)
      · exact hn hwaits.waiting
      · have hn : c.socksRecvBufUsed ≤ c.socksRecvBufSent := hn
        omega
    obtain ⟨⟨aborted, d⟩, hr, hcase⟩ := hhand.sendOut hs rfl turns output
    rw [hr, Option.bind_some]
    dsimp only
    rcases hcase with ⟨rfl, hsd⟩ | ⟨rfl, hq, hsc⟩
    · exact ⟨(.abrt, d), rfl, hsd⟩
    · have hq' : Queued d := hq
      rw [if_neg Bool.false_ne_true, if_neg (Nat.ne_of_gt hq'.unacked)]
      split
      · rename_i hall
        obtain ⟨e, he, hse⟩ := hq'.initiate (Bool.not_eq_true _ ▸ hall.2) hall.1
        exact ⟨(.ok, e), by rw [he, Option.map_some], hse⟩
      · rename_i hall
        exact ⟨(.ok, d), rfl, hq'.sound fun _ hsocks he => absurd ⟨he, hsocks⟩ hall⟩
  · have hfree : c.socksRecvBufUsed = -1 := by
      rcases hrest.held with hfree | hw
      · exact hfree
      · have hu := hw.used
        have hs := hw.sent
        omega
    have hsame : c.passed.fromSocks = c.passed.toApp := by
      have hd := hrest.down
      unfold TcpClient.held at hd
      rw [if_pos hfree, List.append_nil] at hd
      exact hd
    rw [if_neg (show ¬ 0 < (c.acknowledged len).socksRecvBufUsed from hused)]
    split
    · -- everything SOCKS left is delivered
      rename_i hend
      obtain ⟨hsocks, hnone⟩ := hend
      have hdone : c.socksRecvTcpPending - len = 0 := hnone
      obtain ⟨d, hd, hsd⟩ := hmid.freeClient hopen hlive h.sending
        (.inr ⟨hsocks, hsame.symm, by show c.passed.acked + len = c.passed.toApp.length; omega⟩)
      exact ⟨(.abrt, d), by rw [hd, Option.map_some], hsd⟩
    · rename_i hend
      refine ⟨(.ok, c.acknowledged len), rfl, ?_⟩
      exact { hmid with
        both := h.both
        sending := h.sending
        closing := h.closing
        lingering := fun hsocks _ => ⟨hup, Nat.pos_of_ne_zero fun hzero => hend ⟨hsocks, hzero⟩⟩
        isOpen := fun _ => ⟨hrest.window, hexact, hrest.down, .inl hfree, hrest.receiving⟩ }

/-! ## Events of the two sides -/

/-- An error of lwIP is a client freed that lost its data. -/
theorem Sound.err {c : TcpClient} (h : Sound c) (hc : c.Calls .err) : ∃ c', c.clientErrFunc = some c' ∧ Sound c' := by
  obtain ⟨p, hp⟩ := Option.ne_none_iff_exists'.mp hc
  have hopen := h.clientOpen (show p ∈ c.pcb from hp)
  obtain ⟨c', hc', hs⟩ := h.loseApp.freeClient hopen (h.live (.inl hopen)) h.sending (.inl rfl)
  refine ⟨c', ?_, hs⟩
  unfold clientFreeClient freeClient at hc'
  rw [if_neg] at hc'
  · exact hc'
  · rintro (hclosed | hnone)
    · exact absurd (hopen.symm.trans hclosed) Bool.false_ne_true
    · exact hc hnone

/-- SOCKS goes down: the client is kept exactly when there is data for it. -/
theorem Sound.freeSocks {c : TcpClient} (h : Sound c) (hsocks : c.socksClosed = false) :
    ∃ c', c.loseSocks.clientFreeSocks = some c' ∧ Sound c' := by
  have hmid := h.loseSocks
  rw [clientFreeSocks_eq hmid hsocks (h.live (.inr hsocks))]
  refine ⟨_, rfl, ?_⟩
  split
  · rename_i hkeep
    obtain ⟨hup, hmore, hopen⟩ := hkeep
    have hopen' : ¬ c.clientClosed = true := by
      intro hclosed
      exact absurd (hopen.symm.trans hclosed) Bool.false_ne_true
    have hrest := h.isOpen hopen'
    have hunacked : 0 < c.socksRecvTcpPending := by
      rcases hmore with hused | hpending
      · exact (hrest.waits hused).pending
      · exact hpending
    exact {
      closed := by
        rw [Option.map_eq_none_iff]
        exact h.closed
      recvSet := by
        intro p hp
        obtain ⟨q, _, rfl⟩ := Option.map_eq_some_iff.mp hp
        simp
      sentSet := by
        intro p hp
        obtain ⟨q, hq, rfl⟩ := Option.map_eq_some_iff.mp hp
        exact h.sentSet q hq
      quiet := fun _ => ⟨rfl, rfl⟩
      sendLen := fun _ hl => by cases hl
      recvFree := fun hr => by cases hr
      up := h.up
      room := h.room
      down := h.down
      early := fun hn => absurd hup hn
      lostUp := fun _ => .inl rfl
      lostDown := fun hclosed => absurd hclosed hopen'
      both := by
        have hlive := h.live (.inr hsocks)
        have hopen : c.clientClosed = false := hopen
        simp [TcpClient.loseSocks, hlive, hopen]
      sending := fun _ hn => absurd rfl hn
      closing := fun _ hn => absurd rfl hn
      lingering := fun _ _ => ⟨hup, hunacked⟩
      isOpen := fun _ => ⟨hrest.window, hrest.pending, hrest.down, hrest.held.imp id fun hw => { hw with },
        fun _ hn => absurd rfl hn⟩ }
  · rename_i hkeep
    refine hmid.gone (.inl rfl) ?_
    by_cases hclosed : c.clientClosed
    · exact (h.lostDown hclosed).imp id And.right
    · -- nothing is left for the client
      have hrest := h.isOpen hclosed
      have hp := hrest.pending
      refine .inr ?_
      by_cases hup : c.socksUp
      · have hnone : ¬ (0 ≤ c.socksRecvBufUsed ∨ 0 < c.socksRecvTcpPending) := fun hmore =>
          hkeep ⟨hup, hmore, Bool.not_eq_true _ ▸ hclosed⟩
        have hfree : c.socksRecvBufUsed = -1 := by
          rcases hrest.held with hfree | hw
          · exact hfree
          · exact absurd (.inr hw.pending) hnone
        have hd := hrest.down
        unfold TcpClient.held at hd
        rw [if_pos hfree, List.append_nil] at hd
        refine ⟨hd.symm, ?_⟩
        show c.passed.acked = c.passed.toApp.length
        omega
      · obtain ⟨hfrom, hacked, hpending, _⟩ := h.early hup
        have hto : c.passed.toApp = [] := by
          have hd := h.down
          rw [hfrom] at hd
          exact List.prefix_nil.mp hd
        refine ⟨hto.trans hfrom.symm, ?_⟩
        show c.passed.acked = c.passed.toApp.length
        rw [hacked, hto, List.length_nil]

/-- The SOCKS side that comes up finds the bytes the application sent before. -/
theorem Sound.cameUp {c : TcpClient} (h : Sound c) : Mid c.cameUp :=
  { h.toMid with
    closed := by
      show c.clientClosed = true ↔
        (if c.clientClosed then c.pcb else c.pcb.map fun p => { p with sentFunc := true }) = none
      split
      · exact h.closed
      · rw [Option.map_eq_none_iff]
        exact h.closed
    recvSet := by
      intro p hp
      have hp : p ∈ (if c.clientClosed then c.pcb else c.pcb.map fun p => { p with sentFunc := true }) := hp
      split at hp
      · exact h.recvSet p hp
      · obtain ⟨q, hq, rfl⟩ := Option.map_eq_some_iff.mp hp
        exact h.recvSet q hq
    sentSet := by
      intro p hp
      have hp : p ∈ (if c.clientClosed then c.pcb else c.pcb.map fun p => { p with sentFunc := true }) := hp
      split at hp
      · rename_i hclosed
        rw [h.closed.mp hclosed] at hp
        cases hp
      · obtain ⟨q, _, rfl⟩ := Option.map_eq_some_iff.mp hp
        simp [TcpClient.cameUp]
    quiet := fun _ => ⟨rfl, rfl⟩
    sendLen := fun _ hl => by cases hl
    recvFree := fun hr => by cases hr
    early := fun hn => absurd rfl hn }

/-- Sending what is in the buffer, as soon as SOCKS is up. -/
structure Started (c d : TcpClient) : Prop extends Mid d where
  sending : d.buf ≠ [] → d.socksSend ≠ none
  client : d.clientClosed = c.clientClosed
  socks : d.socksClosed = c.socksClosed
  live : d.freed = c.freed
  isUp : d.socksUp
  idle : d.socksRecv = false
  used : d.socksRecvBufUsed = -1
  pending : d.socksRecvTcpPending = 0
  buf : d.buf = c.buf
  passed : d.passed = c.passed

/-- The bytes sent before the SOCKS side came up are the first to go out. -/
theorem Sound.started {c : TcpClient} (h : Sound c) (hsocks : c.socksClosed = false) :
    ∃ d, (if c.cameUp.buf ≠ [] then c.cameUp.clientSendToSocks else some c.cameUp) = some d ∧ Started c d := by
  have hmid := h.cameUp
  by_cases hbuf : c.buf = []
  · refine ⟨c.cameUp, if_neg (fun hne => hne hbuf), ?_⟩
    exact { hmid with
      sending := fun hne => absurd hbuf hne
      client := rfl, socks := rfl, live := rfl, isUp := rfl, idle := rfl, used := rfl, pending := rfl, buf := rfl
      passed := rfl }
  · refine ⟨{ c.cameUp with socksSend := some c.cameUp.buf.length }, ?_, ?_⟩
    · rw [if_pos (show c.cameUp.buf ≠ [] from hbuf)]
      unfold clientSendToSocks
      rw [if_neg]
      rintro (hc | hc | hc | hc)
      · exact absurd (hsocks.symm.trans hc) Bool.false_ne_true
      · exact hc rfl
      · exact hbuf hc
      · exact hc rfl
    · exact { hmid with
        quiet := fun hq => by
          rcases hq with hq | hq
          · exact absurd (hsocks.symm.trans hq) Bool.false_ne_true
          · exact absurd rfl hq
        sendLen := by
          intro len hl
          obtain rfl := Option.some.inj hl
          exact ⟨List.length_pos_iff.mpr hbuf, Nat.le_refl _⟩
        sending := fun _ => Option.some_ne_none _
        client := rfl, socks := rfl, live := rfl, isUp := rfl, idle := rfl, used := rfl, pending := rfl, buf := rfl
        passed := rfl }

/-- SOCKS is up: what waits in the buffer is sent, and an open client receives. -/
theorem Sound.socksUp {c : TcpClient} (h : Sound c) (hsocks : c.socksClosed = false) (hbefore : c.socksUp = false) :
    ∃ c', c.clientSocksHandler .up = some c' ∧ Sound c' := by
  obtain ⟨hfrom, hacked, _, _⟩ := h.early (by simp [hbefore])
  have hto : c.passed.toApp = [] := by
    have hd := h.down
    rw [hfrom] at hd
    exact List.prefix_nil.mp hd
  have hlive := h.live (.inr hsocks)
  obtain ⟨d, hd, hs⟩ := h.started hsocks
  have hdsocks : d.socksClosed = false := hs.socks.trans hsocks
  unfold clientSocksHandler
  dsimp only
  rw [if_neg, hd, Option.bind_some]
  swap
  · rintro (hc | hc | ⟨hc, hnone⟩)
    · exact absurd (hsocks.symm.trans hc) Bool.false_ne_true
    · exact absurd (hbefore.symm.trans hc) Bool.false_ne_true
    · exact hc (h.closed.mpr hnone)
  by_cases hclosed : c.clientClosed
  · refine ⟨d, if_neg (fun hn => hn (hs.client.trans hclosed)), ?_⟩
    exact { hs.toMid with
      both := by simp [hs.live, hlive, hdsocks]
      sending := fun _ _ => hs.sending
      closing := fun _ _ => hs.buf ▸ h.closing hclosed (by simp [hsocks])
      lingering := fun hc => absurd (hdsocks.symm.trans hc) Bool.false_ne_true
      isOpen := fun hn => absurd (hs.client.trans hclosed) hn }
  · have hopen : d.clientClosed = false := hs.client.trans (Bool.not_eq_true _ ▸ hclosed)
    refine ⟨{ d with socksRecv := true }, ?_, ?_⟩
    · rw [if_pos (by simp [hopen])]
      unfold clientSocksRecvInitiate
      rw [if_neg (by simp [hopen, hdsocks, hs.isUp, hs.used, hs.idle])]
    · exact { hs.toMid with
        quiet := fun hq => by
          rcases hq with hq | hq
          · exact absurd (hdsocks.symm.trans hq) Bool.false_ne_true
          · exact absurd hs.isUp hq
        recvFree := fun _ => hs.used
        both := by simp [hs.live, hlive, hdsocks]
        sending := fun _ _ => hs.sending
        closing := fun hc => absurd (hopen.symm.trans hc) Bool.false_ne_true
        lingering := fun hc => absurd (hdsocks.symm.trans hc) Bool.false_ne_true
        isOpen := fun _ => {
          window := by rw [hs.passed]; exact (h.isOpen hclosed).window
          pending := by
            show d.passed.acked + d.socksRecvTcpPending = d.passed.toApp.length
            rw [hs.pending, hs.passed, hacked, hto, List.length_nil]
          down := by
            show d.passed.fromSocks = d.passed.toApp ++
              (if d.socksRecvBufUsed = -1 then [] else d.socksRecvBuf.drop d.socksRecvBufSent)
            rw [if_pos hs.used, hs.passed, hfrom, hto, List.append_nil]
          held := .inl hs.used
          receiving := fun _ _ _ => rfl } }

/-! ## Whole runs -/

/-- An accepted connection has passed nothing. -/
theorem accepted_sound : Sound accepted := by
  constructor
  · constructor <;> simp [accepted, tcpWnd]
  · simp [accepted]
  · simp [accepted]
  · simp [accepted]
  · simp [accepted]
  · intro _
    constructor <;> simp [accepted, held]

/-- The handler of every call has a result that keeps the invariant. -/
theorem Sound.handle {c : TcpClient} (h : Sound c) {a : Call} (hc : c.Calls a) :
    ∃ c', c.handle a = some c' ∧ Sound c' := by
  have hrun : c.freed = false → ∀ {r : Option TcpClient} {c' : TcpClient}, r = some c' →
      (if c.freed then none else r) = some c' := by
    intro hlive r c' hr
    rw [hlive, if_neg Bool.false_ne_true, hr]
  unfold TcpClient.handle
  cases a with
  | recv p =>
    cases p with
    | none =>
      obtain ⟨pcb, hpcb, _⟩ := hc
      obtain ⟨c', hc', hs⟩ := h.recvClosed ⟨pcb, hpcb, by assumption⟩
      exact ⟨c', hrun (h.live (.inl (h.clientOpen hpcb))) (congrArg (Option.map Prod.snd) hc'), hs⟩
    | some p =>
      obtain ⟨c', hc', hs, _⟩ := h.recv hc
      obtain ⟨⟨pcb, hpcb, _⟩, _⟩ := hc
      exact ⟨c', hrun (h.live (.inl (h.clientOpen hpcb))) (congrArg (Option.map Prod.snd) hc'), hs⟩
  | sent len turns output =>
    obtain ⟨r, hr, hs⟩ := h.sent hc
    obtain ⟨⟨pcb, hpcb, _⟩, _⟩ := hc
    exact ⟨r.2, hrun (h.live (.inl (h.clientOpen hpcb))) (congrArg (Option.map Prod.snd) hr), hs⟩
  | err =>
    obtain ⟨c', hc', hs⟩ := h.err hc
    obtain ⟨p, hp⟩ := Option.ne_none_iff_exists'.mp hc
    exact ⟨c', hrun (h.live (.inl (h.clientOpen (show p ∈ c.pcb from hp)))) hc', hs⟩
  | socks event =>
    cases event with
    | error =>
      have hsocks : c.socksClosed = false := Bool.not_eq_true _ ▸ hc
      obtain ⟨c', hc', hs⟩ := h.freeSocks hsocks
      exact ⟨c', hrun (h.live (.inr hsocks)) hc', hs⟩
    | up =>
      have hsocks : c.socksClosed = false := Bool.not_eq_true _ ▸ hc.1
      obtain ⟨c', hc', hs⟩ := h.socksUp hsocks (Bool.not_eq_true _ ▸ hc.2)
      exact ⟨c', hrun (h.live (.inr hsocks)) hc', hs⟩
    | errorClosed =>
      have hsocks : c.socksClosed = false := Bool.not_eq_true _ ▸ hc.1
      obtain ⟨c', hc', hs⟩ := h.freeSocks hsocks
      exact ⟨c', hrun (h.live (.inr hsocks)) ((if_neg fun hn => hn hc.2).trans hc'), hs⟩
  | sendDone dataLen =>
    obtain ⟨c', hc', hs⟩ := h.sendDone hc
    obtain ⟨_, len, hlen, _⟩ := hc
    exact ⟨c', hrun (h.live (.inr (h.busy hlen).1)) hc', hs⟩
  | recvDone data turns output =>
    obtain ⟨c', hc', hs⟩ := h.recvDone hc
    refine ⟨c', hrun (h.live (.inr ?_)) hc', hs⟩
    by_contra hnot
    have hidle := (h.quiet (.inl (Bool.not_eq_false _ ▸ hnot))).2
    exact absurd (hidle.symm.trans hc.1) Bool.false_ne_true
  | murder =>
    have hlive : c.freed = false := Bool.not_eq_true _ ▸ hc
    refine ⟨c.loseApp.loseSocks.gone, hrun hlive ?_, h.loseApp.loseSocks.gone (.inl rfl) (.inl rfl)⟩
    unfold clientMurder clientDealloc
    exact if_pos ⟨rfl, rfl, fun hf => absurd (hlive.symm.trans hf) Bool.false_ne_true⟩

/-- The invariant of every reachable relay. -/
theorem reachable_sound {c : TcpClient} (h : Reachable system c) : Sound c := by
  refine h.invariant (fun c hc => ?_) fun c a c' hs _ hstep => ?_
  · obtain rfl : c = accepted := hc
    exact accepted_sound
  · have hstep : (if c.Calls a then c.handle a else none) = some c' := hstep
    split at hstep
    · rename_i hcalls
      obtain ⟨d, hd, hsd⟩ := hs.handle hcalls
      rw [hd] at hstep
      rw [← Option.some.inj hstep]
      exact hsd
    · cases hstep

end KiloProxy.Engine.TcpClient
