import KiloProxy.Engine.TcpRelay

/-!
# What a run of the relay delivers

The invariant of `TcpRelay` read at the states that a run reaches. A relay with one side
down ends: whatever else is called, every delivery to the other side brings it closer.

What is left to be delivered (`left`) is counted on the side that is up. Taking a side
down and handing data over leave that side's data as it is (`Kept`, one lemma for each
function of the source), and only a report of the other side takes from it.
-/

namespace KiloProxy.Engine.TcpClient
set_option autoImplicit false
open KiloProxy.Run

/-- The state after a run from the start. -/
def ranTo (as : List Call) : TcpClient := (exec system accepted as).getD accepted

theorem ranTo_reachable (as : List Call) : Reachable system (ranTo as) := by
  unfold ranTo
  cases hrun : exec system accepted as with
  | none => exact .start rfl
  | some c => exact exec_reaches as (.start rfl) hrun

/-- The app sends three bytes, some before SOCKS is up, and closes; SOCKS took two of them. -/
def closing : List Call := [.recv (some [1, 2]), .socks .up, .recv (some [3]), .recv none, .sendDone 2]

/-- **No handler faults.** Whatever was called before, and in whatever order, no assertion fails
and nothing freed is touched; and data from the app always finds room, so it is never refused. -/
theorem handlers_total {c : TcpClient} (h : Reachable system c) {a : Call} (hc : c.Calls a) :
    (∃ c', c.handle a = some c') ∧
      ∀ p, a = .recv (some p) → ∃ c', c.clientRecvFunc (some p) = some (.ok, c') := by
  have hs := reachable_sound h
  constructor
  · obtain ⟨c', hc', _⟩ := hs.handle hc
    exact ⟨c', hc'⟩
  · rintro p rfl
    obtain ⟨c', hc', _⟩ := hs.recv hc
    exact ⟨c', hc'⟩

theorem handlers_total_closing :
    (∃ c', (ranTo closing).handle (.sendDone 1) = some c') ∧
      ∀ p, Call.sendDone 1 = .recv (some p) → ∃ c', (ranTo closing).clientRecvFunc (some p) = some (.ok, c') :=
  handlers_total (ranTo_reachable closing) (by decide)

/-- **The relay is exact.** What goes out on one side is a prefix of what came in on the other; and
of a client that is freed, a side that was not lost got all of it, and acknowledged it. -/
theorem relay_exact {c : TcpClient} (h : Reachable system c) :
    c.passed.toSocks <+: c.passed.fromApp ∧ c.passed.toApp <+: c.passed.fromSocks ∧
    (c.freed → ¬ c.passed.socksLost → c.passed.toSocks = c.passed.fromApp) ∧
    (c.freed → ¬ c.passed.appLost →
      c.passed.toApp = c.passed.fromSocks ∧ c.passed.acked = c.passed.toApp.length) := by
  have hs := reachable_sound h
  refine ⟨⟨c.buf, hs.up.symm⟩, hs.down, fun hfreed hlost => ?_, fun hfreed hlost => ?_⟩
  · have hempty : c.buf = [] := (hs.lostUp (hs.both.mp hfreed).2).resolve_left hlost
    rw [hs.up, hempty, List.append_nil]
  · exact ((hs.lostDown (hs.both.mp hfreed).1).resolve_left hlost).2

theorem relay_exact_closing :
    (ranTo (closing ++ [.sendDone 1])).passed.toSocks = (ranTo (closing ++ [.sendDone 1])).passed.fromApp :=
  (relay_exact (ranTo_reachable _)).2.2.1 (by decide) (by decide)

/-- **Neither direction stops** while both sides are up: what the app sent is being sent on, the window
is what is left of the buffer, and SOCKS is receiving unless an acknowledgement is to come, for which
the handler is set. -/
theorem open_relay_moves {c : TcpClient} (h : Reachable system c) (hclient : c.clientClosed = false)
    (hsocks : c.socksClosed = false) (hup : c.socksUp = true) :
    (c.buf ≠ [] → ∃ n, c.Calls (.sendDone n)) ∧
    c.passed.fromApp.length + (tcpWnd - c.buf.length) = tcpWnd + c.passed.recved ∧
    (c.socksRecv = true ∨ ∃ len, c.Calls (.sent len [] .ok)) := by
  have hs := reachable_sound h
  have hrest := hs.isOpen (by simp [hclient])
  have hroom := hs.room
  refine ⟨fun hbuf => ?_, ?_, ?_⟩
  · obtain ⟨len, hlen⟩ := Option.ne_none_iff_exists'.mp (hs.sending hup (by simp [hsocks]) hbuf)
    exact ⟨len, (hs.sendLen len hlen).1, len, hlen, Nat.le_refl _⟩
  · rw [hs.up, List.length_append, hrest.window]
    omega
  · rcases hrest.held with hfree | hwaits
    · exact .inl (hrest.receiving hup (by simp [hsocks]) hfree)
    · have hpending := hrest.pending
      have hunacked := hwaits.pending
      obtain ⟨p, hp⟩ := Option.ne_none_iff_exists'.mp fun hn => by simp [hs.closed.mpr hn] at hclient
      exact .inr ⟨1, ⟨p, hp, (hs.sentSet p hp).mpr hup⟩, Nat.one_pos, by omega⟩

theorem open_relay_moves_up : ∃ n, (ranTo [.recv (some [1, 2]), .socks .up]).Calls (.sendDone n) :=
  (open_relay_moves (ranTo_reachable [.recv (some [1, 2]), .socks .up]) (by decide) (by decide) (by decide)).1
    (by decide)

/-! ## A relay with one side down ends -/

/-- What the side that is left still has to take. -/
def left (c : TcpClient) : Nat :=
  if c.clientClosed then c.buf.length else c.passed.fromSocks.length - c.passed.acked

/-- The calls that report a delivery. -/
def delivers : Call → Bool
  | .sent _ _ _ => true
  | .sendDone _ => true
  | _ => false

/-- What taking a side down and handing over leave as it was. -/
structure Kept (c d : TcpClient) : Prop where
  client : c.clientClosed → d.clientClosed
  socks : c.socksClosed → d.socksClosed
  buf : d.buf = c.buf
  fromSocks : d.passed.fromSocks = c.passed.fromSocks
  acked : d.passed.acked = c.passed.acked

theorem Kept.refl (c : TcpClient) : Kept c c := ⟨id, id, rfl, rfl, rfl⟩

theorem Kept.trans {c d e : TcpClient} (h : Kept c d) (h' : Kept d e) : Kept c e :=
  ⟨h'.client ∘ h.client, h'.socks ∘ h.socks, h'.buf.trans h.buf, h'.fromSocks.trans h.fromSocks,
    h'.acked.trans h.acked⟩

theorem Kept.after {c d e : TcpClient} (h' : Kept d e) (h : Kept c d) : Kept c e := h.trans h'

/-- Deallocation keeps what was read from both sides. -/
theorem kept_clientDealloc {c d : TcpClient} (h : c.clientDealloc = some d) : Kept c d := by
  unfold clientDealloc at h
  split at h
  · obtain rfl := Option.some.inj h
    exact ⟨id, id, rfl, rfl, rfl⟩
  · cases h

/-- Freeing the application side keeps it, however the SOCKS side is freed. -/
theorem kept_handleFreedClient {freeSocks : TcpClient → Option TcpClient}
    (hfree : ∀ c d, freeSocks c = some d → Kept c d) {c d : TcpClient} (h : handleFreedClient freeSocks c = some d) :
    Kept c d := by
  have hclosed : Kept c { c with clientClosed := true } := ⟨fun _ => rfl, id, rfl, rfl, rfl⟩
  unfold handleFreedClient at h
  split at h
  · cases h
  · dsimp only at h
    split at h
    · obtain rfl := Option.some.inj h
      exact hclosed
    · split at h
      · exact hclosed.trans (hfree _ _ h)
      · exact hclosed.trans (kept_clientDealloc h)

theorem kept_freeClient {freeSocks : TcpClient → Option TcpClient} (hfree : ∀ c d, freeSocks c = some d → Kept c d)
    {c d : TcpClient} (h : freeClient freeSocks c = some d) : Kept c d := by
  unfold freeClient at h
  split at h
  · cases h
  · exact Kept.after (kept_handleFreedClient hfree h) ⟨id, id, rfl, rfl, rfl⟩

/-- Freeing the SOCKS side keeps what was read from both sides. -/
theorem kept_clientFreeSocks {c d : TcpClient} (h : c.clientFreeSocks = some d) : Kept c d := by
  unfold clientFreeSocks at h
  split at h
  · cases h
  · dsimp only at h
    split at h
    · obtain rfl := Option.some.inj h
      exact ⟨id, fun _ => rfl, rfl, rfl, rfl⟩
    · split at h
      · exact Kept.after (kept_freeClient (fun _ _ hn => by cases hn) h) ⟨id, fun _ => rfl, rfl, rfl, rfl⟩
      · exact Kept.after (kept_clientDealloc h) ⟨id, fun _ => rfl, rfl, rfl, rfl⟩

theorem kept_clientFreeClient {c d : TcpClient} (h : c.clientFreeClient = some d) : Kept c d :=
  kept_freeClient (fun _ _ => kept_clientFreeSocks) h

theorem kept_clientAbortClient {c d : TcpClient} (h : c.clientAbortClient = some d) : Kept c d :=
  Kept.after (kept_freeClient (fun _ _ => kept_clientFreeSocks) h) ⟨id, id, rfl, rfl, rfl⟩

theorem kept_clientSendToSocks {c d : TcpClient} (h : c.clientSendToSocks = some d) : Kept c d := by
  unfold clientSendToSocks at h
  split at h
  · cases h
  · obtain rfl := Option.some.inj h
    exact ⟨id, id, rfl, rfl, rfl⟩

theorem kept_clientSocksRecvInitiate {c d : TcpClient} (h : c.clientSocksRecvInitiate = some d) : Kept c d := by
  unfold clientSocksRecvInitiate at h
  split at h
  · cases h
  · obtain rfl := Option.some.inj h
    exact ⟨id, id, rfl, rfl, rfl⟩

theorem kept_abort {c : TcpClient} {r : Bool × TcpClient}
    (h : (c.clientAbortClient.map fun c => (true, c)) = some r) : Kept c r.2 := by
  obtain ⟨d, hd, rfl⟩ := Option.map_eq_some_iff.mp h
  exact kept_clientAbortClient hd

/-- Writing out in turns reads nothing more from either side. -/
theorem kept_writeOut {c : TcpClient} {turns : List Turn} {r : Bool × TcpClient} (h : c.writeOut turns = some r) :
    Kept c r.2 := by
  induction turns generalizing c with
  | nil =>
    obtain rfl := Option.some.inj h
    exact .refl c
  | cons t ts ih =>
    unfold writeOut at h
    dsimp only at h
    split at h
    · obtain rfl := Option.some.inj h
      exact .refl c
    · split at h
      · obtain rfl := Option.some.inj h
        exact .refl c
      · have hwritten : Kept c (c.written (min (c.socksRecvBufUsed.toNat - c.socksRecvBufSent) t.sndbuf)) :=
          ⟨id, id, rfl, rfl, rfl⟩
        split at h
        · exact hwritten.trans (ih h)
        · obtain rfl := Option.some.inj h
          exact hwritten
      · exact kept_abort h

/-- Sending out what was received reads nothing more from either side. -/
theorem kept_clientSocksRecvSendOut {c : TcpClient} {turns : List Turn} {output : Err} {r : Bool × TcpClient}
    (h : c.clientSocksRecvSendOut turns output = some r) : Kept c r.2 := by
  unfold clientSocksRecvSendOut at h
  split at h
  · cases h
  · obtain ⟨⟨aborted, d⟩, hd, h⟩ := Option.bind_eq_some_iff.mp h
    have hk : Kept c d := kept_writeOut hd
    dsimp only at h
    split at h
    · obtain rfl := Option.some.inj h
      exact hk
    · split at h
      · exact hk.trans (kept_abort h)
      · split at h
        · split at h
          · exact hk.trans (kept_abort h)
          · obtain rfl := Option.some.inj h
            exact hk.trans ⟨id, id, rfl, rfl, rfl⟩
        · obtain rfl := Option.some.inj h
          exact hk.trans ⟨id, id, rfl, rfl, rfl⟩

/-- An acknowledgement changes what is acknowledged, by its length. -/
theorem kept_clientSentFunc {c : TcpClient} {len : Nat} {turns : List Turn} {output : Err} {r : Err × TcpClient}
    (h : c.clientSentFunc len turns output = some r) : 0 < len ∧ Kept (c.acknowledged len) r.2 := by
  unfold clientSentFunc at h
  split at h
  · cases h
  rename_i hassert
  refine ⟨Nat.pos_of_ne_zero fun hz => hassert (.inr (.inr (.inl hz))), ?_⟩
  dsimp only at h
  split at h
  · split at h
    · cases h
    · obtain ⟨⟨aborted, d⟩, hd, h⟩ := Option.bind_eq_some_iff.mp h
      have hk : Kept (c.acknowledged len) d := Kept.after (kept_clientSocksRecvSendOut hd) ⟨id, id, rfl, rfl, rfl⟩
      dsimp only at h
      split at h
      · obtain rfl := Option.some.inj h
        exact hk
      · split at h
        · cases h
        · split at h
          · obtain ⟨e, he, rfl⟩ := Option.map_eq_some_iff.mp h
            exact hk.trans (kept_clientSocksRecvInitiate he)
          · obtain rfl := Option.some.inj h
            exact hk
  · split at h
    · obtain ⟨d, hd, rfl⟩ := Option.map_eq_some_iff.mp h
      exact kept_clientFreeClient hd
    · obtain rfl := Option.some.inj h
      exact .refl _

/-- One side is down and the other is not. -/
structure HalfDown (c : TcpClient) : Prop where
  sound : Sound c
  down : c.clientClosed ∨ c.socksClosed
  live : c.freed = false

/-- Half down, just one of the two sides is closed. -/
theorem HalfDown.sides {c : TcpClient} (h : HalfDown c) :
    c.clientClosed = true ∧ c.socksClosed = false ∨ c.clientClosed = false ∧ c.socksClosed = true := by
  have hboth : ¬ (c.clientClosed = true ∧ c.socksClosed = true) := fun hb =>
    absurd (h.live.symm.trans (h.sound.both.mpr hb)) Bool.false_ne_true
  rcases h.down with hd | hd
  · exact .inl ⟨hd, Bool.not_eq_true _ ▸ fun hs => hboth ⟨hd, hs⟩⟩
  · exact .inr ⟨Bool.not_eq_true _ ▸ fun hc => hboth ⟨hc, hd⟩, hd⟩

/-- Something is left as long as the client is not freed. -/
theorem HalfDown.left_pos {c : TcpClient} (h : HalfDown c) : 0 < c.left := by
  unfold left
  rcases h.sides with ⟨hclient, hsocks⟩ | ⟨hclient, hsocks⟩
  · rw [if_pos hclient]
    exact List.length_pos_iff.mpr (h.sound.closing hclient (by simp [hsocks]))
  · have hopen : ¬ c.clientClosed = true := by simp [hclient]
    have hunacked := (h.sound.lingering hsocks hopen).2
    have hpending := (h.sound.isOpen hopen).pending
    have hle := h.sound.down.length_le
    rw [if_neg hopen]
    omega

/-- The client went down: only `socks_up` and what SOCKS did are called, and they leave the buffer
shorter or as it was. -/
theorem HalfDown.closing_step {c d : TcpClient} (h : HalfDown c) (hclient : c.clientClosed = true) {a : Call}
    (hc : c.Calls a) (hd : c.handle a = some d) (hlive : d.freed = false) (hsound : Sound d) :
    d.clientClosed = true ∧ d.buf.length + (if delivers a then 1 else 0) ≤ c.buf.length := by
  have hpcb := h.sound.closed.mp hclient
  have hnever : ∀ {e : TcpClient}, Kept c e → c.clientClosed = true ∧ e.socksClosed = true → e = d → False := by
    rintro e hk ⟨hcl, hso⟩ rfl
    exact absurd (hlive.symm.trans (hsound.both.mpr ⟨hk.client hcl, hso⟩)) Bool.false_ne_true
  unfold TcpClient.handle at hd
  rw [if_neg (by simp [h.live])] at hd
  cases a with
  | recv p =>
    cases p with
    | none =>
      obtain ⟨pcb, hp, _⟩ := hc
      rw [hpcb] at hp
      cases hp
    | some p =>
      obtain ⟨⟨pcb, hp, _⟩, _⟩ := hc
      rw [hpcb] at hp
      cases hp
  | sent len turns output =>
    obtain ⟨⟨pcb, hp, _⟩, _⟩ := hc
    rw [hpcb] at hp
    cases hp
  | err => exact absurd hpcb hc
  | socks event =>
    have hfree : ∀ {e : TcpClient}, c.loseSocks.clientFreeSocks = some e → e = d → False := by
      intro e he hed
      have hk : Kept c e := Kept.after (kept_clientFreeSocks he) ⟨id, id, rfl, rfl, rfl⟩
      refine hnever hk ⟨hclient, ?_⟩ hed
      have hopen : c.socksClosed = false := h.sides.elim And.right fun hn => by simp [hn.1] at hclient
      rw [clientFreeSocks_eq h.sound.loseSocks hopen h.live] at he
      rw [← Option.some.inj he]
      split <;> rfl
    cases event with
    | error => exact (hfree hd rfl).elim
    | errorClosed =>
      have hd : (if ¬ c.socksUp = true then none else c.loseSocks.clientFreeSocks) = some d := hd
      rw [if_neg (fun hn => hn hc.2)] at hd
      exact (hfree hd rfl).elim
    | up =>
      dsimp only [clientSocksHandler] at hd
      split at hd
      · cases hd
      · obtain ⟨e, he, hd⟩ := Option.bind_eq_some_iff.mp hd
        have hk : Kept c e := by
          split at he
          · exact Kept.after (kept_clientSendToSocks he) ⟨id, id, rfl, rfl, rfl⟩
          · obtain rfl := Option.some.inj he
            exact ⟨id, id, rfl, rfl, rfl⟩
        rw [if_neg (fun hn => hn (hk.client hclient))] at hd
        obtain rfl := Option.some.inj hd
        exact ⟨hk.client hclient, by rw [hk.buf]; exact Nat.le_refl _⟩
  | sendDone dataLen =>
    have hd : c.clientSocksSendHandlerDone dataLen = some d := hd
    unfold clientSocksSendHandlerDone at hd
    split at hd
    · cases hd
    rename_i hassert
    have hpos : 0 < dataLen := Nat.pos_of_ne_zero fun hz => hassert (.inr (.inr (.inr (.inl hz))))
    have hshort : (c.removed dataLen).buf.length + 1 ≤ c.buf.length := by
      have hfull : c.buf ≠ [] := fun hn => hassert (.inr (.inr (.inl hn)))
      have hbuf := List.length_pos_iff.mpr hfull
      show (c.buf.drop dataLen).length + 1 ≤ c.buf.length
      rw [List.length_drop]
      omega
    dsimp only at hd
    split at hd
    · obtain rfl := Option.some.inj hd
      exact ⟨hclient, hshort⟩
    · split at hd
      · have hk : Kept (c.removed dataLen) d := kept_clientFreeSocks hd
        refine ⟨hk.client hclient, ?_⟩
        rw [hk.buf]
        exact hshort
      · rename_i hn
        exact absurd hclient hn
  | recvDone data turns output =>
    have hd : c.clientSocksRecvHandlerDone data turns output = some d := hd
    unfold clientSocksRecvHandlerDone at hd
    split at hd
    · cases hd
    · dsimp only at hd
      rw [if_pos (show (c.fetched data).clientClosed = true from hclient)] at hd
      obtain rfl := Option.some.inj hd
      exact ⟨hclient, Nat.le_refl _⟩
  | murder =>
    have hd : (if _ then _ else _) = some d := hd
    split at hd
    · obtain rfl := Option.some.inj hd
      exact (Bool.false_ne_true hlive.symm).elim
    · cases hd

/-- SOCKS went down: only acknowledgements are called. -/
theorem HalfDown.lingering_step {c d : TcpClient} (h : HalfDown c) (hsocks : c.socksClosed = true) {a : Call}
    (hc : c.Calls a) (hd : c.handle a = some d) (hlive : d.freed = false) :
    d.socksClosed = true ∧ d.passed.fromSocks = c.passed.fromSocks ∧
      c.passed.acked + (if delivers a then 1 else 0) ≤ d.passed.acked := by
  have hclient : c.clientClosed = false := h.sides.elim (fun hn => absurd (hn.2.symm.trans hsocks) Bool.false_ne_true) And.left
  have hquiet := h.sound.quiet (.inl hsocks)
  unfold TcpClient.handle at hd
  rw [if_neg (by simp [h.live])] at hd
  cases a with
  | recv p =>
    have hset : ∀ pcb ∈ c.pcb, pcb.recvFunc = true → False := fun pcb hp hset =>
      absurd (((h.sound.recvSet pcb hp).mp hset).symm.trans hsocks) Bool.false_ne_true
    cases p with
    | none =>
      obtain ⟨pcb, hp, hrecv⟩ := hc
      exact (hset pcb hp hrecv).elim
    | some p =>
      obtain ⟨⟨pcb, hp, hrecv⟩, _⟩ := hc
      exact (hset pcb hp hrecv).elim
  | sent len turns output =>
    obtain ⟨r, hr, rfl⟩ := Option.map_eq_some_iff.mp (show (c.clientSentFunc len turns output).map Prod.snd = some d from hd)
    obtain ⟨hpos, hk⟩ := kept_clientSentFunc hr
    refine ⟨hk.socks hsocks, hk.fromSocks, ?_⟩
    rw [hk.acked]
    exact Nat.add_le_add_left hpos _
  | err =>
    have hd : c.clientErrFunc = some d := hd
    unfold clientErrFunc clientHandleFreedClient handleFreedClient clientDealloc at hd
    simp [loseApp, hclient, hsocks, h.live] at hd
    rw [← hd] at hlive
    cases hlive
  | socks event =>
    cases event with
    | error => exact absurd hsocks hc
    | up => exact absurd hsocks hc.1
    | errorClosed => exact absurd hsocks hc.1
  | sendDone dataLen =>
    obtain ⟨_, len, hlen, _⟩ := hc
    rw [hquiet.1] at hlen
    cases hlen
  | recvDone data turns output => exact absurd (hquiet.2.symm.trans hc.1) Bool.false_ne_true
  | murder =>
    have hd : (if _ then _ else _) = some d := hd
    split at hd
    · obtain rfl := Option.some.inj hd
      exact (Bool.false_ne_true hlive.symm).elim
    · cases hd

/-- A call frees the client, or a delivery was one of those left. -/
theorem HalfDown.step {c d : TcpClient} (h : HalfDown c) {a : Call} (hc : c.Calls a) (hd : c.handle a = some d)
    (hlive : d.freed = false) : HalfDown d ∧ d.left + (if delivers a then 1 else 0) ≤ c.left := by
  obtain ⟨e, he, hsound⟩ := h.sound.handle hc
  obtain rfl : e = d := Option.some.inj (he.symm.trans hd)
  rcases h.sides with ⟨hclient, _⟩ | ⟨hclient, hsocks⟩
  · obtain ⟨hclient', hle⟩ := h.closing_step hclient hc hd hlive hsound
    refine ⟨⟨hsound, .inl hclient', hlive⟩, ?_⟩
    unfold left
    rw [if_pos hclient, if_pos hclient']
    exact hle
  · obtain ⟨hsocks', hfrom, hle⟩ := h.lingering_step hsocks hc hd hlive
    have hnext : HalfDown e := ⟨hsound, .inr hsocks', hlive⟩
    have hopen : ¬ e.clientClosed = true := fun hn =>
      absurd (hlive.symm.trans (hsound.both.mpr ⟨hn, hsocks'⟩)) Bool.false_ne_true
    refine ⟨hnext, ?_⟩
    have hpos := hnext.left_pos
    unfold left at hpos ⊢
    rw [if_neg hopen] at hpos
    rw [if_neg hopen, if_neg (show ¬ c.clientClosed = true by simp [hclient])]
    rw [hfrom] at hpos ⊢
    omega

/-- A freed client is not called again. -/
theorem exec_freed {c d : TcpClient} (hfreed : c.freed = true) {as : List Call} (hrun : exec system c as = some d) :
    d = c := by
  cases as with
  | nil => exact (Option.some.inj hrun).symm
  | cons a as =>
    obtain ⟨e, he, _⟩ := Option.bind_eq_some_iff.mp hrun
    have he : (if c.Calls a then c.handle a else none) = some e := he
    unfold TcpClient.handle at he
    rw [if_pos hfreed, ite_self] at he
    cases he

/-- Over any run a half-down relay is freed, or stays half down with every delivery taken from what was left. -/
theorem HalfDown.run {c d : TcpClient} (h : HalfDown c) {as : List Call} (hrun : exec system c as = some d) :
    d.freed = true ∨ HalfDown d ∧ d.left + as.countP delivers ≤ c.left := by
  induction as generalizing c with
  | nil =>
    obtain rfl := Option.some.inj hrun
    exact .inr ⟨h, Nat.le_refl _⟩
  | cons a as ih =>
    obtain ⟨e, he, hrest⟩ := Option.bind_eq_some_iff.mp hrun
    have he : (if c.Calls a then c.handle a else none) = some e := he
    split at he
    · rename_i hc
      cases hlive : e.freed with
      | true =>
        rw [exec_freed hlive hrest]
        exact .inl hlive
      | false =>
        obtain ⟨hnext, hle⟩ := h.step hc he hlive
        refine (ih hnext hrest).imp id ?_
        rintro ⟨hlater, hcount⟩
        refine ⟨hlater, ?_⟩
        rw [List.countP_cons]
        omega
    · cases he

/-- **A relay with one side down ends.** As long as it is there and SOCKS is up, a delivery to the
side that is left is under way; and in whatever order the calls come, it is freed by the time that as
many deliveries were reported as bytes were left. -/
theorem half_down_drains {c : TcpClient} (h : Reachable system c) (hdown : c.clientClosed ∨ c.socksClosed)
    (hlive : c.freed = false) :
    (c.socksUp → ∃ a, delivers a ∧ c.Calls a) ∧
    ∀ as d, exec system c as = some d → d.freed = true ∨ as.countP delivers < c.left := by
  have hhalf : HalfDown c := ⟨reachable_sound h, hdown, hlive⟩
  constructor
  · intro hup
    rcases hhalf.sides with ⟨hclient, hsocks⟩ | ⟨hclient, hsocks⟩
    · have hopen : ¬ c.socksClosed = true := by simp [hsocks]
      obtain ⟨len, hlen⟩ :=
        Option.ne_none_iff_exists'.mp (hhalf.sound.sending hup hopen (hhalf.sound.closing hclient hopen))
      exact ⟨.sendDone 1, rfl, Nat.one_pos, len, hlen, (hhalf.sound.sendLen len hlen).1⟩
    · have hopen : ¬ c.clientClosed = true := by simp [hclient]
      have hunacked := (hhalf.sound.lingering hsocks hopen).2
      have hpending := (hhalf.sound.isOpen hopen).pending
      obtain ⟨p, hp⟩ := Option.ne_none_iff_exists'.mp fun hn => hopen (hhalf.sound.closed.mpr hn)
      exact ⟨.sent 1 [] .ok, rfl, ⟨p, hp, (hhalf.sound.sentSet p hp).mpr hup⟩, Nat.one_pos, by omega⟩
  · intro as d hrun
    refine (hhalf.run hrun).imp id ?_
    rintro ⟨hlater, hle⟩
    have hpos := hlater.left_pos
    omega

theorem half_down_drains_closing :
    ((ranTo closing).socksUp → ∃ a, delivers a ∧ (ranTo closing).Calls a) ∧
    ∀ as d, exec system (ranTo closing) as = some d → d.freed = true ∨ as.countP delivers < (ranTo closing).left :=
  half_down_drains (ranTo_reachable closing) (by decide) (by decide)

end KiloProxy.Engine.TcpClient
