import KiloProxy.Net.Chunks
import KiloProxy.Vpn.State

/-!
# `SocksTester.kt`

`probeProxy` runs the SOCKS5 handshake over a connection: it reads the method reply, the
authentication reply and the head of the connect reply with one read each, the length of
a domain name with another, and skips the bound address in a loop. `verdict` is the same
decision on the bytes alone. The two agree as long as no fixed-size reply is cut between
two chunks; a cut one makes the proxy unreachable (`handshake_cases`).
-/

namespace KiloProxy.Vpn.SocksTester
set_option autoImplicit false
open KiloProxy.Text KiloProxy.Net

/-! ## The handshake -/

/-- The connected socket: what the peer will send, in the chunks that arrive, and what was
written. -/
structure Connection where
  input : List (List UInt8)
  sent : List UInt8

namespace Connection

/-- `ins.read` into an array of `n` bytes; nothing at the end of the stream. -/
def read (c : Connection) (n : Nat) : Option (List UInt8 × Connection) :=
  (Net.read n c.input).map fun r => (r.1, { c with input := r.2 })

def write (c : Connection) (bytes : List UInt8) : Connection := { c with sent := c.sent ++ bytes }

end Connection

def offeredMethods : List UInt8 := [0x02]

def methodReq : List UInt8 := 0x05 :: UInt8.ofNat offeredMethods.length :: offeredMethods

def utf8 (s : Str) : List UInt8 := s.flatMap String.utf8EncodeChar

def authReq (user pass : Str) : List UInt8 :=
  0x01 :: UInt8.ofNat (utf8 user).length :: utf8 user ++ UInt8.ofNat (utf8 pass).length :: utf8 pass

/-- CONNECT to `google.com:80`. -/
def connectReq : List UInt8 :=
  let testHostBytes := utf8 "google.com".toList
  [0x05, 0x01, 0x00, 0x03, UInt8.ofNat testHostBytes.length] ++ testHostBytes ++ [0, 80]

/-- The loop that reads until `remaining` bytes are skipped, each turn at most as many as are left. -/
def skip (c : Connection) (remaining : Int) : ProxyProbe × Connection :=
  match drain remaining.toNat c.input with
  | some input => (.ok, { c with input := input })
  | none => (.unreachable, c)

/-- What is left of a reply with a domain name of the length byte; bytes are signed. -/
def domainRemaining (lenByte : UInt8) : Int := 1 + lenByte.toInt8.toInt + 2

/-- The rest of the connect reply. -/
def skipAddress (c : Connection) (addrType : UInt8) : ProxyProbe × Connection :=
  if addrType = 0x01 then skip c (4 + 2)
  else if addrType = 0x04 then skip c (16 + 2)
  else if addrType = 0x03 then
    match c.read 1 with
    | some ([lenByte], c) => skip c (domainRemaining lenByte)
    | _ => (.unreachable, c)
  else (.notSocks5, c)

def connect (c : Connection) : ProxyProbe × Connection :=
  match (c.write connectReq).read 4 with
  | some ([_, status, _, addrType], c) => if status ≠ 0x00 then (.connectFailed, c) else skipAddress c addrType
  | _ => (.unreachable, c)

def authenticate (c : Connection) (user pass : Str) : ProxyProbe × Connection :=
  match (c.write (authReq user pass)).read 2 with
  | some ([_, status], c) => if status ≠ 0x00 then (.authFailed, c) else connect c
  | _ => (.unreachable, c)

def handshake (c : Connection) (user pass : Str) : ProxyProbe × Connection :=
  match (c.write methodReq).read 2 with
  | some ([version, method], c) =>
    if version ≠ 0x05 then (.notSocks5, c)
    else if method = 0xff then (.notSocks5, c)
    else if method = 0x02 then authenticate c user pass
    else connect c
  | _ => (.unreachable, c)

/-- `dial` is the peer at an address: nothing when the connection fails, else the chunks it
sends. Every exception is `UNREACHABLE`. -/
def probeProxy (dial : Str → Int → Option (List (List UInt8))) (server : Option Str) (port : Int)
    (username password : Option Str) : ProxyProbe × Connection :=
  match server with
  | none => (.unreachable, ⟨[], []⟩)
  | some server =>
    if server = [] then (.unreachable, ⟨[], []⟩)
    else
      match dial server port with
      | none => (.unreachable, ⟨[], []⟩)
      | some input => handshake ⟨input, []⟩ (username.getD []) (password.getD [])

/-! ## The decision on the bytes -/

def skipBytes (s : List UInt8) (n : Nat) : ProxyProbe × List UInt8 :=
  if n ≤ s.length then (.ok, s.drop n) else (.unreachable, s)

def addressBytes (addrType : UInt8) (s : List UInt8) : ProxyProbe × List UInt8 :=
  if addrType = 0x01 then skipBytes s 6
  else if addrType = 0x04 then skipBytes s 18
  else if addrType = 0x03 then
    match s with
    | lenByte :: s => skipBytes s (domainRemaining lenByte).toNat
    | [] => (.unreachable, s)
  else (.notSocks5, s)

def connectBytes : List UInt8 → ProxyProbe × List UInt8
  | _ :: status :: _ :: addrType :: s => if status ≠ 0x00 then (.connectFailed, s) else addressBytes addrType s
  | s => (.unreachable, s)

def authBytes : List UInt8 → ProxyProbe × List UInt8
  | _ :: status :: s => if status ≠ 0x00 then (.authFailed, s) else connectBytes s
  | s => (.unreachable, s)

/-- The result for a byte stream, and what it leaves of the stream. -/
def verdict : List UInt8 → ProxyProbe × List UInt8
  | version :: method :: s =>
    if version ≠ 0x05 then (.notSocks5, s)
    else if method = 0xff then (.notSocks5, s)
    else if method = 0x02 then authBytes s
    else connectBytes s
  | s => (.unreachable, s)

/-- The connect reply behind an authentication reply. -/
def authReplies : List UInt8 → List (Nat × Nat)
  | _ :: status :: _ => if status ≠ 0x00 then [] else [(4, 4)]
  | _ => []

/-- The replies of fixed size that are read from a stream: where each begins, and its size. -/
def replies : List UInt8 → List (Nat × Nat)
  | version :: method :: s =>
    (0, 2) ::
      if version ≠ 0x05 ∨ method = 0xff then []
      else if method = 0x02 then (2, 2) :: authReplies s
      else [(2, 4)]
  | _ => [(0, 2)]

/-- A chunk ends inside a reply of fixed size. -/
def Severed (cs : List (List UInt8)) : Prop := ∃ r ∈ replies cs.flatten, CutInside cs r.1 r.2

instance (cs : List (List UInt8)) : Decidable (Severed cs) := by
  unfold Severed; infer_instance

/-! ## One stage after the other -/

/-- A stage comes to the result that the bytes say and leaves as many of them. -/
structure Agrees (p : ProxyProbe × Connection) (v : ProxyProbe × List UInt8) : Prop where
  result : p.1 = v.1
  left : v.1 = .ok → p.2.input.flatten = v.2

theorem Agrees.unreachable {c : Connection} {s : List UInt8} : Agrees (.unreachable, c) (.unreachable, s) :=
  ⟨rfl, nofun⟩

/-- A read of a fixed size gets everything, or too little. -/
theorem read_cases {c : Connection} (chunked : Chunked c.input) {n : Nat} (pos : 0 < n) :
    (n ≤ c.input.flatten.length ∧ ¬ CutInside c.input 0 n ∧ ∃ c', c.read n = some (c.input.flatten.take n, c') ∧
      c'.input.flatten = c.input.flatten.drop n ∧ Chunked c'.input ∧
      ∀ o m, CutInside c.input (n + o) m ↔ CutInside c'.input o m) ∨
    ((c.input.flatten.length < n ∨ CutInside c.input 0 n) ∧ ∀ bs c', c.read n = some (bs, c') → bs.length < n) := by
  by_cases broken : c.input.flatten.length < n ∨ CutInside c.input 0 n
  · refine .inr ⟨broken, fun bs c' h => ?_⟩
    obtain ⟨r, hr, he⟩ := Option.map_eq_some_iff.mp h
    obtain ⟨rfl, _⟩ := Prod.mk.inj he
    exact read_short broken hr
  · rw [not_or] at broken
    have there : n ≤ c.input.flatten.length := by omega
    obtain ⟨cs', hread, hflat, hchunked, hcuts⟩ := read_full chunked pos there broken.2
    exact .inl ⟨there, broken.2, { c with input := cs' }, by rw [Connection.read, hread, Option.map_some], hflat,
      hchunked, hcuts⟩

theorem skip_agrees (c : Connection) (remaining : Int) :
    Agrees (skip c remaining) (skipBytes c.input.flatten remaining.toNat) := by
  have hdrain := drain_flatten c.input remaining.toNat
  unfold skip skipBytes
  split at hdrain
  · rename_i hroom
    obtain ⟨input, hinput, hflat⟩ := Option.map_eq_some_iff.mp hdrain
    rw [hinput, if_pos hroom]
    exact ⟨rfl, fun _ => hflat⟩
  · rename_i hroom
    rw [Option.map_eq_none_iff.mp hdrain, if_neg hroom]
    exact .unreachable

theorem skipAddress_agrees {c : Connection} (chunked : Chunked c.input) (addrType : UInt8) :
    Agrees (skipAddress c addrType) (addressBytes addrType c.input.flatten) := by
  unfold skipAddress addressBytes
  split
  · exact skip_agrees c 6
  · split
    · exact skip_agrees c 18
    · split
      · -- one byte is never cut
        cases read_cases chunked Nat.one_pos with
        | inl hfull =>
          obtain ⟨hlen, _, c', hread, hflat, _⟩ := hfull
          cases hs : c.input.flatten with
          | nil =>
            rw [hs] at hlen
            exact absurd hlen (by decide)
          | cons lenByte s =>
            rw [hs] at hread hflat
            rw [hread, List.take_succ_cons, List.take_zero]
            rw [List.drop_succ_cons, List.drop_zero] at hflat
            rw [← hflat]
            exact skip_agrees c' _
        | inr hshort =>
          obtain ⟨hbroken, hfew⟩ := hshort
          have hend : c.input.flatten = [] := by
            have hlt := hbroken.resolve_right (not_cut_one _ _)
            rw [← List.length_eq_zero_iff]
            omega
          rw [hend]
          split
          · rename_i lenByte c' hread
            exact absurd (hfew _ _ hread) (by simp)
          · exact .unreachable
      · exact ⟨rfl, nofun⟩

theorem four_of_length {s : List UInt8} (h : 4 ≤ s.length) : ∃ a b d e t, s = a :: b :: d :: e :: t := by
  match s, h with
  | a :: b :: d :: e :: t, _ => exact ⟨a, b, d, e, t, rfl⟩

theorem two_of_length {s : List UInt8} (h : 2 ≤ s.length) : ∃ a b t, s = a :: b :: t := by
  match s, h with
  | a :: b :: t, _ => exact ⟨a, b, t, rfl⟩

theorem connectBytes_short {s : List UInt8} (h : s.length < 4) : connectBytes s = (.unreachable, s) := by
  unfold connectBytes
  split
  · simp only [List.length_cons] at h
    omega
  · rfl

theorem authBytes_short {s : List UInt8} (h : s.length < 2) : authBytes s = (.unreachable, s) := by
  unfold authBytes
  split
  · simp only [List.length_cons] at h
    omega
  · rfl

theorem verdict_short {s : List UInt8} (h : s.length < 2) : verdict s = (.unreachable, s) := by
  unfold verdict
  split
  · simp only [List.length_cons] at h
    omega
  · rfl

/-- The replies that a stage reads: it fails where one is cut, else it decides as the
bytes say. -/
structure Decides (rs : List (Nat × Nat)) (cs : List (List UInt8)) (p : ProxyProbe × Connection)
    (v : ProxyProbe × List UInt8) : Prop where
  cut : ∀ r ∈ rs, CutInside cs r.1 r.2 → p.1 = .unreachable
  agrees : (∀ r ∈ rs, ¬ CutInside cs r.1 r.2) → Agrees p v

namespace Decides

variable {rs : List (Nat × Nat)} {cs cs' : List (List UInt8)} {n : Nat} {p : ProxyProbe × Connection}
  {v : ProxyProbe × List UInt8}

/-- Nothing is read any more. -/
theorem ends (h : Agrees p v) : Decides [] cs p v := ⟨nofun, fun _ => h⟩

/-- A whole reply comes before the stage. -/
theorem behind (whole : ¬ CutInside cs 0 n) (cuts : ∀ o m, CutInside cs (n + o) m ↔ CutInside cs' o m)
    (h : Decides rs cs' p v) : Decides ((0, n) :: rs.map fun r => (n + r.1, r.2)) cs p v := by
  constructor
  · intro r hr cut
    obtain rfl | hr := List.mem_cons.mp hr
    · exact absurd cut whole
    · obtain ⟨q, hq, rfl⟩ := List.mem_map.mp hr
      exact h.cut q hq ((cuts _ _).mp cut)
  · intro hwhole
    apply h.agrees
    intro q hq cut
    exact hwhole _ (List.mem_cons_of_mem _ (List.mem_map_of_mem hq)) ((cuts _ _).mpr cut)

/-- The first reply is cut or too short. -/
theorem short (hp : p.1 = .unreachable) (hv : ¬ CutInside cs 0 n → v.1 = .unreachable) : Decides ((0, n) :: rs) cs p v := by
  constructor
  · exact fun _ _ _ => hp
  · intro hwhole
    have hv := hv (hwhole (0, n) List.mem_cons_self)
    refine ⟨hp.trans hv.symm, fun hok => ?_⟩
    rw [hv] at hok
    cases hok

end Decides

/-- The connect reply, seen from where authentication begins. -/
def authStages : List UInt8 → List (Nat × Nat)
  | _ :: status :: _ => if status ≠ 0x00 then [] else [(2, 4)]
  | _ => []

theorem authReplies_eq (s : List UInt8) : authReplies s = (authStages s).map fun r => (2 + r.1, r.2) := by
  unfold authReplies
  split
  · rename_i status t
    rw [authStages]
    split
    · rfl
    · rfl
  · rename_i hno
    rw [authStages]
    · rfl
    · exact hno

theorem eq_of_mem_authReplies {s : List UInt8} {r : Nat × Nat} (h : r ∈ authReplies s) : r = (4, 4) := by
  unfold authReplies at h
  split at h
  · split at h
    · cases h
    · exact List.mem_singleton.mp h
  · cases h

/-- The method reply comes first. -/
theorem replies_first (s : List UInt8) : ∃ rs, replies s = (0, 2) :: rs := by
  unfold replies
  split
  · exact ⟨_, rfl⟩
  · exact ⟨[], rfl⟩

section Stages

variable {c : Connection}

theorem connect_decides (chunked : Chunked c.input) :
    Decides [(0, 4)] c.input (connect c) (connectBytes c.input.flatten) := by
  cases read_cases (c := c.write connectReq) chunked (n := 4) (by decide) with
  | inl hfull =>
    obtain ⟨hlen, whole, c', hread, hflat, hchunked, hcuts⟩ := hfull
    have hinput : (c.write connectReq).input = c.input := rfl
    rw [hinput] at hlen hread hflat
    obtain ⟨a, status, d, addrType, t, hs⟩ := four_of_length hlen
    rw [hs] at hread hflat ⊢
    have hagrees : Agrees (connect c) (connectBytes (a :: status :: d :: addrType :: t)) := by
      unfold connect connectBytes
      simp only [hread, List.take_succ_cons, List.take_zero]
      split
      · exact ⟨rfl, nofun⟩
      · have ht : t = c'.input.flatten := hflat.symm
        rw [ht]
        exact skipAddress_agrees hchunked addrType
    exact (Decides.ends hagrees).behind whole hcuts
  | inr hshort =>
    obtain ⟨broken, hfew⟩ := hshort
    have hinput : (c.write connectReq).input = c.input := rfl
    rw [hinput] at broken
    have hresult : (connect c).1 = .unreachable := by
      unfold connect
      split
      · rename_i hread
        exact absurd (hfew _ _ hread) (by simp)
      · rfl
    apply Decides.short hresult
    intro whole
    rw [connectBytes_short (broken.resolve_right whole)]

/-- The authentication reply, then the connect reply. -/
theorem authenticate_decides (chunked : Chunked c.input) (user pass : Str) :
    Decides ((0, 2) :: authStages c.input.flatten) c.input (authenticate c user pass) (authBytes c.input.flatten) := by
  cases read_cases (c := c.write (authReq user pass)) chunked (n := 2) (by decide) with
  | inl hfull =>
    obtain ⟨hlen, whole, c', hread, hflat, hchunked, hcuts⟩ := hfull
    have hinput : (c.write (authReq user pass)).input = c.input := rfl
    rw [hinput] at hlen hread hflat
    obtain ⟨a, status, t, hs⟩ := two_of_length hlen
    rw [hs] at hread hflat ⊢
    have hgo : authenticate c user pass = if status ≠ 0x00 then (.authFailed, c') else connect c' := by
      unfold authenticate
      simp only [hread, List.take_succ_cons, List.take_zero]
    have ht : t = c'.input.flatten := hflat.symm
    have hfailed : Agrees (.authFailed, c') (.authFailed, t) := ⟨rfl, nofun⟩
    rw [hgo, authBytes, authStages]
    by_cases hstatus : status ≠ 0x00
    · rw [if_pos hstatus, if_pos hstatus, if_pos hstatus]
      exact (Decides.ends hfailed).behind whole hcuts
    · rw [if_neg hstatus, if_neg hstatus, if_neg hstatus, ht]
      exact (connect_decides hchunked).behind whole hcuts
  | inr hshort =>
    obtain ⟨broken, hfew⟩ := hshort
    have hinput : (c.write (authReq user pass)).input = c.input := rfl
    rw [hinput] at broken
    have hresult : (authenticate c user pass).1 = .unreachable := by
      unfold authenticate
      split
      · rename_i hread
        exact absurd (hfew _ _ hread) (by simp)
      · rfl
    apply Decides.short hresult
    intro whole
    rw [authBytes_short (broken.resolve_right whole)]

theorem handshake_decides (chunked : Chunked c.input) (user pass : Str) :
    Decides (replies c.input.flatten) c.input (handshake c user pass) (verdict c.input.flatten) := by
  cases read_cases (c := c.write methodReq) chunked (n := 2) (by decide) with
  | inl hfull =>
    obtain ⟨hlen, whole, c', hread, hflat, hchunked, hcuts⟩ := hfull
    have hinput : (c.write methodReq).input = c.input := rfl
    rw [hinput] at hlen hread hflat
    obtain ⟨version, method, t, hs⟩ := two_of_length hlen
    rw [hs] at hread hflat ⊢
    have hgo : handshake c user pass =
        if version ≠ 0x05 then (.notSocks5, c')
        else if method = 0xff then (.notSocks5, c')
        else if method = 0x02 then authenticate c' user pass
        else connect c' := by
      unfold handshake
      simp only [hread, List.take_succ_cons, List.take_zero]
    have ht : t = c'.input.flatten := hflat.symm
    have hother : Agrees (.notSocks5, c') (.notSocks5, t) := ⟨rfl, nofun⟩
    have hends : Decides [(0, 2)] c.input (.notSocks5, c') (.notSocks5, t) := (Decides.ends hother).behind whole hcuts
    rw [hgo, verdict, replies]
    by_cases hversion : version ≠ 0x05
    · rw [if_pos hversion, if_pos hversion, if_pos (.inl hversion)]
      exact hends
    · by_cases hmethod : method = 0xff
      · rw [if_neg hversion, if_neg hversion, if_pos hmethod, if_pos hmethod, if_pos (.inr hmethod)]
        exact hends
      · rw [if_neg hversion, if_neg hversion, if_neg hmethod, if_neg hmethod, if_neg (not_or.mpr ⟨hversion, hmethod⟩)]
        by_cases hauth : method = 0x02
        · rw [if_pos hauth, if_pos hauth, if_pos hauth, authReplies_eq, ht]
          exact (authenticate_decides hchunked user pass).behind whole hcuts
        · rw [if_neg hauth, if_neg hauth, if_neg hauth, ht]
          exact (connect_decides hchunked).behind whole hcuts
  | inr hshort =>
    obtain ⟨broken, hfew⟩ := hshort
    have hinput : (c.write methodReq).input = c.input := rfl
    rw [hinput] at broken
    have hresult : (handshake c user pass).1 = .unreachable := by
      unfold handshake
      split
      · rename_i hread
        exact absurd (hfew _ _ hread) (by simp)
      · rfl
    obtain ⟨rest, hreplies⟩ := replies_first c.input.flatten
    rw [hreplies]
    apply Decides.short hresult
    intro whole
    rw [verdict_short (broken.resolve_right whole)]

/-- **The handshake decides as the bytes say, unless a reply is cut.** -/
theorem handshake_cases (chunked : Chunked c.input) (user pass : Str) :
    (Severed c.input → (handshake c user pass).1 = .unreachable) ∧
    (¬ Severed c.input → Agrees (handshake c user pass) (verdict c.input.flatten)) := by
  have hdecides := handshake_decides chunked user pass
  constructor
  · rintro ⟨r, hr, cut⟩
    exact hdecides.cut r hr cut
  · intro whole
    exact hdecides.agrees fun r hr cut => whole ⟨r, hr, cut⟩

end Stages

/-- With a connection made, the probe is the handshake. -/
theorem probeProxy_eq {dial : Str → Int → Option (List (List UInt8))} {server : Str} {port : Int}
    {input : List (List UInt8)} (named : server ≠ []) (dialled : dial server port = some input)
    (username password : Option Str) : probeProxy dial (some server) port username password =
      handshake ⟨input, []⟩ (username.getD []) (password.getD []) := by
  simp only [probeProxy, if_neg named, dialled]

end KiloProxy.Vpn.SocksTester
