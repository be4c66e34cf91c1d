import KiloProxy.Engine.PacketDecoder

/-!
# `PacketStreamSender.c`, and packets over a stream

Packets are written into a stream in as many pieces as the stream takes them in. A sender of
packets that the encoder made and a decoder at the other end of the stream pass the packets
on unchanged, wherever either of them cuts the stream.
-/

namespace KiloProxy.Engine
set_option autoImplicit false
open KiloProxy.Run KiloProxy.Store

/-- `input` is the packet that is being sent, `sending` the length that the output is busy with.
`taken` and `out` are the packets and the bytes so far; they are no part of the program. -/
structure PacketStreamSender where
  input : Option (List UInt8)
  inUsed : Nat
  sending : Option Nat
  taken : List (List UInt8)
  out : List UInt8
deriving DecidableEq

namespace PacketStreamSender

/-- Send more data, or finish the packet. -/
def sendData (s : PacketStreamSender) : Option PacketStreamSender :=
  s.input.bind fun data =>
    if s.inUsed < data.length then
      if s.sending ≠ none then none else some { s with sending := some (data.length - s.inUsed) }
    else some { s with input := none }

def inputHandlerSend (s : PacketStreamSender) (data : List UInt8) : Option PacketStreamSender :=
  if s.input ≠ none then none
  else sendData { s with input := some data, inUsed := 0, taken := s.taken ++ [data] }

/-- `dataLen` bytes went out. -/
def outputHandlerDone (s : PacketStreamSender) (dataLen : Nat) : Option PacketStreamSender :=
  s.input.bind fun data =>
    if dataLen = 0 ∨ data.length - s.inUsed < dataLen then none
    else
      sendData { s with
        inUsed := s.inUsed + dataLen, sending := none, out := s.out ++ (data.drop s.inUsed).take dataLen }

inductive Call where
  | send (data : List UInt8)
  | done (dataLen : Nat)
deriving DecidableEq

/-- The next packet comes when the last one is finished; the output takes some of what it was given. -/
def Calls (s : PacketStreamSender) : Call → Prop
  | .send _ => s.input = none
  | .done dataLen => 0 < dataLen ∧ ∃ len ∈ s.sending, dataLen ≤ len

instance (s : PacketStreamSender) (a : Call) : Decidable (s.Calls a) := by
  unfold Calls
  split <;> infer_instance

def handle (s : PacketStreamSender) : Call → Option PacketStreamSender
  | .send data => s.inputHandlerSend data
  | .done dataLen => s.outputHandlerDone dataLen

def init : PacketStreamSender := ⟨none, 0, none, [], []⟩

def system : System PacketStreamSender Call where
  init s := s = init
  step s a := if s.Calls a then s.handle a else none

/-- What is not sent of the packet. -/
def rest (s : PacketStreamSender) : List UInt8 :=
  match s.input with
  | none => []
  | some data => data.drop s.inUsed

/-- The output is busy with what is left of the packet, as long as there is something left. -/
structure Sound (s : PacketStreamSender) : Prop where
  all : s.out ++ s.rest = s.taken.flatten
  idle : s.input = none → s.sending = none
  busy : ∀ data ∈ s.input, s.inUsed < data.length ∧ s.sending = some (data.length - s.inUsed)

/-- Sending goes on where the last piece of the packet ended. -/
theorem sendData_sound {s : PacketStreamSender} {data : List UInt8} (hinput : s.input = some data)
    (hidle : s.sending = none) (hused : s.inUsed ≤ data.length) (hall : s.out ++ data.drop s.inUsed = s.taken.flatten) :
    ∃ s', s.sendData = some s' ∧ Sound s' := by
  unfold sendData
  rw [hinput, Option.bind_some]
  split
  · rename_i hlt
    rw [if_neg (not_not_intro hidle)]
    refine ⟨_, rfl, ?_, ?_, ?_⟩
    · show s.out ++ (match some data with | none => [] | some data => data.drop s.inUsed) = s.taken.flatten
      exact hall
    · intro hn
      cases hn
    · intro d hd
      obtain rfl := Option.some.inj hd
      exact ⟨hlt, rfl⟩
  · rename_i hend
    refine ⟨_, rfl, ?_, fun _ => hidle, fun d hd => by cases hd⟩
    have hnil : data.drop s.inUsed = [] := List.drop_of_length_le (by omega)
    rw [hnil] at hall
    exact hall

/-- Every call the environment may make succeeds and keeps the stream the packets in turn. -/
theorem Sound.handle {s : PacketStreamSender} (h : Sound s) {a : Call} (hc : s.Calls a) :
    ∃ s', s.handle a = some s' ∧ Sound s' := by
  cases a with
  | send data =>
    have hnone : s.input = none := hc
    show ∃ s', s.inputHandlerSend data = some s' ∧ Sound s'
    unfold inputHandlerSend
    rw [if_neg (not_not_intro hnone)]
    refine sendData_sound rfl (h.idle hnone) (Nat.zero_le _) ?_
    have hall := h.all
    unfold rest at hall
    rw [hnone, List.append_nil] at hall
    dsimp only
    rw [hall, List.drop_zero, List.flatten_append, List.flatten_singleton]
  | done dataLen =>
    obtain ⟨hpos, len, hlen, hle⟩ := hc
    obtain ⟨data, hdata⟩ : ∃ data, s.input = some data := by
      cases hi : s.input with
      | none =>
        rw [h.idle hi] at hlen
        cases hlen
      | some data => exact ⟨data, rfl⟩
    obtain ⟨hlt, hsend⟩ := h.busy data hdata
    obtain rfl := Option.some.inj (hsend.symm.trans hlen)
    show ∃ s', s.outputHandlerDone dataLen = some s' ∧ Sound s'
    unfold outputHandlerDone
    rw [hdata, Option.bind_some, if_neg (by omega)]
    refine sendData_sound rfl rfl ?_ ?_
    · dsimp only
      omega
    · have hall := h.all
      unfold rest at hall
      rw [hdata] at hall
      dsimp only
      rw [← List.drop_drop, List.append_assoc, List.take_append_drop]
      exact hall

/-- In every reachable state the stream is what was taken so far. -/
theorem reachable_sound {s : PacketStreamSender} (h : Reachable system s) : Sound s := by
  refine h.invariant (fun s hs => ?_) fun s a s' hs _ hstep => ?_
  · obtain rfl : s = init := hs
    exact ⟨rfl, fun _ => rfl, fun data hd => by cases hd⟩
  · have hstep : (if s.Calls a then s.handle a else none) = some s' := hstep
    split at hstep
    · rename_i hc
      obtain ⟨t, ht, hst⟩ := hs.handle hc
      rw [ht] at hstep
      obtain rfl := Option.some.inj hstep
      exact hst
    · cases hstep

/-- The state after a run from the start. -/
def ranTo (as : List Call) : PacketStreamSender := (exec system init as).getD init

theorem ranTo_reachable (as : List Call) : Reachable system (ranTo as) := by
  unfold ranTo
  cases hrun : exec system init as with
  | none => exact .start rfl
  | some s => exact exec_reaches as (.start rfl) hrun

/-- Three packets, the first in two pieces. -/
def inPieces : List Call :=
  [.send [3, 0, 1, 2, 3], .done 4, .done 1, .send [0, 0], .done 2, .send [1, 0, 9], .done 3]

end PacketStreamSender

/-! ## Both ends of a stream -/

/-- The encoder hands `out` on for the packet `p`, which its input wrote behind the header. -/
def Encodes (p out : List UInt8) : Prop :=
  ∃ outputPacket, Segment outputPacket packetprotoHeader p ∧ encoderInputHandlerDone outputPacket p.length = out

/-- What the encoder hands on does not depend on its buffer. -/
theorem encodes_all {ps outs : List (List UInt8)} (h : List.Forall₂ Encodes ps outs) : outs = ps.map encoded := by
  induction h with
  | nil => rfl
  | cons hp _ ih =>
    obtain ⟨outputPacket, hwritten, hout⟩ := hp
    rw [List.map_cons, ← ih, ← hout, encoderInputHandlerDone_eq hwritten]

/-- **Packets over a stream.** A sender took what the encoder made of packets that fit the decoder,
and a decoder got a beginning of what the sender wrote, cut in whatever way: it handed on a beginning
of the packets and reported no error, and when neither has anything left to do it handed on all. -/
theorem packets_over_stream {s : PacketStreamSender} (hs : Reachable PacketStreamSender.system s) {mtu : Nat}
    {d : PacketProtoDecoder} (hd : Reachable (PacketProtoDecoder.system mtu) d) {ps : List (List UInt8)}
    (htaken : List.Forall₂ Encodes ps s.taken) (hps : ∀ p ∈ ps, p.length ≤ min mtu packetprotoMaxpayload)
    (hin : d.received <+: s.out) :
    d.errored = false ∧ d.passed <+: ps ∧
      (s.input = none → d.received = s.out → d.sending = none → d.passed = ps) := by
  have hsound := PacketStreamSender.reachable_sound hs
  have hall : s.out ++ s.rest = PacketProtoDecoder.stream ps := by
    rw [hsound.all, encodes_all htaken, PacketProtoDecoder.stream, List.flatMap_def]
  obtain ⟨herr, hpre, hdone⟩ :=
    PacketProtoDecoder.decoder_exact hd hps (hin.trans ⟨s.rest, hall⟩)
  refine ⟨herr, hpre, fun hinput hgot hidle => hdone ?_ hidle⟩
  have hnil : s.rest = [] := by
    unfold PacketStreamSender.rest
    rw [hinput]
  rw [hnil, List.append_nil] at hall
  rw [hgot, hall]

theorem packets_over_stream_cut : ∃ d, PacketProtoDecoder.ranTo PacketProtoDecoder.cut = some d ∧ d.errored = false ∧
    d.passed <+: [[1, 2, 3], [], [9]] ∧
      ((PacketStreamSender.ranTo PacketStreamSender.inPieces).input = none →
        d.received = (PacketStreamSender.ranTo PacketStreamSender.inPieces).out → d.sending = none →
          d.passed = [[1, 2, 3], [], [9]]) := by
  have hrun : ((PacketProtoDecoder.ranTo PacketProtoDecoder.cut).map fun d =>
      decide (d.received <+: (PacketStreamSender.ranTo PacketStreamSender.inPieces).out)) = some true := by decide
  obtain ⟨d, hd, hin⟩ := Option.map_eq_some_iff.mp hrun
  have hencodes : List.Forall₂ Encodes [[1, 2, 3], [], [9]]
      (PacketStreamSender.ranTo PacketStreamSender.inPieces).taken := by
    have htaken : (PacketStreamSender.ranTo PacketStreamSender.inPieces).taken =
        [[3, 0, 1, 2, 3], [0, 0], [1, 0, 9]] := by decide
    rw [htaken]
    -- the buffer still holds the packet before
    refine .cons ⟨[7, 7, 1, 2, 3], ?_, ?_⟩ (.cons ⟨[3, 0, 1, 2, 3], ?_, ?_⟩ (.cons ⟨[0, 0, 9, 2, 3], ?_, ?_⟩ .nil))
    · exact ⟨[], rfl⟩
    · decide
    · exact ⟨[1, 2, 3], rfl⟩
    · decide
    · exact ⟨[2, 3], rfl⟩
    · decide
  exact ⟨d, hd, packets_over_stream (PacketStreamSender.ranTo_reachable PacketStreamSender.inPieces)
    (PacketProtoDecoder.ranTo_reachable hd) hencodes (by decide) (of_decide_eq_true hin)⟩

end KiloProxy.Engine
