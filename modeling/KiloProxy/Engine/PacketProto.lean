import KiloProxy.Net.Framed
import KiloProxy.Run.System
import KiloProxy.Store.Segment
import Mathlib.Data.Option.Basic

/-!
# `packetproto.h`, `PacketProtoEncoder.c` and `PacketProtoDecoder.c`

Packets in a stream, each behind its length in two bytes. The decoder receives into a buffer
of one packet's size and hands a packet on from inside it; what is left over stays where it
is until it reaches the end of the buffer and is moved to the front.
-/

namespace KiloProxy.Engine
set_option autoImplicit false
open KiloProxy.Run KiloProxy.Store KiloProxy.Net

/-! ## The format -/

def packetprotoMaxpayload : Nat := 65535

/-- `sizeof(struct packetproto_header)`. -/
def packetprotoHeader : Nat := 2

/-- `htol16`. -/
def htol16 (n : Nat) : List UInt8 := [UInt8.ofNat n, UInt8.ofNat (n / 256)]

/-- `ltoh16`. -/
def ltoh16 (a b : UInt8) : Nat := a.toNat + 256 * b.toNat

/-- A length of two bytes is read back. -/
theorem ltoh16_htol16 {n : Nat} (h : n ≤ packetprotoMaxpayload) :
    ltoh16 (UInt8.ofNat n) (UInt8.ofNat (n / 256)) = n := by
  unfold packetprotoMaxpayload at h
  unfold ltoh16
  rw [UInt8.toNat_ofNat', UInt8.toNat_ofNat']
  omega

/-- A number read from two bytes is written as them. -/
theorem htol16_ltoh16 (a b : UInt8) : htol16 (ltoh16 a b) = [a, b] := by
  have ha := a.toNat_lt
  have hb := b.toNat_lt
  have hlow : UInt8.ofNat (ltoh16 a b) = a := by
    apply UInt8.toNat_inj.mp
    rw [UInt8.toNat_ofNat']
    unfold ltoh16
    omega
  have hhigh : UInt8.ofNat (ltoh16 a b / 256) = b := by
    apply UInt8.toNat_inj.mp
    rw [UInt8.toNat_ofNat']
    unfold ltoh16
    omega
  rw [htol16, hlow, hhigh]

/-- A packet in the stream. -/
def encoded (p : List UInt8) : List UInt8 := htol16 p.length ++ p

/-- What the front of a stream holds for a receiver of packets up to `mtu`. -/
def parsePacket (mtu : Nat) : List UInt8 → Parsed (List UInt8) UInt8
  | a :: b :: s =>
    if mtu < ltoh16 a b then .bad
    else if s.length < ltoh16 a b then .more
    else .frame (s.take (ltoh16 a b)) (s.drop (ltoh16 a b))
  | _ => .more

theorem parsePacket_cons (mtu : Nat) (a b : UInt8) (s : List UInt8) : parsePacket mtu (a :: b :: s) =
    if mtu < ltoh16 a b then .bad
    else if s.length < ltoh16 a b then .more
    else .frame (s.take (ltoh16 a b)) (s.drop (ltoh16 a b)) := rfl

/-- An encoded packet of at most the MTU is parsed whole, whatever follows it. -/
theorem parsePacket_encoded {mtu : Nat} (hmtu : mtu ≤ packetprotoMaxpayload) {p : List UInt8} (h : p.length ≤ mtu)
    (rest : List UInt8) : parsePacket mtu (encoded p ++ rest) = .frame p rest := by
  have hlen := ltoh16_htol16 (Nat.le_trans h hmtu)
  have hcons : encoded p ++ rest = UInt8.ofNat p.length :: UInt8.ofNat (p.length / 256) :: (p ++ rest) := rfl
  rw [hcons, parsePacket_cons, hlen, if_neg (Nat.not_lt.mpr h), if_neg]
  · rw [List.take_left, List.drop_left]
  · rw [List.length_append]
    omega

/-- The framing of packets up to `mtu`. -/
def packets (mtu : Nat) (hmtu : mtu ≤ packetprotoMaxpayload) : Framing (List UInt8) UInt8 where
  Valid p := p.length ≤ mtu
  frame := encoded
  parse := parsePacket mtu
  nil := rfl
  complete _ rest h := parsePacket_encoded hmtu h rest
  sound s p rest h := by
    match s with
    | [] => cases h
    | [_] => cases h
    | a :: b :: s =>
      rw [parsePacket_cons] at h
      split at h
      · cases h
      · rename_i hle
        split at h
        · cases h
        · rename_i hall
          obtain ⟨rfl, rfl⟩ := Parsed.frame.inj h
          have htake : (s.take (ltoh16 a b)).length = ltoh16 a b := by
            rw [List.length_take]
            omega
          refine ⟨?_, by rw [htake]; omega⟩
          rw [encoded, htake, htol16_ltoh16, List.append_assoc, List.take_append_drop]
          rfl
  bad_stays s t h := by
    match s with
    | [] => cases h
    | [_] => cases h
    | a :: b :: s =>
      rw [parsePacket_cons] at h
      split at h
      · rename_i hbad
        exact if_pos hbad
      · split at h <;> cases h

/-! ## The encoder -/

/-- `PacketProtoEncoder`: the input wrote its packet behind the header, which is written last. -/
def encoderInputHandlerDone (outputPacket : List UInt8) (inLen : Nat) : List UInt8 :=
  (overwrite outputPacket 0 (htol16 inLen)).take (packetprotoHeader + inLen)

/-- Putting the header in front of a packet in place gives its encoding. -/
theorem encoderInputHandlerDone_eq {outputPacket p : List UInt8} (h : Segment outputPacket packetprotoHeader p) :
    encoderInputHandlerDone outputPacket p.length = encoded p := by
  obtain ⟨t, ht⟩ := h
  unfold encoderInputHandlerDone overwrite
  have htwo : (htol16 p.length).length = 2 := rfl
  rw [List.take_zero, List.nil_append, htwo, Nat.zero_add, show outputPacket.drop 2 = p ++ t from ht.symm,
    ← List.append_assoc, List.take_left']
  · rfl
  · rw [List.length_append, htwo]
    rfl

/-! ## The decoder -/

/-- `receiving` is the place and the room that the input was given, `sending` the place and the length
that the output was. `received` and `passed` are what came in and what was handed on; they are no part
of the program, and `errored` says that the error was reported. -/
structure PacketProtoDecoder where
  outputMtu : Nat
  buf : List UInt8
  bufSize : Nat
  bufStart : Nat
  bufUsed : Nat
  receiving : Option (Nat × Nat)
  sending : Option (Nat × Nat)
  errored : Bool
  received : List UInt8
  passed : List (List UInt8)
deriving DecidableEq

namespace PacketProtoDecoder

/-- `StreamRecvInterface_Receiver_Recv`, which is not called while it receives, nor for no room. -/
def receiverRecv (d : PacketProtoDecoder) : Option PacketProtoDecoder :=
  if d.receiving ≠ none ∨ d.bufSize ≤ d.bufStart + d.bufUsed then none
  else
    some { d with receiving := some (d.bufStart + d.bufUsed, d.bufSize - (d.bufStart + d.bufUsed)) }

/-- Wrap around at the end of the buffer. -/
def wrapped (d : PacketProtoDecoder) : PacketProtoDecoder :=
  if d.bufStart + d.bufUsed = d.bufSize then
    { d with buf := overwrite d.buf 0 ((d.buf.drop d.bufStart).take d.bufUsed), bufStart := 0 }
  else d

/-- `PacketPassInterface_Sender_Send`, which is not called while it sends. -/
def senderSend (d : PacketProtoDecoder) (data dataLen : Nat) : Option PacketProtoDecoder :=
  if d.sending ≠ none then none else some { d with sending := some (data, dataLen) }

def processData (d : PacketProtoDecoder) : Option PacketProtoDecoder :=
  if d.bufUsed < packetprotoHeader then d.wrapped.receiverRecv
  else
    match d.buf.drop d.bufStart with
    | a :: b :: _ =>
      let dataLen := ltoh16 a b
      if d.outputMtu < dataLen then
        ({ d with bufStart := 0, bufUsed := 0 } : PacketProtoDecoder).receiverRecv.map fun d => { d with errored := true }
      else if d.bufUsed - packetprotoHeader < dataLen then d.wrapped.receiverRecv
      else
        ({ d with
          bufStart := d.bufStart + (packetprotoHeader + dataLen),
          bufUsed := d.bufUsed - (packetprotoHeader + dataLen) } : PacketProtoDecoder).senderSend
            (d.bufStart + packetprotoHeader) dataLen
    | _ => none

/-- `data` was written where the input was told. -/
def inputHandlerDone (d : PacketProtoDecoder) (data : List UInt8) : Option PacketProtoDecoder :=
  d.receiving.bind fun (dest, _) =>
    if data = [] ∨ d.bufSize - (d.bufStart + d.bufUsed) < data.length then none
    else
      processData { d with
        buf := overwrite d.buf dest data, bufUsed := d.bufUsed + data.length, receiving := none,
        received := d.received ++ data }

def outputHandlerDone (d : PacketProtoDecoder) : Option PacketProtoDecoder :=
  d.sending.bind fun (data, dataLen) =>
    processData { d with sending := none, passed := d.passed ++ [(d.buf.drop data).take dataLen] }

/-- `PacketProtoDecoder_Init`, over the MTU of the output and the buffer allocated. -/
def init (mtu : Nat) (buf : List UInt8) : Option PacketProtoDecoder :=
  receiverRecv {
    outputMtu := min mtu packetprotoMaxpayload
    buf := buf
    bufSize := packetprotoHeader + min mtu packetprotoMaxpayload
    bufStart := 0
    bufUsed := 0
    receiving := none
    sending := none
    errored := false
    received := []
    passed := [] }

inductive Call where
  | inputDone (data : List UInt8)
  | outputDone
deriving DecidableEq

/-- The interfaces finish what they were asked to do; a decoder that reported its error is freed. -/
def Calls (d : PacketProtoDecoder) : Call → Prop
  | .inputDone data => d.errored = false ∧ data ≠ [] ∧ ∃ r ∈ d.receiving, data.length ≤ r.2
  | .outputDone => d.errored = false ∧ d.sending ≠ none

instance (d : PacketProtoDecoder) (a : Call) : Decidable (d.Calls a) := by
  unfold Calls
  split <;> infer_instance

def handle (d : PacketProtoDecoder) : Call → Option PacketProtoDecoder
  | .inputDone data => d.inputHandlerDone data
  | .outputDone => d.outputHandlerDone

def system (mtu : Nat) : System PacketProtoDecoder Call where
  init d := ∃ buf : List UInt8, buf.length = packetprotoHeader + min mtu packetprotoMaxpayload ∧ init mtu buf = some d
  step d a := if d.Calls a then d.handle a else none

end PacketProtoDecoder
end KiloProxy.Engine
