import KiloProxy.Store.Segment
import Mathlib.Data.List.DropRight
import Mathlib.Data.List.GetD

/-!
# The circular packet buffer of `ChunkBuffer2.h`

Packets are stored one after another in an array of four-byte blocks, each behind a block
with its length, and none is split: where a full packet no longer fits behind the last one,
the buffer is wrapped. `Holds` says which packets it holds; the operations keep it and every
assertion of the source.
-/

namespace KiloProxy.Engine
set_option autoImplicit false
open KiloProxy.Store

/-- `sizeof(struct ChunkBuffer2_block)`. -/
def blockSize : Nat := 4

def bdivideUp (a b : Nat) : Nat := if 0 < a % b then a / b + 1 else a / b

/-- The blocks for `len` bytes. -/
def blocklen (len : Nat) : Nat := bdivideUp len blockSize

/-- The bytes of a block, in memory order. -/
def blockBytes (w : UInt32) : List UInt8 := [w.toUInt8, (w >>> 8).toUInt8, (w >>> 16).toUInt8, (w >>> 24).toUInt8]

/-- `len` bytes from a block on. -/
def readBytes (buffer : List UInt32) (dest len : Nat) : List UInt8 :=
  (((buffer.drop dest).take (blocklen len)).flatMap blockBytes).take len

/-- A `size_t` that is assigned to an `int`. -/
def asInt (n : Nat) : Int := (BitVec.ofNat 32 n).toInt

def intMax : Nat := 2147483647

/-- A pointer into the buffer is the index of its block. Where the source subtracts, the lengths are
compared with the summands on the other side, since these are no negative numbers. -/
structure ChunkBuffer2 where
  buffer : List UInt32
  size : Nat
  wrap : Nat
  start : Nat
  used : Nat
  mtu : Nat
  inputDest : Option Nat
  inputAvail : Int
  outputDest : Option Nat
  outputAvail : Int
deriving DecidableEq

namespace ChunkBuffer2

/-- The data goes on at the front of the array, or reaches the point where it will. -/
abbrev Wrapped (b : ChunkBuffer2) : Prop := b.wrap ≤ b.start + b.used

/-- `_ChunkBuffer2_end`. -/
def endBlock (b : ChunkBuffer2) : Nat := if b.Wrapped then b.used - (b.wrap - b.start) else b.start + b.used

def AssertBuffer (b : ChunkBuffer2) : Prop :=
  0 < b.size ∧ 0 < b.wrap ∧ b.wrap ≤ b.size ∧ b.start < b.wrap ∧ b.used ≤ b.wrap ∧ (b.wrap = b.size ∨ b.Wrapped)

instance (b : ChunkBuffer2) : Decidable b.AssertBuffer := inferInstanceAs (Decidable (_ ∧ _))

def free (b : ChunkBuffer2) : Nat := if b.Wrapped then b.start - b.endBlock else b.size - b.endBlock

/-- Where a packet can be written, and how many bytes there are. -/
def inputIo (b : ChunkBuffer2) : Option Nat × Int :=
  if b.size < b.endBlock + 1 + b.mtu then (none, -1)
  else if 0 < b.free then (some (b.endBlock + 1), ((b.free - 1) * blockSize : Nat))
  else (none, -1)

/-- The length in a header block, which is not negative. -/
def lenAt (buffer : List UInt32) (i : Nat) : Option Nat :=
  buffer[i]?.bind fun w => if w.toNat ≤ intMax then some w.toNat else none

/-- Where the first packet is. -/
def outputIo (b : ChunkBuffer2) : Option (Option Nat × Int) :=
  if 0 < b.used then
    (lenAt b.buffer b.start).bind fun datalen =>
      if blocklen datalen + 1 ≤ b.used ∧ b.start + (blocklen datalen + 1) ≤ b.wrap then
        some (some (b.start + 1), (datalen : Int))
      else none
  else some (none, -1)

def AssertIo (b : ChunkBuffer2) : Prop :=
  (b.inputDest, b.inputAvail) = b.inputIo ∧ some (b.outputDest, b.outputAvail) = b.outputIo

instance (b : ChunkBuffer2) : Decidable b.AssertIo := inferInstanceAs (Decidable (_ ∧ _))

def updateInput (b : ChunkBuffer2) : ChunkBuffer2 :=
  { b with inputDest := b.inputIo.1, inputAvail := if b.inputIo.1 = none then -1 else asInt b.inputIo.2.toNat }

def updateOutput (b : ChunkBuffer2) : Option ChunkBuffer2 :=
  b.outputIo.map fun io => { b with outputDest := io.1, outputAvail := io.2 }

/-- The blocks needed for `num` packets of `chunkLen` bytes. -/
def calcBlocks (chunkLen num : Nat) : Option Nat :=
  if intMax - 1 < blocklen chunkLen then none
  else if intMax - 1 < num then none
  else if intMax / (num + 1) < 1 + blocklen chunkLen then none
  else some ((1 + blocklen chunkLen) * (num + 1))

/-- The assertions at the end of every operation. -/
def checked (b : ChunkBuffer2) : Option ChunkBuffer2 := if b.AssertIo then some b else none

/-- `ChunkBuffer2_Init`: `buffer` is what was allocated. -/
def init (buffer : List UInt32) (blocks mtu : Nat) : Option ChunkBuffer2 :=
  if blocks = 0 then none
  else
    let b : ChunkBuffer2 :=
      { buffer := buffer, size := blocks, wrap := blocks, start := 0, used := 0, mtu := blocklen mtu,
        inputDest := none, inputAvail := -1, outputDest := none, outputAvail := -1 }
    if ¬ b.AssertBuffer then none else b.updateInput.updateOutput.bind checked

/-- The new packet is counted, and the buffer is wrapped when a full packet no longer fits behind it. -/
def appended (b : ChunkBuffer2) (len : Nat) : ChunkBuffer2 :=
  let e := b.endBlock
  let b := { b with buffer := b.buffer.set e (UInt32.ofNat len), used := b.used + (1 + blocklen len) }
  if b.start + b.used ≤ b.wrap ∧ b.size < e + 1 + blocklen len + 1 + b.mtu then
    { b with wrap := e + 1 + blocklen len }
  else b

/-- `len` bytes were written to `input_dest`. -/
def submitPacket (b : ChunkBuffer2) (len : Nat) : Option ChunkBuffer2 :=
  if b.inputDest = none ∨ b.inputAvail < len ∨ ¬ b.AssertBuffer ∨ ¬ b.AssertIo ∨
      b.size < b.endBlock + 1 + blocklen len ∨ (b.Wrapped ∧ b.start < b.endBlock + 1 + blocklen len) ∨
      b.buffer.length ≤ b.endBlock then none
  else
    let b := b.appended len
    if ¬ b.AssertBuffer then none
    else
      let b := b.updateInput
      (if b.used = 1 + blocklen len then b.updateOutput else some b).bind checked

/-- The first packet is left behind. -/
def advanced (b : ChunkBuffer2) (len : Nat) : ChunkBuffer2 :=
  let b := { b with start := b.start + (1 + blocklen len), used := b.used - (1 + blocklen len) }
  if b.start = b.wrap then { b with start := 0, wrap := b.size } else b

def consumePacket (b : ChunkBuffer2) : Option ChunkBuffer2 :=
  if b.outputDest = none ∨ ¬ b.AssertBuffer ∨ ¬ b.AssertIo ∨ b.used = 0 then none
  else
    (lenAt b.buffer b.start).bind fun len =>
      if b.wrap < b.start + (1 + blocklen len) ∨ b.used < 1 + blocklen len then none
      else
        let dataWrapped := b.Wrapped
        let b := b.advanced len
        if ¬ b.AssertBuffer then none
        else (if dataWrapped then b.updateInput else b).updateOutput.bind checked

end ChunkBuffer2

/-- A packet takes the blocks its bytes fit in. -/
theorem blocklen_le_iff {len n : Nat} : blocklen len ≤ n ↔ len ≤ n * blockSize := by
  unfold blocklen bdivideUp blockSize
  split <;> omega

/-- Below the largest `int` the cast changes nothing. -/
theorem asInt_of_lt {n : Nat} (h : n ≤ intMax) : asInt n = n := by
  unfold asInt intMax at *
  rw [BitVec.toInt_eq_toNat_of_lt (by rw [BitVec.toNat_ofNat]; omega), BitVec.toNat_ofNat]
  omega

/-- A packet as the buffer keeps it; the last block may have bytes behind it. -/
structure Chunk where
  len : Nat
  data : List UInt32
  short : len ≤ intMax
  fits : data.length = blocklen len

namespace Chunk

def words (c : Chunk) : List UInt32 := UInt32.ofNat c.len :: c.data

def bytes (c : Chunk) : List UInt8 := (c.data.flatMap blockBytes).take c.len

/-- A chunk takes a block for its length and the blocks of its bytes. -/
@[simp] theorem words_length (c : Chunk) : c.words.length = 1 + blocklen c.len := by
  rw [words, List.length_cons, c.fits, Nat.add_comm]

theorem flatMap_blockBytes_length (ws : List UInt32) : (ws.flatMap blockBytes).length = ws.length * blockSize := by
  induction ws with
  | nil => rfl
  | cons w ws ih =>
    rw [List.flatMap_cons, List.length_append, ih, List.length_cons, Nat.succ_mul, Nat.add_comm]
    rfl

/-- A chunk holds as many bytes as its length block says. -/
theorem bytes_length (c : Chunk) : c.bytes.length = c.len := by
  have hfit : c.len ≤ blocklen c.len * blockSize := blocklen_le_iff.mp (Nat.le_refl _)
  rw [bytes, List.length_take, flatMap_blockBytes_length, c.fits]
  exact Nat.min_eq_left hfit

/-- The blocks of several packets. -/
def all (cs : List Chunk) : List UInt32 := cs.flatMap words

@[simp] theorem all_nil : all [] = [] := rfl

@[simp] theorem all_cons (c : Chunk) (cs : List Chunk) : all (c :: cs) = c.words ++ all cs := List.flatMap_cons

@[simp] theorem all_append (cs ds : List Chunk) : all (cs ++ ds) = all cs ++ all ds := List.flatMap_append

/-- Even an empty packet takes a block. -/
theorem all_length_pos {cs : List Chunk} (h : cs ≠ []) : 0 < (all cs).length := by
  cases cs with
  | nil => exact absurd rfl h
  | cons c cs =>
    rw [all_cons, List.length_append, words_length]
    omega

/-- The packet that was written at `dest`. -/
def written (buffer : List UInt32) (dest len : Nat) (hlen : len ≤ intMax) (hroom : dest + blocklen len ≤ buffer.length) :
    Chunk where
  len := len
  data := (buffer.drop dest).take (blocklen len)
  short := hlen
  fits := by
    rw [List.length_take, List.length_drop]
    omega

/-- Where a chunk starts its length is read back. -/
theorem lenAt_of_segment {buffer : List UInt32} {i : Nat} {c : Chunk} {rest : List UInt32}
    (h : Segment buffer i (c.words ++ rest)) : ChunkBuffer2.lenAt buffer i = some c.len := by
  have hnat : (UInt32.ofNat c.len).toNat = c.len := by
    have hshort := c.short
    rw [UInt32.toNat_ofNat']
    exact Nat.mod_eq_of_lt (by unfold intMax at hshort; omega)
  have hhead : buffer[i]? = some (UInt32.ofNat c.len) := Segment.head h
  unfold ChunkBuffer2.lenAt
  rw [hhead, Option.bind_some, hnat, if_pos c.short]

/-- What is read behind the header is the packet. -/
theorem readBytes_of_segment {buffer : List UInt32} {i : Nat} {c : Chunk} {rest : List UInt32}
    (h : Segment buffer i (c.words ++ rest)) : readBytes buffer (i + 1) c.len = c.bytes := by
  have hwhole : Segment buffer i ([UInt32.ofNat c.len] ++ c.data) := h.left
  have hdata : Segment buffer (i + 1) c.data := hwhole.right
  have heq := hdata.eq_take
  rw [c.fits] at heq
  unfold readBytes bytes
  rw [heq]

end Chunk
end KiloProxy.Engine
