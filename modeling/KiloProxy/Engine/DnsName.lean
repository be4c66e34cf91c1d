import KiloProxy.Net.Labels
import KiloProxy.Run.System

/-!
# Compressed names in `pdnsd`'s `dns.c`

A name in a message may end with the offset of an earlier one, and the list of names that were
written is searched for the one to point to. Memory is accessed at indices: a result of `none` is
an access outside of it, a counter below zero, a failed assertion or a loop that did not end in its
fuel.
-/

namespace KiloProxy.Engine
set_option autoImplicit false
open KiloProxy.Net KiloProxy.Run

/-! ## Reading -/

inductive Rc where
  | trunc
  | format
deriving DecidableEq

/-- What `decompress_name` stores: the source pointer and what remains after it, and the name. -/
structure Decompressed where
  src : Nat
  sz : Nat
  tgt : List UInt8
deriving DecidableEq

/-- `DNSNAMEBUFSIZE`. -/
def dnsNameBufSize : Nat := 256

/-- `offs=((lb&0x3f)<<8)|(*lptr)`. -/
def offset (lb b : UInt8) : Nat := (lb &&& 0x3f).toNat * 256 + b.toNat

/-- The bytes of a label. -/
def copied (msg : List UInt8) (lptr lb : Nat) : Option (List UInt8) :=
  if lptr + lb ≤ msg.length then some ((msg.drop lptr).take lb) else none

/-- The loop after the first offset: the name. -/
def jumped (msg : List UInt8) : Nat → Nat → Nat → List UInt8 → Option (Except Rc (List UInt8))
  | 0, _, _, _ => none
  | fuel + 1, lptr, hops, tgt =>
    (msg[lptr]?).bind fun lb =>
      if 0x3f < lb then
        if lb < 0xc0 then some (.error .format)
        else if msg.length ≤ lptr + 1 then some (.error .format)
        else if 255 < hops + 1 then some (.error .format)
        else
          (msg[lptr + 1]?).bind fun b =>
            if msg.length ≤ offset lb b then some (.error .format) else jumped msg fuel (offset lb b) (hops + 1) tgt
      else if dnsNameBufSize ≤ tgt.length then none
      else if lb = 0 then some (.ok (tgt ++ [lb]))
      else if msg.length ≤ lptr + 1 + lb.toNat then some (.error .format)
      else if dnsNameBufSize - 1 < tgt.length + 1 + lb.toNat then some (.error .format)
      else
        (copied msg (lptr + 1) lb.toNat).bind fun label =>
          jumped msg fuel (lptr + 1 + lb.toNat) hops (tgt ++ lb :: label)

/-- The loop up to the first offset: what remains of the data, and the name. -/
def direct (msg : List UInt8) : Nat → Nat → Nat → List UInt8 → Option (Except Rc (Nat × List UInt8))
  | 0, _, _, _ => none
  | _ + 1, _, 0, _ => none
  | fuel + 1, lptr, newsz + 1, tgt =>
    (msg[lptr]?).bind fun lb =>
      if 0x3f < lb then
        if lb < 0xc0 then some (.error .format)
        else if newsz = 0 then some (.error .trunc)
        else if msg.length ≤ lptr + 1 then some (.error .format)
        else
          (msg[lptr + 1]?).bind fun b =>
            if msg.length ≤ offset lb b then some (.error .format)
            else (jumped msg fuel (offset lb b) 1 tgt).map fun rc => rc.map fun tgt => (newsz - 1, tgt)
      else if dnsNameBufSize ≤ tgt.length then none
      else if lb = 0 then some (.ok (newsz, tgt ++ [lb]))
      else if newsz ≤ lb.toNat then some (.error .trunc)
      else if msg.length ≤ lptr + 1 + lb.toNat then some (.error .format)
      else if dnsNameBufSize - 1 < tgt.length + 1 + lb.toNat then some (.error .format)
      else
        (copied msg (lptr + 1) lb.toNat).bind fun label =>
          direct msg fuel (lptr + 1 + lb.toNat) (newsz - lb.toNat) (tgt ++ lb :: label)

def decompressName (fuel : Nat) (msg : List UInt8) (src sz : Nat) : Option (Except Rc Decompressed) :=
  if sz = 0 then some (.error .trunc)
  else if msg.length ≤ src then some (.error .format)
  else (direct msg fuel src sz []).map fun rc => rc.map fun (newsz, tgt) => ⟨src + (sz - newsz), newsz, tgt⟩

/-! ## Writing -/

/-- The length bytes of a name in an array of this room, and where it ends. -/
def lengthBytes (ms : List UInt8) : Nat → Nat → Option (List UInt8 × Nat)
  | 0, i => (ms[i]?).bind fun lb => if lb = 0 then some ([], i) else none
  | room + 1, i =>
    (ms[i]?).bind fun lb =>
      if lb = 0 then some ([], i)
      else (lengthBytes ms room (i + lb.toNat + 1)).map fun (ls, i) => (lb :: ls, i)

/-- The loop of `domain_match` over the length bytes from behind: how many names elements match, and where the match
begins in both names. -/
def matchBack (ms md : List UInt8) : List UInt8 → List UInt8 → Nat → Nat → Nat → Nat × Nat × Nat
  | lb :: ls, lb' :: ld, i, j, k =>
    if lb = lb' ∧ ((ms.take i).drop (i - lb.toNat)).map tolower = ((md.take j).drop (j - lb.toNat)).map tolower then
      matchBack ms md ls ld (i - lb.toNat - 1) (j - lb.toNat - 1) (k + 1)
    else (k, i, j)
  | _, _, i, j, k => (k, i, j)

def domainMatch (ms md : List UInt8) : Option (Nat × Nat × Nat) :=
  (lengthBytes ms 128 0).bind fun (ls, i) => (lengthBytes md 128 0).map fun (ld, j) =>
    matchBack ms md ls.reverse ld.reverse i j 0

/-- An element of the list of names that were written. -/
structure Compel where
  index : Nat
  s : List UInt8
deriving DecidableEq

/-- The longest match so far. -/
structure Longest where
  longest : Nat
  lrem : Nat
  coffs : Nat
deriving DecidableEq

def longer (name : List UInt8) (l : Longest) (ci : Compel) : Option Longest :=
  (domainMatch name ci.s).map fun (rv, rem, pos) =>
    if l.longest < rv ∧ ci.index + pos ≤ 0x3fff then ⟨rv, rem, ci.index + pos⟩ else l

def rhnlen (rhn : List UInt8) : Nat → Nat → Option Nat
  | 0, _ => none
  | fuel + 1, i => (rhn[i]?).bind fun lb => if lb = 0 then some (i + 1) else rhnlen rhn fuel (i + 1 + lb.toNat)

/-- What is written, and the list with what is added. -/
def compressName (name : List UInt8) (offs : Nat) (cb : List Compel) : Option (List UInt8 × List Compel) :=
  (rhnlen name name.length 0).bind fun ilen =>
    if dnsNameBufSize < ilen then none
    else
      (cb.foldlM (longer name) ⟨0, 0, 0⟩).bind fun best =>
        let ci : Compel := ⟨offs, name.take ilen⟩
        if 0 < best.longest then
          if ilen < best.lrem + 2 then none
          else
            some (name.take best.lrem ++ [0xc0 ||| UInt8.ofNat (best.coffs / 256), UInt8.ofNat best.coffs],
              if best.lrem = 0 then cb else cb ++ [ci])
        else some (name.take ilen, cb ++ [ci])

/-! ## Messages -/

/-- A message that is written, and where names are in it and how long, which is no part of the program. -/
structure Answer where
  bytes : List UInt8
  cb : List Compel
  names : List (Nat × Nat × Name)

inductive Piece where
  | raw (bytes : List UInt8)
  | name (n : Name)

def Answer.add (m : Answer) : Piece → Option Answer
  | .raw bytes => some { m with bytes := m.bytes ++ bytes }
  | .name n =>
    (compressName n.bytes m.bytes.length m.cb).map fun (out, cb) =>
      ⟨m.bytes ++ out, cb, m.names ++ [(m.bytes.length, out.length, n)]⟩

def answers : System Answer Piece where
  init m := m.cb = [] ∧ m.names = []
  step m p := m.add p

end KiloProxy.Engine
