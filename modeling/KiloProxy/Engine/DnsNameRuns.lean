import KiloProxy.Engine.DnsName

/-!
# Names that were written are read back

What a message reads as at an offset is a relation that holds of it however it is continued. A name
of the list is in the message up to some label, and from there on it has its end in common with an
earlier one; so the first longest match is always at a label that is there, and a pointer to it is
followed by a label. That bounds the offsets on the way by the labels of a name.
-/

namespace KiloProxy.Engine
set_option autoImplicit false
open KiloProxy.Net KiloProxy.Run

variable {msg tgt l : List UInt8} {ls ms : List (List UInt8)} {i e h fuel hops : Nat}

/-! ## Bytes -/

/-- A byte with its two top bits set is a pointer and gives its other six back. -/
theorem pointer_byte : ∀ x < 64, 0x3f < (0xc0 ||| UInt8.ofNat x) ∧ ¬ (0xc0 ||| UInt8.ofNat x) < 0xc0 ∧
    ((0xc0 ||| UInt8.ofNat x) &&& 0x3f).toNat = x := by decide

/-- A pointer of two bytes names every offset of fourteen bits. -/
theorem offset_pointer {n : Nat} (hn : n ≤ 0x3fff) : offset (0xc0 ||| UInt8.ofNat (n / 256)) (UInt8.ofNat n) = n := by
  obtain ⟨_, _, hlow⟩ := pointer_byte (n / 256) (by omega)
  rw [offset, hlow, UInt8.toNat_ofNat']
  omega

/-- The length byte of a label is neither that of a pointer nor the end. -/
theorem length_byte (hl : IsLabel l) : ¬ 0x3f < UInt8.ofNat l.length ∧ UInt8.ofNat l.length ≠ 0 := by
  have hnat := hl.toNat
  refine ⟨fun hlt => ?_, fun hzero => ?_⟩
  · have hlt : (0x3f : UInt8).toNat < (UInt8.ofNat l.length).toNat := hlt
    rw [hnat] at hlt
    exact absurd hl.2 (Nat.not_lt.mpr hlt)
  · rw [hzero] at hnat
    exact hl.1.ne hnat

/-- These bytes are in the message at an offset. -/
def At (msg : List UInt8) (i : Nat) (bs : List UInt8) : Prop := bs <+: msg.drop i

/-- Bytes stay where they are when more are written behind them. -/
theorem At.append {bs : List UInt8} (hat : At msg i bs) (more : List UInt8) : At (msg ++ more) i bs := by
  unfold At at hat ⊢
  rw [List.drop_append]
  exact hat.trans (List.prefix_append _ _)

/-- Where a label stands, its length and its bytes are read. -/
theorem At.copied (hat : At msg i (UInt8.ofNat l.length :: l)) :
    msg[i]? = some (UInt8.ofNat l.length) ∧ copied msg (i + 1) l.length = some l := by
  obtain ⟨rest, hrest⟩ := hat
  have hhead : (msg.drop i)[0]? = some (UInt8.ofNat l.length) := by rw [← hrest]; rfl
  have htail : msg.drop (i + 1) = l ++ rest := by rw [← List.drop_drop, ← hrest]; rfl
  have hlength : l.length ≤ (msg.drop (i + 1)).length := by rw [htail, List.length_append]; omega
  rw [List.length_drop] at hlength
  rw [List.getElem?_drop] at hhead
  have hi : i + 1 ≤ msg.length := by
    have hlt := (List.getElem?_eq_some_iff.mp hhead).1
    omega
  refine ⟨hhead, ?_⟩
  rw [Engine.copied, if_pos (by omega), htail, List.take_left']
  rfl

theorem At.pair {b c : UInt8} (hat : At msg i [b, c]) : msg[i]? = some b ∧ msg[i + 1]? = some c := by
  obtain ⟨rest, hrest⟩ := hat
  have hfirst : (msg.drop i)[0]? = some b := by rw [← hrest]; rfl
  have hsecond : (msg.drop i)[1]? = some c := by rw [← hrest]; rfl
  rw [List.getElem?_drop] at hfirst hsecond
  exact ⟨hfirst, hsecond⟩

/-! ## Reading -/

/-- The message reads as these labels from an offset on, up to another, with so many pointers on the way. After a
pointer is a label. -/
inductive Reads (msg : List UInt8) : Nat → Nat → List (List UInt8) → Nat → Prop where
  | done {i : Nat} : msg[i]? = some 0 → Reads msg i (i + 1) [] 0
  | label {i e h : Nat} {l : List UInt8} {ls : List (List UInt8)} : IsLabel l → At msg i (UInt8.ofNat l.length :: l) →
      Reads msg (i + 1 + l.length) e ls h → Reads msg i e (l :: ls) h
  | pointer {i n e h : Nat} {l : List UInt8} {ls : List (List UInt8)} : n ≤ 0x3fff →
      At msg i [0xc0 ||| UInt8.ofNat (n / 256), UInt8.ofNat n] → IsLabel l → At msg n (UInt8.ofNat l.length :: l) →
        Reads msg (n + 1 + l.length) e ls h → Reads msg i (i + 2) (l :: ls) (h + 1)

namespace Reads

/-- A name that is read stays readable when the message grows. -/
theorem append (hr : Reads msg i e ls h) (more : List UInt8) : Reads (msg ++ more) i e ls h := by
  induction hr with
  | done hi => exact .done (List.getElem?_append_left (List.getElem?_eq_some_iff.mp hi).1 ▸ hi)
  | label hl hat _ ih => exact .label hl (hat.append more) ih
  | pointer hn hat hl hto _ ih => exact .pointer hn (hat.append more) hl (hto.append more) ih

/-- What is read are labels. -/
theorem valid (hr : Reads msg i e ls h) : ∀ l ∈ ls, IsLabel l := by
  induction hr with
  | done => exact nofun
  | label hl _ _ ih => exact List.forall_mem_cons.mpr ⟨hl, ih⟩
  | pointer _ _ hl _ _ ih => exact List.forall_mem_cons.mpr ⟨hl, ih⟩

/-- There are no more pointers than labels. -/
theorem hops_le (hr : Reads msg i e ls h) : h ≤ ls.length := by
  induction hr with
  | done => exact Nat.le_refl 0
  | label _ _ _ ih => exact Nat.le_succ_of_le ih
  | pointer _ _ _ _ _ ih => exact Nat.succ_le_succ ih

/-- A name ends behind its start and inside the message. -/
theorem bounds (hr : Reads msg i e ls h) : i < e ∧ e ≤ msg.length := by
  induction hr with
  | done hi => exact ⟨Nat.lt_succ_self _, (List.getElem?_eq_some_iff.mp hi).1⟩
  | label _ _ _ ih => omega
  | @pointer i _ _ _ _ _ _ hat _ _ _ _ =>
    have hlength := hat.length_le
    rw [List.length_drop, List.length_cons, List.length_cons, List.length_nil] at hlength
    omega

end Reads

/-- A label is read by the loop after the first offset. -/
theorem jumped_label (hl : IsLabel l) (hat : At msg i (UInt8.ofNat l.length :: l)) (hnext : i + 1 + l.length < msg.length)
    (hroom : tgt.length + 1 + l.length < dnsNameBufSize) :
    jumped msg (fuel + 1) i hops tgt = jumped msg fuel (i + 1 + l.length) hops (tgt ++ UInt8.ofNat l.length :: l) := by
  obtain ⟨hbyte, hcopied⟩ := hat.copied
  obtain ⟨hlow, hnonzero⟩ := length_byte hl
  rw [jumped, hbyte, Option.bind_some, if_neg hlow, if_neg (by omega), if_neg hnonzero, hl.toNat, if_neg (by omega),
    if_neg (by omega), hcopied, Option.bind_some]

/-- Behind a pointer the decoder follows the same steps as the relation, as long as there are hops and room. -/
theorem Reads.jumped (hr : Reads msg i e ls h) (hhops : hops + h ≤ 255) (hroom : tgt.length + (encode ls).length < dnsNameBufSize)
    (hfuel : ls.length + h < fuel) :
    Engine.jumped msg fuel i hops tgt = some (.ok (tgt ++ (encode ls ++ [0]))) := by
  induction hr generalizing fuel hops tgt with
  | done hi =>
    obtain ⟨fuel, rfl⟩ : ∃ k, fuel = k + 1 := ⟨fuel - 1, by omega⟩
    rw [encode_nil, List.length_nil] at hroom
    rw [Engine.jumped, hi, Option.bind_some, if_neg (by decide), if_neg (by omega), if_pos rfl]
    rfl
  | @label i e h l ls hl hat hrest ih =>
    obtain ⟨fuel, rfl⟩ : ∃ k, fuel = k + 1 := ⟨fuel - 1, by omega⟩
    rw [encode_cons, List.length_cons, List.length_append] at hroom
    rw [List.length_cons] at hfuel
    have hend := hrest.bounds
    rw [jumped_label hl hat (by omega) (by omega), ih hhops (by rw [List.length_append, List.length_cons]; omega) (by omega),
      encode_cons, List.append_assoc, List.cons_append, List.cons_append, List.append_assoc]
  | @pointer i n e h l ls hn hat hl hto hrest ih =>
    obtain ⟨fuel, rfl⟩ : ∃ k, fuel = k + 2 := ⟨fuel - 2, by omega⟩
    rw [encode_cons, List.length_cons, List.length_append] at hroom
    rw [List.length_cons] at hfuel
    have hend := hrest.bounds
    obtain ⟨hfirst, hsecond⟩ := hat.pair
    obtain ⟨hhigh, hbits, _⟩ := pointer_byte (n / 256) (by omega)
    have hi := (List.getElem?_eq_some_iff.mp hsecond).1
    rw [Engine.jumped, hfirst, Option.bind_some, if_pos hhigh, if_neg hbits, if_neg (by omega), if_neg (by omega), hsecond,
      Option.bind_some, offset_pointer hn, if_neg (by omega), jumped_label hl hto (by omega) (by omega),
      ih (by omega) (by rw [List.length_append, List.length_cons]; omega) (by omega), encode_cons, List.append_assoc,
      List.cons_append, List.cons_append, List.append_assoc]

/-- Before the first pointer it also counts the bytes that are left. -/
theorem Reads.direct {newsz : Nat} (hr : Reads msg i e ls h) (hhops : h ≤ 255)
    (hroom : tgt.length + (encode ls).length < dnsNameBufSize) (hsz : e ≤ i + newsz) (hfuel : ls.length + h < fuel) :
    Engine.direct msg fuel i newsz tgt = some (.ok (i + newsz - e, tgt ++ (encode ls ++ [0]))) := by
  obtain ⟨newsz, rfl⟩ : ∃ k, newsz = k + 1 := ⟨newsz - 1, by have := hr.bounds; omega⟩
  induction hr generalizing fuel newsz tgt with
  | @done i hi =>
    obtain ⟨fuel, rfl⟩ : ∃ k, fuel = k + 1 := ⟨fuel - 1, by omega⟩
    rw [encode_nil, List.length_nil] at hroom
    rw [Engine.direct, hi, Option.bind_some, if_neg (by decide), if_neg (by omega), if_pos rfl, encode_nil, List.nil_append,
      (by omega : i + (newsz + 1) - (i + 1) = newsz)]
  | @label i e h l ls hl hat hrest ih =>
    obtain ⟨fuel, rfl⟩ : ∃ k, fuel = k + 1 := ⟨fuel - 1, by omega⟩
    rw [encode_cons, List.length_cons, List.length_append] at hroom
    rw [List.length_cons] at hfuel
    have hend := hrest.bounds
    obtain ⟨hbyte, hcopied⟩ := hat.copied
    obtain ⟨hlow, hnonzero⟩ := length_byte hl
    obtain ⟨rest, hrestsz⟩ : ∃ k, newsz - l.length = k + 1 := ⟨newsz - l.length - 1, by omega⟩
    rw [Engine.direct, hbyte, Option.bind_some, if_neg hlow, if_neg (by omega), if_neg hnonzero, hl.toNat, if_neg (by omega),
      if_neg (by omega), if_neg (by omega), hcopied, Option.bind_some, hrestsz,
      ih hhops (by rw [List.length_append, List.length_cons]; omega) (by omega) rest (by omega), encode_cons,
      List.append_assoc, List.cons_append, List.cons_append, List.append_assoc,
      (by omega : i + 1 + l.length + (rest + 1) - e = i + (newsz + 1) - e)]
  | @pointer i n e h l ls hn hat hl hto hrest ih =>
    obtain ⟨fuel, rfl⟩ : ∃ k, fuel = k + 1 := ⟨fuel - 1, by omega⟩
    have hpointer : Reads msg n e (l :: ls) h := .label hl hto hrest
    have hend := hpointer.bounds
    obtain ⟨hfirst, hsecond⟩ := hat.pair
    obtain ⟨hhigh, hbits, _⟩ := pointer_byte (n / 256) (by omega)
    have hi := (List.getElem?_eq_some_iff.mp hsecond).1
    rw [Engine.direct, hfirst, Option.bind_some, if_pos hhigh, if_neg hbits, if_neg (by omega), if_neg (by omega), hsecond,
      Option.bind_some, offset_pointer hn, if_neg (by omega), hpointer.jumped (by omega) hroom (by omega),
      (by omega : i + (newsz + 1) - (i + 2) = newsz - 1)]
    rfl

/-- **What the message reads as is what is decompressed.** -/
theorem Reads.decompressName (hr : Reads msg i e ls h) (hshort : (encode ls).length < dnsNameBufSize) :
    Engine.decompressName 512 msg i (msg.length - i) = some (.ok ⟨e, msg.length - e, encode ls ++ [0]⟩) := by
  have hbounds := hr.bounds
  have hfew := length_le_encode hr.valid
  have hhops := hr.hops_le
  have hsize : dnsNameBufSize = 256 := rfl
  have hdirect := @Reads.direct msg [] ls i e h 512 (msg.length - i) hr (by omega) (by simpa using hshort) (by omega) (by omega)
  unfold Engine.decompressName
  rw [if_neg (by omega), if_neg (by omega), hdirect, List.nil_append]
  have hrest : i + (msg.length - i) - e = msg.length - e := by omega
  have hsrc : i + (msg.length - i - (msg.length - e)) = e := by omega
  rw [hrest]
  simp only [Option.map_some, Except.map, hsrc]

/-! ## Any message -/

/-- A byte that is a length, and the label after it, by which the buffer grows. -/
theorem label_of_byte {lb : UInt8} {lptr : Nat} (hlow : ¬ 0x3f < lb) (hzero : lb ≠ 0) (hin : lptr + lb.toNat ≤ msg.length) :
    ∃ l, copied msg lptr lb.toNat = some l ∧ IsLabel l ∧ lb = UInt8.ofNat l.length ∧
      ∀ tgt : List UInt8, (tgt ++ lb :: l).length = tgt.length + 1 + lb.toNat := by
  have hlength : ((msg.drop lptr).take lb.toNat).length = lb.toNat := by
    rw [List.length_take, List.length_drop]
    omega
  have hpos : 0 < lb.toNat := Nat.pos_of_ne_zero fun h => hzero (UInt8.toNat_inj.mp h)
  have hsmall : lb.toNat < 64 := by
    have hle : lb.toNat ≤ (0x3f : UInt8).toNat := Nat.le_of_not_lt hlow
    exact Nat.lt_succ_of_le hle
  refine ⟨_, if_pos hin, ⟨by rw [hlength]; exact hpos, by rw [hlength]; exact hsmall⟩, ?_, fun tgt => ?_⟩
  · rw [hlength, UInt8.ofNat_toNat]
  · rw [List.length_append, List.length_cons, hlength]
    omega

/-- The bytes that were written to the buffer after others are a name that fits. -/
def Names (tgt t : List UInt8) : Prop :=
  ∃ ls, (∀ l ∈ ls, IsLabel l) ∧ t = tgt ++ (encode ls ++ [0]) ∧ t.length ≤ dnsNameBufSize

/-- A label in front of labels. -/
theorem Names.cons {t : List UInt8} (hl : IsLabel l) (ht : Names (tgt ++ UInt8.ofNat l.length :: l) t) : Names tgt t := by
  obtain ⟨ls, hls, ht, hlength⟩ := ht
  refine ⟨l :: ls, List.forall_mem_cons.mpr ⟨hl, hls⟩, ?_, hlength⟩
  rw [ht, encode_cons, List.append_assoc, List.cons_append, List.cons_append, List.append_assoc]

theorem Names.done (h : tgt.length < dnsNameBufSize) : Names tgt (tgt ++ [0]) :=
  ⟨[], nofun, rfl, by rw [List.length_append]; exact h⟩

/-- Behind a pointer decompression ends on every message: each step takes a hop or fills the buffer. -/
theorem jumped_total (hi : i < msg.length) (hhops : hops ≤ 255) (hroom : tgt.length < dnsNameBufSize)
    (hfuel : (255 - hops) + (255 - tgt.length) < fuel) :
    ∃ r, jumped msg fuel i hops tgt = some r ∧ ∀ t, r = .ok t → Names tgt t := by
  induction fuel generalizing i hops tgt with
  | zero => exact absurd hfuel (Nat.not_lt_zero _)
  | succ fuel ih =>
    unfold jumped
    rw [List.getElem?_eq_getElem hi, Option.bind_some]
    generalize msg[i] = lb
    by_cases hhigh : 0x3f < lb
    · rw [if_pos hhigh]
      split
      · exact ⟨_, rfl, nofun⟩
      split
      · exact ⟨_, rfl, nofun⟩
      split
      · exact ⟨_, rfl, nofun⟩
      rename_i hnext hmore
      rw [List.getElem?_eq_getElem (by omega), Option.bind_some]
      split
      · exact ⟨_, rfl, nofun⟩
      · exact ih (by omega) (by omega) hroom (by omega)
    rw [if_neg hhigh, if_neg (by omega)]
    by_cases hzero : lb = 0
    · rw [if_pos hzero, hzero]
      exact ⟨_, rfl, fun t ht => Except.ok.inj ht ▸ .done hroom⟩
    rw [if_neg hzero]
    split
    · exact ⟨_, rfl, nofun⟩
    split
    · exact ⟨_, rfl, nofun⟩
    rename_i hin hfits
    obtain ⟨l, hcopied, hl, hlb, hlength⟩ := label_of_byte hhigh hzero (by omega : i + 1 + lb.toNat ≤ msg.length)
    have hsize : dnsNameBufSize = 256 := rfl
    have hgrown := hlength tgt
    rw [hcopied, Option.bind_some]
    obtain ⟨r, hr, hnames⟩ := @ih (tgt ++ lb :: l) (i + 1 + lb.toNat) hops (by omega) hhops (by omega) (by omega)
    exact ⟨r, hr, fun t ht => .cons hl (hlb ▸ hnames t ht)⟩

/-- What is left of the data, after the part of a name that is at the place itself, and the name. -/
structure Taken (msg : List UInt8) (i newsz : Nat) (tgt : List UInt8) (left : Nat) (t : List UInt8) : Prop where
  names : Names tgt t
  less : left < newsz
  within : i + (newsz - left) ≤ msg.length

/-- So it does before one, and what it returns is a name that was taken from the message. -/
theorem direct_total {newsz : Nat} (hi : i < msg.length) (hsz : 0 < newsz) (hroom : tgt.length < dnsNameBufSize)
    (hfuel : 255 + (255 - tgt.length) < fuel) :
    ∃ r, direct msg fuel i newsz tgt = some r ∧ ∀ left t, r = .ok (left, t) → Taken msg i newsz tgt left t := by
  obtain ⟨newsz, rfl⟩ : ∃ k, newsz = k + 1 := ⟨newsz - 1, by omega⟩
  induction fuel generalizing i newsz tgt with
  | zero => exact absurd hfuel (Nat.not_lt_zero _)
  | succ fuel ih =>
    unfold direct
    rw [List.getElem?_eq_getElem hi, Option.bind_some]
    generalize msg[i] = lb
    by_cases hhigh : 0x3f < lb
    · rw [if_pos hhigh]
      split
      · exact ⟨_, rfl, nofun⟩
      split
      · exact ⟨_, rfl, nofun⟩
      split
      · exact ⟨_, rfl, nofun⟩
      rename_i hleft hnext
      rw [List.getElem?_eq_getElem (by omega), Option.bind_some]
      split
      · exact ⟨_, rfl, nofun⟩
      rename_i hin
      obtain ⟨r, hr, hnames⟩ := @jumped_total msg tgt _ fuel 1 (Nat.lt_of_not_le hin) (by omega) hroom (by omega)
      refine ⟨_, by rw [hr]; rfl, fun left t ht => ?_⟩
      cases r with
      | error _ => cases ht
      | ok t' =>
        obtain ⟨rfl, rfl⟩ := Prod.mk.inj (Except.ok.inj ht)
        exact ⟨hnames _ rfl, by omega, by omega⟩
    rw [if_neg hhigh, if_neg (by omega)]
    by_cases hzero : lb = 0
    · rw [if_pos hzero, hzero]
      refine ⟨_, rfl, fun left t ht => ?_⟩
      obtain ⟨rfl, rfl⟩ := Prod.mk.inj (Except.ok.inj ht)
      exact ⟨.done hroom, by omega, by omega⟩
    rw [if_neg hzero]
    split
    · exact ⟨_, rfl, nofun⟩
    split
    · exact ⟨_, rfl, nofun⟩
    split
    · exact ⟨_, rfl, nofun⟩
    rename_i hdata hin hfits
    obtain ⟨l, hcopied, hl, hlb, hlength⟩ := label_of_byte hhigh hzero (by omega : i + 1 + lb.toNat ≤ msg.length)
    have hsize : dnsNameBufSize = 256 := rfl
    have hgrown := hlength tgt
    obtain ⟨rest, hrest⟩ : ∃ k, newsz - lb.toNat = k + 1 := ⟨newsz - lb.toNat - 1, by omega⟩
    rw [hcopied, Option.bind_some, hrest]
    obtain ⟨r, hr, htaken⟩ := @ih (tgt ++ lb :: l) (i + 1 + lb.toNat) (by omega) (by omega) (by omega) rest (by omega)
    refine ⟨r, hr, fun left t ht => ?_⟩
    obtain ⟨hnames, hless, hwithin⟩ := htaken left t ht
    exact ⟨.cons hl (hlb ▸ hnames), by omega, by omega⟩

/-- **Any message can be decompressed from anywhere**: the loops end, nothing outside of the message is read or of the
buffer written, and what is accepted is a name, with the source pointer moved on within the message by what the size
is less. -/
theorem decompressed_well_formed (msg : List UInt8) (src sz : Nat) :
    ∃ r, decompressName 512 msg src sz = some r ∧
      ∀ d, r = .ok d → (∃ n : Name, d.tgt = n.bytes) ∧ src < d.src ∧ d.src ≤ msg.length ∧ d.src + d.sz = src + sz := by
  unfold decompressName
  split
  · exact ⟨_, rfl, nofun⟩
  split
  · exact ⟨_, rfl, nofun⟩
  rename_i hsz hin
  obtain ⟨r, hr, htaken⟩ := @direct_total msg [] src 512 sz (Nat.lt_of_not_le hin) (Nat.pos_of_ne_zero hsz) (by decide)
    (by decide)
  refine ⟨_, by rw [hr]; rfl, fun d hd => ?_⟩
  cases r with
  | error _ => cases hd
  | ok result =>
    obtain ⟨left, t⟩ := result
    obtain ⟨⟨ls, hls, ht, hlength⟩, hless, hwithin⟩ := htaken left t rfl
    obtain rfl := Except.ok.inj hd
    have hshort : (encode ls).length < 256 := by
      rw [ht, List.nil_append, List.length_append] at hlength
      exact hlength
    exact ⟨⟨⟨ls, hls, hshort⟩, ht⟩, by dsimp only; omega, hwithin, by dsimp only; omega⟩

/-! ## The match -/

/-- The length byte of a label. -/
def lengthByte (l : List UInt8) : UInt8 := UInt8.ofNat l.length

theorem getElem?_end (bs rest : List UInt8) (b : UInt8) : (bs ++ b :: rest)[bs.length]? = some b := by
  rw [List.getElem?_append_right (Nat.le_refl _), Nat.sub_self]
  rfl

/-- The length of an encoded name is found by walking its labels. -/
theorem rhnlen_encode (pre : List UInt8) (hls : ∀ l ∈ ls, IsLabel l) (hfuel : ls.length < fuel) :
    rhnlen (pre ++ (encode ls ++ [0])) fuel pre.length = some (pre ++ (encode ls ++ [0])).length := by
  induction ls generalizing pre fuel with
  | nil =>
    obtain ⟨fuel, rfl⟩ : ∃ k, fuel = k + 1 := ⟨fuel - 1, by omega⟩
    rw [encode_nil, List.nil_append, rhnlen, getElem?_end, Option.bind_some, if_pos rfl, List.length_append]
    rfl
  | cons l ls ih =>
    obtain ⟨fuel, rfl⟩ : ∃ k, fuel = k + 1 := ⟨fuel - 1, by omega⟩
    obtain ⟨hl, hls⟩ := List.forall_mem_cons.mp hls
    have hnext := ih (pre ++ UInt8.ofNat l.length :: l) hls (Nat.lt_of_succ_lt_succ hfuel)
    rw [List.append_assoc, List.cons_append, List.length_append, List.length_cons, ← Nat.add_assoc, Nat.add_right_comm] at hnext
    rw [encode_cons, List.cons_append, rhnlen, getElem?_end, Option.bind_some, if_neg (length_byte hl).2, hl.toNat,
      List.append_assoc]
    exact hnext

/-- The walk also collects the length bytes, which the match goes back over. -/
theorem lengthBytes_encode {room : Nat} (pre : List UInt8) (hls : ∀ l ∈ ls, IsLabel l) (hroom : ls.length ≤ room) :
    lengthBytes (pre ++ (encode ls ++ [0])) room pre.length = some (ls.map lengthByte, (pre ++ encode ls).length) := by
  induction ls generalizing pre room with
  | nil =>
    rw [encode_nil, List.nil_append, List.append_nil]
    cases room <;> rw [lengthBytes, getElem?_end] <;> rfl
  | cons l ls ih =>
    obtain ⟨room, rfl⟩ : ∃ k, room = k + 1 := ⟨room - 1, by rw [List.length_cons] at hroom; omega⟩
    obtain ⟨hl, hls⟩ := List.forall_mem_cons.mp hls
    have hnext := ih (pre ++ UInt8.ofNat l.length :: l) hls (Nat.le_of_succ_le_succ hroom)
    rw [List.append_assoc, List.append_assoc, List.cons_append, List.length_append, List.length_cons, ← Nat.add_assoc] at hnext
    rw [encode_cons, List.cons_append, lengthBytes, getElem?_end, Option.bind_some, if_neg (length_byte hl).2, hl.toNat,
      List.append_assoc, hnext]
    rfl

/-- The last label of a reversed list is the first one met from the end. -/
theorem encode_reverse_cons (l : List UInt8) (ra : List (List UInt8)) :
    encode (l :: ra).reverse = encode ra.reverse ++ lengthByte l :: l := by
  rw [List.reverse_cons, encode_append, encode_cons, encode_nil, List.append_nil]
  rfl

/-- The last label of a name, cut out of its bytes. -/
theorem lastLabel (l : List UInt8) (ra : List (List UInt8)) (rest : List UInt8) :
    ((encode (l :: ra).reverse ++ rest).take (encode (l :: ra).reverse).length).drop
      ((encode (l :: ra).reverse).length - l.length) = l := by
  have hsplit : encode (l :: ra).reverse = (encode ra.reverse ++ [lengthByte l]) ++ l := by
    rw [encode_reverse_cons, List.append_assoc]
    rfl
  have hlength : (encode (l :: ra).reverse).length - l.length = (encode ra.reverse ++ [lengthByte l]).length := by
    rw [hsplit, List.length_append]
    omega
  rw [List.take_left', hlength, hsplit, List.drop_left']
  · rfl
  · rfl

/-- The bytes before the last label. -/
theorem before_lastLabel (l : List UInt8) (ra : List (List UInt8)) :
    (encode (l :: ra).reverse).length - l.length - 1 = (encode ra.reverse).length := by
  rw [encode_reverse_cons, List.length_append, List.length_cons]
  omega

/-- Going back over two names counts the labels they share at the end, whatever the case of their letters. -/
theorem matchBack_encode {ra rb : List (List UInt8)} (resta restb : List UInt8) (k : Nat) (ha : ∀ l ∈ ra, IsLabel l)
    (hb : ∀ l ∈ rb, IsLabel l) :
    matchBack (encode ra.reverse ++ resta) (encode rb.reverse ++ restb) (ra.map lengthByte) (rb.map lengthByte)
        (encode ra.reverse).length (encode rb.reverse).length k =
      (k + inCommon (fold ra) (fold rb), (encode (ra.drop (inCommon (fold ra) (fold rb))).reverse).length,
        (encode (rb.drop (inCommon (fold ra) (fold rb))).reverse).length) := by
  induction ra generalizing rb resta restb k with
  | nil => cases rb <;> rfl
  | cons l ra ih =>
    cases rb with
    | nil => rfl
    | cons m rb =>
      obtain ⟨hl, ha⟩ := List.forall_mem_cons.mp ha
      obtain ⟨hm, hb⟩ := List.forall_mem_cons.mp hb
      have hlb : (lengthByte l).toNat = l.length := hl.toNat
      have hmb : (lengthByte m).toNat = m.length := hm.toNat
      have hfold : ∀ (l : List UInt8) ls, fold (l :: ls) = l.map tolower :: fold ls := fun _ _ => rfl
      rw [List.map_cons, List.map_cons, matchBack, hlb, lastLabel, hfold, hfold, inCommon]
      by_cases hlength : l.length = m.length
      · have hbyte : lengthByte l = lengthByte m := congrArg UInt8.ofNat hlength
        rw [hlength, lastLabel]
        by_cases heq : l.map tolower = m.map tolower
        · have hnext := ih (lengthByte l :: l ++ resta) (lengthByte m :: m ++ restb) (k + 1) ha hb
          rw [← List.append_assoc, ← List.append_assoc, ← encode_reverse_cons, ← encode_reverse_cons] at hnext
          rw [if_pos ⟨hbyte, heq⟩, if_pos heq, before_lastLabel, ← hlength, before_lastLabel, hnext, List.drop_succ_cons,
            List.drop_succ_cons, Nat.add_right_comm, Nat.add_assoc]
        · rw [if_neg fun h => heq h.2, if_neg heq]
          rfl
      · have hbyte : lengthByte l ≠ lengthByte m := fun h => hlength (hlb.symm.trans ((congrArg UInt8.toNat h).trans hmb))
        have heq : l.map tolower ≠ m.map tolower := fun h => hlength (by simpa using congrArg List.length h)
        rw [if_neg fun h => hbyte h.1, if_neg heq]
        rfl

/-- Where a label is in the bytes of a name. -/
def place (n : Name) (k : Nat) : Nat := (encode (n.labels.take k)).length

/-- Where the labels begin that a name has in common with another. -/
def common (n m : Name) : Nat := n.labels.length - inCommonEnd m.labels n.labels

/-- The match returns that count and where the shared end starts in both names. -/
theorem domainMatch_bytes (n m : Name) :
    domainMatch n.bytes m.bytes =
      some (inCommonEnd n.labels m.labels, place n (n.labels.length - inCommonEnd n.labels m.labels), place m (common m n)) := by
  have hn := lengthBytes_encode [] n.valid (Nat.le_of_lt n.few)
  have hm := lengthBytes_encode [] m.valid (Nat.le_of_lt m.few)
  rw [List.nil_append, List.nil_append, List.length_nil] at hn hm
  have hback := @matchBack_encode n.labels.reverse m.labels.reverse [0] [0] 0 (by simpa using n.valid) (by simpa using m.valid)
  have hcommon : inCommon (fold n.labels.reverse) (fold m.labels.reverse) = inCommonEnd n.labels m.labels := by
    rw [fold, fold, List.map_reverse, List.map_reverse]
    rfl
  rw [List.reverse_reverse, List.reverse_reverse, hcommon, List.drop_reverse, List.drop_reverse, List.reverse_reverse,
    List.reverse_reverse, List.map_reverse, List.map_reverse, Nat.zero_add] at hback
  rw [domainMatch, Name.bytes, Name.bytes, hn, Option.bind_some]
  dsimp only
  rw [hm]
  exact congrArg some hback

/-! ## The longest match -/

/-- An element of the list, and how many of its labels are in the message where it is, which is no part of the
program. -/
structure Entry where
  index : Nat
  name : Name
  own : Nat

def Entry.compel (e : Entry) : Compel := ⟨e.index, e.name.bytes⟩

/-- How many labels a name and an element have in common. -/
def Entry.shared (n : Name) (e : Entry) : Nat := inCommonEnd n.labels e.name.labels

/-- Where a pointer to them would point. -/
def Entry.target (n : Name) (e : Entry) : Nat := e.index + place e.name (common e.name n)

/-- What is stored when an element is chosen. -/
def Entry.chosen (n : Name) (e : Entry) : Longest :=
  ⟨e.shared n, place n (n.labels.length - e.shared n), e.target n⟩

/-- A table entry is preferred when it shares more and a pointer still reaches it. -/
theorem longer_compel (n : Name) (best : Longest) (e : Entry) :
    longer n.bytes best e.compel = some (if best.longest < e.shared n ∧ e.target n ≤ 0x3fff then e.chosen n else best) := by
  rw [longer, Entry.compel, domainMatch_bytes]
  rfl

/-- The elements before one that can be pointed to have less in common with the name. -/
def First (n : Name) (es : List Entry) (e : Entry) : Prop :=
  e.target n ≤ 0x3fff ∧ ∃ pre post, es = pre ++ e :: post ∧ ∀ e' ∈ pre, e'.target n ≤ 0x3fff → e'.shared n < e.shared n

/-- **The loop chooses the first of the longest matches** that can be pointed to, if it is longer than what was there. -/
theorem longest_first (n : Name) (es : List Entry) (best : Longest) :
    ∃ best', (es.map Entry.compel).foldlM (longer n.bytes) best = some best' ∧ best.longest ≤ best'.longest ∧
      (∀ e ∈ es, e.target n ≤ 0x3fff → e.shared n ≤ best'.longest) ∧
      (best' = best ∨ ∃ e, First n es e ∧ best' = e.chosen n ∧ best.longest < e.shared n) := by
  induction es generalizing best with
  | nil => exact ⟨best, rfl, Nat.le_refl _, nofun, .inl rfl⟩
  | cons e es ih =>
    rw [List.map_cons, List.foldlM_cons, longer_compel]
    by_cases hlonger : best.longest < e.shared n ∧ e.target n ≤ 0x3fff
    · rw [if_pos hlonger]
      obtain ⟨best', hfold, hle, hall, hfirst⟩ := ih (e.chosen n)
      refine ⟨best', hfold, Nat.le_trans (Nat.le_of_lt hlonger.1) hle, List.forall_mem_cons.mpr ⟨fun _ => hle, hall⟩, .inr ?_⟩
      obtain rfl | ⟨e', ⟨htarget, pre, post, rfl, hpre⟩, hchosen, hless⟩ := hfirst
      · exact ⟨e, ⟨hlonger.2, [], es, rfl, nofun⟩, rfl, hlonger.1⟩
      · exact ⟨e', ⟨htarget, e :: pre, post, rfl, List.forall_mem_cons.mpr ⟨fun _ => hless, hpre⟩⟩, hchosen,
          Nat.lt_trans hlonger.1 hless⟩
    · rw [if_neg hlonger]
      obtain ⟨best', hfold, hle, hall, hfirst⟩ := ih best
      have hshort : e.target n ≤ 0x3fff → e.shared n ≤ best.longest := fun htarget => by
        by_contra hmore
        exact hlonger ⟨Nat.lt_of_not_le hmore, htarget⟩
      refine ⟨best', hfold, hle, List.forall_mem_cons.mpr ⟨fun htarget => Nat.le_trans (hshort htarget) hle, hall⟩, ?_⟩
      obtain rfl | ⟨e', ⟨htarget, pre, post, rfl, hpre⟩, hchosen, hless⟩ := hfirst
      · exact .inl rfl
      · exact .inr ⟨e', ⟨htarget, e :: pre, post, rfl, List.forall_mem_cons.mpr
          ⟨fun htarget => Nat.lt_of_le_of_lt (hshort htarget) hless, hpre⟩⟩, hchosen, hless⟩

/-! ## What is in the message -/

theorem At.drop {xs ys : List UInt8} (hat : At msg i (xs ++ ys)) : At msg (i + xs.length) ys := by
  obtain ⟨rest, hrest⟩ := hat
  refine ⟨rest, ?_⟩
  rw [← List.drop_drop, ← hrest, List.append_assoc, List.drop_left']
  rfl

theorem At.take {xs ys : List UInt8} (hat : At msg i (xs ++ ys)) : At msg i xs := (List.prefix_append xs ys).trans hat

theorem At.written (msg bs : List UInt8) : At (msg ++ bs) msg.length bs := by
  unfold At
  rw [List.drop_left']
  rfl

/-- There are labels in the message at an offset, the first of them not behind a pointer. -/
def Starts (msg : List UInt8) (i : Nat) (ls : List (List UInt8)) : Prop :=
  ∃ l ms e h, ls = l :: ms ∧ IsLabel l ∧ At msg i (UInt8.ofNat l.length :: l) ∧ Reads msg (i + 1 + l.length) e ms h

/-- What starts at an offset still does when the message grows. -/
theorem Starts.append (hs : Starts msg i ls) (more : List UInt8) : Starts (msg ++ more) i ls := by
  obtain ⟨l, ms, e, h, rfl, hl, hat, hr⟩ := hs
  exact ⟨l, ms, e, h, rfl, hl, hat.append more, hr.append more⟩

/-- A name starts inside the message. -/
theorem Starts.inside (hs : Starts msg i ls) : i < msg.length := by
  obtain ⟨l, ms, e, h, rfl, hl, hat, hr⟩ := hs
  have hbounds := hr.bounds
  omega

/-- A pointer to labels. -/
theorem Starts.pointer {n : Nat} (hs : Starts msg n ls) (hn : n ≤ 0x3fff)
    (hat : At msg i [0xc0 ||| UInt8.ofNat (n / 256), UInt8.ofNat n]) : ∃ h, Reads msg i (i + 2) ls h := by
  obtain ⟨l, ms, e, h, rfl, hl, hto, hr⟩ := hs
  exact ⟨h + 1, .pointer hn hat hl hto hr⟩

/-- The first of some labels before what is read. -/
theorem Reads.first (hat : At msg i (encode (l :: ls))) (hr : Reads msg (i + (encode (l :: ls)).length) e ms h) :
    At msg i (UInt8.ofNat l.length :: l) ∧ At msg (i + 1 + l.length) (encode ls) ∧
      Reads msg (i + 1 + l.length + (encode ls).length) e ms h := by
  have hend : i + (encode (l :: ls)).length = i + 1 + l.length + (encode ls).length := by
    rw [encode_cons, List.length_cons, List.length_append]
    omega
  rw [hend] at hr
  rw [encode_cons, ← List.cons_append] at hat
  have hnext := hat.drop
  rw [List.length_cons, Nat.add_comm l.length, ← Nat.add_assoc] at hnext
  exact ⟨hat.take, hnext, hr⟩

/-- Labels written in front of a readable name make a longer readable name. -/
theorem Reads.prepend (hls : ∀ l ∈ ls, IsLabel l) (hat : At msg i (encode ls)) (hr : Reads msg (i + (encode ls).length) e ms h) :
    Reads msg i e (ls ++ ms) h := by
  induction ls generalizing i with
  | nil => exact hr
  | cons l ls ih =>
    obtain ⟨hlabel, hnext, hrest⟩ := hr.first hat
    obtain ⟨hl, hls⟩ := List.forall_mem_cons.mp hls
    exact .label hl hlabel (ih hls hnext hrest)

/-- Each of its labels starts a readable end of it. -/
theorem Reads.starts {k : Nat} (hls : ∀ l ∈ ls, IsLabel l) (hat : At msg i (encode ls))
    (hr : Reads msg (i + (encode ls).length) e ms h) (hk : k < ls.length) :
    Starts msg (i + (encode (ls.take k)).length) (ls.drop k ++ ms) := by
  have hfrom : At msg (i + (encode (ls.take k)).length) (encode (ls.drop k)) := by
    rw [← List.take_append_drop k ls, encode_append] at hat
    exact hat.drop
  have hto : Reads msg (i + (encode (ls.take k)).length + (encode (ls.drop k)).length) e ms h := by
    rwa [Nat.add_assoc, ← List.length_append, ← encode_append, List.take_append_drop]
  have hvalid : ∀ m ∈ ls.drop k, IsLabel m := fun m hm => hls m (List.mem_of_mem_drop hm)
  cases hdrop : ls.drop k with
  | nil => exact absurd (List.drop_eq_nil_iff.mp hdrop) (Nat.not_le.mpr hk)
  | cons l rest =>
    rw [hdrop] at hfrom hto hvalid
    obtain ⟨hlabel, hnext, hrest⟩ := hto.first hfrom
    obtain ⟨hl, hvalid⟩ := List.forall_mem_cons.mp hvalid
    exact ⟨l, rest ++ ms, e, h, rfl, hl, hlabel, hrest.prepend hvalid hnext⟩

/-- Later labels stand further behind. -/
theorem place_mono (n : Name) {j k : Nat} (hjk : j ≤ k) : place n j ≤ place n k := by
  have hsplit := congrArg encode (List.take_append_drop j (n.labels.take k))
  rw [List.take_take, Nat.min_eq_left hjk, encode_append] at hsplit
  rw [place, place, ← hsplit, List.length_append]
  exact Nat.le_add_right _ _

theorem valid_take (n : Name) (k : Nat) : ∀ l ∈ n.labels.take k, IsLabel l :=
  fun l hl => n.valid l (List.mem_of_mem_take hl)

/-- The bytes of a name up to some label, and from there on. -/
theorem bytes_split (n : Name) (k : Nat) : n.bytes = encode (n.labels.take k) ++ (encode (n.labels.drop k) ++ [0]) := by
  rw [← List.append_assoc, ← encode_append, List.take_append_drop]
  rfl

/-! ## The list of names -/

/-- What is known of the list: so many labels of a name are in the message where it is, and what the rest reads as is
there for an earlier one too. -/
structure Kept (msg : List UInt8) (cb : List Compel) (es : List Entry) : Prop where
  list : cb = es.map Entry.compel
  own : ∀ e ∈ es, ∀ k < e.own, ∃ ls, Starts msg (e.index + place e.name k) ls ∧ fold ls = fold (e.name.labels.drop k)
  earlier : ∀ pre e post, es = pre ++ e :: post → ∀ k, e.own ≤ k → k < e.name.labels.length →
    ∃ e' ∈ pre, ∃ k' < e'.own, e'.index + place e'.name k' ≤ e.index ∧
      fold (e'.name.labels.drop k') = fold (e.name.labels.drop k)

/-- The table stays right when bytes are written behind the message. -/
theorem Kept.append {cb : List Compel} {es : List Entry} (kept : Kept msg cb es) (more : List UInt8) :
    Kept (msg ++ more) cb es := by
  refine ⟨kept.list, fun e he k hk => ?_, kept.earlier⟩
  obtain ⟨ls, hs, hfold⟩ := kept.own e he k hk
  exact ⟨ls, hs.append more, hfold⟩

theorem Kept.grow {cb : List Compel} {es : List Entry} {e : Entry} (kept : Kept msg cb es)
    (own : ∀ k < e.own, ∃ ls, Starts msg (e.index + place e.name k) ls ∧ fold ls = fold (e.name.labels.drop k))
    (earlier : ∀ k, e.own ≤ k → k < e.name.labels.length → ∃ e' ∈ es, ∃ k' < e'.own,
      e'.index + place e'.name k' ≤ e.index ∧ fold (e'.name.labels.drop k') = fold (e.name.labels.drop k)) :
    Kept msg (cb ++ [e.compel]) (es ++ [e]) := by
  refine ⟨?_, ?_, fun pre e' post hsplit => ?_⟩
  · rw [kept.list, List.map_append]
    rfl
  · intro e' he'
    obtain he' | rfl := List.mem_append.mp he' |>.imp_right List.mem_singleton.mp
    · exact kept.own e' he'
    · exact own
  · obtain rfl | ⟨post, last, rfl⟩ := List.eq_nil_or_concat post
    · obtain ⟨rfl, hlast⟩ := List.append_inj' hsplit rfl
      obtain rfl := List.singleton_inj.mp hlast
      exact earlier
    · rw [List.concat_eq_append, ← List.cons_append, ← List.append_assoc] at hsplit
      exact kept.earlier pre e' post (List.append_inj' hsplit rfl).1

/-- **The first longest match is at a label that is in the message**: from one that is not, an earlier element would
have as much in common and could be pointed to. -/
theorem Kept.there {cb : List Compel} {es : List Entry} {e : Entry} {n : Name} (kept : Kept msg cb es) (hfirst : First n es e)
    (hshared : 0 < e.shared n) : common e.name n < e.own := by
  obtain ⟨htarget, pre, post, rfl, hpre⟩ := hfirst
  by_contra hout
  have hle := inCommonEnd_le n.labels e.name.labels
  have hshares : inCommonEnd n.labels e.name.labels = e.shared n := rfl
  obtain ⟨e', he', k', hk', hindex, hfold⟩ := kept.earlier pre e post rfl (common e.name n) (Nat.le_of_not_lt hout)
    (by rw [common]; omega)
  have hlength := congrArg List.length hfold
  rw [length_fold, length_fold, List.length_drop, List.length_drop, common] at hlength
  have hlast : e'.name.labels.drop k' = lastOf (e.shared n) e'.name.labels := by
    rw [lastOf, (by omega : k' = e'.name.labels.length - e.shared n)]
  have hmore : e.shared n ≤ e'.shared n := by
    refine le_inCommonEnd hle.1 (by omega) ?_
    rw [← hlast, hfold]
    exact fold_inCommonEnd n.labels e.name.labels
  have hearlier : common e'.name n ≤ k' := by
    have hmore' : e.shared n ≤ inCommonEnd n.labels e'.name.labels := hmore
    rw [common]
    omega
  have hreach : e'.target n ≤ 0x3fff := by
    have hplace := place_mono e'.name hearlier
    rw [Entry.target] at htarget ⊢
    omega
  exact absurd (hpre e' he' hreach) (Nat.not_lt.mpr hmore)

/-- The name is in the message, in no more bytes than it has, but for the case of its letters. -/
def Written (msg : List UInt8) (i w : Nat) (n : Name) : Prop :=
  w ≤ n.bytes.length ∧ ∃ (n' : Name) (h : Nat), fold n'.labels = fold n.labels ∧ Reads msg i (i + w) n'.labels h

/-- A name that was written can still be read back when more follows. -/
theorem Written.append {w : Nat} {n : Name} (hw : Written msg i w n) (more : List UInt8) : Written (msg ++ more) i w n := by
  obtain ⟨hle, n', h, hfold, hr⟩ := hw
  exact ⟨hle, n', h, hfold, hr.append more⟩

/-- Labels of a name that were written, and what is read after them. -/
structure Tail (msg rest : List UInt8) (n : Name) (q : Nat) (ls : List (List UInt8)) : Prop where
  inside : q ≤ n.labels.length
  same : fold ls = fold (n.labels.drop q)
  reads : ∃ h, Reads (msg ++ (encode (n.labels.take q) ++ rest)) (msg.length + place n q)
    (msg.length + place n q + rest.length) ls h

/-- The labels in front and those behind the pointer are the name, but for case. -/
theorem Tail.labels {rest : List UInt8} {n : Name} {q : Nat} (ht : Tail msg rest n q ls) :
    fold (n.labels.take q ++ ls) = fold n.labels := by
  rw [fold_append, ht.same, ← fold_append, List.take_append_drop]

/-- A name written with such a tail is read back, and takes no more bytes than it has. -/
theorem Tail.written {rest : List UInt8} {n : Name} {q : Nat} (ht : Tail msg rest n q ls)
    (hshort : place n q + rest.length ≤ n.bytes.length) :
    Written (msg ++ (encode (n.labels.take q) ++ rest)) msg.length (encode (n.labels.take q) ++ rest).length n := by
  obtain ⟨h, hr⟩ := ht.reads
  have hread := hr.prepend (valid_take n q) (At.written msg _).take
  rw [Nat.add_assoc] at hread
  rw [List.length_append]
  exact ⟨hshort, ⟨_, hread.valid, length_encode_of_fold ht.labels ▸ n.short⟩, h, ht.labels, hread⟩

/-- The labels written in front can be pointed at in turn. -/
theorem Tail.own {rest : List UInt8} {n : Name} {q k : Nat} (ht : Tail msg rest n q ls) (hk : k < q) :
    ∃ ls, Starts (msg ++ (encode (n.labels.take q) ++ rest)) (msg.length + place n k) ls ∧ fold ls = fold (n.labels.drop k) := by
  obtain ⟨h, hr⟩ := ht.reads
  have hinside := ht.inside
  have hlength : k < (n.labels.take q).length := by
    rw [List.length_take]
    omega
  have hs := hr.starts (valid_take n q) (At.written msg _).take hlength
  rw [List.take_take, Nat.min_eq_left (Nat.le_of_lt hk)] at hs
  refine ⟨_, hs, ?_⟩
  rw [← List.drop_append_of_le_length (Nat.le_of_lt hlength), fold_drop, ht.labels, fold_drop]

/-- From the first longest match on, the name is what the element is. -/
theorem Entry.same {n : Name} {e : Entry} :
    fold (e.name.labels.drop (common e.name n)) = fold (n.labels.drop (n.labels.length - e.shared n)) :=
  (fold_inCommonEnd n.labels e.name.labels).symm

/-- The bytes of a pointer. -/
def pointer (offs : Nat) : List UInt8 := [0xc0 ||| UInt8.ofNat (offs / 256), UInt8.ofNat offs]

/-- The entry that shares most gives a tail: a pointer to a place where the shared labels are read. -/
theorem Kept.tail {cb : List Compel} {es : List Entry} {e : Entry} {n : Name} (kept : Kept msg cb es) (hfirst : First n es e)
    (hshared : 0 < e.shared n) : ∃ ls, Tail msg (pointer (e.target n)) n (n.labels.length - e.shared n) ls := by
  have hown := kept.there hfirst hshared
  obtain ⟨htarget, pre, post, rfl, -⟩ := hfirst
  obtain ⟨ls, hs, hfold⟩ := kept.own e (List.mem_append_right pre List.mem_cons_self) _ hown
  have hpointer := (At.written msg (encode (n.labels.take (n.labels.length - e.shared n)) ++ pointer (e.target n))).drop
  obtain ⟨h, hr⟩ := (hs.append _).pointer htarget hpointer
  exact ⟨ls, Nat.sub_le _ _, hfold.trans Entry.same, h, hr⟩

/-- What the pointer stands for is at labels of an earlier element. -/
theorem Kept.behind {cb : List Compel} {es : List Entry} {e : Entry} {n : Name} {k : Nat} (kept : Kept msg cb es)
    (hfirst : First n es e) (hle : n.labels.length - e.shared n ≤ k) (hlt : k < n.labels.length) :
    ∃ e' ∈ es, ∃ k' < e'.own, e'.index + place e'.name k' ≤ msg.length ∧
      fold (e'.name.labels.drop k') = fold (n.labels.drop k) := by
  have hshares := inCommonEnd_le n.labels e.name.labels
  have hcommon : common e.name n = e.name.labels.length - e.shared n := rfl
  obtain ⟨j, rfl⟩ := Nat.exists_eq_add_of_le hle
  have hsame : fold (e.name.labels.drop (common e.name n + j)) = fold (n.labels.drop (n.labels.length - e.shared n + j)) := by
    rw [← List.drop_drop, ← List.drop_drop, fold_drop, Entry.same, ← fold_drop]
  have hlt : common e.name n + j < e.name.labels.length := by
    have hle : e.shared n ≤ e.name.labels.length := hshares.2
    have hle : e.shared n ≤ n.labels.length := hshares.1
    omega
  obtain ⟨htarget, pre, post, rfl, -⟩ := hfirst
  have he : e ∈ pre ++ e :: post := List.mem_append_right pre List.mem_cons_self
  obtain hown | hown := Nat.lt_or_ge (common e.name n + j) e.own
  · obtain ⟨ls, hs, -⟩ := kept.own e he _ hown
    exact ⟨e, he, _, hown, Nat.le_of_lt hs.inside, hsame⟩
  · obtain ⟨e', he', k', hk', -, hfold⟩ := kept.earlier pre e post rfl _ hown hlt
    have he' := List.mem_append_left (e :: post) he'
    obtain ⟨ls, hs, -⟩ := kept.own e' he' k' hk'
    exact ⟨e', he', k', hk', Nat.le_of_lt hs.inside, hfold.trans hsame⟩

/-- The pointer is not longer than what it stands for. -/
theorem place_pointer {n : Name} {r : Nat} (hr : 0 < r) (hle : r ≤ n.labels.length) :
    place n (n.labels.length - r) + 2 ≤ (encode n.labels).length := by
  have hsplit := congrArg List.length (congrArg encode (List.take_append_drop (n.labels.length - r) n.labels))
  have hrest := @length_le_encode (n.labels.drop (n.labels.length - r)) fun l hl => n.valid l (List.mem_of_mem_drop hl)
  rw [encode_append, List.length_append] at hsplit
  rw [List.length_drop] at hrest
  rw [place]
  omega

theorem rhnlen_bytes (n : Name) : rhnlen n.bytes n.bytes.length 0 = some n.bytes.length := by
  have hfew := length_le_encode n.valid
  have hlen := @rhnlen_encode n.labels n.bytes.length [] n.valid (by
    rw [Name.bytes, List.length_append, List.length_singleton]
    omega)
  rwa [List.nil_append, List.length_nil] at hlen

theorem bytes_length (n : Name) : n.bytes.length = (encode n.labels).length + 1 := by
  rw [Name.bytes, List.length_append, List.length_singleton]

/-- A name that is written out. -/
theorem Kept.whole {cb : List Compel} {es : List Entry} (kept : Kept msg cb es) (n : Name) :
    Written (msg ++ n.bytes) msg.length n.bytes.length n ∧ ∃ es', Kept (msg ++ n.bytes) (cb ++ [⟨msg.length, n.bytes⟩]) es' := by
  have hall : n.labels.take n.labels.length = n.labels := List.take_length
  have ht : Tail msg [0] n n.labels.length [] := by
    refine ⟨Nat.le_refl _, by rw [List.drop_length], 0, .done ?_⟩
    rw [place, hall, ← List.append_assoc, ← List.length_append, getElem?_end]
  have hwritten := ht.written (by rw [place, hall, bytes_length, List.length_singleton])
  have hgrown := @Kept.grow _ _ _ ⟨msg.length, n, n.labels.length⟩ (kept.append (encode (n.labels.take n.labels.length) ++ [0]))
    (fun k hk => ht.own hk) fun k hle hlt => absurd hlt (Nat.not_lt.mpr hle)
  rw [hall] at hwritten hgrown
  exact ⟨hwritten, _, hgrown⟩

/-- A name that ends with a pointer to the first longest match. -/
theorem Kept.pointed {cb : List Compel} {es : List Entry} {e : Entry} {n : Name} (kept : Kept msg cb es) (hfirst : First n es e)
    (hshared : 0 < e.shared n) :
    let out := n.bytes.take (e.chosen n).lrem ++ pointer (e.target n)
    Written (msg ++ out) msg.length out.length n ∧
      ∃ es', Kept (msg ++ out) (if (e.chosen n).lrem = 0 then cb else cb ++ [⟨msg.length, n.bytes⟩]) es' := by
  intro out
  obtain ⟨ls, ht⟩ := kept.tail hfirst hshared
  have hroom := place_pointer hshared (inCommonEnd_le n.labels e.name.labels).1
  have hout : out = encode (n.labels.take (n.labels.length - e.shared n)) ++ pointer (e.target n) := by
    show n.bytes.take (place n (n.labels.length - e.shared n)) ++ _ = _
    rw [bytes_split n (n.labels.length - e.shared n), List.take_left']
    rfl
  have hkept := kept.append out
  rw [hout] at hkept ⊢
  refine ⟨ht.written (by rw [bytes_length, pointer, List.length_cons, List.length_singleton]; omega), ?_⟩
  split
  · exact ⟨es, hkept⟩
  · exact ⟨_, @Kept.grow _ _ _ ⟨msg.length, n, n.labels.length - e.shared n⟩ hkept (fun k hk => ht.own hk)
      fun k hle hlt => kept.behind hfirst hle hlt⟩

/-- **A name can be written after any message**, and the list of names is again one of such names. -/
theorem Kept.compress {cb : List Compel} {es : List Entry} (kept : Kept msg cb es) (n : Name) :
    ∃ out cb', compressName n.bytes msg.length cb = some (out, cb') ∧ Written (msg ++ out) msg.length out.length n ∧
      ∃ es', Kept (msg ++ out) cb' es' := by
  have hshort : ¬ dnsNameBufSize < n.bytes.length := by
    have hshort := n.short
    rw [bytes_length, dnsNameBufSize]
    omega
  obtain ⟨best, hfold, -, -, hbest⟩ := longest_first n es ⟨0, 0, 0⟩
  rw [← kept.list] at hfold
  rw [compressName, rhnlen_bytes, Option.bind_some, if_neg hshort, hfold, Option.bind_some, List.take_length]
  obtain rfl | ⟨e, hfirst, rfl, hshared⟩ := hbest
  · exact ⟨_, _, rfl, kept.whole n⟩
  · have hroom := place_pointer hshared (inCommonEnd_le n.labels e.name.labels).1
    have hlrem : ¬ n.bytes.length < (e.chosen n).lrem + 2 := by
      show ¬ n.bytes.length < place n (n.labels.length - e.shared n) + 2
      rw [bytes_length]
      omega
    have hlongest : 0 < (e.chosen n).longest := hshared
    rw [if_pos hlongest, if_neg hlrem]
    exact ⟨_, _, rfl, kept.pointed hfirst hshared⟩

/-! ## Every message -/

/-- What is known of a message that is written. -/
structure Sound (m : Answer) : Prop where
  kept : ∃ es, Kept m.bytes m.cb es
  written : ∀ i w n, (i, w, n) ∈ m.names → Written m.bytes i w n

/-- Every piece keeps the answer sound. -/
theorem Sound.add {m m' : Answer} {p : Piece} (hs : Sound m) (hstep : m.add p = some m') : Sound m' := by
  obtain ⟨es, kept⟩ := hs.kept
  cases p with
  | raw bytes =>
    obtain rfl := Option.some.inj hstep
    exact ⟨⟨es, kept.append bytes⟩, fun i w n hmem => (hs.written i w n hmem).append bytes⟩
  | name n =>
    obtain ⟨out, cb, hcompress, hwritten, hkept⟩ := kept.compress n
    rw [Answer.add, hcompress] at hstep
    obtain rfl := Option.some.inj hstep
    refine ⟨hkept, fun i w n' hmem => ?_⟩
    obtain hmem | hmem := List.mem_append.mp hmem
    · exact (hs.written i w n' hmem).append out
    · obtain ⟨rfl, rfl, rfl⟩ : i = m.bytes.length ∧ w = out.length ∧ n' = n := by simpa using hmem
      exact hwritten

/-- The invariant of every answer that can be built. -/
theorem reachable_sound {m : Answer} (h : Reachable answers m) : Sound m := by
  refine h.invariant (fun m hinit => ?_) fun _ _ _ hs _ hstep => hs.add hstep
  obtain ⟨hcb, hnames⟩ := hinit
  refine ⟨⟨[], hcb, nofun, fun pre e post hsplit => absurd hsplit (by simp)⟩, fun i w n hmem => ?_⟩
  rw [hnames] at hmem
  exact absurd hmem List.not_mem_nil

/-- **Names are read back from any message**: whatever was written before, between and after them, each name that was
written is decompressed to the same name but for the case of letters, takes no more bytes than it has, and is left
behind by just these bytes; and a name can always be written, without a failed assertion. -/
theorem names_read_back {m : Answer} (h : Reachable answers m) :
    (∀ i w n, (i, w, n) ∈ m.names → w ≤ n.bytes.length ∧ ∃ n' : Name, fold n'.labels = fold n.labels ∧
      decompressName 512 m.bytes i (m.bytes.length - i) = some (.ok ⟨i + w, m.bytes.length - (i + w), n'.bytes⟩)) ∧
    ∀ n, (m.add (.name n)).isSome := by
  have hs := reachable_sound h
  refine ⟨fun i w n hmem => ?_, fun n => ?_⟩
  · obtain ⟨hle, n', hops, hfold, hr⟩ := hs.written i w n hmem
    exact ⟨hle, n', hfold, hr.decompressName n'.short⟩
  · obtain ⟨es, kept⟩ := hs.kept
    obtain ⟨out, cb, hcompress, -⟩ := kept.compress n
    rw [Answer.add, hcompress]
    rfl

/-- `www.ex`, and `EX`. -/
def wwwEx : Name := ⟨[[119, 119, 119], [101, 120]], by decide, by decide⟩
def upperEx : Name := ⟨[[69, 88]], by decide, by decide⟩

def wwwThenUpper : Option Answer := exec answers ⟨[7], [], []⟩ [.name wwwEx, .raw [1, 2], .name upperEx]

theorem names_read_back_upper :
    ∃ m, wwwThenUpper = some m ∧ m.bytes = [7, 3, 119, 119, 119, 2, 101, 120, 0, 1, 2, 0xc0, 5] ∧
      (∀ i w n, (i, w, n) ∈ m.names → w ≤ n.bytes.length ∧ ∃ n' : Name, fold n'.labels = fold n.labels ∧
        decompressName 512 m.bytes i (m.bytes.length - i) = some (.ok ⟨i + w, m.bytes.length - (i + w), n'.bytes⟩)) ∧
      ∀ n, (m.add (.name n)).isSome := by
  obtain ⟨m, hm⟩ := Option.isSome_iff_exists.mp (by decide +kernel : wwwThenUpper.isSome)
  have hbytes : wwwThenUpper.map Answer.bytes = some [7, 3, 119, 119, 119, 2, 101, 120, 0, 1, 2, 0xc0, 5] := by decide +kernel
  rw [hm] at hbytes
  exact ⟨m, hm, Option.some.inj hbytes, names_read_back (exec_reaches _ (.start ⟨rfl, rfl⟩) hm)⟩

end KiloProxy.Engine
