/-
What was encoded as an archive is read back.

The base is the varint: the reader holds the groups it has read as a
number below the place of the next group, so that joining a group by bits
is adding it (`readVarintFrom_writeVarint`). Everything above reads an
encoding wherever it stands and leaves the cursor behind it.

In the other direction nothing is assumed of the bytes: every reader
keeps to its input (`within_readVarint` and what follows), and the CIDs it
answers are of the codecs it supports.
-/
import OpenStandards.Atproto.Car

namespace OpenStandards.Atproto

open Lib

-- ==== varints

-- The facts about one byte are checked on all of them.

theorem group_continued (x : UInt8) :
    ((x &&& 0x7f) ||| 0x80) &&& 0x7f = x &&& 0x7f
      ∧ ((x &&& 0x7f) ||| 0x80) &&& 0x80 ≠ 0
      ∧ (x &&& 0x7f).toNat = x.toNat % 128 := by
  have hall : ∀ n < 256,
      ((UInt8.ofNat n &&& 0x7f) ||| 0x80) &&& 0x7f = UInt8.ofNat n &&& 0x7f
        ∧ ((UInt8.ofNat n &&& 0x7f) ||| 0x80) &&& 0x80 ≠ 0
        ∧ (UInt8.ofNat n &&& 0x7f).toNat = (UInt8.ofNat n).toNat % 128 := by
    decide +kernel
  have h := hall x.toNat x.toNat_lt
  simpa only [UInt8.ofNat_toNat] using h

theorem group_last {x : UInt8} (h : x.toNat < 128) : x &&& 0x80 = 0 := by
  have hall : ∀ n < 128, UInt8.ofNat n &&& 0x80 = 0 := by decide +kernel
  have hx := hall x.toNat h
  simpa only [UInt8.ofNat_toNat] using hx

theorem toNat_join {value : UInt64} (group : UInt8) {shift : Nat}
    (hshift : shift < 64) (hvalue : value.toNat < 2 ^ shift)
    (hfits : group.toNat * 2 ^ shift < 2 ^ 64) :
    (value ||| (group.toUInt64 <<< UInt64.ofNat shift)).toNat
      = value.toNat + group.toNat * 2 ^ shift := by
  have hplace : (UInt64.ofNat shift).toNat % 64 = shift := by
    rw [UInt64.toNat_ofNat']
    omega
  rw [UInt64.toNat_or, UInt64.toNat_shiftLeft, hplace, UInt8.toNat_toUInt64,
    Nat.shiftLeft_eq, Nat.mod_eq_of_lt hfits, Nat.or_comm,
    ← Nat.shiftLeft_eq, ← Nat.shiftLeft_add_eq_or_of_lt hvalue,
    Nat.shiftLeft_eq, Nat.add_comm]

theorem toNat_shiftRight_seven (v : UInt64) : (v >>> 7).toNat = v.toNat / 128 := by
  rw [UInt64.toNat_shiftRight]
  exact Nat.shiftRight_eq_div_pow _ 7

theorem toNat_lowGroup (v : UInt64) : (v.toUInt8 &&& 0x7f).toNat = v.toNat % 128 := by
  rw [(group_continued v.toUInt8).2.2, UInt64.toNat_toUInt8]
  omega

/-- The reader undoes the writer from every place that the value fits
behind. -/
theorem readVarintFrom_writeVarint (v : UInt64) (rest : List UInt8) :
    ∀ {value : UInt64} {shift : Nat} (i : Nat), value.toNat < 2 ^ shift →
      shift < 64 → v.toNat * 2 ^ shift < 2 ^ 64 →
      readVarintFrom value shift i (writeVarint v ++ rest)
        = .ok (UInt64.ofNat (value.toNat + v.toNat * 2 ^ shift),
            i + (writeVarint v).length) := by
  induction v using writeVarint.induct with
  | case1 v hle ih =>
    intro value shift i hvalue hshift hfits
    have hv : 128 ≤ v.toNat := UInt64.le_iff_toNat_le.1 hle
    obtain ⟨hgroup, hmore, -⟩ := group_continued v.toUInt8
    have hlow := toNat_lowGroup v
    have hhigh := toNat_shiftRight_seven v
    have hpow : 2 ^ (shift + 7) = 128 * 2 ^ shift := by
      rw [Nat.pow_add, Nat.mul_comm]
    have hsplit : v.toNat * 2 ^ shift
        = v.toNat % 128 * 2 ^ shift + v.toNat / 128 * 2 ^ (shift + 7) := by
      rw [hpow, ← Nat.mul_assoc, ← Nat.add_mul]
      congr 1
      omega
    have hjoin := toNat_join (v.toUInt8 &&& 0x7f) hshift hvalue (by rw [hlow]; omega)
    rw [hlow] at hjoin
    have hshift' : shift + 7 < 64 := by
      have hpos : 128 * 2 ^ shift ≤ v.toNat * 2 ^ shift :=
        Nat.mul_le_mul_right _ hv
      have hlt : 2 ^ (shift + 7) < 2 ^ 64 := by omega
      exact (Nat.pow_lt_pow_iff_right (by decide)).1 hlt
    have hvalue' : value.toNat + v.toNat % 128 * 2 ^ shift < 2 ^ (shift + 7) := by
      have hmod : v.toNat % 128 * 2 ^ shift ≤ 127 * 2 ^ shift :=
        Nat.mul_le_mul_right _ (by omega)
      omega
    rw [writeVarint, if_pos hle, List.cons_append, readVarintFrom, if_neg (by omega), hgroup]
    dsimp only
    rw [if_neg hmore, ih (i + 1) (by rw [hjoin]; exact hvalue') hshift'
      (by rw [hhigh]; omega), hjoin, hhigh, List.length_cons]
    congr 2
    · rw [hsplit, Nat.add_assoc]
    · omega
  | case2 v hlt =>
    intro value shift i hvalue hshift hfits
    have hv : v.toNat < 128 := by
      have := UInt64.lt_iff_toNat_lt.1 (UInt64.not_le.1 hlt)
      exact this
    have hbyte : v.toUInt8.toNat = v.toNat := by
      rw [UInt64.toNat_toUInt8]
      omega
    have hlow := toNat_lowGroup v
    rw [Nat.mod_eq_of_lt hv] at hlow
    have hjoin := toNat_join (v.toUInt8 &&& 0x7f) hshift hvalue (by rw [hlow]; exact hfits)
    rw [writeVarint, if_neg hlt, List.cons_append, readVarintFrom, if_neg (by omega)]
    dsimp only
    rw [if_pos (group_last (by omega))]
    rw [hlow] at hjoin
    congr 2
    apply UInt64.toNat_inj.1
    rw [hjoin, UInt64.toNat_ofNat', Nat.mod_eq_of_lt]
    rw [← hjoin]
    exact UInt64.toNat_lt _

theorem readVarint_writeVarint (v : UInt64) (rest : List UInt8) :
    readVarint (writeVarint v ++ rest) = .ok (v, (writeVarint v).length) := by
  have hv := v.toNat_lt
  have h : readVarintFrom 0 0 0 (writeVarint v ++ rest)
      = .ok (UInt64.ofNat (UInt64.toNat 0 + v.toNat * 2 ^ 0), 0 + (writeVarint v).length) :=
    readVarintFrom_writeVarint v rest 0 (by decide) (by decide) (by omega)
  unfold readVarint
  rw [h, Nat.zero_add, Nat.pow_zero, Nat.mul_one]
  congr 2
  show UInt64.ofNat (0 + v.toNat) = v
  rw [Nat.zero_add, UInt64.ofNat_toNat]

theorem confined_readVarintFrom (src : List UInt8) (value : UInt64) {shift : Nat} (i : Nat) :
    Confined (fun r => i < r.2 ∧ r.2 ≤ i + src.length ∧ 7 * (r.2 - i) + shift ≤ 70)
      (readVarintFrom value shift i src) := by
  induction src generalizing value shift i with
  | nil => exact Confined.err _
  | cons b rest ih =>
    rw [readVarintFrom]
    split
    · exact Confined.err _
    · dsimp only
      split
      · refine Confined.ok ⟨Nat.lt_succ_self i, ?_, ?_⟩
        · rw [List.length_cons]
          omega
        · omega
      · refine (ih _ (i + 1)).mono fun r hr => ?_
        rw [List.length_cons]
        omega

/-- The varint reader takes a byte at least, no more than there are, and
never more than ten. -/
theorem confined_readVarint (src : List UInt8) :
    Confined (fun r => 0 < r.2 ∧ r.2 ≤ src.length ∧ r.2 ≤ 10) (readVarint src) :=
  (confined_readVarintFrom src 0 0).mono fun r hr => by omega

theorem length_writeVarint (v : UInt64) :
    0 < (writeVarint v).length ∧ (writeVarint v).length ≤ 10 := by
  have h := (confined_readVarint (writeVarint v ++ [])).2 _ (readVarint_writeVarint v [])
  exact ⟨h.1, h.2.2⟩

theorem writeVarint_of_lt {v : UInt64} (h : ¬ 0x80 ≤ v) : writeVarint v = [v.toUInt8] := by
  rw [writeVarint, if_neg h]

theorem reads_varint (v : UInt64) (input : List UInt8) :
    Reads input (readAt readVarint input) (writeVarint v) v :=
  reads_readAt (fun _ rest => readVarint_writeVarint v rest) input

-- ==== CIDs

namespace Cid

def Supported (c : Cid) : Prop := c.codec = codecDagCbor ∨ c.codec = codecRaw

instance (c : Cid) : Decidable c.Supported :=
  inferInstanceAs (Decidable (_ ∨ _))

theorem length_toBytes_le (c : Cid) : c.toBytes.length ≤ 72 := by
  unfold toBytes
  simp only [List.length_append, List.Vector.toList_length]
  have h₁ := (length_writeVarint cidV1).2
  have h₂ := (length_writeVarint c.codec).2
  have h₃ := (length_writeVarint mhSha256).2
  have h₄ := (length_writeVarint 32).2
  omega

theorem toBytes_of_lt {c : Cid} (h : ¬ 0x80 ≤ c.codec) :
    c.toBytes = 0x01 :: c.codec.toUInt8 :: 0x12 :: 0x20 :: c.digest.toList := by
  unfold toBytes
  rw [writeVarint_of_lt h, writeVarint_of_lt (by decide),
    writeVarint_of_lt (by decide), writeVarint_of_lt (by decide)]
  rfl

theorem readFrom_of_at {c : Cid} (hc : c.Supported) {input rest : List UInt8}
    (hstart : At input 0 (c.toBytes ++ rest)) :
    readFrom input = .ok (c, c.toBytes.length) := by
  have hat := hstart
  unfold toBytes at hat
  simp only [List.append_assoc] at hat
  obtain ⟨c₁, h₁, hat₁⟩ := reads_varint cidV1 input 0 _ hat
  obtain ⟨c₂, h₂, hat₂⟩ := reads_varint c.codec input c₁ _ hat₁
  obtain ⟨c₃, h₃, hat₃⟩ := reads_varint mhSha256 input c₂ _ hat₂
  obtain ⟨c₄, h₄, hat₄⟩ := reads_varint 32 input c₃ _ hat₃
  obtain ⟨c₅, h₅, hat₅⟩ := reads_readFixed
    (AtprotoError.invalidCid "truncated CID digest") c.digest input c₄ rest
    hat₄
  have hsupported : ¬ (c.codec ≠ codecDagCbor ∧ c.codec ≠ codecRaw) :=
    fun h => hc.elim h.1 h.2
  have hend : c₅ = c.toBytes.length := by
    have hlen := hat₅.length_eq
    rw [hstart.length_eq, List.length_append] at hlen
    omega
  unfold readFrom
  simp only [h₁, ok_bind, refuse, if_neg (not_not.2 rfl), h₂, if_neg hsupported, h₃, h₄]
  rw [h₅, hend]
  rfl

/-- Reading a CID stays within the bytes, and answers a supported one. -/
theorem confined_readFrom (src : List UInt8) :
    Confined (fun r => r.1.Supported ∧ r.2 ≤ src.length) (readFrom src) := by
  have hvarint : ∀ cursor, cursor ≤ src.length → cursor + 10 < 2 ^ 64 →
      Confined (fun r => r.2 ≤ src.length ∧ r.2 ≤ cursor + 10)
        (readAt readVarint src cursor) := by
    intro cursor hcursor hfits
    have hread := confined_readVarint (src.drop cursor)
    rw [List.length_drop] at hread
    refine (confined_readAt_of (P := fun _ => True) hcursor
      (hread.mono fun r hr => ⟨trivial, by omega, by omega⟩)).mono ?_
    intro r ⟨_, hle, used, hused, heq⟩
    have := (hread.2 _ hused).2.2
    exact ⟨hle, by omega⟩
  unfold readFrom
  refine (hvarint 0 (Nat.zero_le _) (by decide)).bind fun version h₁ => ?_
  refine Confined.refuse_bind fun _ => ?_
  refine (hvarint _ h₁.1 (by omega)).bind fun codec h₂ => ?_
  refine Confined.refuse_bind fun hcodec => ?_
  refine (hvarint _ h₂.1 (by omega)).bind fun mhCode h₃ => ?_
  refine Confined.refuse_bind fun _ => ?_
  refine (hvarint _ h₃.1 (by omega)).bind fun mhLen h₄ => ?_
  refine Confined.refuse_bind fun _ => ?_
  refine (confined_readFixed (by omega) _).bind fun digest h₅ => ?_
  refine Confined.ok ⟨?_, h₅.2⟩
  by_contra hno
  exact hcodec ⟨fun h => hno (Or.inl h), fun h => hno (Or.inr h)⟩

end Cid

-- ==== blocks

/-- Within the sizes of memory, a section is read as its block and leaves
what is behind it. -/
theorem readBlock_sectionBytes {b : CarBlock} (hb : b.cid.Supported)
    (hfits : b.sectionBytes.length < 2 ^ 63) (rest : List UInt8) :
    readBlock (b.sectionBytes ++ rest) = .ok (b, rest) := by
  have hlen : (b.cid.toBytes ++ b.data).length < 2 ^ 63 := by
    unfold CarBlock.sectionBytes at hfits
    rw [List.length_append] at hfits
    omega
  have hword : (UInt64.ofNat (b.cid.toBytes.length + b.data.length)).toNat
      = (b.cid.toBytes ++ b.data).length := by
    rw [UInt64.toNat_ofNat', List.length_append, Nat.mod_eq_of_lt]
    rw [List.length_append] at hlen
    omega
  have hcid : Cid.readFrom (b.cid.toBytes ++ b.data) = .ok (b.cid, b.cid.toBytes.length) :=
    Cid.readFrom_of_at hb (At.start (by omega))
  unfold readBlock CarBlock.sectionBytes
  dsimp only
  rw [List.append_assoc, readVarint_writeVarint, ok_bind]
  dsimp only
  unfold sliceFrom slice
  rw [if_pos (by simp only [List.length_append]; omega), ok_bind,
    List.drop_left, hword, refuse,
    if_neg (by simp only [List.length_append]; omega), ok_bind,
    if_pos ⟨Nat.zero_le _, by simp only [List.length_append]; omega⟩,
    ok_bind, Nat.sub_zero, List.drop_zero, List.take_left, hcid, ok_bind]
  dsimp only
  rw [if_pos (by simp only [List.length_append]; omega), ok_bind,
    List.drop_left, if_pos (by simp only [List.length_append]; omega),
    ok_bind, List.drop_left]
  rfl

theorem sectionBytes_ne_nil (b : CarBlock) : ∃ first rest, b.sectionBytes = first :: rest := by
  have hpos := (length_writeVarint (UInt64.ofNat (b.cid.toBytes.length + b.data.length))).1
  unfold CarBlock.sectionBytes
  dsimp only
  cases hv : writeVarint (UInt64.ofNat (b.cid.toBytes.length + b.data.length)) with
  | nil =>
    rw [hv] at hpos
    cases hpos
  | cons first rest => exact ⟨first, _, rfl⟩

theorem readBlocks_flatMap {bs : List CarBlock} {turns : Nat} (hb : ∀ b ∈ bs, b.cid.Supported)
    (hfits : (bs.flatMap CarBlock.sectionBytes).length < 2 ^ 63)
    (hturns : (bs.flatMap CarBlock.sectionBytes).length ≤ turns) :
    readBlocks turns (bs.flatMap CarBlock.sectionBytes) = .ok bs := by
  induction bs generalizing turns with
  | nil =>
    cases turns with
    | zero => rfl
    | succ turns => rfl
  | cons b bs ih =>
    obtain ⟨first, tail, hsection⟩ := sectionBytes_ne_nil b
    rw [List.flatMap_cons, List.length_append] at hfits hturns
    have hpos : 0 < b.sectionBytes.length := by
      rw [hsection]
      exact Nat.succ_pos _
    have hblock := readBlock_sectionBytes (hb b List.mem_cons_self)
      (by omega) (bs.flatMap CarBlock.sectionBytes)
    rw [List.flatMap_cons]
    cases turns with
    | zero => omega
    | succ turns =>
      have hrest : readBlocks turns (bs.flatMap CarBlock.sectionBytes) = .ok bs :=
        ih (fun b' hb' => hb b' (List.mem_cons_of_mem _ hb')) (by omega) (by omega)
      rw [hsection, List.cons_append] at hblock ⊢
      rw [readBlocks, hblock, ok_bind]
      dsimp only
      rw [hrest]
      rfl

/-- Reading a section stays within the bytes, takes one of them at least,
and answers a supported CID. -/
theorem confined_readBlock (src : List UInt8) :
    Confined (fun r => r.1.cid.Supported ∧ r.2.length < src.length) (readBlock src) := by
  unfold readBlock
  refine (confined_readVarint src).bind fun len hlen => ?_
  refine (confined_sliceFrom hlen.2.1).bind fun tail htail => ?_
  have htailLen : tail.length = src.length - len.2 := by
    rw [htail, List.length_drop]
  refine Confined.refuse_bind fun hle => ?_
  refine (confined_slice (Nat.zero_le _) (by omega)).bind
    fun chunk hchunk => ?_
  refine (Cid.confined_readFrom chunk).bind fun cid hcid => ?_
  refine (confined_sliceFrom hcid.2).bind fun data _ => ?_
  refine (confined_sliceFrom (by omega)).bind fun rest hrest => ?_
  refine Confined.ok ⟨hcid.1, ?_⟩
  rw [hrest, List.length_drop]
  omega

/-- As many turns as there are bytes are enough. -/
theorem confined_readBlocks {turns : Nat} {src : List UInt8} (h : src.length ≤ turns) :
    Confined (fun bs => ∀ b ∈ bs, b.cid.Supported) (readBlocks turns src) := by
  induction turns generalizing src with
  | zero =>
    obtain rfl := List.length_eq_zero_iff.1 (Nat.le_zero.1 h)
    exact Confined.ok (List.forall_mem_nil _)
  | succ turns ih =>
    cases src with
    | nil => exact Confined.ok (List.forall_mem_nil _)
    | cons b src =>
      rw [readBlocks]
      refine (confined_readBlock (b :: src)).bind fun r hr => ?_
      refine (ih (by omega)).bind fun bs hbs => ?_
      exact Confined.ok (List.forall_mem_cons.2 ⟨hr.1, hbs⟩)

-- ==== archives

namespace CarFile

/-- Every CID of the archive is of a codec that it may hold. -/
def Supported (c : CarFile) : Prop :=
  (∀ r ∈ c.roots, r.Supported) ∧ ∀ b ∈ c.blocks, b.cid.Supported

instance (c : CarFile) : Decidable c.Supported :=
  inferInstanceAs (Decidable (_ ∧ _))

section

variable {toVec : CarHeader → Except String (List UInt8)}
  {fromSlice : List UInt8 → Except String CarHeader}

theorem encode_eq_ok {c : CarFile} {bytes : List UInt8} (h : c.encode toVec = .ok bytes) :
    ∃ headerBytes, toVec c.header = .ok headerBytes
      ∧ bytes = writeVarint (UInt64.ofNat headerBytes.length)
        ++ (headerBytes ++ c.blocks.flatMap CarBlock.sectionBytes)
      ∧ bytes.length < 2 ^ 63 := by
  unfold encode at h
  obtain ⟨-, h⟩ := refuse_bind_eq_ok.1 h
  obtain ⟨headerBytes, hheader, h⟩ := bind_eq_ok.1 h
  obtain ⟨hfits, h⟩ := refuse_bind_eq_ok.1 h
  obtain rfl := Except.ok.inj h
  exact ⟨headerBytes, mapError_eq_ok.1 hheader, rfl, Nat.not_le.1 hfits⟩

theorem mapM_roots {roots : List Cid} (h : ∀ r ∈ roots, r.Supported) :
    ((roots.map Cid.toBytes).mapM fun r => do
        let (cid, _) ← Cid.readFrom r
        return cid : Coded (List Cid)) = .ok roots := by
  induction roots with
  | nil => rfl
  | cons r roots ih =>
    have hlen := r.length_toBytes_le
    have hread : Cid.readFrom r.toBytes = .ok (r, r.toBytes.length) := by
      have hat : At r.toBytes 0 (r.toBytes ++ []) := by
        rw [List.append_nil]
        exact At.start (by omega)
      exact Cid.readFrom_of_at (h r List.mem_cons_self) hat
    rw [List.map_cons, List.mapM_cons, hread, ok_bind]
    dsimp only
    rw [ih fun r' hr' => h r' (List.mem_cons_of_mem _ hr')]
    rfl

theorem decode_encode (hcbor : ∀ header bytes, toVec header = .ok bytes →
      fromSlice bytes = .ok header) {c : CarFile} (hc : c.Supported) {bytes : List UInt8}
    (h : c.encode toVec = .ok bytes) :
    decode fromSlice bytes = .ok c := by
  obtain ⟨headerBytes, hheader, rfl, hfits⟩ := encode_eq_ok h
  simp only [List.length_append] at hfits
  have hword : (UInt64.ofNat headerBytes.length).toNat = headerBytes.length := by
    rw [UInt64.toNat_ofNat', Nat.mod_eq_of_lt (by omega)]
  have hversion : ¬ c.header.version ≠ 1 := not_not.2 rfl
  unfold decode
  rw [readVarint_writeVarint, ok_bind]
  dsimp only
  unfold sliceFrom slice
  rw [if_pos (by simp only [List.length_append]; omega), ok_bind,
    List.drop_left, hword, refuse,
    if_neg (by simp only [List.length_append]; omega), ok_bind,
    if_pos ⟨Nat.zero_le _, by simp only [List.length_append]; omega⟩,
    ok_bind, Nat.sub_zero, List.drop_zero, List.take_left,
    hcbor _ _ hheader]
  simp only [Except.mapError, ok_bind, refuse, if_neg hversion]
  rw [if_pos (by simp only [List.length_append]; omega), ok_bind, List.drop_left]
  unfold header
  rw [mapM_roots hc.1, ok_bind, readBlocks_flatMap hc.2 (by omega) le_rfl]
  rfl

/-- Decoding stays within the bytes, and answers supported CIDs. -/
theorem confined_decode (src : List UInt8) : Confined Supported (decode fromSlice src) := by
  unfold decode
  refine (confined_readVarint src).bind fun len hlen => ?_
  refine (confined_sliceFrom hlen.2.1).bind fun tail _ => ?_
  refine Confined.refuse_bind fun hle => ?_
  refine (confined_slice (Nat.zero_le _) (by omega)).bind fun bytes _ => ?_
  refine (confined_mapError _ _).bind fun header _ => ?_
  refine Confined.refuse_bind fun _ => ?_
  refine (confined_sliceFrom (by omega)).bind fun rest _ => ?_
  refine (confined_mapM fun r _ => (Cid.confined_readFrom r).bind
    fun cid hcid => Confined.ok hcid.1).bind fun roots hroots => ?_
  refine (confined_readBlocks le_rfl).bind fun blocks hblocks => ?_
  exact Confined.ok ⟨hroots, hblocks⟩

/-- **Archives round-trip.** Where CBOR reads back the headers it writes,
an archive whose CIDs are of the supported codecs decodes to itself from
its encoding, and no other archive is ever decoded. The varint reader
undoes the writer for every word. On any bytes neither reader slices out
of range, and a varint is at least one of the bytes and at most ten. -/
theorem car_round_trip (hcbor : ∀ header bytes, toVec header = .ok bytes →
      fromSlice bytes = .ok header) :
    (∀ (c : CarFile) bytes, c.encode toVec = .ok bytes →
      (decode fromSlice bytes = .ok c ↔ c.Supported))
    ∧ (∀ v rest, readVarint (writeVarint v ++ rest) = .ok (v, (writeVarint v).length))
    ∧ ∀ src, readVarint src ≠ .error .panic
      ∧ (∀ v n, readVarint src = .ok (v, n) → 0 < n ∧ n ≤ src.length ∧ n ≤ 10)
      ∧ decode fromSlice src ≠ .error .panic := by
  refine ⟨?_, readVarint_writeVarint, fun src => ?_⟩
  · intro c bytes hencode
    exact ⟨(confined_decode bytes).2 c, fun hc =>
      decode_encode hcbor hc hencode⟩
  · exact ⟨(confined_readVarint src).1,
      fun v n => (confined_readVarint src).2 (v, n), (confined_decode src).1⟩

end

def oneBlock (codec : UInt64) : CarFile where
  roots := [⟨codecDagCbor, List.Vector.replicate 32 0⟩]
  blocks := [⟨⟨codec, List.Vector.replicate 32 0⟩, [0xff]⟩]

def oneBlockHeader : List UInt8 :=
  [0xa2, 0x67, 0x76, 0x65, 0x72, 0x73, 0x69, 0x6f, 0x6e, 0x01,
    0x65, 0x72, 0x6f, 0x6f, 0x74, 0x73, 0x81, 0x58, 0x24,
    0x01, 0x71, 0x12, 0x20] ++ List.replicate 32 0

def oneBlockBytes (codec : UInt64) : List UInt8 :=
  55 :: oneBlockHeader ++ 37 :: 0x01 :: codec.toUInt8 :: 0x12 :: 0x20
    :: List.replicate 32 0 ++ [0xff]

def headerToVec (header : CarHeader) : Except String (List UInt8) :=
  if header = (oneBlock codecRaw).header then .ok oneBlockHeader
  else .error "unsupported"

def headerFromSlice (bytes : List UInt8) : Except String CarHeader :=
  if bytes = oneBlockHeader then .ok (oneBlock codecRaw).header
  else .error "unsupported"

theorem headerFromSlice_headerToVec (header : CarHeader)
    (bytes : List UInt8) (h : headerToVec header = .ok bytes) :
    headerFromSlice bytes = .ok header := by
  unfold headerToVec at h
  split at h
  case isTrue heq =>
    obtain rfl := Except.ok.inj h
    rw [heq, headerFromSlice, if_pos rfl]
  case isFalse => cases h

theorem encode_oneBlock {codec : UInt64} (h : ¬ 0x80 ≤ codec) :
    (oneBlock codec).encode headerToVec = .ok (oneBlockBytes codec) := by
  have hsection : (oneBlock codec).blocks.flatMap CarBlock.sectionBytes
      = 37 :: 0x01 :: codec.toUInt8 :: 0x12 :: 0x20 :: List.replicate 32 0 ++ [0xff] := by
    have hsize : writeVarint 37 = [37] := writeVarint_of_lt (by decide)
    unfold oneBlock CarBlock.sectionBytes
    simp only [List.flatMap_cons, List.flatMap_nil, List.append_nil]
    rw [Cid.toBytes_of_lt h]
    exact congrArg (· ++ _) hsize
  have hheader : headerToVec (oneBlock codec).header = .ok oneBlockHeader :=
    if_pos rfl
  have hsize : writeVarint (UInt64.ofNat oneBlockHeader.length) = [55] :=
    writeVarint_of_lt (by decide)
  have hblocks : (oneBlock codec).blocks.length = 1 := rfl
  unfold encode
  rw [hheader, hsection]
  simp only [Except.mapError, refuse, hblocks, ok_bind, hsize]
  rw [if_neg (by omega), ok_bind, if_neg (by simp [oneBlockHeader])]
  rfl

/-- A raw block comes back. -/
theorem raw_block_decoded :
    decode headerFromSlice (oneBlockBytes codecRaw) = .ok (oneBlock codecRaw) :=
  ((car_round_trip headerFromSlice_headerToVec).1 _ _
    (encode_oneBlock (by decide))).2 (by decide)

/-- A block of another codec is written and refused. -/
theorem foreign_block_refused :
    (oneBlock 0x70).encode headerToVec = .ok (oneBlockBytes 0x70)
      ∧ decode headerFromSlice (oneBlockBytes 0x70)
        = .error (.err (.invalidCid "unsupported codec 0x70")) :=
  ⟨encode_oneBlock (by decide), by decide +kernel⟩

end CarFile

end OpenStandards.Atproto
