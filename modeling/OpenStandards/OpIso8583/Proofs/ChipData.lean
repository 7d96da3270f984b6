/-
The chip data of data element 55, written and read.

What is written is a bundle with the given TLVs as its chunks
(`encodeDe55_bundle`), and a bundle is read as its chunks as long as no
length field leads beyond the last offset (`de55Loop_of_bundle`). The
walker adds the length to the offset before it looks whether so many bytes
are there: it panics exactly where, behind a run of TLVs, a length field
leads beyond the last offset (`parseDe55_panics_iff`).
-/
import OpenStandards.OpEmv.Proofs.Agreement

namespace OpenStandards.OpIso8583

open Lib
open OpEmv (LengthField Continues Chunk Bundle)

-- ==== fields

variable {first : UInt8} {more l : Bytes} {n : Nat} {cs : List Chunk}

/-- A tag that stands here is read. -/
theorem emvTag_of_continues (hne : first ≠ 0) (h : Continues first more)
    (offset : Nat) (rest : Bytes) :
    ∃ tag, emvTag first offset (more ++ rest) = .ok (tag, offset + more.length, rest)
      ∧ tag.bytes = first :: more := by
  unfold Continues at h
  unfold emvTag
  split at h
  · next hmulti =>
      obtain ⟨second, rfl, hlast⟩ := h
      rw [if_pos hmulti]
      refine ⟨_, ?_, OpEmv.emvTag_bytes_two hne⟩
      show (if second &&& 0x80 ≠ 0 then _ else _) = _
      rw [if_neg (not_not.2 hlast)]
      rfl
  · next hsingle =>
      subst h
      rw [if_neg hsingle]
      exact ⟨_, rfl, OpEmv.emvTag_bytes_one first⟩

theorem emvLength_of_field (h : LengthField l n) (offset : Nat) (rest : Bytes) :
    emvLength offset (l ++ rest) = .ok (n, offset + l.length, rest) := by
  obtain ⟨b, bs, rfl, hform⟩ := h
  rw [List.cons_append, emvLength]
  dsimp only
  split at hform
  · next hshort =>
      obtain ⟨rfl, rfl⟩ := hform
      rw [if_pos hshort]
      rfl
  · next hlong =>
      obtain ⟨hne, hlen, rfl⟩ := hform
      have hpos := List.length_pos_of_ne_nil hne
      rw [if_neg hlong]
      refine refuse_bind_eq_ok.2 ⟨by omega, refuse_bind_eq_ok.2 ⟨?_, ?_⟩⟩
      · rw [List.length_append]
        omega
      · rw [← hlen, List.take_left, List.drop_left, List.length_cons,
          Nat.add_assoc, Nat.add_comm 1]

theorem confined_emvTag (first : UInt8) (offset : Nat) (rest : Bytes) :
    Confined (fun _ => True) (emvTag first offset rest) := by
  unfold emvTag
  refine .ite ?_ (.ok trivial)
  cases rest with
  | nil => exact .err _
  | cons second rest => exact .ite (.err _) (.ok trivial)

theorem confined_emvLength (offset : Nat) (rest : Bytes) :
    Confined (fun _ => True) (emvLength offset rest) := by
  cases rest with
  | nil => exact .err _
  | cons b rest =>
    exact .ite (.ok trivial) (.refuse_bind fun _ => .refuse_bind fun _ =>
      .ok trivial)

theorem de55Loop_header (hne : first ≠ 0) (hmore : Continues first more)
    (hfield : LengthField l n) (rounds offset : Nat) (rest : Bytes) :
    ∃ tag : EmvTag, tag.bytes = first :: more ∧
      de55Loop (rounds + 1) offset (first :: (more ++ (l ++ rest))) = (do
        let stop ← addUsize (offset + 1 + more.length + l.length) n
        refuse (rest.length < n) (invalidTlv
          (offset + 1 + more.length + l.length) "value bytes truncated")
        let tlvs ← de55Loop rounds stop (rest.drop n)
        .ok ({ tag, value := rest.take n } :: tlvs)) := by
  obtain ⟨tag, htag, hbytes⟩ := emvTag_of_continues hne hmore (offset + 1) (l ++ rest)
  refine ⟨tag, hbytes, ?_⟩
  rw [de55Loop, if_neg hne, htag, ok_bind]
  dsimp only
  rw [emvLength_of_field hfield, ok_bind]

-- ==== panics

/-- Behind a run of TLVs a tag and a length field that leads beyond the
last offset. -/
def LeadsBeyond (offset : Nat) (input : Bytes) : Prop :=
  ∃ before cs first more l n after,
    input = before ++ first :: (more ++ (l ++ after)) ∧ Bundle before cs
      ∧ first ≠ 0 ∧ Continues first more ∧ LengthField l n
      ∧ 2 ^ 64 ≤ offset + before.length + 1 + more.length + l.length + n

theorem LeadsBeyond.pad {offset : Nat} {rest : Bytes}
    (h : LeadsBeyond (offset + 1) rest) : LeadsBeyond offset (0 :: rest) := by
  obtain ⟨before, cs, first, more, l, n, after, rfl, hbefore, hne, hmore, hfield, hbeyond⟩ := h
  refine ⟨0 :: before, cs, first, more, l, n, after, rfl, .pad hbefore, hne, hmore, hfield, ?_⟩
  rw [List.length_cons]
  omega

theorem LeadsBeyond.chunk {offset : Nat} {rest : Bytes} (c : Chunk)
    (h : LeadsBeyond (offset + c.wire.length) rest) :
    LeadsBeyond offset (c.wire ++ rest) := by
  obtain ⟨before, cs, first, more, l, n, after, rfl, hbefore, hne, hmore, hfield, hbeyond⟩ := h
  refine ⟨c.wire ++ before, c :: cs, first, more, l, n, after, by simp,
    .chunk c hbefore, hne, hmore, hfield, ?_⟩
  rw [List.length_append]
  omega

theorem length_wire (c : Chunk) :
    c.wire.length = 1 + c.more.length + c.len.length + c.value.length := by
  simp only [Chunk.wire, List.length_cons, List.length_append]
  omega

/-- A run that panics met such a length field. -/
theorem beyond_of_panic {rounds : Nat} : ∀ {offset : Nat} {rest : Bytes},
    de55Loop rounds offset rest = .error .panic →
    LeadsBeyond offset rest := by
  induction rounds with
  | zero =>
    intro offset rest h
    cases rest with
    | nil => cases h
    | cons first rest => cases h
  | succ rounds ih =>
    intro offset rest h
    cases rest with
    | nil => cases h
    | cons first rest =>
      by_cases hpad : first = 0
      · subst hpad
        rw [de55Loop, if_pos rfl] at h
        exact (ih h).pad
      · have hread := h
        rw [de55Loop, if_neg hpad] at hread
        obtain hbad | ⟨⟨tag, off₁, rest₁⟩, htag, hread⟩ :=
          bind_eq_error.1 hread
        · exact absurd hbad (confined_emvTag ..).1
        obtain hbad | ⟨⟨n, off₂, rest₂⟩, hlen, -⟩ :=
          bind_eq_error.1 hread
        · exact absurd hbad (confined_emvLength ..).1
        obtain ⟨more, rfl, hmore, -⟩ := OpEmv.emvTag_ok hpad htag
        obtain ⟨l, rfl, hfield⟩ := OpEmv.emvLength_ok hlen
        obtain ⟨tag, -, heq⟩ := de55Loop_header hpad hmore hfield rounds offset rest₂
        rw [heq] at h
        obtain hsum | ⟨stop, hsum, h⟩ := bind_eq_error.1 h
        · -- the sum itself
          refine ⟨[], [], first, more, l, n, rest₂, rfl, .nil, hpad, hmore, hfield, ?_⟩
          unfold addUsize at hsum
          split at hsum
          · cases hsum
          · rw [List.length_nil]
            omega
        · -- a later round, behind the value
          obtain ⟨-, hstop⟩ := ite_eq_ok.1 hsum
          obtain hbad | ⟨_, henough, h⟩ := bind_eq_error.1 h
          · cases (refuse_eq_error.1 hbad).2
          have henough := refuse_eq_ok.1 henough
          obtain h | ⟨tlvs, -, h⟩ := bind_eq_error.1 h
          · have hvalue : (rest₂.take n).length = n := by
              rw [List.length_take]
              omega
            let c : Chunk := ⟨first, more, l, rest₂.take n, hpad, hmore,
              hvalue.symm ▸ hfield⟩
            have hbeyond := ih h
            have hstop : stop = offset + c.wire.length := by
              rw [length_wire, hstop]
              show _ = offset + (1 + more.length + l.length + (rest₂.take n).length)
              omega
            rw [hstop] at hbeyond
            have hwire := hbeyond.chunk c
            simpa [c, Chunk.wire] using hwire
          · cases h

theorem panic_of_beyond {before : Bytes} (hbefore : Bundle before cs)
    {after : Bytes} (hne : first ≠ 0) (hmore : Continues first more) (hfield : LengthField l n) :
    ∀ {rounds offset : Nat},
      (before ++ first :: (more ++ (l ++ after))).length ≤ rounds →
      2 ^ 64 ≤ offset + before.length + 1 + more.length + l.length + n →
      de55Loop rounds offset (before ++ first :: (more ++ (l ++ after))) = .error .panic := by
  induction hbefore with
  | nil =>
    intro rounds offset hrounds hbeyond
    cases rounds with
    | zero => simp at hrounds
    | succ rounds =>
      obtain ⟨tag, -, heq⟩ := de55Loop_header hne hmore hfield rounds offset after
      rw [List.nil_append, heq, addUsize, if_neg (by rw [List.length_nil] at hbeyond; omega)]
      rfl
  | @pad rest cs h ih =>
    intro rounds offset hrounds hbeyond
    cases rounds with
    | zero => simp at hrounds
    | succ rounds =>
      simp only [List.cons_append, List.length_cons] at hrounds hbeyond ⊢
      rw [de55Loop, if_pos rfl]
      exact ih (by omega) (by omega)
  | @chunk rest cs c h ih =>
    intro rounds offset hrounds hbeyond
    cases rounds with
    | zero => simp [Chunk.wire] at hrounds
    | succ rounds =>
      have hwire := length_wire c
      simp only [List.append_assoc, List.length_append] at hrounds hbeyond ⊢
      obtain ⟨tag, -, heq⟩ := de55Loop_header c.first_ne_zero c.continues
        c.length rounds offset
        (c.value ++ (rest ++ first :: (more ++ (l ++ after))))
      have hsplit : c.wire ++ (rest ++ first :: (more ++ (l ++ after)))
          = c.first :: (c.more ++ (c.len ++ (c.value
            ++ (rest ++ first :: (more ++ (l ++ after)))))) := by
        simp [Chunk.wire]
      rw [hsplit, heq]
      unfold addUsize
      split
      · rw [ok_bind]
        refine bind_eq_error.2 (.inr ⟨(), refuse_eq_ok.2 ?_, ?_⟩)
        · rw [List.length_append]
          omega
        · rw [List.drop_left]
          refine bind_eq_error.2 (.inl (ih ?_ ?_))
          · simp only [List.length_append]
            omega
          · omega
      · rfl

theorem parseDe55_panics_iff (input : Bytes) :
    parseDe55 input = .error .panic ↔ LeadsBeyond 0 input := by
  constructor
  · exact beyond_of_panic
  · rintro ⟨before, cs, first, more, l, n, after, rfl, hbefore, hne, hmore, hfield, hbeyond⟩
    exact panic_of_beyond hbefore hne hmore hfield (Nat.le_refl _) hbeyond

-- ==== answers

theorem de55Loop_rounds {k : Nat} : ∀ {rounds offset : Nat} {rest : Bytes},
    rest.length ≤ k → k ≤ rounds →
    de55Loop rounds offset rest = de55Loop k offset rest := by
  induction k with
  | zero =>
    intro rounds offset rest hk _
    obtain rfl := List.length_eq_zero_iff.1 (Nat.le_zero.1 hk)
    cases rounds with
    | zero => rfl
    | succ rounds => rfl
  | succ k ih =>
    intro rounds offset rest hk hrounds
    cases rounds with
    | zero => omega
    | succ rounds =>
      cases rest with
      | nil => rfl
      | cons first rest =>
        rw [List.length_cons] at hk
        rw [de55Loop, de55Loop]
        by_cases hpad : first = 0
        · rw [if_pos hpad, if_pos hpad]
          exact ih (by omega) (by omega)
        · rw [if_neg hpad, if_neg hpad]
          refine bind_congr_ok fun ⟨tag, off₁, rest₁⟩ htag => ?_
          obtain ⟨more, rfl, -⟩ := OpEmv.emvTag_ok hpad htag
          refine bind_congr_ok fun ⟨n, off₂, rest₂⟩ hlen => ?_
          obtain ⟨l, rfl, -⟩ := OpEmv.emvLength_ok hlen
          refine bind_congr_ok fun stop _ => ?_
          refine bind_congr_ok fun _ _ => ?_
          have hloop : de55Loop rounds stop (rest₂.drop n)
              = de55Loop k stop (rest₂.drop n) := by
            refine ih ?_ (by omega)
            simp only [List.length_append] at hk
            rw [List.length_drop]
            omega
          rw [hloop]

theorem value_infix {input : Bytes} (h : Bundle input cs) : ∀ c ∈ cs, c.value <:+: input := by
  induction h with
  | nil => simp
  | pad h ih =>
    intro c hc
    exact (ih c hc).trans (List.suffix_cons 0 _).isInfix
  | @chunk rest cs c h ih =>
    refine List.forall_mem_cons.2 ⟨?_, fun d hd => ?_⟩
    · exact ⟨c.first :: (c.more ++ c.len), rest, by simp [Chunk.wire]⟩
    · exact (ih d hd).trans (List.suffix_append _ _).isInfix

/-- A parse ends in an answer after at most as many rounds as there are
bytes, and its values are slices of the input. -/
structure ParsedSafely (input : Bytes) : Prop where
  answers : parseDe55 input ≠ .error .panic
  settles : ∀ rounds, input.length ≤ rounds → de55Loop rounds 0 input = parseDe55 input
  slices : ∀ tlvs, parseDe55 input = .ok tlvs → ∀ t ∈ tlvs, t.value <:+: input

theorem parsedSafely_iff (input : Bytes) : ParsedSafely input ↔ ¬ LeadsBeyond 0 input := by
  rw [← parseDe55_panics_iff]
  constructor
  · exact ParsedSafely.answers
  · intro h
    refine ⟨h, fun rounds hrounds => de55Loop_rounds (Nat.le_refl _) hrounds,
      fun tlvs hparse t ht => ?_⟩
    obtain ⟨cs, hcs, hmap⟩ := OpEmv.parseDe55_bundle hparse
    have hmem : (t.tag.bytes, t.value) ∈ cs.map Chunk.content :=
      hmap ▸ List.mem_map_of_mem ht
    obtain ⟨c, hc, hcontent⟩ := List.mem_map.1 hmem
    have hvalue : c.value = t.value := congrArg Prod.snd hcontent
    exact hvalue ▸ value_infix hcs c hc

-- ==== round trip

/-- A tag of one byte, not 0, that asks for no second, or of two, the
second of which asks for no third. -/
def EmvTag.WellFormed (tag : EmvTag) : Prop :=
  ∃ first more, tag.bytes = first :: more ∧ first ≠ 0 ∧ Continues first more

theorem ofBeBytes_tag (tag : EmvTag) : ofBeBytes tag.bytes = tag.val.toNat := by
  have hlt := tag.val.toNat_lt
  have hlow : tag.val.toUInt8.toNat = tag.val.toNat % 256 :=
    UInt16.toNat_toUInt8 _
  have hhigh : (tag.val >>> 8).toUInt8.toNat = tag.val.toNat / 256 := by
    rw [UInt16.toNat_toUInt8, UInt16.toNat_shiftRight]
    show tag.val.toNat >>> 8 % 256 = _
    rw [Nat.shiftRight_eq_div_pow]
    omega
  unfold EmvTag.bytes
  split
  · simp only [ofBeBytes, List.reverse_cons, List.reverse_nil, List.nil_append,
      List.cons_append, ofLeBytes, hlow, hhigh]
    omega
  · next hsmall =>
      have hsmall : ¬ 255 < tag.val.toNat := hsmall
      simp only [ofBeBytes, List.reverse_cons, List.reverse_nil,
        List.nil_append, ofLeBytes, hlow]
      omega

theorem tlv_inj {t t' : EmvTlv}
    (h : (t.tag.bytes, t.value) = (t'.tag.bytes, t'.value)) : t = t' := by
  obtain ⟨hbytes, hvalue⟩ := Prod.mk.inj h
  have hval : t.tag.val = t'.tag.val := by
    apply UInt16.toNat_inj.1
    rw [← ofBeBytes_tag, ← ofBeBytes_tag, hbytes]
  obtain ⟨⟨v⟩, value⟩ := t
  obtain ⟨⟨v'⟩, value'⟩ := t'
  simp only at hval hvalue
  rw [hval, hvalue]

theorem encodeEmvLength_field (offset : Nat) (h : n < 65536) :
    ∃ l, encodeEmvLength offset n = .ok l ∧ LengthField l n := by
  have hclear : ∀ m < 128, UInt8.ofNat m &&& 0x80 = 0 := by decide +kernel
  unfold encodeEmvLength
  by_cases hsmall : n < 0x80
  · rw [if_pos hsmall]
    refine ⟨_, rfl, UInt8.ofNat n, [], rfl, ?_⟩
    rw [if_pos (hclear n hsmall), UInt8.toNat_ofNat', Nat.mod_eq_of_lt (by omega)]
    exact ⟨rfl, rfl⟩
  · rw [if_neg hsmall]
    by_cases hbyte : n < 0x100
    · rw [if_pos hbyte]
      refine ⟨_, rfl, 0x81, [UInt8.ofNat n], rfl, ?_⟩
      rw [if_neg (by decide)]
      refine ⟨List.cons_ne_nil _ _, rfl, ?_⟩
      rw [OpEmv.shiftIn_of_short (by simp)]
      show n = (UInt8.ofNat n).toNat + 256 * 0
      rw [UInt8.toNat_ofNat']
      omega
    · rw [if_neg hbyte, if_pos h]
      have hcount : 2 = ((0x82 : UInt8) &&& 0x7F).toNat := by decide
      refine ⟨_, rfl, 0x82, [UInt8.ofNat (n >>> 8), UInt8.ofNat n], rfl, ?_⟩
      rw [if_neg (by decide)]
      refine ⟨List.cons_ne_nil _ _, hcount, ?_⟩
      rw [OpEmv.shiftIn_of_short (by simp)]
      show n = (UInt8.ofNat n).toNat + 256 * ((UInt8.ofNat (n >>> 8)).toNat + 256 * 0)
      rw [UInt8.toNat_ofNat', UInt8.toNat_ofNat', Nat.shiftRight_eq_div_pow]
      omega

/-- What the codec is meant for: well-formed tags, and values whose length
fits two bytes. -/
def Writable (tlvs : List EmvTlv) : Prop :=
  ∀ t ∈ tlvs, t.tag.WellFormed ∧ t.value.length < 65536

theorem encodeTlvs_bundle {tlvs : List EmvTlv} (h : Writable tlvs) :
    ∀ out, ∃ bytes cs, encodeTlvs out tlvs = .ok (out ++ bytes)
      ∧ Bundle bytes cs
      ∧ cs.map Chunk.content = tlvs.map fun t => (t.tag.bytes, t.value) := by
  induction tlvs with
  | nil => exact fun out => ⟨[], [], by simp [encodeTlvs], .nil, rfl⟩
  | cons t tlvs ih =>
    intro out
    obtain ⟨⟨⟨first, more, hbytes, hne, hmore⟩, hsize⟩, htlvs⟩ :=
      List.forall_mem_cons.1 h
    obtain ⟨l, hl, hfield⟩ := encodeEmvLength_field (out ++ t.tag.bytes).length hsize
    let c : Chunk := ⟨first, more, l, t.value, hne, hmore, hfield⟩
    obtain ⟨bytes, cs, hrest, hbundle, hmap⟩ := ih htlvs (out ++ t.tag.bytes ++ l ++ t.value)
    refine ⟨c.wire ++ bytes, c :: cs, ?_, .chunk c hbundle, ?_⟩
    · rw [encodeTlvs, hl, ok_bind, hrest, hbytes]
      simp [c, Chunk.wire]
    · rw [List.map_cons, List.map_cons, hmap, hbytes]
      rfl

theorem de55Loop_of_bundle {input : Bytes} (h : Bundle input cs) :
    ∀ {rounds offset : Nat}, input.length ≤ rounds →
    offset + input.length < 2 ^ 64 →
    ∃ tlvs, de55Loop rounds offset input = .ok tlvs
      ∧ tlvs.map (fun t => (t.tag.bytes, t.value)) = cs.map Chunk.content := by
  induction h with
  | nil =>
    intro rounds offset _ _
    cases rounds with
    | zero => exact ⟨[], rfl, rfl⟩
    | succ rounds => exact ⟨[], rfl, rfl⟩
  | @pad rest cs h ih =>
    intro rounds offset hrounds hfits
    cases rounds with
    | zero => simp at hrounds
    | succ rounds =>
      rw [List.length_cons] at hrounds hfits
      rw [de55Loop, if_pos rfl]
      exact ih (by omega) (by omega)
  | @chunk rest cs c h ih =>
    intro rounds offset hrounds hfits
    cases rounds with
    | zero => simp [Chunk.wire] at hrounds
    | succ rounds =>
      have hwire := length_wire c
      rw [List.length_append] at hrounds hfits
      obtain ⟨tag, hbytes, heq⟩ := de55Loop_header c.first_ne_zero
        c.continues c.length rounds offset (c.value ++ rest)
      have hsplit : c.wire ++ rest = c.first :: (c.more ++ (c.len ++ (c.value ++ rest))) := by
        simp [Chunk.wire]
      obtain ⟨tlvs, hrest, hmap⟩ := @ih rounds (offset + c.wire.length) (by omega) (by omega)
      refine ⟨⟨tag, c.value⟩ :: tlvs, ?_, ?_⟩
      · rw [hsplit, heq, addUsize, if_pos (by omega), ok_bind]
        refine refuse_bind_eq_ok.2 ⟨?_, ?_⟩
        · rw [List.length_append]
          omega
        · rw [List.drop_left, List.take_left,
            show offset + 1 + c.more.length + c.len.length
              + c.value.length = offset + c.wire.length by omega, hrest]
          rfl
      · rw [List.map_cons, List.map_cons, hmap, hbytes]
        rfl

/-- TLVs that are written and read back; the length of the bytes is a
`usize`. -/
def ReadsBack (tlvs : List EmvTlv) : Prop :=
  Writable tlvs → ∃ bytes, encodeDe55 tlvs = .ok bytes
    ∧ (bytes.length < 2 ^ 64 → parseDe55 bytes = .ok tlvs)

theorem readsBack (tlvs : List EmvTlv) : ReadsBack tlvs := by
  intro h
  obtain ⟨bytes, cs, hwrite, hbundle, hcs⟩ := encodeTlvs_bundle h []
  refine ⟨bytes, hwrite, fun hfits => ?_⟩
  obtain ⟨tlvs', hread, htlvs'⟩ := @de55Loop_of_bundle _ _ hbundle
    bytes.length 0 (Nat.le_refl _) (by omega)
  have hsame : tlvs' = tlvs :=
    List.map_injective_iff.2 (fun t t' => tlv_inj) (htlvs'.trans hcs)
  rw [← hsame]
  exact hread

/-- **The codec of data element 55.** Every list of well-formed TLVs is
read back from what is written of it; and the walker answers safely
exactly the inputs in which no length field behind a run of TLVs leads
beyond the last offset. -/
theorem de55_codec_iff (tlvs : List EmvTlv) (input : Bytes) :
    ReadsBack tlvs ∧ (ParsedSafely input ↔ ¬ LeadsBeyond 0 input) :=
  ⟨readsBack tlvs, parsedSafely_iff input⟩

/-- A length of eight bytes: adding it to the offset overflows. -/
theorem eight_length_bytes_panic :
    ¬ ParsedSafely [0x5A, 0x88, 0xFF, 0xFF, 0xFF, 0xFF, 0xFF, 0xFF, 0xFF, 0xFF] := by
  intro h
  exact h.answers (by decide)

end OpenStandards.OpIso8583
